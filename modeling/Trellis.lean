import Trellis.Samples
import Trellis.Proofs.Text.Cutting
import Trellis.Proofs.Syntax.Derivation
import Trellis.Proofs.Syntax.Matching
import Trellis.Proofs.Syntax.Separation
import Trellis.Proofs.Syntax.Tokens
import Trellis.Proofs.Syntax.Lexicon
import Trellis.Proofs.Syntax.Soundness
import Trellis.Proofs.Syntax.Regular
import Trellis.Proofs.Syntax.Compiled
import Trellis.Proofs.Syntax.Following
import Trellis.Proofs.Syntax.Completeness
import Trellis.Proofs.Syntax.Context
import Trellis.Proofs.Syntax.Identifiers
import Trellis.Proofs.Syntax.Literals
import Trellis.Proofs.Syntax.Printer
import Trellis.Proofs.Syntax.Settled
import Trellis.Proofs.Syntax.Printing
import Trellis.Proofs.Sharing.Copies
import Trellis.Proofs.Sharing.Static
import Trellis.Proofs.Sharing.Census
import Trellis.Proofs.Sharing.Sources
import Trellis.Proofs.Sharing.Simulation
import Trellis.Proofs.Sharing.Collaborators
import Trellis.Proofs.Sharing.Constructs
import Trellis.Proofs.Sharing.Groups
import Trellis.Proofs.Sharing.Sessions
import Trellis.Proofs.Groups.Chains
import Trellis.Proofs.Memos.Static
import Trellis.Proofs.Memos.Policy
import Trellis.Proofs.Memos.Twins
import Trellis.Proofs.Memos.Steps
import Trellis.Proofs.Memos.Groups
import Trellis.Proofs.Memos.Sessions
import Trellis.Proofs.Markup.Joining
import Trellis.Proofs.Groups.Concatenation
import Trellis.Proofs.Markup.Scanning
import Trellis.Proofs.Markup.Nesting
import Trellis.Proofs.Loading.Assignments
import Trellis.Proofs.Evaluation.Cache
import Trellis.Proofs.Interpretation.Renderer
import Trellis.Proofs.Interpretation.Answers
import Trellis.Proofs.Interpretation.Coupling
import Trellis.Proofs.Interpretation.Throughout
import Trellis.Proofs.Interpretation.Upkeep
import Trellis.Proofs.Sharing.Places
import Trellis.Proofs.Sharing.Tidy
import Trellis.Proofs.Memos.Shape
import Trellis.Proofs.Memos.Completions
import Trellis.Proofs.Memos.Recalls
import Trellis.Proofs.Evaluation.Variables
import Trellis.Proofs.Evaluation.Unused
import Trellis.Proofs.Registry.Keys
import Trellis.Proofs.Registry.Executed
import Trellis.Proofs.Registry.Calls
import Trellis.Proofs.Registry.Sessions
import Trellis.Proofs.Loading.Paths
import Trellis.Proofs.Loading.Confinement
import Trellis.Proofs.Loading.Relocation
import Trellis.Proofs.Loading.Composition
import Trellis.Proofs.Headers.Loops
import Trellis.Proofs.Headers.Formats
import Trellis.Proofs.Headers.Words
import Trellis.Proofs.Evaluation.Walks
import Trellis.Proofs.Groups.Unrolling
import Trellis.Proofs.Markup.Attributes
import Trellis.Proofs.Json.Breaks
import Trellis.Proofs.Markup.DataAttributes
import Trellis.Proofs.Faults.Tame
import Trellis.Proofs.Faults.Operations
import Trellis.Proofs.Faults.Calls
import Trellis.Proofs.Faults.Expressions
import Trellis.Proofs.Faults.Blame
import Trellis.Proofs.Faults.Conversions
import Trellis.Proofs.Faults.Positions
import Trellis.Proofs.Syntax.Numbers
import Trellis.Proofs.Syntax.Outcomes
import Trellis.Proofs.Syntax.Offsets
import Trellis.Proofs.Syntax.Columns
import Trellis.Proofs.Evaluation.Placeholders
import Trellis.Proofs.Markup.Embedding
import Trellis.Proofs.Evaluation.Recorded
import Trellis.Proofs.Evaluation.Connectives
import Trellis.Proofs.Evaluation.Alike
import Trellis.Proofs.Evaluation.Contents
import Trellis.Proofs.Evaluation.Equality
import Trellis.Proofs.Sharing.DictForm
import Trellis.Proofs.Sharing.Descriptions
import Trellis.Proofs.Dependencies.Records
import Trellis.Proofs.Dependencies.Journal
import Trellis.Proofs.Dependencies.Ledger
import Trellis.Proofs.Dependencies.Sessions
import Trellis.Proofs.Markup.Symbols
import Trellis.Proofs.Json.Reading
import Trellis.Proofs.Json.Spacing
import Trellis.Proofs.Json.Contents
import Trellis.Proofs.Json.Inverse
import Trellis.Proofs.Plugins.Registrations
import Trellis.Proofs.Plugins.Installed
import Trellis.Proofs.Plugins.Sessions
