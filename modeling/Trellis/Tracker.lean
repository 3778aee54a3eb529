import Trellis.Table
import Trellis.Text.Search

/-!
# Tracker

Which paths are included from which locations.
-/

namespace Trellis

/-- The paths included from each location; a path occurs once for a location. -/
structure Tracker where
  dependencies : List (Option String × List String)

namespace Tracker

/-- Nothing included. -/
def empty : Tracker := ⟨[]⟩

/-- The paths included from a location. -/
def from? (t : Tracker) (location : Option String) : List String :=
  (Table.get? location t.dependencies).getD []

/-- One more include. -/
def record (t : Tracker) (location : Option String) (path : String) : Tracker :=
  ⟨Table.put location ((t.from? location).insert path) t.dependencies⟩

/-- All paths included from anywhere. -/
def paths (t : Tracker) : List String :=
  (t.dependencies.flatMap (·.2)).eraseDups

end Tracker
end Trellis
