import Trellis.Value.Text
import Trellis.Value.Equality

/-!
# Value — Fault

What can go wrong.  A `Cause` is a failed operation on values, a `Complaint` a mistake in a
template.  A `Fault` is one of the two, a complaint with the position it was made at, or the end of
the steps that a render may take.  The wording is in `Cause.message`, `Complaint.message` and
`Fault.message` alone.
-/

namespace Trellis

/-- The classes of causes. -/
inductive CauseKind where
  | type
  | value
  | key
  | index
  | missingAttribute
  | zeroDivision
  | overflow
  | notImplemented
  | runtime
  | memory
  | json
  deriving DecidableEq, Repr

/-- The name of a class of causes. -/
def CauseKind.name : CauseKind → String
  | .type => "TypeError"
  | .value => "ValueError"
  | .key => "KeyError"
  | .index => "IndexError"
  | .missingAttribute => "AttributeError"
  | .zeroDivision => "ZeroDivisionError"
  | .overflow => "OverflowError"
  | .notImplemented => "NotImplementedError"
  | .runtime => "RuntimeError"
  | .memory => "MemoryError"
  | .json => "JSONDecodeError"

/-- What a function that was given a wrong number of arguments takes, in the words it uses. -/
inductive Arity where
  | takesNone
  | takesOne
  | noPositional
  | expected (count : Nat)
  | expectedLeast (count : Nat)
  | expectedMost (count : Nat)
  | takesLeast (count : Nat)
  | takesMost (count : Nat)
  | positional (count : Nat)
  deriving DecidableEq, Repr

/-- A failed operation on values.  Types are given by their names, values by their shown form. -/
inductive Cause where
  /-- Words from outside. -/
  | raised (kind : CauseKind) (message : String)
  | operands (op left right : String)
  | operand (op type : String)
  | order (op left right : String)
  | concatenation (sequence type : String)
  | repetition (type : String)
  | container (type : String)
  | needle (type : String)
  | unhashable (type : String)
  | notCallable (type : String)
  | notIterable (type : String)
  | notSubscriptable (type : String)
  | typeNotSubscriptable (type : String)
  /-- The arguments of a type of containers have been given. -/
  | notGeneric (shown : String)
  | noAttribute (type name : String)
  | noTypeAttribute (type name : String)
  | subscript (sequence type : String)
  | textSubscript (type : String)
  | outOfRange (sequence : String)
  | noKey (shown : String)
  | noLength (type : String)
  | notIndex (type : String)
  | indexTooLarge
  | countTooLarge
  | sizeTooLarge
  | precisionTooLarge
  | repeatedTooLong
  | digitsTooMany
  /-- There is not enough room for a value. -/
  | noRoom
  | sliceIndex
  | sliceBound
  | emptyPop
  | popOutOfRange
  | noSuchItem (shown : String)
  | noItemToRemove
  | noSubstring
  | emptySeparator
  | divisionByZero
  | floatDivisionByZero
  | intModulo
  | floatModulo
  | quotientTooLarge
  | intTooLarge
  | infinityToInt
  | nanToInt
  | digitsWritten
  | digitsRead (count : Nat)
  | notInt (type : String)
  | notFloat (type : String)
  | intText (base : Nat) (shown : String)
  | floatText (shown : String)
  | intBase
  | baseOfNumber
  | zeroStep
  | updateElement (index : Nat)
  | updateLength (index length : Nat)
  | joinItem (index : Nat) (type : String)
  | notJoinable
  /-- The size of a dictionary was changed while its entries were gone through. -/
  | resized
  /-- The keys of a dictionary were changed while its entries were gone through. -/
  | rekeyed
  /-- A method of a type lacks the value that it is a method of. -/
  | unboundMethod (type name : String)
  /-- What tells the keys of an object gave something that has no items. -/
  | keysNotIterable (type given : String)
  /-- A method of a type was given a value of another type. -/
  | foreignMethod (type name given : String)
  | unusedArguments
  | missingArguments
  | notMapping
  | widthTooBig
  | precisionTooBig
  | realNumber (type : String)
  | numberFormat (spec : Char) (type : String)
  | integerFormat (spec : Char) (type : String)
  | characterFormat
  | characterRange
  | formatSpec (spec : Char) (index : Nat)
  | formatIncomplete
  | formatKeyIncomplete
  | starWidth
  | notText (type : String)
  | notTextOrNone (type : String)
  | stripArgument (function : String)
  | replaceArgument (index : Nat) (type : String)
  | affix (function type : String)
  | affixItem (function type : String)
  | jsonInput (type : String)
  | jsonKey (type : String)
  | jsonAt (problem : String) (line column offset : Nat)
  | circular
  | expectedText (type : String)
  | textConcatenation (type : String)
  /-- A wrong number of arguments. -/
  | arity (function : String) (arity : Arity) (given : Nat)
  | missingArgument (function parameter : String)
  | tooManyToUnpack
  | unknownParameters (names : List String)
  | notImplemented
  deriving DecidableEq, Repr

/-- `noun` in the number of `n`. -/
def counted (n : Nat) (noun : String) : String :=
  toString n ++ " " ++ noun ++ (if n = 1 then "" else "s")

/-- The wording of a wrong number of arguments. -/
def Arity.message (function : String) (given : Nat) : Arity → String
  | .takesNone => s!"{function}() takes no arguments ({given} given)"
  | .takesOne => s!"{function}() takes exactly one argument ({given} given)"
  | .noPositional => s!"{function}() takes no positional arguments"
  | .expected n =>
    let taken := counted n "argument"
    s!"{function} expected {taken}, got {given}"
  | .expectedLeast n =>
    let taken := counted n "argument"
    s!"{function} expected at least {taken}, got {given}"
  | .expectedMost n =>
    let taken := counted n "argument"
    s!"{function} expected at most {taken}, got {given}"
  | .takesLeast n =>
    let taken := counted n "argument"
    s!"{function}() takes at least {taken} ({given} given)"
  | .takesMost n =>
    let taken := counted n "argument"
    s!"{function}() takes at most {taken} ({given} given)"
  | .positional n =>
    let taken := counted n "positional argument"
    s!"{function}() takes {taken} but {given} were given"

namespace Cause

/-- The class of a cause. -/
def kind : Cause → CauseKind
  | raised k _ => k
  | operands .. | operand .. | order .. | concatenation .. | repetition .. | container ..
  | needle .. | unhashable .. | notCallable .. | notIterable .. | notSubscriptable ..
  | typeNotSubscriptable .. | notGeneric .. | unboundMethod .. | keysNotIterable ..
  | foreignMethod ..
  | subscript .. | textSubscript .. | noLength .. | notIndex .. | notInt .. | notFloat ..
  | baseOfNumber | updateElement .. | joinItem .. | notJoinable | unusedArguments
  | missingArguments | notMapping | realNumber .. | numberFormat .. | integerFormat ..
  | characterFormat | starWidth | notText .. | notTextOrNone .. | stripArgument ..
  | replaceArgument ..
  | affix .. | jsonInput .. | jsonKey .. | expectedText .. | textConcatenation ..
  | missingArgument .. | arity .. | sliceIndex | sliceBound | affixItem ..
  | unknownParameters .. => .type
  | noAttribute .. | noTypeAttribute .. => .missingAttribute
  | outOfRange .. | emptyPop | popOutOfRange | indexTooLarge => .index
  | noKey .. => .key
  | noSuchItem .. | noItemToRemove | noSubstring | emptySeparator | nanToInt | digitsWritten
  | digitsRead .. | intText .. | floatText .. | intBase | zeroStep | updateLength ..
  | widthTooBig | precisionTooBig | formatSpec .. | formatIncomplete | formatKeyIncomplete
  | circular | tooManyToUnpack => .value
  | divisionByZero | floatDivisionByZero | intModulo | floatModulo => .zeroDivision
  | quotientTooLarge | intTooLarge | countTooLarge | sizeTooLarge | precisionTooLarge
  | infinityToInt | characterRange | repeatedTooLong | digitsTooMany => .overflow
  | noRoom => .memory
  | resized | rekeyed => .runtime
  | jsonAt .. => .json
  | notImplemented => .notImplemented

/-- The wording of a cause. -/
def message : Cause → String
  | raised _ m => m
  | operands op l r => s!"unsupported operand type(s) for {op}: '{l}' and '{r}'"
  | operand op t => s!"bad operand type for unary {op}: '{t}'"
  | order op l r => s!"'{op}' not supported between instances of '{l}' and '{r}'"
  | concatenation s t => s!"can only concatenate {s} (not \"{t}\") to {s}"
  | repetition t => s!"can't multiply sequence by non-int of type '{t}'"
  | container t => s!"argument of type '{t}' is not iterable"
  | needle t => s!"'in <string>' requires string as left operand, not {t}"
  | unhashable t => s!"unhashable type: '{t}'"
  | notCallable t => s!"'{t}' object is not callable"
  | notIterable t => s!"'{t}' object is not iterable"
  | notSubscriptable t => s!"'{t}' object is not subscriptable"
  | typeNotSubscriptable t => s!"type '{t}' is not subscriptable"
  | notGeneric v => s!"{v} is not a generic class"
  | noAttribute t n => s!"'{t}' object has no attribute '{n}'"
  | noTypeAttribute t n => s!"type object '{t}' has no attribute '{n}'"
  | subscript s t => s!"{s} indices must be integers or slices, not {t}"
  | textSubscript t => s!"string indices must be integers, not '{t}'"
  | outOfRange s => s!"{s} index out of range"
  | noKey k => k
  | noLength t => s!"object of type '{t}' has no len()"
  | notIndex t => s!"'{t}' object cannot be interpreted as an integer"
  | indexTooLarge | countTooLarge => "cannot fit 'int' into an index-sized integer"
  | sizeTooLarge => "Python int too large to convert to C ssize_t"
  | precisionTooLarge => "Python int too large to convert to C int"
  | repeatedTooLong => "repeated string is too long"
  | digitsTooMany => "precision too large"
  | noRoom => ""
  | sliceIndex => "slice indices must be integers or None or have an __index__ method"
  | sliceBound => "slice indices must be integers or have an __index__ method"
  | emptyPop => "pop from empty list"
  | popOutOfRange => "pop index out of range"
  | noSuchItem v => s!"{v} is not in list"
  | noItemToRemove => "list.remove(x): x not in list"
  | noSubstring => "substring not found"
  | emptySeparator => "empty separator"
  | divisionByZero => "division by zero"
  | floatDivisionByZero => "float division by zero"
  | intModulo => "integer modulo by zero"
  | floatModulo => "float modulo"
  | quotientTooLarge => "integer division result too large for a float"
  | intTooLarge => "int too large to convert to float"
  | infinityToInt => "cannot convert float infinity to integer"
  | nanToInt => "cannot convert float NaN to integer"
  | digitsWritten =>
    "Exceeds the limit (4300 digits) for integer string conversion; " ++
      "use sys.set_int_max_str_digits() to increase the limit"
  | digitsRead n =>
    s!"Exceeds the limit (4300 digits) for integer string conversion: value has {n} digits; " ++
      "use sys.set_int_max_str_digits() to increase the limit"
  | notInt t =>
    s!"int() argument must be a string, a bytes-like object or a real number, not '{t}'"
  | notFloat t => s!"float() argument must be a string or a real number, not '{t}'"
  | intText b v => s!"invalid literal for int() with base {b}: {v}"
  | floatText v => s!"could not convert string to float: {v}"
  | intBase => "int() base must be >= 2 and <= 36, or 0"
  | baseOfNumber => "int() can't convert non-string with explicit base"
  | zeroStep => "range() arg 3 must not be zero"
  | updateElement i => s!"cannot convert dictionary update sequence element #{i} to a sequence"
  | updateLength i n => s!"dictionary update sequence element #{i} has length {n}; 2 is required"
  | joinItem i t => s!"sequence item {i}: expected str instance, {t} found"
  | notJoinable => "can only join an iterable"
  | resized => "dictionary changed size during iteration"
  | rekeyed => "dictionary keys changed during iteration"
  | keysNotIterable t g => s!"{t}.keys() returned a non-iterable (type {g})"
  | unboundMethod t n => s!"unbound method {t}.{n}() needs an argument"
  | foreignMethod t n g => s!"descriptor '{n}' for '{t}' objects doesn't apply to a '{g}' object"
  | unusedArguments => "not all arguments converted during string formatting"
  | missingArguments => "not enough arguments for format string"
  | notMapping => "format requires a mapping"
  | widthTooBig => "width too big"
  | precisionTooBig => "precision too big"
  | realNumber t => s!"must be real number, not {t}"
  | numberFormat c t => s!"%{c} format: a real number is required, not {t}"
  | integerFormat c t => s!"%{c} format: an integer is required, not {t}"
  | characterFormat => "%c requires int or char"
  | characterRange => "%c arg not in range(0x110000)"
  | formatSpec c i =>
    let shown := if 31 ≤ c.toNat && c.toNat ≤ 126 then String.ofList [c] else "?"
    let code := String.ofList (Nat.toDigits 16 (Text.codePoint c))
    s!"unsupported format character '{shown}' (0x{code}) at index {i}"
  | formatIncomplete => "incomplete format"
  | formatKeyIncomplete => "incomplete format key"
  | starWidth => "* wants int"
  | notText t => s!"must be str, not {t}"
  | notTextOrNone t => s!"must be str or None, not {t}"
  | stripArgument f => s!"{f} arg must be None or str"
  | replaceArgument i t => s!"replace() argument {i} must be str, not {t}"
  | affix f t => s!"{f} first arg must be str or a tuple of str, not {t}"
  | affixItem f t => s!"tuple for {f} must only contain str, not {t}"
  | jsonInput t => s!"the JSON object must be str, bytes or bytearray, not {t}"
  | jsonKey t => s!"keys must be str, int, float, bool or None, not {t}"
  | jsonAt p l c o => s!"{p}: line {l} column {c} (char {o})"
  | circular => "Circular reference detected"
  | expectedText t => s!"expected string or bytes-like object, got '{t}'"
  | textConcatenation t => s!"can only concatenate str (not \"{t}\") to str"
  | missingArgument f p => s!"{f}() missing 1 required positional argument: '{p}'"
  | arity f a n => a.message f n
  | tooManyToUnpack => "too many values to unpack (expected 2)"
  | unknownParameters ns =>
    "unknown configuration parameter(s): " ++ ", ".intercalate ns
  | notImplemented => ""

end Cause

/-- The classes of complaints. -/
inductive ComplaintKind where
  | general
  | type
  | grammar
  | name
  | lookup
  | missingAttribute
  | missingElse
  | unknownMixin
  | inlineCode
  | pluginNotInstalled
  | includeNotFound
  deriving DecidableEq, Repr

namespace ComplaintKind

/-- All classes of complaints. -/
def all : List ComplaintKind :=
  [general, type, grammar, name, lookup, missingAttribute, missingElse, unknownMixin, inlineCode,
    pluginNotInstalled, includeNotFound]

/-- The name of a class of complaints. -/
def label : ComplaintKind → String
  | general => "MintagError"
  | type => "TypeErrorEx"
  | grammar => "SyntaxErrorEx"
  | name => "NameErrorEx"
  | lookup => "LookupErrorEx"
  | missingAttribute => "AttributeErrorEx"
  | missingElse => "MissingElseEx"
  | unknownMixin => "UnknownMixinEx"
  | inlineCode => "InlineCodeEx"
  | pluginNotInstalled => "PluginNotInstalledEx"
  | includeNotFound => "IncludeNotFoundEx"

/-- The class with a name. -/
def ofLabel? (s : String) : Option ComplaintKind :=
  all.find? fun k => k.label == s

/-- The two groups of errors: mistakes of types, and all others. -/
def group : ComplaintKind → String
  | type | unknownMixin => "TypeError"
  | _ => "Error"

/-- The class that a group stands for. -/
def ofGroup (s : String) : ComplaintKind :=
  if s = "TypeError" then type else general

/-- The general classes of errors that a class of complaints belongs to. -/
def bases : ComplaintKind → List String
  | type | unknownMixin => ["TypeError"]
  | grammar => ["SyntaxError"]
  | name => ["NameError"]
  | lookup => ["LookupError"]
  | missingAttribute => ["AttributeError"]
  | _ => []

end ComplaintKind

/-- A mistake in a template. -/
inductive Complaint where
  /-- Words from outside, and what goes wrong if others are put behind them. -/
  | given (kind : ComplaintKind) (message : String) (misfit : Option Cause)
  | emptyExpression
  | invalidExpression (text : String) (column : Nat)
  | unbound (name : String)
  /-- An operation of the expression `text` failed. -/
  | failed (cause : Cause) (text : String)
  | missingElse
  | inlineCode
  | eachUnsupported
  | noLoopVariable (content : String)
  | unknownMixin (name : String)
  | pluginNotInstalled (package : String)
  | noLoader (path : String)
  | pathNotFound (path : String)
  | treeForText (path : String)
  | textForTree (path : String)
  | unnamedPlugin (shown : String)
  | inertPlugin (name : String)
  | pluginResult (type : String)
  | noTree
  deriving DecidableEq, Repr

namespace Complaint

/-- The class of a complaint about an operation that failed. -/
def failedKind : CauseKind → ComplaintKind
  | .key | .index => .lookup
  | .missingAttribute => .missingAttribute
  | _ => .type

/-- The class of a complaint. -/
def kind : Complaint → ComplaintKind
  | given k _ _ => k
  | emptyExpression | invalidExpression .. => .grammar
  | unbound _ => .name
  | failed c _ => failedKind c.kind
  | missingElse => .missingElse
  | inlineCode => .inlineCode
  | eachUnsupported | noLoopVariable _ | treeForText _ | textForTree _ | unnamedPlugin _
  | inertPlugin _ | pluginResult _ | noTree => .type
  | unknownMixin _ => .unknownMixin
  | pluginNotInstalled _ => .pluginNotInstalled
  | noLoader _ | pathNotFound _ => .includeNotFound

/-- The wording of a complaint, without its position. -/
def message : Complaint → String
  | given _ m _ => m
  | emptyExpression => "empty expression"
  | invalidExpression t c =>
    let shown := Text.quoted t
    s!"invalid expression {shown} (column {c})"
  | unbound n => s!"variable '{n}' is not defined"
  | failed c t =>
    let name := c.kind.name
    let words := c.message
    let shown := Text.quoted t
    s!"{name}: {words} in expression {shown}"
  | missingElse => "missing else"
  | inlineCode => "No inline code!"
  | eachUnsupported => "Each not supported (use for)"
  | noLoopVariable c => s!"missing loop variable in 'for {c}'"
  | unknownMixin n => s!"Unknown mixin '{n}'"
  | pluginNotInstalled p => s!"{p} not installed"
  | noLoader p => s!"no loader configured, can't resolve '{p}'"
  | pathNotFound p => s!"include path not found '{p}'"
  | treeForText p => s!"include '{p}' is a tree, not a source text"
  | textForTree p => s!"include '{p}' is not a pre-rendered tree"
  | unnamedPlugin v => s!"plugin {v} has no name"
  | inertPlugin n => s!"plugin '{n}' must be callable or implement render()"
  | pluginResult t => s!"plugin returned {t} instead of a string or an object with `body`"
  | noTree => "no template tree to render"

end Complaint

/-- The line and the column of a position, as far as it has them: a dictionary with a line, a pair,
or an object with attributes. -/
def lineColumn : Value → Value × Value
  | .dict es =>
    match Value.lookup? (.text "line") es with
    | some l => (l, (Value.lookup? (.text "column") es).getD .none)
    | none => (.none, .none)
  | .list [l, c] | .tuple [l, c] => (l, c)
  | .object fs => ((fs.lookup "line").getD .none, (fs.lookup "column").getD .none)
  | _ => (.none, .none)

/-- The words that a position adds to a message. -/
def positionText (pos : Value) : String :=
  match pos with
  | .none => ""
  | pos =>
    match lineColumn pos with
    | (.none, _) => " at " ++ pos.plain
    | (l, c) => " at line " ++ l.plain ++ ", column " ++ c.plain

/-- What can go wrong. -/
inductive Fault where
  /-- An operation on values failed. -/
  | basic (cause : Cause)
  /-- A complaint about a template, with the position it was made at. -/
  | template (complaint : Complaint) (position : Value)
  /-- A number in an expression has more digits than may be read, or digits without a value. -/
  | unreadableLiteral
  /-- The steps that a render may take are used up. -/
  | exhausted

namespace Fault

/-- The name of a fault's class. -/
def name : Fault → String
  | basic c => c.kind.name
  | template c _ => c.kind.label
  | unreadableLiteral => "VisitationError"
  | exhausted => "RecursionError"

/-- The wording of a fault. -/
def message : Fault → String
  | basic c => c.message
  | template c pos => c.message ++ positionText pos
  | unreadableLiteral => ""
  | exhausted => "maximum recursion depth exceeded"

end Fault

/-- What goes wrong if a text is put behind a value. -/
def misfit? : Value → Option Cause
  | .text _ => none
  | .list _ => some (.concatenation "list" "str")
  | .tuple _ => some (.concatenation "tuple" "str")
  | v => some (.operands "+" v.typeName "str")

/-- The fault of a class with given words at a position.  Words that are no text stand for their
own form, and cannot be followed by a position; empty ones stand for no words. -/
def ComplaintKind.fault (kind : ComplaintKind) (words position : Value) : Except Cause Fault :=
  match words, position with
  | .text s, position => .ok (.template (.given kind s none) position)
  | words, position =>
    if !words.truth then .ok (.template (.given kind "" none) position)
    else
      match misfit? words, position with
      | m, .none => .ok (.template (.given kind words.plain m) .none)
      | some c, _ => .error c
      | none, position => .ok (.template (.given kind words.plain none) position)

end Trellis
