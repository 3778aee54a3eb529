import Trellis.Render.Setup

/-!
# Samples

Small engines, nodes, plugins, loaders, evaluations and escape functions to try the library with:
what the examples in the proofs have in common, and what can be asked for by a name.
-/

namespace Trellis.Samples

/-! ### Engines -/

/-- The usual configuration and expression language, with neither loader nor tracker. -/
def engine (id : Nat) : Engine :=
  ⟨id, Config.default, Expr.evaluation Scope.builtin, none, 0, none⟩

/-! ### Nodes -/

/-- A node with a symbol, a content and children. -/
def node (id : Nat) (symbol content : String) (children : List Node) : Node :=
  ⟨id, .text symbol, .text content, [], children, false, .none⟩

/-- A node without children. -/
def leaf (id : Nat) (symbol content : String) : Node :=
  node id symbol content []

/-! ### Descriptions of nodes -/

/-- The description of a node with a symbol and a content. -/
def entry (symbol content : String) : Value :=
  .dict [(.text "tagOrSymbol", .text symbol), (.text "content", .text content)]

/-- The description of an include of a path. -/
def inclusion (path : String) : Value :=
  entry "include" path

/-! ### Escape functions -/

/-- Everything as it is. -/
def identity : Escape := fun v => .ok v

/-- An opening bracket in the place of each less-than sign. -/
def bracket : Escape
  | .text s => .ok (.text (String.ofList (s.toList.map fun c => if c = '<' then '[' else c)))
  | v => .error (.noAttribute v.typeName "replace")

/-- Brackets around a text. -/
def mark : Escape
  | .text s => .ok (.text ("[" ++ s ++ "]"))
  | v => .error (.textConcatenation v.typeName)

/-- The escape function of a name. -/
def escape? (name : String) : Option Escape :=
  [("html", Escape.markup), ("identity", identity), ("bracket", bracket),
    ("mark", mark)].lookup name

/-! ### Evaluations -/

/-- The value of the name that the text is. -/
def lookup : Evaluation := fun s _ v => do
  match v with
  | .text t => Value.entryAt s (.text (Text.stripBlank t))
  | v => Action.fail (.noAttribute v.typeName "strip")

/-- A failure with the text as words. -/
def failing : Evaluation := fun _ _ v => do
  Action.fail (.raised .value (← Action.plain v))

/-- The text itself. -/
def verbatim : Evaluation := fun _ _ v => pure v

/-- The evaluation of a name. -/
def evaluation? (name : String) : Option Evaluation :=
  [("lookup", lookup), ("failing", failing), ("text", verbatim)].lookup name

/-! ### Loaders -/

/-- A loader whose texts tell what was asked for, and which has no trees. -/
def echo : Loader :=
  .custom fun path location wanted =>
    match wanted with
    | .text => .ok (.text ("[" ++ path ++ "@" ++ Event.shownLocation location ++ "]"))
    | .tree => .error (.basic .tooManyToUnpack)

/-- A loader whose texts tell what was asked for, and whose trees show the path and include `x`. -/
def grove : Loader :=
  .custom fun path location wanted =>
    match wanted with
    | .text => .ok (.text ("(" ++ path ++ "@" ++ Event.shownLocation location ++ ")"))
    | .tree =>
      .ok (.tree (Draft.ofValue (.list [entry "i" path, inclusion "x"])) (some ("at:" ++ path)))

/-- The loader of a name. -/
def loader? (name : String) : Option Loader :=
  [("base", Loader.empty), ("echo", echo), ("tree", grove)].lookup name

/-! ### Plugins -/

/-- A plugin that is a function. -/
def function (key : String) (f : String → List (Value × Value) → Except Fault Value) : Offer :=
  .ready ⟨"<Func " ++ key ++ ">", none, some f⟩

/-- The source in upper case, and the names of the attributes in order. -/
def upper : Plugin :=
  { shown := "<Upper>"
    name := some "upper"
    transform := some fun source attributes =>
      let names := Text.sorted (attributes.map fun a => a.1.plain)
      .ok (.text (String.ofList (Text.upper source.toList) ++ String.join names)) }

/-- The source as it is. -/
def repeating : Plugin :=
  ⟨"<Func echo>", none, some fun source _ => .ok (.text source)⟩

/-- A plugin that does nothing. -/
def idle : Plugin :=
  ⟨"<Dead>", none, none⟩

/-- The offers with their names. -/
def offers : List (String × Offer) :=
  [("upper", .ready upper),
    ("upper_class", .made upper),
    ("bare", .ready ⟨"<Bare>", none, some fun _ _ => .error (.basic .notImplemented)⟩),
    ("dead", .ready idle),
    ("echo", .ready repeating),
    ("attrs", function "attrs" fun source attributes =>
      match Json.write (.dict attributes) with
      | .ok t => .ok (.text (source ++ t))
      | .error c => .error (.basic c)),
    ("object", function "object" fun source _ =>
      .ok (.object [("body", .text ("<b>" ++ source ++ "</b>"))])),
    ("rev", function "rev" fun source _ =>
      .ok (.dict [(.text "body", .text (String.ofList source.toList.reverse))])),
    ("nobody", function "nobody" fun source _ => .ok (.dict [(.text "html", .text source)])),
    ("none", function "none" fun _ _ => .ok .none),
    ("number", function "number" fun _ _ => .ok (.int 5)),
    ("numbody", function "numbody" fun _ _ => .ok (.dict [(.text "body", .int 5)])),
    ("fail", function "fail" fun _ _ => .error (.basic (.raised .value "plugin failed")))]

/-- The offer of a name. -/
def offer? (name : String) : Option Offer :=
  offers.lookup name

end Trellis.Samples
