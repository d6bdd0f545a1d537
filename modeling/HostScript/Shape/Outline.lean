import HostScript.Shape.Arena
import HostScript.Text.Json

/-!
# Outlines of shapes

Shapes as JSON documents. Records, arrays and lambdas get names in the order in which they are
mentioned, and the definitions of the names are written in that order.
-/

namespace HostScript.Outline

open Text (Json)

/-- The shapes that have a name, in the order of their names. -/
abbrev Names := List ShapeId

/-- Follow forwards only. -/
def forwarded (a : Arena) : Nat → ShapeId → ShapeId
  | 0, id => id
  | budget + 1, id =>
    match a.get id with
    | .forward target => forwarded a budget target
    | _ => id

def nameOf (id : ShapeId) : StateM Names String := do
  let names ← get
  match names.findIdx? (· = id) with
  | some k => return "S" ++ toString k
  | none =>
    set (names ++ [id])
    return "S" ++ toString names.length

/-- The text of a shape. Calls may be nested as deep as the budget. -/
def shapeWith (a : Arena) : Nat → ShapeId → StateM Names String
  | 0, _ => return "unknown"
  | budget + 1, id => do
    let id := forwarded a a.shapes.size id
    match a.get id with
    | .record .. | .array .. | .lambda _ => nameOf id
    | .hostMethod m => return "method " ++ m.qualifiedName
    | .callResult method signature =>
      return "call " ++ (← shapeWith a budget method) ++ " " ++ toString signature
    | _ => return a.describe id

def shape (a : Arena) (id : ShapeId) : StateM Names Json := do
  return .str (← shapeWith a (a.shapes.size + 1) id)

def signature (a : Arena) (s : Signature) : StateM Names Json := do
  let args ← s.args.mapM (shape a)
  let ret ← shape a s.ret
  return .object [("args", .array args), ("ret", ret), ("layer", .nat s.layer)]

def nats (ns : List Nat) : Json :=
  .array (ns.map Json.nat)

def definition (a : Arena) (id : ShapeId) : StateM Names Json := do
  match a.get id with
  | .record fields origins =>
    let fields ← fields.entries.mapM fun (name, s) => do
      return Json.array [.str name, ← shape a s]
    return .object [("record", .array fields), ("origins", nats origins)]
  | .array element origins =>
    return .object [("array", ← shape a element), ("origins", nats origins)]
  | .lambda l =>
    let signatures ← l.signatures.mapM (signature a)
    let generic ← match l.generic with
      | some s => signature a s
      | none => pure .null
    return .object [("lambda", .nat l.node), ("params", .nat l.paramCount),
      ("signatures", .array signatures), ("generic", generic), ("env", nats l.env),
      ("fn_chain", nats l.enclosing)]
  | _ => return .null

/-- The definitions from name number `k` on. They may mention further shapes, at most all of the
arena. -/
def definitionsFrom (a : Arena) : Nat → Nat → StateM Names (List Json)
  | 0, _ => return []
  | budget + 1, k => do
    match (← get)[k]? with
    | none => return []
    | some id =>
      let first ← definition a id
      return first :: (← definitionsFrom a budget (k + 1))

def definitions (a : Arena) : StateM Names (List Json) :=
  definitionsFrom a (a.shapes.size + 1) 0

def concrete : Option Concrete → String
  | none => "None"
  | some .number => "Some(Number)"
  | some .bool => "Some(Bool)"
  | some .string => "Some(String)"
  | some (.host id) => "Some(Host(HostTypeId(" ++ toString id ++ ")))"

end Outline

/-- The forced places, each list in order. -/
def Widening.outline (w : Widening) : Text.Json :=
  let fields := w.fields.mergeSort fun x y => x.1 < y.1 || (x.1 == y.1 && x.2 ≤ y.2)
  .array [Outline.nats w.declarations.mergeSort,
    .array (fields.map fun (node, name) => .array [.nat node, .str name]),
    Outline.nats w.elements.mergeSort]

end HostScript
