import HostScript.Value.Text

/-!
# Outlines of values

A value as a JSON document that also tells the representations of storage. It goes down a given
number of levels.
-/

namespace HostScript

open Text (Json)

def Value.outlineTo (h : Heap) : Nat → Value → Json
  | 0, _ => .object [("deep", .bool true)]
  | _ + 1, .null => .null
  | _ + 1, .bool b => .bool b
  | _ + 1, .str s => .str s
  | _ + 1, .number x => .object [("num", .str (Number.Form.display.write x))]
  | levels + 1, .array a =>
    match h.arrays[a]? with
    | none => .null
    | some o =>
      .object [("array", .array (o.items.toList.map fun s => outlineTo h levels s.value)),
        ("element", .str o.layout.element.name)]
  | levels + 1, .record r =>
    match h.records[r]? with
    | none => .null
    | some o =>
      let fields := (o.layout.fields.zip o.fields.toList).map fun ((name, _), s) =>
        Json.array [.str name, outlineTo h levels s.value]
      .object [("record", .array fields),
        ("reprs", .array (o.layout.fields.map fun (_, rep) => .str rep.name))]
  | _ + 1, .closure c =>
    .object [("lambda", .nat ((h.closures[c]?.map fun o => o.captures.length).getD 0))]
  | _ + 1, .method m =>
    .object [("method", .str ((h.methods[m]?.map BoundMethod.name).getD ""))]
  | _ + 1, .host o => .object [("host", .str o.typeName)]

/-- The outline of a value and six levels below it. -/
def Value.outline (h : Heap) (v : Value) : Json :=
  v.outlineTo h 7

end HostScript
