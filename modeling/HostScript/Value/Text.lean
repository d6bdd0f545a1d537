import HostScript.Value
import HostScript.Number.Form
import HostScript.Text.Json

/-!
# Values as text

`Value.display` is what scripts print, `Value.toJson?` what the host gets as JSON. A value may
contain itself, so both go down a bounded number of levels: display writes dots below,
serialization fails.
-/

namespace HostScript.Value

open Text (Json)

/-- The text of a value, with dots for what lies `levels` below or deeper. -/
def displayTo (h : Heap) : Nat → Value → String
  | 0, _ => "..."
  | _ + 1, null => "null"
  | _ + 1, number x => Number.toText x
  | _ + 1, bool b => if b then "true" else "false"
  | _ + 1, str s => s
  | levels + 1, record r =>
    match h.records[r]? with
    | none => "\x7b\x7d"
    | some o =>
      let fields := (o.layout.fields.zip o.fields.toList).map fun ((name, _), slot) =>
        name ++ ": " ++ displayTo h levels slot.value
      "\x7b" ++ String.intercalate ", " fields ++ "\x7d"
  | levels + 1, array a =>
    match h.arrays[a]? with
    | none => "[]"
    | some o =>
      let items := o.items.toList.map fun slot => displayTo h levels slot.value
      "[" ++ String.intercalate ", " items ++ "]"
  | _ + 1, closure _ => "<lambda>"
  | _ + 1, method m =>
    "<method " ++ ((h.methods[m]?.map BoundMethod.name).getD "") ++ ">"
  | _ + 1, host object => object.typeName

/-- How many levels below a value are displayed. -/
def displayLevels : Nat := 16

def display (h : Heap) (v : Value) : String :=
  displayTo h (displayLevels + 1) v

/-- The value as JSON, unless something lies `levels` below it or deeper. -/
def toJsonTo? (h : Heap) : Nat → Value → Option Json
  | 0, _ => none
  | _ + 1, null => some .null
  | _ + 1, number x => some (.number (Number.Form.json.write x))
  | _ + 1, bool b => some (.bool b)
  | _ + 1, str s => some (.str s)
  | levels + 1, record r =>
    match h.records[r]? with
    | none => some (.object [])
    | some o => do
      let members ← (o.layout.fields.zip o.fields.toList).mapM fun ((name, _), slot) => do
        return (name, ← toJsonTo? h levels slot.value)
      return .object members
  | levels + 1, array a =>
    match h.arrays[a]? with
    | none => some (.array [])
    | some o => do
      return .array (← o.items.toList.mapM fun slot => toJsonTo? h levels slot.value)
  | _ + 1, v => some (.str (v.display h))

/-- How many levels below a value are serialized. -/
def jsonLevels : Nat := 64

def toJson? (h : Heap) (v : Value) : Option Json :=
  toJsonTo? h (jsonLevels + 1) v

end HostScript.Value
