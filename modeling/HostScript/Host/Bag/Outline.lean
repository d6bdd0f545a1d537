import HostScript.Host.Bag
import HostScript.Value.Outline

/-!
# Outlines of bags

The state of an object of the host as a JSON document.
-/

namespace HostScript.Bag

open Text (Json)

/-- The fields and entries of an object. -/
def members (inner : Value → Json) (w : World Store) (o : HostObject) : List (String × Json) :=
  let write (m : OrderedMap String Value) : Json :=
    .object (m.entries.map fun (k, v) => (k, inner v))
  match w.data[o.ref]?.join with
  | none => [("foreign", .bool true)]
  | some bag => [("fields", write bag.fields), ("index", write bag.entries)]

/-- The state of an object. -/
def outline (w : World Store) (o : HostObject) : Json :=
  .object (members (·.outline w.heap) w o)

/-- The state of an object and of the objects that it holds directly. -/
def deepOutline (w : World Store) (o : HostObject) : List (String × Json) :=
  members (fun
    | .host held =>
      .object (("host", .str held.typeName) :: members (·.outline w.heap) w held)
    | v => v.outline w.heap) w o

/-- The entries under a key that differ from those before. -/
def changes (key : String) (before after : List (String × Json)) : List (String × Json) :=
  match before.lookup key, after.lookup key with
  | some (.object old), some (.object new) =>
    match new.filter fun (k, v) => (old.lookup k).map Json.render != some v.render with
    | [] => []
    | changed => [("changed_" ++ key, .object changed)]
  | _, _ => []

end HostScript.Bag
