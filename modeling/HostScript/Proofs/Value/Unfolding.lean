import HostScript.Value.Text

/-!
# Unfolding values

A value with what it contains is a tree, which is infinite if the value contains itself. Output is
made from this tree. Display cuts it below a depth and writes dots there, and serialization needs
the whole of it.
-/

namespace HostScript.Value

open Text (Json)

/-! ### Containment -/

/-- What a value contains: the fields of a record in the order of its layout, or the elements of an
array, which have no name. -/
def parts (h : Heap) : Value → List (String × Value)
  | record r => (h.records[r]?.map fun o =>
      (o.layout.fields.zip o.fields.toList).map fun p => (p.1.1, p.2.value)).getD []
  | array a => (h.arrays[a]?.map fun o => o.items.toList.map fun slot => ("", slot.value)).getD []
  | _ => []

/-- The value that a path of containment leads to. Each step goes to the part with that number. -/
def at? (h : Heap) : List Nat → Value → Option Value
  | [], v => some v
  | i :: path, v => (v.parts h)[i]?.bind fun p => at? h path p.2

variable {h : Heap} {v w : Value} {path : List Nat}

/-- A value with the trees of what it contains, or dots in its place. -/
inductive Tree where
  | dots
  | node (v : Value) (children : List Tree)

/-- The tree of a value, with dots for what lies `levels` below or deeper. -/
def unfold (h : Heap) : Nat → Value → Tree
  | 0, _ => .dots
  | levels + 1, v => .node v ((v.parts h).map fun p => unfold h levels p.2)

/-- A value as text, given the texts of what it contains. -/
def compose (h : Heap) (v : Value) (texts : List String) : String :=
  match v with
  | null => "null"
  | number x => Number.toText x
  | bool b => if b then "true" else "false"
  | str s => s
  | record _ =>
    let fields := List.zipWith (fun p text => p.1 ++ ": " ++ text) (v.parts h) texts
    "\x7b" ++ String.intercalate ", " fields ++ "\x7d"
  | array _ => "[" ++ String.intercalate ", " texts ++ "]"
  | closure _ => "<lambda>"
  | method m => "<method " ++ (h.methods[m]?.map BoundMethod.name).getD "" ++ ">"
  | host object => object.typeName

namespace Tree

def text (h : Heap) : Tree → String
  | dots => "..."
  | node v children => v.compose h (children.map (text h))

end Tree

/-- What stands in a tree at the end of a path. -/
def Tree.at? : List Nat → Tree → Option Tree
  | [], t => some t
  | i :: path, node _ children => children[i]?.bind (at? path)
  | _ :: _, dots => none

end HostScript.Value
