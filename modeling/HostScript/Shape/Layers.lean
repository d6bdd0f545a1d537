import HostScript.Shape

/-!
# Layers of node shapes

The shape of each node, one layer per analysis. A look-up searches a stack of layers from the
innermost one outwards. Stacks are given from the outside in.
-/

namespace HostScript

structure Layers where
  layers : Array (NumberedMap NodeId ShapeId) := #[{}]
  /-- Layers below this number keep the shapes they have. -/
  frozenBelow : Nat := 0

namespace Layers

abbrev root : LayerId := 0

def count (t : Layers) : Nat :=
  t.layers.size

/-- The shapes of all layers. -/
def shapes (t : Layers) : List ShapeId :=
  t.layers.toList.flatMap NumberedMap.values

def newLayer (t : Layers) : LayerId × Layers :=
  (t.layers.size, { t with layers := t.layers.push {} })

def freeze (t : Layers) : Nat × Layers :=
  (t.frozenBelow, { t with frozenBelow := t.layers.size })

def thaw (t : Layers) (previous : Nat) : Layers :=
  { t with frozenBelow := previous }

def get? (t : Layers) (layer : LayerId) (node : NodeId) : Option ShapeId :=
  t.layers[layer]?.bind (·.get? node)

/-- The innermost layer of the stack that has the node. -/
def find? (t : Layers) (stack : List LayerId) (node : NodeId) : Option LayerId :=
  stack.reverse.find? fun layer => (t.get? layer node).isSome

def shape? (t : Layers) (stack : List LayerId) (node : NodeId) : Option ShapeId :=
  (t.find? stack node).bind fun layer => t.get? layer node

/-- Record the shape in one layer. The layer comes back, if there is such a layer. -/
def put (t : Layers) (layer : LayerId) (node : NodeId) (shape : ShapeId) :
    Option LayerId × Layers :=
  if layer < t.layers.size then
    (some layer, { t with layers := t.layers.modify layer (·.insert node shape) })
  else (none, t)

/-- Record the shape of a node in the innermost layer. `none` if it has one there already. -/
def set? (t : Layers) (stack : List LayerId) (node : NodeId) (shape : ShapeId) :
    Option (Option LayerId × Layers) :=
  match stack.getLast? with
  | none => some (none, t)
  | some top => if (t.get? top node).isSome then none else some (t.put top node shape)

/-- Replace the shape of a node in the layer that has it, or record it in the innermost one. A
frozen layer keeps its shapes. -/
def replace (t : Layers) (stack : List LayerId) (node : NodeId) (shape : ShapeId) :
    Option LayerId × Layers :=
  match stack.getLast? with
  | none => (none, t)
  | some top =>
    let layer := (t.find? stack node).getD top
    if layer < t.frozenBelow then (none, t) else t.put layer node shape

end Layers

end HostScript
