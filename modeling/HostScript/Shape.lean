import HostScript.Host.Member
import HostScript.Scope

/-!
# Shapes

The types that analysis finds for expressions. Shapes are kept in an arena and named by number,
because records and arrays change while analysis goes on, and whatever may hold the same record
shares its shape.
-/

namespace HostScript

/-- The number of a shape in its arena. -/
abbrev ShapeId := Nat

/-- The number of a layer of node shapes. The script itself and every analysis of a lambda have a
layer of their own. -/
abbrev LayerId := Nat

/-- Shapes of values without parts that scripts can see. -/
inductive Concrete where
  | number
  | bool
  | string
  | host (id : HostTypeId)
deriving DecidableEq, Repr

/-- One analysis of a lambda for the shapes of its arguments. -/
structure Signature where
  args : List ShapeId
  ret : ShapeId
  /-- The layer with the shapes of the body. -/
  layer : LayerId
deriving DecidableEq, Repr

structure LambdaShape where
  /-- The lambda literal. -/
  node : NodeId
  paramCount : Nat
  /-- The scope in which the literal stands. -/
  defScope : ScopeId
  /-- The scope of the body, from the first analysis on. -/
  bodyScope : Option ScopeId
  /-- The layers that were visible where the literal stands. -/
  env : List LayerId
  /-- The lambdas around the literal, from the outside in. -/
  enclosing : List NodeId
  signatures : List Signature
  /-- The analysis for arguments of which nothing is known. -/
  generic : Option Signature

inductive Shape where
  /-- Nothing is known. -/
  | unknown
  /-- No evidence yet; the first evidence decides. -/
  | undetermined
  | concrete (c : Concrete)
  /-- A record and the literals that may have made it. -/
  | record (fields : OrderedMap String ShapeId) (origins : List NodeId)
  | array (element : ShapeId) (origins : List NodeId)
  /-- A method of the host that is not called. -/
  | hostMethod (member : Member)
  | lambda (l : LambdaShape)
  /-- The result of a call with a signature of a lambda. -/
  | callResult (method : ShapeId) (signature : Nat)
  /-- Merged into another shape. -/
  | forward (target : ShapeId)

/-- Storage that was widened after it was read. The next pass starts with it as unknown. -/
structure Widening where
  declarations : List NodeId := []
  /-- Fields of the records that a literal makes. -/
  fields : List (NodeId × String) := []
  /-- Elements of the arrays that a literal makes. -/
  elements : List NodeId := []
deriving DecidableEq, Repr

def Widening.isEmpty (w : Widening) : Bool :=
  w.declarations.isEmpty && w.fields.isEmpty && w.elements.isEmpty

/-- What a write to a field or element did. -/
inductive Write where
  | unchanged
  | added
  | widened
  /-- The place is frozen and keeps its shape. -/
  | frozen
deriving DecidableEq, Repr

end HostScript
