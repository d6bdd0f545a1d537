import HostScript.Operator
import HostScript.Shape

/-!
# Code

The code of a stack machine. Operations with representations in their names expect and leave slots
of that representation; the dynamic ones take any values and decide at run time. Targets of jumps
are positions in the function.
-/

namespace HostScript

inductive ArithOp where
  | add
  | sub
  | mul
  | div
  | mod
deriving DecidableEq, Repr

namespace ArithOp

def binOp : ArithOp → BinOp
  | add => .add
  | sub => .sub
  | mul => .mul
  | div => .div
  | mod => .mod

def apply : ArithOp → Float → Float → Float
  | add, a, b => a + b
  | sub, a, b => a - b
  | mul, a, b => a * b
  | div, a, b => a / b
  | mod, a, b => Number.remainder a b

end ArithOp

def StepOp.arith : StepOp → ArithOp
  | increment => .add
  | decrement => .sub

inductive Op where
  | pushNum (index : Nat)
  | pushStr (index : Nat)
  | pushBool (value : Bool)
  | pushNull
  | loadLocal (slot : Nat)
  | storeLocal (slot : Nat)
  /-- Take the first content of a new cell, which the local slot holds from then on. -/
  | makeCell (slot : Nat)
  | loadCell (slot : Nat)
  | storeCell (slot : Nat)
  | loadCapture (index : Nat)
  | storeCapture (index : Nat)
  | loadInput
  | pop
  | dup
  /-- Push the top two slots again. -/
  | dup2
  -- numbers, booleans and strings
  | arith (op : ArithOp)
  | negate
  | compareNum (op : CmpOp)
  | equalNum (negated : Bool)
  | equalBool (negated : Bool)
  | notBool
  /-- The displayed values of both operands, one after the other. -/
  | concat
  | compareStr (op : CmpOp)
  | equalStr (negated : Bool)
  | toStr
  | strLength
  /-- Equality of operands that are neither both numbers nor both booleans nor both strings. -/
  | equalRef (negated : Bool)
  -- representations
  | wrap
  /-- Fail unless the value conforms to the representation. The label names it in the failure. -/
  | check (rep : Rep) (label : Nat)
  /-- Convert a number to a kind of number of the host. -/
  | narrow (kind : NumKind)
  -- decided at run time
  | dynArith (op : ArithOp)
  | dynNegate
  | dynCompare (op : CmpOp)
  | dynEqual (negated : Bool)
  | dynGetMember (name : Nat)
  | dynSetMember (name : Nat)
  | dynGetIndex
  | dynSetIndex
  | dynCall (args : Nat)
  | dynCallMember (name : Nat) (args : Nat)
  -- records and arrays
  | newRecord (layout : Nat)
  | getField (index : Nat)
  | setField (index : Nat)
  | newArray (layout : Nat) (count : Nat)
  | getIndex
  | setIndex
  | arrayAdd
  | arrayLength
  -- members of the host
  | getHost (member : Nat)
  | setHost (member : Nat)
  | callHost (member : Nat) (args : Nat)
  /-- Call a function without a receiver. The first argument stands for it. -/
  | callStatic (member : Nat) (args : Nat)
  | getHostIndex (member : Nat)
  | setHostIndex (member : Nat)
  | bindMethod (member : Nat)
  | bindArrayAdd
  -- closures
  | makeClosure (template : Nat)
  /-- Call an entry for known argument shapes. The closure is below the arguments. -/
  | callEntry (function : Nat) (args : Nat)
  -- control
  | jump (target : Nat)
  /-- Take a boolean and jump if it is `condition`. -/
  | jumpIf (condition : Bool) (target : Nat)
  | ret
  | print
  | unreachable
deriving DecidableEq, Repr

/-- Whether the operation decides on kinds of values at run time. -/
def Op.isDynamic : Op → Bool
  | check .. | dynArith _ | dynNegate | dynCompare _ | dynEqual _ | dynGetMember _ | dynSetMember _
  | dynGetIndex | dynSetIndex | dynCall _ | dynCallMember .. => true
  | _ => false

structure Function where
  name : String
  arity : Nat
  /-- The number of local slots, parameters included. -/
  locals : Nat
  ops : Array Op
deriving DecidableEq, Repr

/-- A host member that code uses, and the representation of what it gives. -/
structure HostMember where
  member : Member
  result : Rep

/-- Where a new closure finds a cell. -/
inductive CaptureSource where
  /-- In a local slot of the function that makes the closure. -/
  | local (slot : Nat)
  /-- Among the captures of the function itself. -/
  | outer (index : Nat)
deriving DecidableEq, Repr

/-- What all closures of a lambda shape have in common. -/
structure Template where
  name : String
  /-- The shape of the lambda. -/
  shape : ShapeId
  /-- The function for arguments of any kind. -/
  generic : Nat
  arity : Nat
  captures : List CaptureSource
deriving DecidableEq, Repr

/-- The code of a script. It starts with function 0. -/
structure Code where
  functions : Array Function
  numbers : Array Float
  strings : Array String
  /-- Names of members and labels of checks. -/
  names : Array String
  records : Array RecordLayout
  arrays : Array ArrayLayout
  members : Array HostMember
  templates : Array Template
  /-- The type of the input object. -/
  input : Option HostTypeId
  /-- The number of generated operations that decide at run time. -/
  dynamicOps : Nat

namespace Code

/-- Whether some operation decides at run time. -/
def usesDynamic (code : Code) : Bool :=
  code.dynamicOps > 0

def name (code : Code) (index : Nat) : String :=
  code.names[index]?.getD "?"

end Code

/-- The representation of a value that the host gives as a type. -/
def TypeRef.rep : TypeRef → Rep
  | .number _ => .num
  | .bool => .bool
  | .string => .str
  | .host id => .host id
  | _ => .any

end HostScript
