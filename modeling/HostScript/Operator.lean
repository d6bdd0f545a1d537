import HostScript.Script
import HostScript.RuntimeError
import HostScript.Value.Text

/-!
# Operators on values

What the operators of scripts do when the kinds of their operands are only known at run time. A
sum with a string on either side is the concatenation of the displayed operands.
-/

namespace HostScript

inductive CmpOp where
  | lt
  | gt
  | le
  | ge
deriving DecidableEq, Repr

namespace CmpOp

def symbol : CmpOp → String
  | lt => "<"
  | gt => ">"
  | le => "<="
  | ge => ">="

def testNumbers : CmpOp → Float → Float → Bool
  | lt, a, b => a < b
  | gt, a, b => b < a
  | le, a, b => a ≤ b
  | ge, a, b => b ≤ a

/-- Strings are ordered by code points. -/
def testStrings : CmpOp → String → String → Bool
  | lt, a, b => a < b
  | gt, a, b => b < a
  | le, a, b => !(b < a)
  | ge, a, b => !(a < b)

end CmpOp

namespace Operator

/-- The number that an arithmetic operator gives. -/
def numbers? : BinOp → Float → Float → Option Float
  | .add, a, b => some (a + b)
  | .sub, a, b => some (a - b)
  | .mul, a, b => some (a * b)
  | .div, a, b => some (a / b)
  | .mod, a, b => some (Number.remainder a b)
  | _, _, _ => none

def incompatible (op : String) (left right : Value) : RuntimeError :=
  .incompatibleOperands op left.typeName right.typeName

def isString : Value → Bool
  | .str _ => true
  | _ => false

def arith (h : Heap) (op : BinOp) (left right : Value) : Except RuntimeError Value :=
  match left, right with
  | .number a, .number b =>
    match numbers? op a b with
    | some x => .ok (.number x)
    | none => .error (incompatible op.symbol left right)
  | _, _ =>
    if op = .add && (isString left || isString right) then
      .ok (.str (left.display h ++ right.display h))
    else .error (incompatible op.symbol left right)

def negate : Value → Except RuntimeError Value
  | .number x => .ok (.number (-x))
  | v => .error (.incompatibleOperand "-" v.typeName)

/-- Two numbers or two strings are ordered. -/
def compare (op : CmpOp) (left right : Value) : Except RuntimeError Bool :=
  match left, right with
  | .number a, .number b => .ok (op.testNumbers a b)
  | .str a, .str b => .ok (op.testStrings a b)
  | _, _ => .error (incompatible op.symbol left right)

end Operator

/-- Check and convert a value that goes to the host as a given type. Numbers are narrowed to the
kind of number that the host keeps. -/
def TypeRef.coerce (target : String) : TypeRef → Value → Except RuntimeError Value
  | .number kind, .number x => .ok (.number (kind.narrow x))
  | .bool, .bool b => .ok (.bool b)
  | .string, .str s => .ok (.str s)
  | .host id, .host object =>
    if object.typeId = id then .ok (.host object) else mismatch (.host id) (.host object)
  | .host _, .null => .ok .null
  | .generic .nullable _, .null => .ok .null
  | .generic .nullable [], v => .ok v
  | .generic .nullable (inner :: _), v => coerce target inner v
  | .number kind, v => mismatch (.number kind) v
  | .bool, v => mismatch .bool v
  | .string, v => mismatch .string v
  | .host id, v => mismatch (.host id) v
  | .array, .array a => .ok (.array a)
  | .array, .null => .ok .null
  | .generic _ _, .array a => .ok (.array a)
  | .generic _ _, .null => .ok .null
  | .record, .record r => .ok (.record r)
  | .record, .null => .ok .null
  | .array, v => mismatch .array v
  | .generic container args, v => mismatch (.generic container args) v
  | .record, v => mismatch .record v
  | _, v => .ok v
where
  mismatch (ty : TypeRef) (v : Value) : Except RuntimeError Value :=
    .error (.typeMismatch target ty.display v.typeName)

end HostScript
