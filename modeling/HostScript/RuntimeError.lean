import HostScript.Number.Form
import HostScript.Text.Json
import HostScript.Value

/-!
# Failures of running scripts

A run ends in a value or in one of these errors. An internal error means that code and machine do
not fit together.
-/

namespace HostScript

open Text (Json)

/-- What did not fit in an internal error. -/
inductive Fault where
  | underflow
  | notANumber (found : Slot)
  | notABool (found : Slot)
  | notAString (typeName : String)
  | notACell
  | unknownMember
  | unknownFunction
  | unknownTemplate
  | unknownCapture
  | unknownRecordLayout
  | unknownArrayLayout
  | unreachable (function : String)
  /-- A failure of the program around the script. -/
  | outside (message : String)

/-- A slot with its structure spelled out. -/
def Slot.describe : Slot → String
  | num x => "Num(" ++ Number.Form.literal.write x ++ ")"
  | bool b => "Bool(" ++ toString b ++ ")"
  | ref .null => "Ref(Null)"
  | ref (.number x) => "Ref(Number(" ++ Number.Form.literal.write x ++ "))"
  | ref (.bool b) => "Ref(Bool(" ++ toString b ++ "))"
  | ref (.str s) => "Ref(Str(" ++ Text.quoted s ++ "))"
  | ref (.host object) => "Ref(Host(HostObject(" ++ object.typeName ++ ")))"
  | ref v => "Ref(" ++ v.typeName ++ ")"

def Fault.message : Fault → String
  | underflow => "stack underflow"
  | notANumber found => "expected a number slot, got " ++ found.describe
  | notABool found => "expected a bool slot, got " ++ found.describe
  | notAString typeName => "expected a string, got " ++ typeName
  | notACell => "local slot does not hold a cell"
  | unknownMember => "unknown host member"
  | unknownFunction => "unknown function"
  | unknownTemplate => "unknown closure template"
  | unknownCapture => "unknown capture"
  | unknownRecordLayout => "unknown record layout"
  | unknownArrayLayout => "unknown array layout"
  | unreachable function => "unreachable code in " ++ function
  | outside message => message

inductive RuntimeError where
  | incompatibleOperands (op left right : String)
  | incompatibleOperand (op operand : String)
  | typeMismatch (target expected actual : String)
  | memberNotFound (receiver member : String)
  | readOnly (member : String)
  | notCallable (callee : String)
  | arity (callee : String) (expected actual : Nat)
  | indexOutOfRange (index : Float) (length : Nat)
  | invalidIndex (receiver key : String)
  | nullReference (target : String)
  | hostFailure (member message : String)
  | stackOverflow (limit : Nat)
  | internal (fault : Fault)

namespace RuntimeError

def message : RuntimeError → String
  | incompatibleOperands op left right =>
    "Operator '" ++ op ++ "' cannot be applied to " ++ left ++ " and " ++ right
  | incompatibleOperand op operand => "Operator '" ++ op ++ "' cannot be applied to " ++ operand
  | typeMismatch target expected actual =>
    "Expected " ++ expected ++ " for '" ++ target ++ "', got " ++ actual
  | memberNotFound receiver member => receiver ++ " has no member '" ++ member ++ "'"
  | readOnly member => "Member '" ++ member ++ "' is read-only"
  | notCallable callee => callee ++ " is not callable"
  | arity callee expected actual =>
    "'" ++ callee ++ "' expects " ++ toString expected ++ " argument(s), got " ++ toString actual
  | indexOutOfRange index length =>
    "Index " ++ Number.Form.display.write index ++ " is out of range for length " ++ toString length
  | invalidIndex receiver key => "Cannot index " ++ receiver ++ " with " ++ key
  | nullReference target => "Null reference while accessing '" ++ target ++ "'"
  | hostFailure member message => "Call to '" ++ member ++ "' failed: " ++ message
  | stackOverflow limit => "Call depth exceeded " ++ toString limit
  | internal fault => "Internal error: " ++ fault.message

def code : RuntimeError → String
  | incompatibleOperands .. => "incompatible_operands"
  | incompatibleOperand .. => "incompatible_operand"
  | typeMismatch .. => "type_mismatch"
  | memberNotFound .. => "member_not_found"
  | readOnly _ => "read_only"
  | notCallable _ => "not_callable"
  | arity .. => "arity"
  | indexOutOfRange .. => "index_out_of_range"
  | invalidIndex .. => "invalid_index"
  | nullReference _ => "null_reference"
  | hostFailure .. => "host_failure"
  | stackOverflow _ => "stack_overflow"
  | internal _ => "internal"

def detail : RuntimeError → Json
  | incompatibleOperands op left right =>
    .object [("op", .str op), ("left", .str left), ("right", .str right)]
  | incompatibleOperand op operand => .object [("op", .str op), ("operand", .str operand)]
  | typeMismatch target expected actual =>
    .object [("target", .str target), ("expected", .str expected), ("actual", .str actual)]
  | memberNotFound receiver member =>
    .object [("receiver", .str receiver), ("member", .str member)]
  | readOnly member => .object [("member", .str member)]
  | notCallable callee => .object [("callee", .str callee)]
  | arity callee expected actual =>
    .object [("callee", .str callee), ("expected", .nat expected), ("actual", .nat actual)]
  | indexOutOfRange index length =>
    .object [("index", .number (Number.Form.json.write index)), ("len", .nat length)]
  | invalidIndex receiver key => .object [("receiver", .str receiver), ("key", .str key)]
  | nullReference target => .object [("target", .str target)]
  | hostFailure member message => .object [("member", .str member), ("message", .str message)]
  | stackOverflow limit => .nat limit
  | internal fault => .str fault.message

def toJson (e : RuntimeError) : Json :=
  .object [("code", .str e.code), ("detail", e.detail)]

end RuntimeError

end HostScript
