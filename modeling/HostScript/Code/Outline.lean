import HostScript.Code

/-!
# Outlines of code

Code as a JSON document. Layouts are numbered in the order in which operations mention them, and
closures by their templates, so that the outline does not depend on the numbers that analysis gave
out.
-/

namespace HostScript

open Text (Json)

namespace Outline

/-- The layouts that were mentioned, in order, and the shapes of closures. -/
structure Mentions where
  records : List Nat := []
  arrays : List Nat := []
  closures : List Nat

abbrev Mention := StateM Mentions

def place (item : Nat) (items : List Nat) : Nat × List Nat :=
  match items.findIdx? (· = item) with
  | some i => (i, items)
  | none => (items.length, items ++ [item])

def record (layout : Nat) : Mention String :=
  modifyGet fun m =>
    let (i, records) := place layout m.records
    (toString i, { m with records })

def array (layout : Nat) : Mention String :=
  modifyGet fun m =>
    let (i, arrays) := place layout m.arrays
    (toString i, { m with arrays })

def closure (shape : Nat) : Mention String :=
  modifyGet fun m =>
    let (i, closures) := place shape m.closures
    (toString i, { m with closures })

/-- A word with its arguments in parentheses. -/
def applied (word : String) (args : List String) : String :=
  if args.isEmpty then word else word ++ "(" ++ String.intercalate ", " args ++ ")"

def hostId (id : HostTypeId) : String :=
  applied "HostTypeId" [toString id]

def rep : Rep → Mention String
  | .num => return "Num"
  | .bool => return "Bool"
  | .str => return "Str"
  | .any => return "Dyn"
  | .host id => return applied "Host" [hostId id]
  | .record layout => return applied "Record" [← record layout]
  | .array layout => return applied "Array" [← array layout]
  | .closure shape => return applied "Closure" [← closure shape]

def arithWord : ArithOp → String
  | .add => "Add"
  | .sub => "Sub"
  | .mul => "Mul"
  | .div => "Div"
  | .mod => "Mod"

def cmpWord : CmpOp → String
  | .lt => "Lt"
  | .gt => "Gt"
  | .le => "Le"
  | .ge => "Ge"

def equalWord (negated : Bool) : String :=
  if negated then "Ne" else "Eq"

def check (rep : Rep) (label : String) : Mention String := do
  match rep with
  | .num => return applied "CheckNum" [label]
  | .bool => return applied "CheckBool" [label]
  | .str => return applied "CheckStr" [label]
  | .any => return applied "CheckAny" [label]
  | .host id => return applied "CheckHost" [hostId id, label]
  | .record layout => return applied "CheckRecord" [← record layout, label]
  | .array layout => return applied "CheckArray" [← array layout, label]
  | .closure shape => return applied "CheckClosure" [← closure shape, label]

/-- A word with numbers in parentheses. -/
def numbered (word : String) (args : List Nat) : Mention String :=
  return applied word (args.map toString)

def op : Op → Mention String
  | .pushNum i => numbered "PushNum" [i]
  | .pushStr i => numbered "PushStr" [i]
  | .pushBool b => return applied "PushBool" [toString b]
  | .pushNull => return "PushNull"
  | .loadLocal i => numbered "LoadLocal" [i]
  | .storeLocal i => numbered "StoreLocal" [i]
  | .makeCell i => numbered "MakeCell" [i]
  | .loadCell i => numbered "LoadCell" [i]
  | .storeCell i => numbered "StoreCell" [i]
  | .loadCapture i => numbered "LoadCapture" [i]
  | .storeCapture i => numbered "StoreCapture" [i]
  | .loadInput => return "LoadInput"
  | .pop => return "Pop"
  | .dup => return "Dup"
  | .dup2 => return "Dup2"
  | .arith o => return arithWord o ++ "Num"
  | .negate => return "NegNum"
  | .compareNum o => return applied "CmpNum" [cmpWord o]
  | .equalNum negated => return equalWord negated ++ "Num"
  | .equalBool negated => return equalWord negated ++ "Bool"
  | .notBool => return "NotBool"
  | .concat => return "ConcatStr"
  | .compareStr o => return applied "CmpStr" [cmpWord o]
  | .equalStr negated => return equalWord negated ++ "Str"
  | .toStr => return "ToStr"
  | .strLength => return "StrLen"
  | .equalRef negated => return equalWord negated ++ "Ref"
  | .wrap => return "Wrap"
  | .check r label => check r (toString label)
  | .narrow kind => return applied "Narrow" [kind.describe]
  | .dynArith o => return "Dyn" ++ arithWord o
  | .dynNegate => return "DynNeg"
  | .dynCompare o => return applied "DynCompare" [cmpWord o]
  | .dynEqual negated => return "Dyn" ++ equalWord negated
  | .dynGetMember i => numbered "DynGetMember" [i]
  | .dynSetMember i => numbered "DynSetMember" [i]
  | .dynGetIndex => return "DynGetIndex"
  | .dynSetIndex => return "DynSetIndex"
  | .dynCall n => numbered "DynCall" [n]
  | .dynCallMember i n => numbered "DynCallMember" [i, n]
  | .newRecord layout => return applied "NewRecord" [← record layout]
  | .getField i => numbered "GetField" [i]
  | .setField i => numbered "SetField" [i]
  | .newArray layout n => return applied "NewArray" [← array layout, toString n]
  | .getIndex => return "GetIndex"
  | .setIndex => return "SetIndex"
  | .arrayAdd => return "ArrayAdd"
  | .arrayLength => return "ArrayLen"
  | .getHost i => numbered "GetHost" [i]
  | .setHost i => numbered "SetHost" [i]
  | .callHost i n => numbered "CallHost" [i, n]
  | .callStatic i n => numbered "CallStatic" [i, n]
  | .getHostIndex i => numbered "GetHostIndex" [i]
  | .setHostIndex i => numbered "SetHostIndex" [i]
  | .bindMethod i => numbered "BindMethod" [i]
  | .bindArrayAdd => return "BindArrayAdd"
  | .makeClosure i => numbered "MakeClosure" [i]
  | .callEntry i n => numbered "CallSig" [i, n]
  | .jump target => numbered "Jump" [target]
  | .jumpIf true target => numbered "JumpIfTrue" [target]
  | .jumpIf false target => numbered "JumpIfFalse" [target]
  | .ret => return "Return"
  | .print => return "Print"
  | .unreachable => return "Unreachable"

def function (f : Function) : Mention Json := do
  let ops ← f.ops.toList.mapM fun o => return Json.str (← op o)
  return .object [("name", .str f.name), ("arity", .nat f.arity), ("locals", .nat f.locals),
    ("ops", .array ops)]

def member (m : HostMember) : Mention Json := do
  return .array [.str m.member.qualifiedName, .str (← rep m.result)]

def capture : CaptureSource → Json
  | .local slot => .str (applied "Local" [toString slot])
  | .outer index => .str (applied "Capture" [toString index])

def template (t : Template) : Json :=
  .object [("name", .str t.name), ("generic", .nat t.generic), ("arity", .nat t.arity),
    ("captures", .array (t.captures.map capture))]

def strings (items : Array String) : Json :=
  .array (items.toList.map Json.str)

/-- The contents of a record layout. -/
def recordFields (code : Code) (layout : Nat) : Mention Json := do
  let fields := (code.records[layout]?.map RecordLayout.fields).getD []
  return .array (← fields.mapM fun (name, r) => return Json.array [.str name, .str (← rep r)])

def arrayElement (code : Code) (layout : Nat) : Mention Json := do
  return .str (← rep ((code.arrays[layout]?.map ArrayLayout.element).getD .any))

/-- The contents of the mentioned layouts from record `i` and array `j` on, a record and an array by
turns. Contents may mention further layouts, at most all of the code. -/
def layouts (code : Code) : Nat → Nat → Nat → Mention (List Json × List Json)
  | 0, _, _ => return ([], [])
  | budget + 1, i, j => do
    let record ← match (← get).records[i]? with
      | some layout => pure [← recordFields code layout]
      | none => pure []
    let array ← match (← get).arrays[j]? with
      | some layout => pure [← arrayElement code layout]
      | none => pure []
    if record.isEmpty && array.isEmpty then
      return ([], [])
    let (records, arrays) ← layouts code budget (i + record.length) (j + array.length)
    return (record ++ records, array ++ arrays)

end Outline

def Code.outline (code : Code) : Json :=
  let action : Outline.Mention (List Json × List Json × List Json × List Json) := do
    let functions ← code.functions.toList.mapM Outline.function
    let members ← code.members.toList.mapM Outline.member
    let budget := code.records.size + code.arrays.size + 1
    let (records, arrays) ← Outline.layouts code budget 0 0
    return (functions, members, records, arrays)
  let closures := code.templates.toList.map Template.shape
  let ((functions, members, records, arrays), _) := action.run { closures }
  .object [("functions", .array functions),
    ("numbers", .array (code.numbers.toList.map fun x => .str (Number.Form.display.write x))),
    ("strings", Outline.strings code.strings), ("names", Outline.strings code.names),
    ("members", .array members),
    ("closures", .array (code.templates.toList.map Outline.template)),
    ("records", .array records), ("arrays", .array arrays),
    ("layouts", .array [.nat code.records.size, .nat code.arrays.size]),
    ("input", (code.input.map Json.nat).getD .null), ("dynamic_ops", .nat code.dynamicOps)]

end HostScript
