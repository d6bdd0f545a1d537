import HostScript.Code.Access

/-!
# Code for expressions and statements

Code is generated for a known position in its function, at which it starts, so that the targets of
jumps are known. Every expression tells the representation of what it leaves on the stack, and is
converted where another one is needed.
-/

namespace HostScript.Generate

/-! ### Operators and literals -/

def orderOp (op : CmpOp) (l r : Rep) : Op :=
  if l = .num && r = .num then .compareNum op
  else if l = .str && r = .str then .compareStr op
  else .dynCompare op

def equalOp (negated : Bool) (l r : Rep) : Op :=
  if l = .any || r = .any then .dynEqual negated
  else
    match l, r with
    | .num, .num => .equalNum negated
    | .bool, .bool => .equalBool negated
    | .str, .str => .equalStr negated
    | _, _ => .equalRef negated

def arithOp (op : ArithOp) (l r : Rep) : Op × Rep :=
  if l = .num && r = .num then (.arith op, .num) else (.dynArith op, .any)

/-- A sum with a string on either side is a concatenation. -/
def addOp (l r : Rep) : Op × Rep :=
  if l ≠ .any && r ≠ .any && (l = .str || r = .str) then (.concat, .str) else arithOp .add l r

def binaryOp (op : BinOp) (l r : Rep) : Op × Rep :=
  match op with
  | .add => addOp l r
  | .sub => arithOp .sub l r
  | .mul => arithOp .mul l r
  | .div => arithOp .div l r
  | .mod => arithOp .mod l r
  | .eq => (equalOp false l r, .bool)
  | .ne => (equalOp true l r, .bool)
  | .lt => (orderOp .lt l r, .bool)
  | .gt => (orderOp .gt l r, .bool)
  | .le => (orderOp .le l r, .bool)
  | .ge => (orderOp .ge l r, .bool)

def literal : Literal → Generate Fragment
  | .number x => return ⟨[← pushNumber x], .num⟩
  | .str s => return ⟨[← pushString s], .str⟩
  | .bool b => return ⟨[.pushBool b], .bool⟩
  | .null => return ⟨[.pushNull], .any⟩

/-- Short-circuit code: the right side decides unless the left side is `stop`. -/
def shortCircuit (start : Nat) (stop : Bool) (left right : List Op) : List Op :=
  left ++ [.dup, .jumpIf stop (start + left.length + 3 + right.length), .pop] ++ right

def ident (b : Body) (node : Node) : Generate Fragment := do
  match b.analysis.resolutions.get? node.id with
  | some (.local symbol) => loadSymbol b symbol node.span
  | some (.input m) =>
    let value ← hostMember m
    return ⟨.loadInput :: value.ops, value.rep⟩
  | none => fail .unresolvedName node.span

/-! ### Lambdas -/

/-- Where a new closure finds the cell of a symbol. -/
def captureSource (b : Body) (span : Span) (symbol : Symbol) : Generate CaptureSource := do
  match (← get).locals.get? symbol with
  | some storage =>
    if storage.inCell then return .local storage.slot else fail .capturedNotBoxed span
  | none =>
    return .outer (← orFail (b.captures.findIdx? (· = symbol)) .capturedNotInScope span)

/-- The template of a lambda literal. -/
def template (b : Body) (node : Node) (arity : Nat) (lambda : ShapeId) : Generate Nat := do
  match (← get).templateOf.get? lambda with
  | some index => return index
  | none =>
    let symbols := (b.analysis.captures.get? node.id).getD []
    let captures ← symbols.mapM (captureSource b node.span)
    let lambdaName := "lambda#" ++ toString node.id
    let generic ← newFunction (lambdaName ++ "/generic") arity
    modify fun t => { t with functionOf := t.functionOf.insert (lambda, .generic) generic }
    if (← get).escaped.contains lambda then
      addJob { function := generic, lambda, entry := .generic }
    modifyGet fun t =>
      (t.templates.length, { t with
        templates := t.templates ++
          [{ name := lambdaName, shape := lambda, generic, arity, captures }]
        templateOf := t.templateOf.insert lambda t.templates.length })

def closure (b : Body) (node : Node) (arity : Nat) : Generate Fragment := do
  let lambda := b.analysis.arena.resolve (b.shape node.id)
  return ⟨[.makeClosure (← template b node arity lambda)], .closure lambda⟩

/-! ### Calls -/

/-- The visible layers and the representations of the parameters of an entry. -/
def entryFrame (b : Body) (lambda : ShapeId) (entry : Entry) (span : Span) :
    Generate (List LayerId × List Rep) := do
  let l ← orFail (b.analysis.arena.lambda? lambda) .notALambda span
  let signature := match entry with
    | .signature index => l.signatures[index]?
    | .generic => l.generic
  let signature ← orFail signature .missingSignature span
  let literal ← orFail (b.script.lambda? l.node) .lambdaNotFound span
  let stack := l.env ++ [signature.layer]
  return (stack, literal.params.map fun p => b.repOf (b.analysis.shape stack p.node.id))

/-- How an argument is converted, by its position. -/
abbrev ConvertArg := Nat → Fragment → Generate (List Op)

def convertArgs (b : Body) (rep : Rep) (label : String) : ConvertArg :=
  fun _ arg => as b arg rep label

def convertHostArgs (b : Body) (m : Member) : ConvertArg :=
  fun i arg => do
    match m.callParams[i]? with
    | some ty =>
      let label := "argument " ++ toString (i + 1) ++ " of '" ++ m.qualifiedName ++ "'"
      return arg.ops ++ (← hostValue b ty arg.rep label)
    | none => as b arg .any "argument"

def convertEntryArgs (b : Body) (params : List Rep) : ConvertArg :=
  fun i arg => as b arg (params[i]?.getD .any) "argument"

/-- Convert the receiver for a call of a host member. -/
def hostReceiver (b : Body) (m : Member) (given : Rep) : Generate (List Op) := do
  match m.kind with
  | .function (ty :: _) _ => hostValue b ty given "receiver"
  | .function [] _ => convert b given .any "receiver"
  | _ => return []

/-- Call a host member. The receiver and the arguments are on the stack. -/
def callHostMember (m : Member) (args : Nat) : Generate Fragment := do
  let result := (m.ret?.map TypeRef.rep).getD .any
  let index ← member m result
  return ⟨[if m.isExtension then .callStatic index (args + 1) else .callHost index args], result⟩

/-- How the callee of a call is used. -/
inductive Callee where
  /-- A host member of the object. -/
  | host (member : Member)
  /-- The `add` of an array. -/
  | add
  /-- A member that is found at run time. -/
  | dynamic
  /-- A value. -/
  | value

def memberCallee (b : Body) (object : NodeId) (memberName : String) : Callee :=
  match target b object memberName with
  | .host m | .extension m => if m.isCallable then .host m else .value
  | .arrayAdd => .add
  | .dynamic => .dynamic
  | _ => .value

/-- The host method that a name calls on the input. -/
def inputMethod? (b : Body) : Expr → Option Member
  | .ident n _ =>
    match b.analysis.resolutions.get? n.id with
    | some (.input m) => if m.isCallable then some m else none
    | _ => none
  | _ => none

/-- A call of a known lambda with a known signature. -/
structure EntryCall where
  lambda : ShapeId
  signature : Nat
  params : List Rep

/-- Whether a call is one of a known lambda. -/
def entryCall? (b : Body) (call : Node) (callee : NodeId) : Generate (Option EntryCall) := do
  let arena := b.analysis.arena
  match arena.get (b.shape call.id) with
  | .callResult method signature =>
    let lambda := arena.resolve method
    if arena.resolve (b.shape callee) = lambda then
      let (_, params) ← entryFrame b lambda (.signature signature) call.span
      return some { lambda, signature, params }
    return none
  | _ => return none

/-- The representation in which a called value is needed. -/
def calleeRep : Option EntryCall → Rep
  | some call => .closure call.lambda
  | none => .any

def convertCallArgs (b : Body) : Option EntryCall → ConvertArg
  | some call => convertEntryArgs b call.params
  | none => convertArgs b .any "argument"

/-- Call the value below the arguments. -/
def callValue (b : Body) (args : Nat) : Option EntryCall → Generate Fragment
  | some call => do
    let function ← signatureFunction call.lambda call.signature args
    let ret := (b.analysis.arena.signature? call.lambda call.signature).map Signature.ret
    return ⟨[.callEntry function args], (ret.map b.repOf).getD .any⟩
  | none => return ⟨[.dynCall args], .any⟩

/-! ### Trees -/

mutual

def expr (b : Body) (start : Nat) : Expr → Generate Fragment
  | .literal _ value => literal value
  | .binary _ op left right => do
    let l ← expr b start left
    let r ← expr b (start + l.ops.length) right
    let (op, rep) := binaryOp op l.rep r.rep
    return ⟨l.ops ++ r.ops ++ [op], rep⟩
  | .logical _ op left right => do
    let l ← as b (← expr b start left) .bool "condition"
    let r ← as b (← expr b (start + l.length + 3) right) .bool "condition"
    return ⟨shortCircuit start (op = .or) l r, .bool⟩
  | .unary _ .not operand => do
    let o ← as b (← expr b start operand) .bool "condition"
    return ⟨o ++ [.notBool], .bool⟩
  | .unary _ .neg operand => do
    let o ← expr b start operand
    return if o.rep = .num then ⟨o.ops ++ [.negate], .num⟩ else ⟨o.ops ++ [.dynNegate], .any⟩
  | .grouping _ inner => expr b start inner
  | .ident n _ => ident b n
  | .member n object memberName _ => do
    let found := target b object.id memberName
    checkMember found memberName n.span
    memberValue b object.id (← expr b start object) memberName found
  | .index _ object key => do
    let how ← indexTarget b object.id key.span
    let (rep, label) := how.object
    let o ← as b (← expr b start object) rep label
    let k ← indexKey b (← expr b (start + o.length) key) how
    let value ← indexValue b how
    return ⟨o ++ k ++ value.ops, value.rep⟩
  | .call n (.member c object memberName _) args => do
    match memberCallee b object.id memberName with
    | .host m =>
      let o ← expr b start object
      let receiver ←
        if m.isExtension then
          pure (o.ops ++ (← hostReceiver b m o.rep))
        else as b o (b.rep object.id) "receiver"
      let passed ← arguments b (convertHostArgs b m) 0 (start + receiver.length) args
      let call ← callHostMember m args.length
      return ⟨receiver ++ passed ++ call.ops, call.rep⟩
    | .add =>
      let array := b.rep object.id
      let o ← as b (← expr b start object) array "array"
      let convert := convertArgs b (elementRep b array) "element"
      let passed ← arguments b convert 0 (start + o.length) args
      return ⟨o ++ passed ++ [.arrayAdd], .any⟩
    | .dynamic =>
      let o ← as b (← expr b start object) .any "receiver"
      let passed ← arguments b (convertArgs b .any "argument") 0 (start + o.length) args
      return ⟨o ++ passed ++ [.dynCallMember (← name memberName) args.length], .any⟩
    | .value =>
      let known ← entryCall? b n c.id
      let found := target b object.id memberName
      checkMember found memberName c.span
      let value ← memberValue b object.id (← expr b start object) memberName found
      let f ← as b value (calleeRep known) "callee"
      let passed ← arguments b (convertCallArgs b known) 0 (start + f.length) args
      let call ← callValue b args.length known
      return ⟨f ++ passed ++ call.ops, call.rep⟩
  | .call n callee args => do
    match inputMethod? b callee with
    | some m =>
      let receiver ← hostReceiver b m ((b.analysis.input.map Rep.host).getD .any)
      let passed ← arguments b (convertHostArgs b m) 0 (start + 1 + receiver.length) args
      let call ← callHostMember m args.length
      return ⟨.loadInput :: receiver ++ passed ++ call.ops, call.rep⟩
    | none =>
      let known ← entryCall? b n callee.id
      let f ← as b (← expr b start callee) (calleeRep known) "callee"
      let passed ← arguments b (convertCallArgs b known) 0 (start + f.length) args
      let call ← callValue b args.length known
      return ⟨f ++ passed ++ call.ops, call.rep⟩
  | .lambda n params _ => closure b n params.length
  | .object n props => do
    match b.rep n.id with
    | .record layout =>
      let fields ← properties b layout (start + 1) props
      return ⟨.newRecord layout :: fields, .record layout⟩
    | _ => fail .noRecordLayout n.span
  | .array n items => do
    match b.rep n.id with
    | .array layout =>
      let convert := convertArgs b (b.layouts.element layout) "element"
      let elements ← arguments b convert 0 start items
      return ⟨elements ++ [.newArray layout items.length], .array layout⟩
    | _ => fail .noArrayLayout n.span
  | .interpolated _ [] => return ⟨[← pushString ""], .str⟩
  | .interpolated _ ps => do
    let ops ← parts b start ps
    return ⟨ops ++ List.replicate (ps.length - 1) .concat, .str⟩

/-- Values one after the other, from argument number `i` on. -/
def arguments (b : Body) (convert : ConvertArg) (i start : Nat) : List Expr → Generate (List Op)
  | [] => return []
  | e :: rest => do
    let first ← convert i (← expr b start e)
    return first ++ (← arguments b convert (i + 1) (start + first.length) rest)

/-- Set the fields of the new record on top of the stack. -/
def properties (b : Body) (layout start : Nat) : List Property → Generate (List Op)
  | [] => return []
  | .mk fieldName span value :: rest => do
    let (index, rep) ← orFail (b.layouts.field? layout fieldName) .fieldNotInLayout span
    let v ← as b (← expr b (start + 1) value) rep fieldName
    let first := .dup :: v ++ [.setField index]
    return first ++ (← properties b layout (start + first.length) rest)

/-- The parts of an interpolated string, as strings. -/
def parts (b : Body) (start : Nat) : List Part → Generate (List Op)
  | [] => return []
  | .text s :: rest => do
    let op ← pushString s
    return op :: (← parts b (start + 1) rest)
  | .expr value :: rest => do
    let v ← expr b start value
    let first := if v.rep = .str then v.ops else v.ops ++ [.toStr]
    return first ++ (← parts b (start + first.length) rest)

/-- The place of a target and the code for what it needs on the stack. -/
def place (b : Body) (start : Nat) : Expr → Generate (CodePlace × List Op)
  | .ident n _ => do
    let p ← namedPlace b n
    match p with
    | .input _ => return (p, [.loadInput])
    | _ => return (p, [])
  | .member n object memberName _ => do
    let p ← memberPlace b object.id memberName n.span
    let (rep, label) := p.receiver
    return (p, ← as b (← expr b start object) rep label)
  | .index n object key => do
    let how ← indexTarget b object.id n.span
    let (rep, label) := how.object
    let o ← as b (← expr b start object) rep label
    let k ← indexKey b (← expr b (start + o.length) key) how
    return (indexPlace b how, o ++ k)
  | e => fail .invalidTarget e.span

def stmt (b : Body) (start : Nat) : Stmt → Generate (List Op)
  | .block _ body => stmts b start body
  | .declare n variableName _ init => do
    let storage ← declareLocal b (.var n.id)
    if storage.inCell then
      -- the cell exists before the first value, so that a lambda in it can refer to itself
      let cell := [← pushZero storage.rep, .makeCell storage.slot]
      match init with
      | some e =>
        let v ← as b (← expr b (start + 2) e) storage.rep variableName
        return cell ++ v ++ [.storeCell storage.slot]
      | none => return cell
    else
      match init with
      | some e =>
        let v ← as b (← expr b start e) storage.rep variableName
        return v ++ [.storeLocal storage.slot]
      | none => return [← pushZero storage.rep, .storeLocal storage.slot]
  | .branch _ condition thenBranch none => do
    let c ← as b (← expr b start condition) .bool "condition"
    let t ← stmt b (start + c.length + 1) thenBranch
    return c ++ .jumpIf false (start + c.length + 1 + t.length) :: t
  | .branch _ condition thenBranch (some elseBranch) => do
    let c ← as b (← expr b start condition) .bool "condition"
    let t ← stmt b (start + c.length + 1) thenBranch
    let otherwise := start + c.length + 1 + t.length + 1
    let e ← stmt b otherwise elseBranch
    return c ++ .jumpIf false otherwise :: t ++ .jump (otherwise + e.length) :: e
  | .while _ condition body => do
    let c ← as b (← expr b start condition) .bool "condition"
    let body ← stmt b (start + c.length + 1) body
    return c ++ .jumpIf false (start + c.length + 1 + body.length + 1) :: body ++ [.jump start]
  | .for _ init condition step body => do
    let i ← optionalStmt b start init
    let again := start + i.length
    let c ← optionalCondition b again condition
    let inside := again + (c.map fun c => c.length + 1).getD 0
    let body ← stmt b inside body
    let s ← optionalStmt b (inside + body.length) step
    let stop := inside + body.length + s.length + 1
    let guard := (c.map fun c => c ++ [Op.jumpIf false stop]).getD []
    return i ++ guard ++ body ++ s ++ [.jump again]
  | .return _ value => do
    match value with
    | some e =>
      let v ← as b (← expr b start e) b.ret "return value"
      return v ++ [.ret]
    | none =>
      return .pushNull :: (← convert b .any b.ret "return value") ++ [.ret]
  | .print _ value => do
    return (← expr b start value).ops ++ [.print]
  | .expr _ value => do
    return (← expr b start value).ops ++ [.pop]
  | .assign _ target value => do
    let (p, receiver) ← place b start target
    let v ← expr b (start + receiver.length) value
    return receiver ++ v.ops ++ (← storePlace b v.rep target.span p)
  | .step _ target op => do
    let (p, receiver) ← place b start target
    let current ← loadPlace b target.span p
    let one ← pushNumber 1.0
    let (op, rep) := arithOp op.arith current.rep .num
    let store ← storePlace b rep target.span p
    return receiver ++ p.again ++ current.ops ++ [one, op] ++ store

def stmts (b : Body) (start : Nat) : List Stmt → Generate (List Op)
  | [] => return []
  | s :: rest => do
    let first ← stmt b start s
    return first ++ (← stmts b (start + first.length) rest)

def optionalStmt (b : Body) (start : Nat) : Option Stmt → Generate (List Op)
  | none => return []
  | some s => stmt b start s

def optionalCondition (b : Body) (start : Nat) : Option Expr → Generate (Option (List Op))
  | none => return none
  | some e => do
    return some (← as b (← expr b start e) .bool "condition")

end

end HostScript.Generate
