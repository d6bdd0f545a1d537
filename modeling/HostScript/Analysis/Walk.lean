import HostScript.Analysis.Access

/-!
# Walking a script

Every expression gets a shape. A lambda is analyzed where it is called, once for each list of
argument shapes, in a layer of its own. A lambda that is called while it is under analysis is left
to run time, so the analyses nest at most as deep as there are lambdas.
-/

namespace HostScript.Analysis

/-- Analyze the body of a lambda for the shapes of its arguments, or for unknown arguments. `none`
if the lambda is under analysis already. -/
abbrev Enter := ShapeId → Option (List ShapeId) → Analyze (Option Signature)

/-! ### Operators, conditions, names -/

/-- The shape of the result of an operator, or `none` if the operands do not fit. -/
def binaryShape? (arena : Arena) (op : BinOp) (l r : ShapeId) : Option ShapeId :=
  let dynamic := arena.isDynamic l || arena.isDynamic r
  let numbers := arena.is l .number && arena.is r .number
  let strings := arena.is l .string && arena.is r .string
  match op with
  | .eq | .ne => some Arena.bool
  | .lt | .gt | .le | .ge => if dynamic || numbers || strings then some Arena.bool else none
  | .add =>
    if dynamic then some Arena.unknown
    else if arena.is l .string || arena.is r .string then some Arena.string
    else if numbers then some Arena.number
    else none
  | .sub | .mul | .div | .mod =>
    if dynamic then some Arena.unknown else if numbers then some Arena.number else none

def binary (op : BinOp) (l r : ShapeId) (span : Span) : Analyze ShapeId := do
  match binaryShape? (← get).arena op l r with
  | some shape => return shape
  | none =>
    report (.type (.operands op.symbol (← describe l) (← describe r))) span
    return if op.isOrdering then Arena.bool else Arena.unknown

/-- The shape of the result of an operator that takes a number. -/
def numeric (op : String) (operand : ShapeId) (span : Span) : Analyze ShapeId := do
  let arena := (← get).arena
  if arena.is operand .number then
    return Arena.number
  if !arena.isDynamic operand then
    report (.type (.operand op (← describe operand))) span
  return Arena.unknown

def checkCondition (shape : ShapeId) (span : Span) : Analyze Unit := do
  let arena := (← get).arena
  if !arena.isDynamic shape && !arena.is shape .bool then
    report (.type (.condition (← describe shape))) span

/-- What a name refers to, where it stands. -/
def resolve? (ctx : Context) (node : Node) (name : String) : Analyze (Option Resolution) := do
  let resolution := match (← get).scopes.find? name node.span.start with
    | some (symbol, _) => some (Resolution.local symbol)
    | none => (inputMember? ctx name).map Resolution.input
  match resolution with
  | some r => resolveNode node.id r
  | none => report (.scope (.undeclared name)) node.span
  return resolution

def ident (ctx : Context) (node : Node) (name : String) : Analyze ShapeId := do
  match ← resolve? ctx node name with
  | some (.local symbol) => readSymbol symbol
  | some (.input m) => hostMemberShape m node.span
  | none => return Arena.unknown

/-- The place that a name stands for. -/
def namedPlace (ctx : Context) (node : Node) (name : String) : Analyze Place := do
  match ← resolve? ctx node name with
  | some (.local symbol) =>
    noteUse symbol
    return .local symbol
  | some (.input m) => return .input m
  | none => return .invalid

/-! ### Calls -/

def checkArgs (owner : String) (span : Span) : Nat → List TypeRef → List ShapeId → Analyze Unit
  | i, ty :: types, value :: values => do
    checkAccepts ty value ("argument " ++ toString i) owner span
    checkArgs owner span (i + 1) types values
  | _, _, _ => return

def hostCall (m : Member) (args : List ShapeId) (span : Span) : Analyze ShapeId := do
  let params := m.callParams
  if params.length ≠ args.length then
    report (.type (.arity m.qualifiedName params.length args.length)) span
  else
    checkArgs m.qualifiedName span 1 params args
  match m.ret? with
  | some ty => inArena (·.ofType ty)
  | none => return Arena.unknown

/-- The signature of a lambda for arguments of the same shapes, if it has one. -/
def existingSignature? (arena : Arena) (l : LambdaShape) (args : List ShapeId) : Option Nat :=
  let wanted := args.map arena.resolve
  l.signatures.findIdx? fun s => s.args.map arena.resolve == wanted

/-- The shape of a call for which the body was entered. -/
def useSignature (method : ShapeId) (span : Span) : Option Signature → Analyze ShapeId
  | none => do
    warn .recursiveCall span
    return Arena.unknown
  | some signature => do
    match (← get).arena.lambda? method with
    | none => return Arena.unknown
    | some l =>
      modifyArena fun a => a.modifyLambda method fun l =>
        { l with signatures := l.signatures ++ [signature] }
      inArena (·.newCall method l.signatures.length)

/-- The result of calling a lambda. The body is analyzed if these argument shapes are new. -/
def callLambda (enter : Enter) (method : ShapeId) (l : LambdaShape) (args : List ShapeId)
    (span : Span) : Analyze ShapeId := do
  if l.paramCount ≠ args.length then
    report (.type (.lambdaArity l.paramCount args.length)) span
    return Arena.unknown
  match existingSignature? (← get).arena l args with
  | some index => inArena (·.newCall method index)
  | none => useSignature method span (← enter method (some args))

def callShape (enter : Enter) (callee : ShapeId) (args : List ShapeId) (span : Span) :
    Analyze ShapeId := do
  match (← get).arena.resolved callee with
  | .lambda l => callLambda enter callee l args span
  | .hostMethod m => hostCall m args span
  | .unknown | .undetermined => return Arena.unknown
  | _ =>
    report (.type (.notCallable (← describe callee))) span
    return Arena.unknown

/-- How the arguments of a member call are used. -/
inductive MemberCall where
  | host (member : Member)
  | add
  | dynamic
  | value (callee : ShapeId)

/-- How the target of a member call is called. The shape of the callee is recorded. -/
def memberCallTo (callee : Node) (receiver : ShapeId) (name : String) (target : MemberTarget) :
    Analyze MemberCall :=
  let asValue : Analyze MemberCall := do
    return .value (← note callee (← memberShape receiver name target callee.span))
  match target with
  | .host m | .extension m => do
    if m.isCallable then
      let _ ← note callee (← inArena (·.push (.hostMethod m)))
      return .host m
    asValue
  | .arrayAdd => do
    let _ ← note callee Arena.unknown
    return .add
  | .dynamic => do
    let _ ← note callee Arena.unknown
    return .dynamic
  | _ => asValue

def memberCall (ctx : Context) (callee : Node) (receiver : ShapeId) (name : String) :
    Analyze MemberCall := do
  memberCallTo callee receiver name (.resolve (← get).arena ctx.types receiver name)

/-- The result of a member call. -/
def memberCallShape (enter : Enter) (how : MemberCall) (receiver : ShapeId) (args : List ShapeId)
    (span : Span) : Analyze ShapeId := do
  match how with
  | .host m => hostCall m args span
  | .add =>
    match args with
    | [item] =>
      let _ ← inArena (·.writeElement receiver item)
    | _ => report (.type (.arity "add" 1 args.length)) span
    return Arena.unknown
  | .dynamic => return Arena.unknown
  | .value callee => callShape enter callee args span

/-! ### Expressions and statements -/

def literalShape : Literal → ShapeId
  | .number _ => Arena.number
  | .str _ => Arena.string
  | .bool _ => Arena.bool
  | .null => Arena.unknown

/-- The shape of a lambda literal where the analysis stands. -/
def State.lambdaShape (s : State) (node : Node) (params : List Param) : LambdaShape where
  node := node.id
  paramCount := params.length
  defScope := s.scopes.current
  bodyScope := none
  env := s.stack
  enclosing := s.enclosing
  signatures := []
  generic := none

/-- A lambda literal. Its generic analysis comes later. -/
def lambdaLiteral (node : Node) (params : List Param) : Analyze ShapeId := do
  let s ← get
  let shape ← inArena (·.push (.lambda (s.lambdaShape node params)))
  modify fun s => { s with pending := s.pending ++ [shape] }
  return shape

def checkLiterals (ctx : Context) (problem : TypeProblem) (span : Span) : Analyze Unit := do
  if !ctx.options.allowLiterals then
    report (.type problem) span

def addReturn (shape : ShapeId) : Analyze Unit :=
  modify fun s =>
    match s.returns with
    | [] => s
    | innermost :: outer => { s with returns := (innermost ++ [shape]) :: outer }

def openScope (kind : ScopeKind) : Analyze Unit :=
  modify fun s => { s with scopes := s.scopes.enter kind }

def closeScope : Analyze Unit :=
  modify fun s => { s with scopes := s.scopes.close }

mutual

def expr (ctx : Context) (enter : Enter) : Expr → Analyze ShapeId
  | .literal n value => note n (literalShape value)
  | .binary n op left right => do
    let l ← expr ctx enter left
    let r ← expr ctx enter right
    note n (← binary op l r n.span)
  | .logical n _ left right => do
    checkCondition (← expr ctx enter left) left.span
    checkCondition (← expr ctx enter right) right.span
    note n Arena.bool
  | .unary n .not operand => do
    checkCondition (← expr ctx enter operand) operand.span
    note n Arena.bool
  | .unary n .neg operand => do
    note n (← numeric "-" (← expr ctx enter operand) n.span)
  | .grouping n inner => do
    note n (← expr ctx enter inner)
  | .ident n name => do
    note n (← ident ctx n name)
  | .member n object name _ => do
    let o ← expr ctx enter object
    let target := MemberTarget.resolve (← get).arena ctx.types o name
    note n (← memberShape o name target n.span)
  | .index n object key => do
    let o ← expr ctx enter object
    let k ← expr ctx enter key
    note n (← indexShape ctx o k n.span)
  | .call n (.member callee object name _) args => do
    let receiver ← expr ctx enter object
    let how ← memberCall ctx callee receiver name
    let shapes ← exprs ctx enter args
    note n (← memberCallShape enter how receiver shapes n.span)
  | .call n callee args => do
    let c ← expr ctx enter callee
    let shapes ← exprs ctx enter args
    note n (← callShape enter c shapes n.span)
  | .lambda n params _ => do
    note n (← lambdaLiteral n params)
  | .object n props => do
    checkLiterals ctx .recordsDisallowed n.span
    let fields ← properties ctx enter {} props
    note n (← inArena (·.newRecord n.id fields))
  | .array n items => do
    checkLiterals ctx .arraysDisallowed n.span
    let element ← elements ctx enter Arena.undetermined items
    note n (← inArena (·.newArray n.id element))
  | .interpolated n ps => do
    parts ctx enter ps
    note n Arena.string

def exprs (ctx : Context) (enter : Enter) : List Expr → Analyze (List ShapeId)
  | [] => return []
  | e :: rest => do
    let shape ← expr ctx enter e
    return shape :: (← exprs ctx enter rest)

/-- The fields of a record literal, added to those before. -/
def properties (ctx : Context) (enter : Enter) (fields : OrderedMap String ShapeId) :
    List Property → Analyze (OrderedMap String ShapeId)
  | [] => return fields
  | .mk name span value :: rest => do
    let shape ← expr ctx enter value
    if fields.contains name then
      report (.type (.duplicateProperty name)) span
    properties ctx enter (fields.insert name shape) rest

/-- The shape that describes all elements. -/
def elements (ctx : Context) (enter : Enter) (element : ShapeId) : List Expr → Analyze ShapeId
  | [] => return element
  | e :: rest => do
    let shape ← expr ctx enter e
    let element ← inArena (·.derive element shape)
    elements ctx enter element rest

def parts (ctx : Context) (enter : Enter) : List Part → Analyze Unit
  | [] => return
  | .text _ :: rest => parts ctx enter rest
  | .expr value :: rest => do
    let _ ← expr ctx enter value
    parts ctx enter rest

def place (ctx : Context) (enter : Enter) : Expr → Analyze Place
  | .ident n name => namedPlace ctx n name
  | .member _ object name _ => do
    return .member (← expr ctx enter object) name
  | .index _ object key => do
    let o ← expr ctx enter object
    let k ← expr ctx enter key
    return .index o k
  | e => do
    report (.parse .invalidTarget) e.span
    return .invalid

def stmt (ctx : Context) (enter : Enter) : Stmt → Analyze Unit
  | .block _ body => do
    openScope .block
    stmts ctx enter false false body
    closeScope
  | .declare n name nameSpan init => do
    let shape ← optionalExpr ctx enter Arena.undetermined init
    declare name (.var n.id) shape nameSpan
  | .branch _ condition thenBranch elseBranch => do
    checkCondition (← expr ctx enter condition) condition.span
    stmt ctx enter thenBranch
    optionalStmt ctx enter elseBranch
  | .while _ condition body => do
    checkCondition (← expr ctx enter condition) condition.span
    stmt ctx enter body
  | .for _ init condition step body => do
    openScope .block
    optionalStmt ctx enter init
    optionalCondition ctx enter condition
    stmt ctx enter body
    optionalStmt ctx enter step
    closeScope
  | .return _ value => do
    addReturn (← optionalExpr ctx enter Arena.unknown value)
  | .print n value => do
    if !ctx.options.allowPrint then
      report (.type .printDisallowed) n.span
    let _ ← expr ctx enter value
  | .expr _ value => do
    let _ ← expr ctx enter value
  | .assign n target value => do
    let p ← place ctx enter target
    let shape ← expr ctx enter value
    store ctx p shape n.span
  | .step n target op => do
    let p ← place ctx enter target
    let current ← placeShape ctx p target.span
    record target.id current target.span
    let result ← numeric op.symbol current n.span
    store ctx p result n.span

/-- Statements in order. After a statement that always returns nothing is reached, which is said
once. -/
def stmts (ctx : Context) (enter : Enter) (returned warned : Bool) : List Stmt → Analyze Unit
  | [] => return
  | s :: rest => do
    if returned && !warned then
      warn .unreachable s.span
    stmt ctx enter s
    stmts ctx enter (returned || s.alwaysReturns) (warned || returned) rest

def optionalExpr (ctx : Context) (enter : Enter) (fallback : ShapeId) :
    Option Expr → Analyze ShapeId
  | none => return fallback
  | some e => expr ctx enter e

def optionalCondition (ctx : Context) (enter : Enter) : Option Expr → Analyze Unit
  | none => return
  | some e => do
    checkCondition (← expr ctx enter e) e.span

def optionalStmt (ctx : Context) (enter : Enter) : Option Stmt → Analyze Unit
  | none => return
  | some s => stmt ctx enter s

end

end HostScript.Analysis
