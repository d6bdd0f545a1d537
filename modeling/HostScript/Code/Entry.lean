import HostScript.Code.Generation

/-!
# Entries

The code of a script starts with its root. The entries of lambdas follow from a queue: one for
each signature that some call uses, and the generic entry of each lambda whose closures escape.
-/

namespace HostScript

/-- A function gets its code. The operations in it that decide at run time are counted. -/
def Tables.setFunction (t : Tables) (index : Nat) (f : Function) : Tables :=
  { t with
    functions := t.functions.setIfInBounds index f
    dynamicOps := t.dynamicOps + f.ops.countP Op.isDynamic }

namespace Generate

def setFunction (index : Nat) (f : Function) : Generate Unit :=
  modify fun t => t.setFunction index f

/-- Start a function without local variables. -/
def clearLocals : Generate Unit :=
  modify fun t => { t with locals := {}, localCount := 0 }

def root (b : Body) : Generate Unit := do
  let _ ← newFunction "<root>" 0
  let ops ← stmts b 0 b.script.body
  let locals := slotNumber (← get).localCount
  let ops := ops ++ [.pushNull, .ret]
  setFunction 0 { name := "<root>", arity := 0, locals, ops := ops.toArray }

/-- Give the parameters their slots. A captured one moves into a cell. -/
def declareParams (b : Body) (lambda : NodeId) : Nat → List Param → List Rep → Generate (List Op)
  | index, p :: params, rep :: reps => do
    let symbol := Symbol.parameter lambda index p.node.id
    let inCell := b.analysis.captured.contains symbol
    let slot := slotNumber index
    modify fun t => { t with locals := t.locals.insert symbol { slot, rep, inCell } }
    let ops := if inCell then [Op.loadLocal slot, .makeCell slot] else []
    return ops ++ (← declareParams b lambda (index + 1) params reps)
  | _, _, _ => return []

/-- The code of a body. A body that may end without a return gives null. -/
def lambdaBody (b : Body) (start : Nat) : LambdaBody → Generate (List Op)
  | .expr value => do
    return (← as b (← expr b start value) b.ret "return value") ++ [.ret]
  | .block body => do
    let ops ← stmts b start body
    if Stmt.anyReturns body then
      return ops ++ [.unreachable]
    else
      return ops ++ .pushNull :: (← convert b .any b.ret "return value") ++ [.ret]

/-- What an entry gives back. -/
def Entry.ret (b : Body) (l : LambdaShape) : Entry → Rep
  | .signature index => b.repOf ((l.signatures[index]?.map Signature.ret).getD Arena.unknown)
  | .generic => .any

def Entry.suffix : Entry → String
  | .signature index => "sig" ++ toString index
  | .generic => "generic"

/-- Generate the code of an entry. -/
def job (b : Body) (j : Job) : Generate Unit := do
  let l ← orFail (b.analysis.arena.lambda? j.lambda) .entryNotALambda ⟨0, 0⟩
  let literal ← orFail (b.script.lambda? l.node) .lambdaNotFound ⟨0, 0⟩
  let (stack, reps) ← entryFrame b j.lambda j.entry ⟨0, 0⟩
  let b := { b with
    stack
    ret := Entry.ret b l j.entry
    captures := (b.analysis.captures.get? l.node).getD [] }
  clearLocals
  let cells ← declareParams b l.node 0 literal.params reps
  let arity := literal.params.length
  modify fun t => { t with localCount := arity }
  let ops ← lambdaBody b cells.length literal.body
  let locals := slotNumber (← get).localCount
  setFunction j.function {
    name := "lambda#" ++ toString l.node ++ "/" ++ Entry.suffix j.entry
    arity
    locals
    ops := (cells ++ ops).toArray }

/-- Generate the code of the entries in the queue and of those that they ask for. -/
def drain (b : Body) : Nat → Generate Unit
  | 0 => return
  | budget + 1 => do
    match (← get).jobs with
    | [] => return
    | j :: rest =>
      modify fun t => { t with jobs := rest }
      job b j
      drain b budget

/-- The number of entries of all lambdas. Each is generated at most once. -/
def entryCount (arena : Arena) : Nat :=
  arena.shapes.foldl (fun n shape =>
    match shape with
    | .lambda l => n + l.signatures.length + 1
    | _ => n) 0

end Generate

def Tables.code (t : Tables) (layouts : Layouts) (input : Option HostTypeId) : Code where
  functions := t.functions
  numbers := t.numbers.toArray
  strings := t.strings.toArray
  names := t.names.toArray
  records := layouts.recordLayouts
  arrays := layouts.arrayLayouts
  members := t.members.toArray
  templates := t.templates.toArray
  input := input
  dynamicOps := t.dynamicOps

/-- Generate the code of an analyzed script. -/
def Analysis.generate (analysis : Analysis) (script : Script) (types : Registry) :
    Except Problem Code := do
  let b : Body := { script, analysis, types, layouts := .ofAnalysis analysis }
  let action : Generate Unit := do
    Generate.root b
    Generate.drain b (Generate.entryCount analysis.arena)
  let (_, t) ← action.run {}
  return t.code b.layouts analysis.input

end HostScript
