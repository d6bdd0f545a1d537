import HostScript.Machine.Frame

/-!
# The machine

The machine runs code. `step` does one operation of the innermost frame, and `run` repeats it.
Calls between functions of the script add frames, at most as many as the setting allows.
-/

namespace HostScript.Machine

/-- What stays the same during a run of code. -/
structure Setting (σ : Type) where
  env : Env σ
  code : Code
  /-- The input object, or null. -/
  input : Value
  maxDepth : Nat

/-- What an operation does to control. -/
inductive Flow where
  /-- Go on in the same frame. -/
  | next
  | call (callee : Frame)
  | return (result : Slot)

variable {σ : Type}

open Exec

/-! ### Checks -/

/-- The value as it is held with a representation. -/
def checked (rep : Rep) (expected target : String) (v : Value) : Exec σ Slot := do
  match v.slot? (← heap) rep with
  | some slot => return slot
  | none => throw (.typeMismatch target expected v.typeName)

/-- How failures name what a check expects. -/
def expectedName (types : Snapshot) : Rep → String
  | .host id => Dynamic.typeName types id
  | rep => rep.name

def hostMember (m : Setting σ) (index : Nat) : Exec σ HostMember :=
  orFault m.code.members[index]? .unknownMember

def hostReceiver (h : HostMember) : Value → Exec σ HostObject
  | .host object => return object
  | _ => throw (.nullReference h.member.qualifiedName)

/-- Push what a host member gave, if it is what code expects. -/
def pushResult (h : HostMember) (v : Value) : Exec σ Unit := do
  push (← checked h.result h.result.name h.member.qualifiedName v)

/-! ### Operations by kind -/

/-- Take two operands, the right one first. -/
def operands {α : Type} (popOne : Exec σ α) : Exec σ (α × α) := do
  let right ← popOne
  let left ← popOne
  return (left, right)

def pushEqual (negated equal : Bool) : Exec σ Unit :=
  push (.bool (equal != negated))

def popRecord : Exec σ RecordRef := do
  match ← popValue with
  | .record r => return r
  | _ => throw (.nullReference "field")

def popArray (target : String) : Exec σ (ArrayRef × ArrayObject) := do
  match ← popValue with
  | .array a => return (a, (← heap).arrays[a]?.getD { layout := ⟨hostLayout, .any⟩, items := #[] })
  | _ => throw (.nullReference target)

def newRecord (m : Setting σ) (layout : Nat) : Exec σ Unit := do
  let layout ← orFault m.code.records[layout]? .unknownRecordLayout
  let fields := (layout.fields.map fun (_, rep) => rep.zero).toArray
  pushValue (← alloc fun h => h.newRecord { layout, fields })

def newArray (m : Setting σ) (layout count : Nat) : Exec σ Unit := do
  let layout ← orFault m.code.arrays[layout]? .unknownArrayLayout
  let items ← popMany count
  pushValue (← alloc fun h => h.newArray { layout, items := items.toArray })

def getField (index : Nat) : Exec σ Unit := do
  let r ← popRecord
  push (← orFault ((← heap).records[r]?.bind fun o => o.fields[index]?) .underflow)

def setField (index : Nat) : Exec σ Unit := do
  let content ← pop
  let r ← popRecord
  modifyHeap fun h => h.setField r index content

def getIndex : Exec σ Unit := do
  let index ← popNum
  let (_, o) ← popArray "[]"
  let i ← inWorld (Dynamic.position index o.items.size)
  push (o.items[i]?.getD (.ref .null))

def setIndex : Exec σ Unit := do
  let content ← pop
  let index ← popNum
  let (a, o) ← popArray "[]"
  let i ← inWorld (Dynamic.position index o.items.size)
  modifyHeap fun h => h.setItem a i content

def arrayAdd : Exec σ Unit := do
  let content ← pop
  let (a, _) ← popArray "add"
  modifyHeap fun h => h.addItem a content
  pushValue .null

def getHost (m : Setting σ) (index : Nat) : Exec σ Unit := do
  let h ← hostMember m index
  let object ← hostReceiver h (← popValue)
  let v ← inWorld (h.member.read m.env.code object)
  pushResult h v

def setHost (m : Setting σ) (index : Nat) : Exec σ Unit := do
  let h ← hostMember m index
  let v ← popValue
  let object ← hostReceiver h (← popValue)
  let v ← match h.member.valueType? with
    | some ty => ofExcept (ty.coerce h.member.qualifiedName v)
    | none => pure v
  inWorld (h.member.write m.env.code object v)

def callHost (m : Setting σ) (index args : Nat) : Exec σ Unit := do
  let h ← hostMember m index
  let args ← popValues args
  let object ← hostReceiver h (← popValue)
  let v ← inWorld (h.member.call m.env.code (some object) args)
  pushResult h v

def callStatic (m : Setting σ) (index args : Nat) : Exec σ Unit := do
  let h ← hostMember m index
  let args ← popValues args
  let v ← inWorld (h.member.call m.env.code none args)
  pushResult h v

def getHostIndex (m : Setting σ) (index : Nat) : Exec σ Unit := do
  let h ← hostMember m index
  let key ← popValue
  let object ← hostReceiver h (← popValue)
  let v ← inWorld (h.member.readIndex m.env.code object key)
  pushResult h v

def setHostIndex (m : Setting σ) (index : Nat) : Exec σ Unit := do
  let h ← hostMember m index
  let v ← popValue
  let key ← popValue
  let target ← popValue
  let v ← match h.member.kind with
    | .indexer _ ty _ => ofExcept (ty.coerce (Dynamic.indexLabel h.member) v)
    | _ => pure v
  let object ← hostReceiver h target
  inWorld (h.member.writeIndex m.env.code object key v)

/-! ### Closures and calls -/

def captureOf : CaptureSource → Exec σ CellRef
  | .local slot => localCell slot
  | .outer index => captureCell index

def makeClosure (m : Setting σ) (index : Nat) : Exec σ Unit := do
  let template ← orFault m.code.templates[index]? .unknownTemplate
  let captures ← template.captures.mapM captureOf
  pushValue (← alloc fun h => h.newClosure { template := index, shape := template.shape, captures })

/-- The frame of a call to a function. -/
def entryFrame (m : Setting σ) (function : Nat) (args : List Slot) (captures : List CellRef)
    (erases : Bool) : Exec σ Frame := do
  let f ← orFault m.code.functions[function]? .unknownFunction
  return Frame.enter f args captures erases

def closureOf (c : ClosureRef) : Exec σ Closure := do
  orFault (← heap).closures[c]? .unknownTemplate

/-- Enter a closure with arguments of any kind. -/
def genericFrame (m : Setting σ) (c : ClosureRef) (args : List Value) : Exec σ Frame := do
  let closure ← closureOf c
  let template ← orFault m.code.templates[closure.template]? .unknownTemplate
  if args.length ≠ template.arity then
    throw (.arity template.name template.arity args.length)
  entryFrame m template.generic (args.map Slot.ref) closure.captures true

/-- Call a value. Closures get a frame, and other calls are done at once. -/
def callValue (m : Setting σ) (callee : Value) (args : List Value) : Exec σ Flow := do
  match callee with
  | .closure c => return .call (← genericFrame m c args)
  | _ =>
    pushValue (← inWorld (Dynamic.callMethod m.env callee args))
    return .next

/-- Call an entry of the closure below the arguments. -/
def callEntry (m : Setting σ) (function args : Nat) : Exec σ Flow := do
  let args ← popMany args
  match ← popValue with
  | .closure c =>
    let closure ← closureOf c
    return .call (← entryFrame m function args closure.captures false)
  | other => throw (.notCallable other.typeName)

def jumpTo (target : Nat) : Exec σ Unit :=
  modify fun f => { f with ip := target }

/-- What an operation does, if it goes on in the same frame. -/
def compute (m : Setting σ) : Op → Exec σ Unit
  | .pushNum index => push (.num (m.code.numbers[index]?.getD 0.0))
  | .pushStr index => pushValue (.str (m.code.strings[index]?.getD ""))
  | .pushBool b => push (.bool b)
  | .pushNull => pushValue .null
  | .loadLocal slot => do
    push (← readLocal slot)
  | .storeLocal slot => do
    setLocal slot (.slot (← pop))
  | .makeCell slot => do
    let content ← pop
    setLocal slot (.cell (← alloc fun h => h.newCell content))
  | .loadCell slot => do
    push (← readCell (← localCell slot))
  | .storeCell slot => do
    let content ← pop
    writeCell (← localCell slot) content
  | .loadCapture index => do
    push (← readCell (← captureCell index))
  | .storeCapture index => do
    let content ← pop
    writeCell (← captureCell index) content
  | .loadInput => pushValue m.input
  | .pop => do
    let _ ← pop
  | .dup => pushAgain 1
  | .dup2 => pushAgain 2
  | .arith op => do
    let (a, b) ← operands popNum
    push (.num (op.apply a b))
  | .negate => do
    push (.num (-(← popNum)))
  | .compareNum op => do
    let (a, b) ← operands popNum
    push (.bool (op.testNumbers a b))
  | .equalNum negated => do
    let (a, b) ← operands popNum
    pushEqual negated (a == b)
  | .equalBool negated => do
    let (a, b) ← operands popBool
    pushEqual negated (a == b)
  | .notBool => do
    push (.bool (!(← popBool)))
  | .concat => do
    let (a, b) ← operands popValue
    let h ← heap
    pushValue (.str (a.display h ++ b.display h))
  | .compareStr op => do
    let (a, b) ← operands popStr
    push (.bool (op.testStrings a b))
  | .equalStr negated | .equalRef negated | .dynEqual negated => do
    let (a, b) ← operands popValue
    pushEqual negated (a.same b)
  | .toStr => do
    let v ← popValue
    pushValue (.str (v.display (← heap)))
  | .strLength => do
    match ← popValue with
    | .str s => push (.num (Float.ofNat s.length))
    | _ => throw (.nullReference "length")
  | .wrap => do
    pushValue (← popValue)
  | .check rep label => do
    let v ← popValue
    push (← checked rep (expectedName m.env.types rep) (m.code.name label) v)
  | .narrow kind => do
    push (.num (kind.narrow (← popNum)))
  | .dynArith op => do
    let (a, b) ← operands popValue
    pushValue (← ofExcept (Operator.arith (← heap) op.binOp a b))
  | .dynNegate => do
    pushValue (← ofExcept (Operator.negate (← popValue)))
  | .dynCompare op => do
    let (a, b) ← operands popValue
    push (.bool (← ofExcept (Operator.compare op a b)))
  | .dynGetMember index => do
    let target ← popValue
    pushValue (← inWorld (Dynamic.getMember m.env target (m.code.name index)))
  | .dynSetMember index => do
    let (target, v) ← operands popValue
    inWorld (Dynamic.setMember m.env target (m.code.name index) v)
  | .dynGetIndex => do
    let (target, index) ← operands popValue
    pushValue (← inWorld (Dynamic.getIndex m.env target index))
  | .dynSetIndex => do
    let v ← popValue
    let (target, index) ← operands popValue
    inWorld (Dynamic.setIndex m.env target index v)
  | .newRecord layout => newRecord m layout
  | .getField index => getField index
  | .setField index => setField index
  | .newArray layout count => newArray m layout count
  | .getIndex => getIndex
  | .setIndex => setIndex
  | .arrayAdd => arrayAdd
  | .arrayLength => do
    let (_, o) ← popArray "length"
    push (.num (Float.ofNat o.items.size))
  | .getHost index => getHost m index
  | .setHost index => setHost m index
  | .callHost index args => callHost m index args
  | .callStatic index args => callStatic m index args
  | .getHostIndex index => getHostIndex m index
  | .setHostIndex index => setHostIndex m index
  | .bindMethod index => do
    let h ← hostMember m index
    let receiver ← popValue
    pushValue (← inWorld (Dynamic.bind receiver h.member))
  | .bindArrayAdd => do
    let receiver ← popValue
    pushValue (← alloc fun h => h.newMethod { receiver, target := .arrayAdd })
  | .makeClosure index => makeClosure m index
  | .jump target => jumpTo target
  | .jumpIf condition target => do
    if (← popBool) == condition then
      jumpTo target
  | .print => do
    let v ← popValue
    let line := v.display (← heap)
    inWorld (modify fun w => { w with printed := w.printed.push line })
  | .unreachable => do
    fault (.unreachable (← get).function.name)
  | .dynCall _ | .dynCallMember .. | .callEntry .. | .ret => return

def execute (m : Setting σ) : Op → Exec σ Flow
  | .dynCall args => do
    let args ← popValues args
    callValue m (← popValue) args
  | .dynCallMember index args => do
    let args ← popValues args
    let target ← popValue
    let callee ← inWorld (Dynamic.memberCallee m.env target (m.code.name index))
    callValue m callee args
  | .callEntry function args => callEntry m function args
  | .ret => do
    return .return (← pop)
  | op => do
    compute m op
    return .next

/-! ### Steps -/

/-- How far a run is. -/
inductive Status where
  /-- The frames of the calls under way, the innermost first. -/
  | running (frames : List Frame)
  | finished (result : Slot)

/-- One operation of a frame. A function that ends without a return gives null. -/
def stepFrame (m : Setting σ) (f : Frame) : Run σ (Flow × Frame) :=
  match f.function.ops[f.ip]? with
  | none => return (.return (.ref .null), f)
  | some op => (execute m op).run { f with ip := f.ip + 1 }

/-- Give the result of a call to the caller. -/
def giveBack (done : Frame) (result : Slot) (callers : List Frame) : Status :=
  let result := if done.erases then .ref result.value else result
  match callers with
  | [] => .finished result
  | caller :: rest => .running ({ caller with stack := result :: caller.stack } :: rest)

/-- One operation of the innermost frame. -/
def step (m : Setting σ) : List Frame → Run σ Status
  | [] => throw (.internal .underflow)
  | f :: callers => do
    match ← stepFrame m f with
    | (.next, f) => return .running (f :: callers)
    | (.call callee, f) =>
      if m.maxDepth ≤ callers.length + 1 then
        throw (.stackOverflow m.maxDepth)
      return .running (callee :: f :: callers)
    | (.return result, f) => return giveBack f result callers

/-- Repeat `step` at most `budget` times. `none` if the run is not finished then. -/
def runFrames (m : Setting σ) : Nat → List Frame → Run σ (Option Slot)
  | 0, _ => return none
  | budget + 1, frames => do
    match ← step m frames with
    | .finished result => return some result
    | .running frames => runFrames m budget frames

/-- Run code from its start. -/
def run (m : Setting σ) (budget : Nat) : Run σ (Option Value) := do
  match m.code.functions[0]? with
  | none => throw (.internal .unknownFunction)
  | some f =>
    if m.maxDepth = 0 then
      throw (.stackOverflow m.maxDepth)
    let result ← runFrames m budget [Frame.enter f [] [] true]
    return result.map Slot.value

end HostScript.Machine
