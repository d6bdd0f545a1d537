import HostScript.Operator
import HostScript.Host.Registry

/-!
# Scripts and the host

The world of a run is the heap of script values and the data of the host. Code of the host sees
the heap and changes only its own data. A failing member keeps what it changed before it failed.
-/

namespace HostScript

/-- What host code does. The state is the data of the host; it is kept on failure. -/
abbrev HostAction (σ : Type) := ReaderT Heap (EStateM String σ)

/-- The code behind the members, by the number that the host gave it. -/
structure HostCode (σ : Type) where
  read : CodeId → HostObject → HostAction σ Value
  write : CodeId → HostObject → Value → HostAction σ Unit
  invoke : CodeId → HostObject → List Value → HostAction σ Value
  /-- A function without a receiver. -/
  call : CodeId → List Value → HostAction σ Value
  readIndex : CodeId → HostObject → Value → HostAction σ Value
  writeIndex : CodeId → HostObject → Value → Value → HostAction σ Unit

structure World (σ : Type) where
  heap : Heap := {}
  data : σ
  /-- Look-ups of members that were made before, with their results. -/
  lookups : OrderedMap (Receiver × String) (Option Member) := {}
  /-- What scripts printed, line by line. -/
  printed : Array String := #[]

/-- What stays the same during a run. -/
structure Env (σ : Type) where
  types : Snapshot
  code : HostCode σ

/-- Runs keep the world they reached when they fail. -/
abbrev Run (σ : Type) := EStateM RuntimeError (World σ)

namespace Run

variable {σ α : Type}

def heap : Run σ Heap := do
  return (← get).heap

def modifyHeap (f : Heap → Heap) : Run σ Unit :=
  modify fun w => { w with heap := f w.heap }

/-- Allocate in the heap. -/
def alloc (f : Heap → α × Heap) : Run σ α :=
  modifyGet fun w =>
    let (a, heap) := f w.heap
    (a, { w with heap })

def ofExcept : Except RuntimeError α → Run σ α
  | .ok a => pure a
  | .error e => throw e

/-- Run host code on behalf of a member. -/
def host (m : Member) (action : HostAction σ α) : Run σ α := fun w =>
  match action w.heap w.data with
  | .ok a data => .ok a { w with data }
  | .error message data => .error (.hostFailure m.qualifiedName message) { w with data }

end Run

namespace Member

variable {σ : Type}

def read (code : HostCode σ) (m : Member) (object : HostObject) : Run σ Value :=
  match m.kind with
  | .field .. => Run.host m (code.read m.code object)
  | .property _ true _ => Run.host m (code.read m.code object)
  | _ => throw (.memberNotFound object.typeName m.name)

def write (code : HostCode σ) (m : Member) (object : HostObject) (value : Value) : Run σ Unit :=
  match m.kind with
  | .field _ true => Run.host m (code.write m.code object value)
  | .property _ _ true => Run.host m (code.write m.code object value)
  | _ => throw (.readOnly m.qualifiedName)

/-- Call a method on a receiver, or a function without one. -/
def call (code : HostCode σ) (m : Member) (receiver : Option HostObject) (args : List Value) :
    Run σ Value :=
  match m.kind, receiver with
  | .method .., some object => Run.host m (code.invoke m.code object args)
  | .method .., none => throw (.nullReference m.qualifiedName)
  | .function .., _ => Run.host m (code.call m.code args)
  | _, _ => throw (.notCallable m.qualifiedName)

def readIndex (code : HostCode σ) (m : Member) (object : HostObject) (key : Value) : Run σ Value :=
  match m.kind with
  | .indexer .. => Run.host m (code.readIndex m.code object key)
  | _ => throw (.invalidIndex object.typeName key.typeName)

def writeIndex (code : HostCode σ) (m : Member) (object : HostObject) (key value : Value) :
    Run σ Unit :=
  match m.kind with
  | .indexer _ _ true => Run.host m (code.writeIndex m.code object key value)
  | _ => throw (.readOnly (m.owner ++ "[]"))

end Member

end HostScript
