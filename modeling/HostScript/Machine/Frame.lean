import HostScript.Code
import HostScript.Dynamic

/-!
# Frames

Each call of a function has a frame with its own local slots and operand stack. The head of a
stack is its top.
-/

namespace HostScript

/-- What a local slot holds. -/
inductive Local where
  | slot (content : Slot)
  /-- A variable that closures share. -/
  | cell (ref : CellRef)
deriving DecidableEq, Repr

structure Frame where
  function : Function
  /-- The position of the next operation. -/
  ip : Nat := 0
  locals : Array Local
  stack : List Slot := []
  /-- The cells of the closure that was called. -/
  captures : List CellRef := []
  /-- Whether the result is given back as a value of any kind. -/
  erases : Bool

/-- A frame at the start of a function. Slots without an argument hold null. -/
def Frame.enter (function : Function) (args : List Slot) (captures : List CellRef) (erases : Bool) :
    Frame :=
  let given := (args.map Local.slot).toArray
  let rest := Array.replicate (function.locals - args.length) (Local.slot (.ref .null))
  { function, locals := given ++ rest, captures, erases }

/-- What happens within a frame. -/
abbrev Exec (σ : Type) := StateT Frame (Run σ)

namespace Exec

variable {σ : Type}

def fault {α : Type} (f : Fault) : Exec σ α :=
  throw (.internal f)

def orFault {α : Type} (result : Option α) (f : Fault) : Exec σ α :=
  match result with
  | some a => return a
  | none => fault f

/-! ### The world -/

def inWorld {α : Type} (action : Run σ α) : Exec σ α :=
  fun f w =>
    match action w with
    | .ok a w => .ok (a, f) w
    | .error e w => .error e w

def heap : Exec σ Heap :=
  inWorld Run.heap

def modifyHeap (f : Heap → Heap) : Exec σ Unit :=
  inWorld (Run.modifyHeap f)

def alloc {α : Type} (f : Heap → α × Heap) : Exec σ α :=
  inWorld (Run.alloc f)

/-! ### The operand stack -/

def push (slot : Slot) : Exec σ Unit :=
  modify fun f => { f with stack := slot :: f.stack }

def pushValue (v : Value) : Exec σ Unit :=
  push (.ref v)

def pop : Exec σ Slot := do
  let f ← get
  match f.stack with
  | [] => fault .underflow
  | slot :: rest =>
    set { f with stack := rest }
    return slot

def popValue : Exec σ Value := do
  return (← pop).value

def popNum : Exec σ Float := do
  match ← pop with
  | .num x | .ref (.number x) => return x
  | other => fault (.notANumber other)

def popBool : Exec σ Bool := do
  match ← pop with
  | .bool b | .ref (.bool b) => return b
  | other => fault (.notABool other)

def popStr : Exec σ String := do
  match ← popValue with
  | .str s => return s
  | other => fault (.notAString other.typeName)

/-- Take a number of slots, in the order in which they were pushed. -/
def popMany (count : Nat) : Exec σ (List Slot) := do
  let f ← get
  if f.stack.length < count then
    fault .underflow
  set { f with stack := f.stack.drop count }
  return (f.stack.take count).reverse

def popValues (count : Nat) : Exec σ (List Value) := do
  return (← popMany count).map Slot.value

/-- Push the top `count` slots again. -/
def pushAgain (count : Nat) : Exec σ Unit := do
  let f ← get
  if f.stack.length < count then
    fault .underflow
  set { f with stack := f.stack.take count ++ f.stack }

/-! ### Local slots and cells -/

def setLocal (slot : Nat) (content : Local) : Exec σ Unit :=
  modify fun f => { f with locals := f.locals.setIfInBounds slot content }

def readCell (c : CellRef) : Exec σ Slot := do
  return (← heap).cells[c]?.getD (.ref .null)

def writeCell (c : CellRef) (content : Slot) : Exec σ Unit :=
  modifyHeap fun h => h.setCell c content

/-- The content of a local slot. A cell stands for its content. -/
def readLocal (slot : Nat) : Exec σ Slot := do
  match (← get).locals[slot]? with
  | some (.slot content) => return content
  | some (.cell c) => readCell c
  | none => fault .underflow

/-- The cell in a local slot. -/
def localCell (slot : Nat) : Exec σ CellRef := do
  match (← get).locals[slot]? with
  | some (.cell c) => return c
  | _ => fault .notACell

def captureCell (index : Nat) : Exec σ CellRef := do
  orFault (← get).captures[index]? .unknownCapture

end Exec

end HostScript
