import HostScript.Code
import HostScript.Layout

/-!
# Tables of code

What is collected while code is generated: constants, names, members, functions and templates by
number, the entries that are still to be generated, and the local slots of the current function.
-/

namespace HostScript

/-- The ways to enter a lambda. -/
inductive Entry where
  /-- For the argument shapes of a signature. -/
  | signature (index : Nat)
  /-- For arguments of any kind. -/
  | generic
deriving DecidableEq, Repr

/-- A function whose code is still to be generated. -/
structure Job where
  function : Nat
  lambda : ShapeId
  entry : Entry
deriving DecidableEq, Repr

/-- Where a local variable or parameter is kept. -/
structure Storage where
  slot : Nat
  rep : Rep
  /-- Whether the slot holds a cell. -/
  inCell : Bool
deriving DecidableEq, Repr

/-- The number of the slot that comes after `count` others. Numbers have sixteen bits, so after the
last of them comes the first again. -/
def slotNumber (count : Nat) : Nat :=
  count % 65536

structure Tables where
  functions : Array Function := #[]
  numbers : List Float := []
  strings : List String := []
  names : List String := []
  members : List HostMember := []
  templates : List Template := []
  /-- The templates of lambda shapes. -/
  templateOf : OrderedMap ShapeId Nat := {}
  /-- The functions of the entries of lambda shapes. -/
  functionOf : OrderedMap (ShapeId × Entry) Nat := {}
  jobs : List Job := []
  /-- Lambda shapes whose closures may be called with arguments of any kind. -/
  escaped : List ShapeId := []
  /-- Record and array layouts that were searched for closures. -/
  searched : List Rep := []
  /-- The local variables of the current function. -/
  locals : NumberedMap Symbol Storage := {}
  /-- How many slots were asked for. -/
  localCount : Nat := 0
  /-- The number of operations, in the functions that are finished, that decide at run time. -/
  dynamicOps : Nat := 0

/-- What is known of the function for which code is generated. -/
structure Body where
  script : Script
  analysis : Analysis
  types : Registry
  layouts : Layouts
  /-- The visible layers. -/
  stack : List LayerId := [Layers.root]
  /-- The outer symbols in the order of the captures. -/
  captures : List Symbol := []
  ret : Rep := .any

abbrev Generate := StateT Tables (Except Problem)

/-- Code and the representation of what it leaves on the stack. -/
structure Fragment where
  ops : List Op
  rep : Rep

namespace Body

def shape (b : Body) (node : NodeId) : ShapeId :=
  b.analysis.shape b.stack node

def repOf (b : Body) (shape : ShapeId) : Rep :=
  b.layouts.rep b.analysis.arena shape

def rep (b : Body) (node : NodeId) : Rep :=
  b.repOf (b.shape node)

end Body

namespace Generate

/-- An assumption about the analysis does not hold. -/
def fail {α : Type} (problem : CompilerProblem) (span : Span) : Generate α :=
  throw ⟨.compiler problem, span⟩

def orFail {α : Type} (result : Option α) (problem : CompilerProblem) (span : Span) : Generate α :=
  match result with
  | some a => return a
  | none => fail problem span

/-- The place of an item in a list to which it is added if it is new. -/
def intern {α : Type} (isItem : α → Bool) (item : α) (items : List α) : Nat × List α :=
  match items.findIdx? isItem with
  | some i => (i, items)
  | none => (items.length, items ++ [item])

/-- Push a number. Numbers with different bits are different constants. -/
def pushNumber (x : Float) : Generate Op :=
  modifyGet fun t =>
    let (i, numbers) := intern (fun y => y.toBits == x.toBits) x t.numbers
    (.pushNum i, { t with numbers })

def pushString (s : String) : Generate Op :=
  modifyGet fun t =>
    let (i, strings) := intern (· == s) s t.strings
    (.pushStr i, { t with strings })

def name (s : String) : Generate Nat :=
  modifyGet fun t =>
    let (i, names) := intern (· == s) s t.names
    (i, { t with names })

/-- The number of a host member. The first use fixes the representation of its results. -/
def member (m : Member) (result : Rep) : Generate Nat :=
  modifyGet fun t =>
    let (i, members) := intern (fun h => h.member.id == m.id) ⟨m, result⟩ t.members
    (i, { t with members })

/-- Push what storage holds before it is set. -/
def pushZero : Rep → Generate Op
  | .num => pushNumber 0.0
  | .bool => return .pushBool false
  | .str => pushString ""
  | _ => return .pushNull

def addJob (job : Job) : Generate Unit :=
  modify fun t => { t with jobs := t.jobs ++ [job] }

/-- A new function whose code comes later. -/
def newFunction (name : String) (arity : Nat) : Generate Nat :=
  modifyGet fun t =>
    (t.functions.size,
      { t with functions := t.functions.push { name, arity, locals := 0, ops := #[.unreachable] } })

/-- The function of a signature of a lambda. The first use asks for its code. -/
def signatureFunction (lambda : ShapeId) (index arity : Nat) : Generate Nat := do
  let key := (lambda, Entry.signature index)
  match (← get).functionOf.get? key with
  | some function => return function
  | none =>
    let function ← newFunction ("lambda#" ++ toString lambda) arity
    modify fun t => { t with functionOf := t.functionOf.insert key function }
    addJob { function, lambda, entry := .signature index }
    return function

end Generate

end HostScript
