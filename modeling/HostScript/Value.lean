import HostScript.Host.Member

/-!
# Values and the heap

A value is a scalar, a string or a reference. Records, arrays, closures and bound methods live in
the heap, and two references are the same value when they are the same place. Storage is typed:
every record and array has a layout that says how its slots are represented.
-/

namespace HostScript

/-- How a value is held on the stack or in storage. -/
inductive Rep where
  | num
  | bool
  | str
  /-- A record of the given layout. -/
  | record (layout : Nat)
  /-- An array of the given layout. -/
  | array (layout : Nat)
  | host (id : HostTypeId)
  /-- A closure over the lambda with the given shape. -/
  | closure (shape : Nat)
  /-- Any value. -/
  | any
deriving Repr, Inhabited

namespace Rep

/-- The number that a representation has. -/
def number : Rep → Nat
  | record n | array n | host n | closure n => n
  | _ => 0

/-- Kinds and numbers are compared. -/
instance : DecidableEq Rep := fun a b =>
  decidable_of_decidable_of_iff (p := a.ctorIdx = b.ctorIdx ∧ a.number = b.number)
    ⟨by cases a <;> cases b <;> simp [Rep.ctorIdx, number], by rintro rfl; exact ⟨rfl, rfl⟩⟩

def isUnboxed : Rep → Bool
  | num | bool => true
  | _ => false

def name : Rep → String
  | num => "Number"
  | bool => "Bool"
  | str => "String"
  | record _ => "Record"
  | array _ => "Array"
  | host _ => "host object"
  | closure _ => "Lambda"
  | any => "any value"

end Rep

abbrev RecordRef := Nat
abbrev ArrayRef := Nat
abbrev ClosureRef := Nat
abbrev MethodRef := Nat
abbrev CellRef := Nat
abbrev ObjectRef := Nat

/-- An object of the host. Its data is the host's own; `ref` is its identity. -/
structure HostObject where
  ref : ObjectRef
  typeId : HostTypeId
  typeName : String
deriving DecidableEq, Repr

inductive Value where
  | null
  | number (value : Float)
  | bool (value : Bool)
  | str (value : String)
  | record (ref : RecordRef)
  | array (ref : ArrayRef)
  | closure (ref : ClosureRef)
  | method (ref : MethodRef)
  | host (object : HostObject)
deriving DecidableEq, Repr, Inhabited

/-- What is held in a place of storage. Numbers and booleans can be held without a box. -/
inductive Slot where
  | num (value : Float)
  | bool (value : Bool)
  | ref (value : Value)
deriving DecidableEq, Repr, Inhabited

/-- The fields of a record and their representations. -/
structure RecordLayout where
  id : Nat
  fields : List (String × Rep)
deriving DecidableEq, Repr

structure ArrayLayout where
  id : Nat
  element : Rep
deriving DecidableEq, Repr

/-- The layout number of records and arrays that no program made. -/
def hostLayout : Nat := 4294967295

structure RecordObject where
  layout : RecordLayout
  fields : Array Slot
deriving Repr

structure ArrayObject where
  layout : ArrayLayout
  items : Array Slot
deriving Repr

structure Closure where
  /-- The number of its template in the program. -/
  template : Nat
  /-- The shape of its lambda. -/
  shape : Nat
  captures : List CellRef
deriving Repr

inductive BoundTarget where
  | member (m : Member)
  /-- A function that takes the receiver as its first argument. -/
  | extension (m : Member)
  | arrayAdd

structure BoundMethod where
  receiver : Value
  target : BoundTarget

structure Heap where
  records : Array RecordObject := #[]
  arrays : Array ArrayObject := #[]
  closures : Array Closure := #[]
  methods : Array BoundMethod := #[]
  /-- Variables that closures share. -/
  cells : Array Slot := #[]

/-! ### Layouts -/

namespace RecordLayout

/-- The last place of a name in a list of fields. -/
def lastIndex? (name : String) : List (String × Rep) → Option Nat
  | [] => none
  | (field, _) :: rest =>
    match lastIndex? name rest with
    | some i => some (i + 1)
    | none => if field = name then some 0 else none

def indexOf? (layout : RecordLayout) (name : String) : Option Nat :=
  lastIndex? name layout.fields

def repOf (layout : RecordLayout) (index : Nat) : Rep :=
  (layout.fields[index]?.map Prod.snd).getD .any

end RecordLayout

/-- What storage holds before it is set. -/
def Rep.zero : Rep → Slot
  | num => .num 0.0
  | bool => .bool false
  | str => .ref (.str "")
  | _ => .ref .null

def Slot.value : Slot → Value
  | num x => .number x
  | bool b => .bool b
  | ref v => v

def BoundMethod.name (m : BoundMethod) : String :=
  match m.target with
  | .member m | .extension m => m.name
  | .arrayAdd => "add"

/-! ### Allocation -/

namespace Heap

def newRecord (h : Heap) (object : RecordObject) : Value × Heap :=
  (.record h.records.size, { h with records := h.records.push object })

def newArray (h : Heap) (object : ArrayObject) : Value × Heap :=
  (.array h.arrays.size, { h with arrays := h.arrays.push object })

def newClosure (h : Heap) (closure : Closure) : Value × Heap :=
  (.closure h.closures.size, { h with closures := h.closures.push closure })

def newMethod (h : Heap) (method : BoundMethod) : Value × Heap :=
  (.method h.methods.size, { h with methods := h.methods.push method })

def newCell (h : Heap) (content : Slot) : CellRef × Heap :=
  (h.cells.size, { h with cells := h.cells.push content })

def setField (h : Heap) (r : RecordRef) (index : Nat) (slot : Slot) : Heap :=
  { h with records := h.records.modify r fun o =>
      { o with fields := o.fields.setIfInBounds index slot } }

def setItem (h : Heap) (a : ArrayRef) (index : Nat) (slot : Slot) : Heap :=
  { h with arrays := h.arrays.modify a fun o =>
      { o with items := o.items.setIfInBounds index slot } }

def addItem (h : Heap) (a : ArrayRef) (slot : Slot) : Heap :=
  { h with arrays := h.arrays.modify a fun o => { o with items := o.items.push slot } }

def setCell (h : Heap) (c : CellRef) (slot : Slot) : Heap :=
  { h with cells := h.cells.setIfInBounds c slot }

/-- An array of the host, whose elements may be any values. -/
def hostArray (h : Heap) (items : List Value) : Value × Heap :=
  h.newArray { layout := ⟨hostLayout, .any⟩, items := (items.map Slot.ref).toArray }

end Heap

/-! ### Kinds, equality and representations of values -/

namespace Value

def typeName : Value → String
  | null => "Null"
  | number _ => "Number"
  | bool _ => "Bool"
  | str _ => "String"
  | record _ => "Record"
  | array _ => "Array"
  | closure _ => "Lambda"
  | method _ => "Method"
  | host object => object.typeName

def number? : Value → Option Float
  | number x => some x
  | _ => none

def bool? : Value → Option Bool
  | bool b => some b
  | _ => none

def str? : Value → Option String
  | str s => some s
  | _ => none

def host? : Value → Option HostObject
  | host object => some object
  | _ => none

def items? (h : Heap) : Value → Option (List Value)
  | array a => h.arrays[a]?.map fun o => o.items.toList.map Slot.value
  | _ => none

def field? (h : Heap) (name : String) : Value → Option Value
  | record r =>
    h.records[r]?.bind fun o =>
      (o.layout.indexOf? name).bind fun i => o.fields[i]?.map Slot.value
  | _ => none

/-- Equality in scripts: scalars and strings by content, everything else by identity. -/
def same : Value → Value → Bool
  | null, null => true
  | number a, number b => a == b
  | bool a, bool b => a == b
  | str a, str b => a == b
  | record a, record b => a == b
  | array a, array b => a == b
  | closure a, closure b => a == b
  | method a, method b => a == b
  | host a, host b => a.ref == b.ref
  | _, _ => false

/-- Whether the value may be stored with a representation. Storage of references may hold null. -/
def conforms (h : Heap) : Rep → Value → Bool
  | .any, _ => true
  | .num, number _ => true
  | .bool, bool _ => true
  | .str, str _ => true
  | .record _, null | .array _, null | .host _, null | .closure _, null => true
  | .record id, record r => (h.records[r]?.map (·.layout.id)) == some id
  | .array id, array a => (h.arrays[a]?.map (·.layout.id)) == some id
  | .host id, host object => object.typeId == id
  | .closure shape, closure c => (h.closures[c]?.map (·.shape)) == some shape
  | _, _ => false

/-- The value as it is stored with a representation, whether it conforms or not. -/
def box : Rep → Value → Slot
  | .num, number x => .num x
  | .bool, bool b => .bool b
  | _, v => .ref v

def slot? (h : Heap) (rep : Rep) (v : Value) : Option Slot :=
  if v.conforms h rep then some (v.box rep) else none

end Value

def Receiver.ofValue? : Value → Option Receiver
  | .host object => some (.host object.typeId)
  | .str _ => some .string
  | .number _ => some .number
  | .bool _ => some .bool
  | .record _ => some .record
  | .array _ => some .array
  | _ => none

end HostScript
