import HostScript.Analysis
import HostScript.Value

/-!
# Layouts of shapes

Every record and array shape that analysis recorded gets a layout, and with it every shape has a
representation. A layout gets its number before its contents, so that shapes may contain themselves.
-/

namespace HostScript

structure Layouts where
  /-- The representations of record and array shapes. -/
  reps : OrderedMap ShapeId Rep := {}
  /-- The fields of record layouts, by number. -/
  records : Array (List (String × Rep)) := #[]
  /-- The elements of array layouts, by number. -/
  arrays : Array Rep := #[]

/-- The representation of a shape without a layout. Methods of the host are any values. -/
def Shape.directRep (id : ShapeId) : Shape → Rep
  | .concrete .number => .num
  | .concrete .bool => .bool
  | .concrete .string => .str
  | .concrete (.host h) => .host h
  | .lambda _ => .closure id
  | _ => .any

namespace Layouts

def fields (l : Layouts) (layout : Nat) : List (String × Rep) :=
  l.records[layout]?.getD []

def element (l : Layouts) (layout : Nat) : Rep :=
  l.arrays[layout]?.getD .any

/-- The place and the representation of a field. -/
def field? (l : Layouts) (layout : Nat) (name : String) : Option (Nat × Rep) :=
  let fields := l.fields layout
  (fields.findIdx? (·.1 = name)).map fun i => (i, (fields[i]?.map Prod.snd).getD .any)

/-- A new record layout for a shape. Its fields come later. -/
def newRecord (shape : ShapeId) : StateM Layouts Nat :=
  modifyGet fun l =>
    let layout := l.records.size
    (layout, { l with
      reps := l.reps.insert shape (.record layout)
      records := l.records.push [] })

/-- A new array layout for a shape. Its element comes later. -/
def newArray (shape : ShapeId) : StateM Layouts Nat :=
  modifyGet fun l =>
    let layout := l.arrays.size
    (layout, { l with
      reps := l.reps.insert shape (.array layout)
      arrays := l.arrays.push .any })

/-- Lay out a shape and the shapes inside it. A shape inside one that is being laid out has its
number already, so the size of the arena is budget enough. -/
def layOut (arena : Arena) : Nat → ShapeId → StateM Layouts Rep
  | 0, _ => return .any
  | budget + 1, shape => do
    let id := arena.resolve shape
    match (← get).reps.get? id with
    | some rep => return rep
    | none =>
      match arena.get id with
      | .record fields _ =>
        let layout ← newRecord id
        let fields ← fields.entries.mapM fun (name, field) => do
          return (name, ← layOut arena budget field)
        modify fun l => { l with records := l.records.setIfInBounds layout fields }
        return .record layout
      | .array element _ =>
        let layout ← newArray id
        let element ← layOut arena budget element
        modify fun l => { l with arrays := l.arrays.setIfInBounds layout element }
        return .array layout
      | other => return other.directRep id

/-- The layouts of all recorded shapes. -/
def ofAnalysis (a : Analysis) : Layouts :=
  ((a.layers.shapes.forM fun s => do
    let _ ← layOut a.arena (a.arena.shapes.size + 1) s).run {}).2

/-- The representation of a shape. -/
def rep (l : Layouts) (arena : Arena) (shape : ShapeId) : Rep :=
  let id := arena.resolve shape
  match l.reps.get? id with
  | some rep => rep
  | none => (arena.get id).directRep id

def recordLayouts (l : Layouts) : Array RecordLayout :=
  l.records.mapIdx fun id fields => { id, fields }

def arrayLayouts (l : Layouts) : Array ArrayLayout :=
  l.arrays.mapIdx fun id element => { id, element }

end Layouts

end HostScript
