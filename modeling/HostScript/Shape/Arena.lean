import HostScript.Shape

/-!
# The arena of shapes

`derive` merges two shapes into one that describes both. Merging two records or arrays forwards
one to the other, so that all who hold either see the union. Reads of fields and elements are
noted. Widening a place that was read makes the pass unstable and forces the place to be unknown
in the next one. Frozen shapes stay as they are.
-/

namespace HostScript

structure Arena where
  shapes : Array Shape :=
    #[.unknown, .undetermined, .concrete .number, .concrete .bool, .concrete .string]
  hosts : OrderedMap HostTypeId ShapeId := {}
  /-- Shapes below this number must not change. -/
  frozenBelow : Nat := 0
  widening : Widening := {}
  fieldReads : List (NodeId × String) := []
  elementReads : List NodeId := []
  unstable : Bool := false

namespace Arena

abbrev unknown : ShapeId := 0
abbrev undetermined : ShapeId := 1
abbrev number : ShapeId := 2
abbrev bool : ShapeId := 3
abbrev string : ShapeId := 4

def get (a : Arena) (id : ShapeId) : Shape :=
  a.shapes[id]?.getD .unknown

def set (a : Arena) (id : ShapeId) (shape : Shape) : Arena :=
  { a with shapes := a.shapes.setIfInBounds id shape }

def push (a : Arena) (shape : Shape) : ShapeId × Arena :=
  (a.shapes.size, { a with shapes := a.shapes.push shape })

/-! ### Following links -/

/-- Follow forwards and call results. Links have no cycles, so the size of the arena is budget
enough. -/
def resolveWith (a : Arena) : Nat → ShapeId → ShapeId
  | 0, _ => unknown
  | budget + 1, id =>
    match a.get id with
    | .forward target => resolveWith a budget target
    | .callResult method signature =>
      match a.get (resolveWith a budget method) with
      | .lambda l =>
        match l.signatures[signature]? with
        | some s => resolveWith a budget s.ret
        | none => unknown
      | _ => unknown
    | _ => id

/-- The shape that holds the data. -/
def resolve (a : Arena) (id : ShapeId) : ShapeId :=
  a.resolveWith (a.shapes.size + 1) id

def resolved (a : Arena) (id : ShapeId) : Shape :=
  a.get (a.resolve id)

def concrete? (a : Arena) (id : ShapeId) : Option Concrete :=
  match a.resolved id with
  | .concrete c => some c
  | _ => none

def is (a : Arena) (id : ShapeId) (c : Concrete) : Bool :=
  a.concrete? id == some c

/-- Whether values of the shape are only known at run time. -/
def isDynamic (a : Arena) (id : ShapeId) : Bool :=
  match a.resolved id with
  | .unknown | .undetermined => true
  | _ => false

def lambda? (a : Arena) (id : ShapeId) : Option LambdaShape :=
  match a.resolved id with
  | .lambda l => some l
  | _ => none

def modifyLambda (a : Arena) (id : ShapeId) (f : LambdaShape → LambdaShape) : Arena :=
  match a.resolved id with
  | .lambda l => a.set (a.resolve id) (.lambda (f l))
  | _ => a

def signature? (a : Arena) (method : ShapeId) (index : Nat) : Option Signature :=
  (a.lambda? method).bind fun l => l.signatures[index]?

def same (a : Arena) (x y : ShapeId) : Bool :=
  a.resolve x == a.resolve y

/-- The shape as messages name it. -/
def describe (a : Arena) (id : ShapeId) : String :=
  match a.resolved id with
  | .unknown => "unknown"
  | .undetermined => "undetermined"
  | .concrete .number => "Number"
  | .concrete .bool => "Bool"
  | .concrete .string => "String"
  | .concrete (.host h) => "host type #" ++ toString h
  | .record fields _ => "\x7b" ++ String.intercalate ", " fields.keys ++ "\x7d"
  | .array .. => "Array"
  | .hostMethod _ | .lambda _ => "Lambda"
  | .callResult .. | .forward _ => "unknown"

/-! ### New shapes -/

def host (a : Arena) (id : HostTypeId) : ShapeId × Arena :=
  match a.hosts.get? id with
  | some shape => (shape, a)
  | none =>
    let (shape, a) := a.push (.concrete (.host id))
    (shape, { a with hosts := a.hosts.insert id shape })

def newRecord (a : Arena) (origin : NodeId) (fields : OrderedMap String ShapeId) :
    ShapeId × Arena :=
  let fields := fields.mapValues fun name shape =>
    if a.widening.fields.contains (origin, name) then unknown else shape
  a.push (.record fields [origin])

def newArray (a : Arena) (origin : NodeId) (element : ShapeId) : ShapeId × Arena :=
  a.push (.array (if a.widening.elements.contains origin then unknown else element) [origin])

def newCall (a : Arena) (method : ShapeId) (signature : Nat) : ShapeId × Arena :=
  a.push (.callResult method signature)

/-! ### Widening and freezing -/

def isDeclarationForced (a : Arena) (node : NodeId) : Bool :=
  a.widening.declarations.contains node

/-- A variable or parameter was widened after it was read. -/
def forceDeclaration (a : Arena) (node : NodeId) : Arena :=
  { a with
    unstable := true
    widening := { a.widening with declarations := a.widening.declarations.insert node } }

/-- Shapes that exist now must not change any more. The former bound comes back for `thaw`. -/
def freeze (a : Arena) : Nat × Arena :=
  (a.frozenBelow, { a with frozenBelow := a.shapes.size })

def thaw (a : Arena) (previous : Nat) : Arena :=
  { a with frozenBelow := previous }

def isFrozen (a : Arena) (id : ShapeId) : Bool :=
  a.resolve id < a.frozenBelow

def origins (a : Arena) (id : ShapeId) : List NodeId :=
  match a.get id with
  | .record _ origins => origins
  | .array _ origins => origins
  | _ => []

def fieldWasRead (a : Arena) (origins : List NodeId) (name : String) : Bool :=
  origins.any fun o => a.fieldReads.contains (o, name)

def isFieldForced (a : Arena) (origins : List NodeId) (name : String) : Bool :=
  origins.any fun o => a.widening.fields.contains (o, name)

def forceField (a : Arena) (origins : List NodeId) (name : String) : Arena :=
  let fields := origins.foldl (fun fs o => fs.insert (o, name)) a.widening.fields
  { a with unstable := true, widening := { a.widening with fields } }

/-- Force a field that was read before. -/
def noteFieldWidened (a : Arena) (origins : List NodeId) (name : String) : Arena :=
  if a.fieldWasRead origins name then a.forceField origins name else a

def insertField (a : Arena) (record : ShapeId) (name : String) (shape : ShapeId) : Arena :=
  match a.get record with
  | .record fields origins => a.set record (.record (fields.insert name shape) origins)
  | _ => a

/-- Force the elements of arrays that were read before. -/
def noteElementWidened (a : Arena) (origins : List NodeId) : Arena :=
  if origins.any a.elementReads.contains then
    let elements := origins.foldl (fun es o => es.insert o) a.widening.elements
    { a with unstable := true, widening := { a.widening with elements } }
  else a

/-- Change the element of an array, and force it if it was read before. -/
def setElement (a : Arena) (array element : ShapeId) : Arena :=
  let a := a.noteElementWidened (a.origins array)
  match a.get array with
  | .array _ origins => a.set array (.array element origins)
  | _ => a

/-! ### Merging -/

/-- Merge one field of a record that was forwarded into the record `record`. -/
def mergeField (derive : ShapeId → ShapeId → Arena → ShapeId × Arena) (record : ShapeId)
    (origins : List NodeId) (a : Arena) (name : String) (shape : ShapeId) : Arena :=
  let existing := match a.get record with
    | .record fields _ => fields.get? name
    | _ => none
  match existing with
  | some own =>
    let (merged, a) := derive own shape a
    if a.same merged own then a
    else (a.noteFieldWidened origins name).insertField record name merged
  | none =>
    a.insertField record name (if a.isFieldForced origins name then unknown else shape)

/-- Merge the record `y` into the record `x`. It is forwarded first, so that fields which refer to
either record mean the union. -/
def mergeRecords (derive : ShapeId → ShapeId → Arena → ShapeId × Arena) (x y : ShapeId)
    (xFields yFields : OrderedMap String ShapeId) (xOrigins yOrigins : List NodeId) (a : Arena) :
    ShapeId × Arena :=
  let origins := xOrigins ++ yOrigins
  let a := (a.set y (.forward x)).set x (.record xFields origins)
  let a := yFields.entries.foldl
    (fun a (name, shape) => mergeField derive x origins a name shape) a
  (x, a)

/-- Merge the array `y` into the array `x`. -/
def mergeArrays (derive : ShapeId → ShapeId → Arena → ShapeId × Arena) (x y : ShapeId)
    (xElement yElement : ShapeId) (xOrigins yOrigins : List NodeId) (a : Arena) : ShapeId × Arena :=
  let a := (a.set y (.forward x)).set x (.array xElement (xOrigins ++ yOrigins))
  let (merged, a) := derive xElement yElement a
  (x, if a.same merged xElement then a else a.setElement x merged)

/-- Merge two shapes. Every nested merge forwards a shape, so the size of the arena is budget
enough. -/
def deriveWith : Nat → ShapeId → ShapeId → Arena → ShapeId × Arena
  | 0, _, _, a => (unknown, a)
  | budget + 1, x, y, a =>
    let x := a.resolve x
    let y := a.resolve y
    if x = y then (x, a)
    else
      match a.get x, a.get y with
      | .undetermined, _ => (y, a)
      | _, .undetermined => (x, a)
      | .unknown, _ => (unknown, a)
      | _, .unknown => (unknown, a)
      | .concrete c, .concrete d => (if c = d then x else unknown, a)
      | .record xFields xOrigins, .record yFields yOrigins =>
        if a.isFrozen x || a.isFrozen y then (unknown, a)
        else mergeRecords (deriveWith budget) x y xFields yFields xOrigins yOrigins a
      | .array xElement xOrigins, .array yElement yOrigins =>
        if a.isFrozen x || a.isFrozen y then (unknown, a)
        else mergeArrays (deriveWith budget) x y xElement yElement xOrigins yOrigins a
      | _, _ => (unknown, a)

/-- Merge two shapes into one that describes both. -/
def derive (a : Arena) (x y : ShapeId) : ShapeId × Arena :=
  deriveWith (a.shapes.size + 1) x y a

/-! ### Fields and elements -/

/-- The shape of a field, without noting a read. -/
def field? (a : Arena) (record : ShapeId) (name : String) : Option ShapeId :=
  match a.resolved record with
  | .record fields _ => fields.get? name
  | _ => none

/-- The shape of a field. The read is noted, also if there is no such field yet. -/
def readField (a : Arena) (record : ShapeId) (name : String) : Option ShapeId × Arena :=
  match a.resolved record with
  | .record fields origins =>
    let reads := origins.foldl (fun rs o => rs.insert (o, name)) a.fieldReads
    (fields.get? name, { a with fieldReads := reads })
  | _ => (none, a)

def writeField (a : Arena) (record : ShapeId) (name : String) (value : ShapeId) : Write × Arena :=
  let record := a.resolve record
  let frozen := a.isFrozen record
  match a.field? record name with
  | none =>
    if frozen then (.frozen, a)
    else
      let forced := a.isFieldForced (a.origins record) name
      (.added, a.insertField record name (if forced then unknown else value))
  | some existing =>
    let (merged, a) := a.derive existing value
    if a.same merged existing then (.unchanged, a)
    else if frozen then (.frozen, a)
    else
      let record := a.resolve record
      (.widened, (a.noteFieldWidened (a.origins record) name).insertField record name merged)

def element? (a : Arena) (array : ShapeId) : Option ShapeId :=
  match a.resolved array with
  | .array element _ => some element
  | _ => none

/-- The shape of the elements. The read is noted. -/
def readElement (a : Arena) (array : ShapeId) : Option ShapeId × Arena :=
  match a.resolved array with
  | .array element origins =>
    let reads := origins.foldl (fun rs o => rs.insert o) a.elementReads
    (some element, { a with elementReads := reads })
  | _ => (none, a)

def writeElement (a : Arena) (array value : ShapeId) : Write × Arena :=
  let array := a.resolve array
  match a.element? array with
  | none => (.unchanged, a)
  | some existing =>
    let frozen := a.isFrozen array
    let (merged, a) := a.derive existing value
    if a.same merged existing then (.unchanged, a)
    else if frozen then (.frozen, a)
    else (.widened, a.setElement (a.resolve array) merged)

end Arena

end HostScript
