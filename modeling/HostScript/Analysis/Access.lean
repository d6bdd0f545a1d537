import HostScript.Analysis.State
import HostScript.Host.Builtin

/-!
# Members, indices and stores

What a member access means for a shape, which shapes the host accepts, and how stores change shapes.
-/

namespace HostScript

/-- How a member of a receiver is reached. -/
inductive MemberTarget where
  | recordField (record : ShapeId)
  /-- A record without the field. -/
  | missingField (record : ShapeId)
  | arrayLength
  | arrayAdd
  | stringLength
  | host (member : Member)
  | extension (member : Member)
  /-- Decided at run time. -/
  | dynamic
  | noMember

/-- How the member of a receiver of a given shape is reached. -/
def MemberTarget.resolve (arena : Arena) (types : Registry) (shape : ShapeId) (name : String) :
    MemberTarget :=
  let extensionOf (receiver : Receiver) : MemberTarget :=
    match types.extension? receiver name with
    | some m => .extension m
    | none => .noMember
  match arena.resolved shape with
  | .unknown | .undetermined => .dynamic
  | .record fields _ =>
    if fields.contains name then .recordField (arena.resolve shape)
    else
      match types.extension? .record name with
      | some m => .extension m
      | none => .missingField (arena.resolve shape)
  | .array .. =>
    match Builtin.lookup? .array name with
    | some .arrayAdd => .arrayAdd
    | some _ => .arrayLength
    | none => extensionOf .array
  | .concrete .string =>
    match Builtin.lookup? .string name with
    | some _ => .stringLength
    | none => extensionOf .string
  | .concrete .number => extensionOf .number
  | .concrete .bool => extensionOf .bool
  | .concrete (.host id) =>
    match (types.info? id).bind fun info => info.members.get? name with
    | some m => if m.isExtension then .extension m else .host m
    | none => .noMember
  | .hostMethod _ | .lambda _ | .callResult .. | .forward _ => .noMember

/-- The shape of a value that the host gives as a type. -/
def Arena.ofType (arena : Arena) : TypeRef → ShapeId × Arena
  | .number _ => (Arena.number, arena)
  | .bool => (Arena.bool, arena)
  | .string => (Arena.string, arena)
  | .host id => arena.host id
  | _ => (Arena.unknown, arena)

/-- Whether the host takes a value of a shape as a type. Unknown values are checked at run time. -/
def TypeRef.accepts (arena : Arena) (shape : ShapeId) : TypeRef → Bool
  | .any => true
  | .number _ => arena.isDynamic shape || arena.is shape .number
  | .bool => arena.isDynamic shape || arena.is shape .bool
  | .string => arena.isDynamic shape || arena.is shape .string
  | .host id => arena.isDynamic shape || arena.is shape (.host id)
  | .record =>
    match arena.resolved shape with
    | .unknown | .undetermined | .record .. => true
    | _ => false
  | .array | .generic .list _ | .generic .iterable _ =>
    match arena.resolved shape with
    | .unknown | .undetermined | .array .. => true
    | _ => false
  | .function =>
    match arena.resolved shape with
    | .unknown | .undetermined | .hostMethod _ | .lambda _ => true
    | _ => false
  | .generic .nullable [inner] => accepts arena shape inner
  | .generic .. | .null | .void | .pointer _ => arena.isDynamic shape

namespace Analysis

/-- A place to store to. -/
inductive Place where
  | local (symbol : Symbol)
  | input (member : Member)
  | member (object : ShapeId) (name : String)
  | index (object key : ShapeId)
  | invalid

def checkAccepts (ty : TypeRef) (value : ShapeId) (use owner : String) (span : Span) :
    Analyze Unit := do
  if !ty.accepts (← get).arena value then
    report (.type (.notAccepted (← describe value) use owner ty)) span

/-! ### Reading -/

/-- The shape of a member of the host. A method that is not called is a value. -/
def hostMemberShape (m : Member) (span : Span) : Analyze ShapeId := do
  if m.isCallable then
    inArena (·.push (.hostMethod m))
  else if !m.isReadable then
    report (.type (.writeOnly m.qualifiedName)) span
    return Arena.unknown
  else
    match m.valueType? with
    | some ty => inArena (·.ofType ty)
    | none => return Arena.unknown

/-- The shape of a member. A missing field of a frozen record is left to run time, because the
record cannot gain it. -/
def memberShape (object : ShapeId) (name : String) (target : MemberTarget) (span : Span) :
    Analyze ShapeId := do
  match target with
  | .recordField record => return (← inArena (·.readField record name)).getD Arena.unknown
  | .missingField record =>
    if !(← get).arena.isFrozen record then
      report (.type (.noField name)) span
    return Arena.unknown
  | .arrayLength | .stringLength => return Arena.number
  | .arrayAdd | .dynamic => return Arena.unknown
  | .host m | .extension m => hostMemberShape m span
  | .noMember =>
    report (.type (.noMember (← describe object) name)) span
    return Arena.unknown

def checkArrayIndex (key : ShapeId) (span : Span) : Analyze Unit := do
  let arena := (← get).arena
  if !arena.isDynamic key && !arena.is key .number then
    report (.type (.indexNotNumber (← describe key))) span

def notIndexable (object : ShapeId) (span : Span) : Analyze Unit := do
  report (.type (.notIndexable (← describe object))) span

/-- The indexer of a host type, with the types of its keys and values. -/
def indexer? (ctx : Context) (id : HostTypeId) : Option (Member × TypeRef × TypeRef) :=
  ((ctx.types.info? id).bind TypeInfo.indexer).bind fun m =>
    match m.kind with
    | .indexer key ty _ => some (m, key, ty)
    | _ => none

/-- The shape of an element or entry. -/
def indexShape (ctx : Context) (object key : ShapeId) (span : Span) : Analyze ShapeId := do
  match (← get).arena.resolved object with
  | .array .. =>
    checkArrayIndex key span
    return (← inArena (·.readElement object)).getD Arena.unknown
  | .concrete (.host id) =>
    match indexer? ctx id with
    | some (m, keyType, ty) =>
      checkAccepts keyType key "index" m.owner span
      inArena (·.ofType ty)
    | none =>
      notIndexable object span
      return Arena.unknown
  | .concrete .string =>
    checkArrayIndex key span
    return Arena.string
  | .unknown | .undetermined | .record .. => return Arena.unknown
  | _ =>
    notIndexable object span
    return Arena.unknown

/-! ### Storing -/

/-- Give a variable another shape. -/
def replaceLocal (symbol : Symbol) (derived : ShapeId) : Analyze Unit := do
  let layer ← modifyGet fun s =>
    let (layer, layers) := s.layers.replace s.stack symbol.node derived
    (layer, { s with layers })
  match layer with
  | some layer =>
    if (← get).declarationReads.contains (layer, symbol.node) then
      modifyArena (·.forceDeclaration symbol.node)
  | none => return

/-- Widen a variable to hold a value. In a frozen layer it keeps its shape, and the store is checked
at run time. -/
def storeLocal (symbol : Symbol) (value : ShapeId) : Analyze Unit := do
  let s ← get
  match s.layers.shape? s.stack symbol.node with
  | none => return
  | some old =>
    let derived ← inArena (·.derive old value)
    if !(← get).arena.same derived old then
      replaceLocal symbol derived

def checkHostStore (m : Member) (value : ShapeId) (span : Span) : Analyze Unit := do
  if !m.isWritable then
    report (.type (.readOnly m.qualifiedName)) span
  else
    match m.valueType? with
    | some ty => checkAccepts ty value "member" m.qualifiedName span
    | none => return

def storeMember (ctx : Context) (object : ShapeId) (name : String) (value : ShapeId) (span : Span) :
    Analyze Unit := do
  match MemberTarget.resolve (← get).arena ctx.types object name with
  | .recordField record | .missingField record =>
    let _ ← inArena (·.writeField record name value)
  | .host m => checkHostStore m value span
  | .dynamic => return
  | .arrayLength | .stringLength => report (.type (.readOnly name)) span
  | .arrayAdd | .extension _ => report (.type (.assignToMethod name)) span
  | .noMember => report (.type (.noMember (← describe object) name)) span

def storeIndex (ctx : Context) (object key value : ShapeId) (span : Span) : Analyze Unit := do
  match (← get).arena.resolved object with
  | .array .. =>
    checkArrayIndex key span
    let _ ← inArena (·.writeElement object value)
  | .concrete (.host id) =>
    match indexer? ctx id with
    | some (m, keyType, ty) =>
      if !m.isWritable then
        report (.type (.readOnlyIndexer m.owner)) span
      checkAccepts keyType key "index" m.owner span
      checkAccepts ty value "value" m.owner span
    | none => notIndexable object span
  | .unknown | .undetermined | .record .. => return
  | _ => notIndexable object span

def store (ctx : Context) (place : Place) (value : ShapeId) (span : Span) : Analyze Unit :=
  match place with
  | .local symbol => storeLocal symbol value
  | .input m => checkHostStore m value span
  | .member object name => storeMember ctx object name value span
  | .index object key => storeIndex ctx object key value span
  | .invalid => return

/-- The shape that a place holds, read for a step. -/
def placeShape (ctx : Context) (place : Place) (span : Span) : Analyze ShapeId := do
  match place with
  | .local symbol => readSymbol symbol
  | .input m => hostMemberShape m span
  | .member object name =>
    memberShape object name (MemberTarget.resolve (← get).arena ctx.types object name) span
  | .index object key => indexShape ctx object key span
  | .invalid => return Arena.unknown

end Analysis

end HostScript
