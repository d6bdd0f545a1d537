import HostScript.World
import HostScript.Host.Builtin

/-!
# Dynamic operations

Members, indices and calls on values whose kind is only known at run time. Look-ups of host
members are remembered, misses included.
-/

namespace HostScript.Dynamic

variable {σ : Type}

/-- The name of a host type in messages. -/
def typeName (types : Snapshot) (id : HostTypeId) : String :=
  ((types.types.get? id).map TypeInfo.name).getD ("host type #" ++ toString id)

/-- The host member of a receiver. -/
def lookup (types : Snapshot) (receiver : Receiver) (name : String) : Run σ (Option Member) := do
  match (← get).lookups.get? (receiver, name) with
  | some found => return found
  | none =>
    let found := types.member? receiver name
    modify fun w => { w with lookups := w.lookups.insert (receiver, name) found }
    return found

def notFound {α : Type} (target : Value) (name : String) : Run σ α :=
  throw (.memberNotFound target.typeName name)

/-- A method with its receiver. -/
def bind (receiver : Value) (m : Member) : Run σ Value :=
  let target := if m.isExtension then BoundTarget.extension m else .member m
  Run.alloc fun h => h.newMethod { receiver, target }

/-- The value of a member, if it is one of the script's own: a field of a record or a built-in
member. -/
def ownMember? (target : Value) (name : String) : Run σ (Option Value) := do
  match target with
  | .record _ => return target.field? (← Run.heap) name
  | .array a =>
    match Builtin.lookup? .array name with
    | some .arrayAdd =>
      return some (← Run.alloc fun h => h.newMethod { receiver := target, target := .arrayAdd })
    | some _ =>
      let length := (((← Run.heap).arrays[a]?).map fun o => o.items.size).getD 0
      return some (.number (Float.ofNat length))
    | none => return none
  | .str s =>
    match Builtin.lookup? .string name with
    | some _ => return some (.number (Float.ofNat s.length))
    | none => return none
  | _ => return none

def getMember (env : Env σ) (target : Value) (name : String) : Run σ Value := do
  if target = .null then
    throw (.nullReference name)
  match ← ownMember? target name with
  | some value => return value
  | none =>
    match Receiver.ofValue? target with
    | none => notFound target name
    | some receiver =>
      match ← lookup env.types receiver name, target with
      | none, _ => notFound target name
      | some m, .host object =>
        if m.isCallable then
          bind target m
        else
          let value ← m.read env.code object
          match m.valueType? with
          | some ty => Run.ofExcept (ty.coerce m.qualifiedName value)
          | none => return value
      | some m, _ => if m.isCallable then bind target m else notFound target name

/-- The value as it is stored with a representation. -/
def store (target : String) (rep : Rep) (value : Value) : Run σ Slot := do
  match value.slot? (← Run.heap) rep with
  | some slot => return slot
  | none => throw (.typeMismatch target rep.name value.typeName)

/-- Set a field of a record. -/
def setField (r : RecordRef) (name : String) (value : Value) : Run σ Unit := do
  match (← Run.heap).records[r]? with
  | none => notFound (.record r) name
  | some o =>
    match o.layout.indexOf? name with
    | none => notFound (.record r) name
    | some index =>
      let slot ← store name (o.layout.repOf index) value
      Run.modifyHeap fun h => h.setField r index slot

/-- Set a field or property of a host object. -/
def setHostMember (env : Env σ) (object : HostObject) (name : String) (value : Value) :
    Run σ Unit := do
  match ← lookup env.types (.host object.typeId) name with
  | none => notFound (.host object) name
  | some m =>
    if !m.isWritable then
      throw (.readOnly m.qualifiedName)
    let value ← match m.valueType? with
      | some ty => Run.ofExcept (ty.coerce m.qualifiedName value)
      | none => pure value
    m.write env.code object value

def setMember (env : Env σ) (target : Value) (name : String) (value : Value) : Run σ Unit :=
  match target with
  | .null => throw (.nullReference name)
  | .record r => setField r name value
  | .host object => setHostMember env object name value
  | .array _ | .str _ =>
    if name = "length" then throw (.readOnly (target.typeName ++ ".length"))
    else notFound target name
  | _ => notFound target name

/-- The place that a number names among `length` places. -/
def position (index : Float) (length : Nat) : Run σ Nat :=
  match Number.position? index length with
  | some i => pure i
  | none => throw (.indexOutOfRange index length)

def indexer? (types : Snapshot) (id : HostTypeId) : Option Member :=
  (types.types.get? id).bind TypeInfo.indexer

/-- How messages name the indexer of a type. -/
def indexLabel (m : Member) : String :=
  m.owner ++ "[]"

def getIndex (env : Env σ) (target index : Value) : Run σ Value := do
  match target, index with
  | .null, _ => throw (.nullReference "[]")
  | .array a, .number x =>
    let items := (((← Run.heap).arrays[a]?).map ArrayObject.items).getD #[]
    let i ← position x items.size
    return (items[i]?.map Slot.value).getD .null
  | .str s, .number x =>
    let i ← position x s.length
    return (s.toList[i]?.map fun c => .str c.toString).getD .null
  | .record _, .str name => getMember env target name
  | .host object, _ =>
    match indexer? env.types object.typeId with
    | none => throw (.invalidIndex target.typeName index.typeName)
    | some m =>
      let key ← match m.kind with
        | .indexer key _ _ => Run.ofExcept (key.coerce (indexLabel m) index)
        | _ => pure index
      m.readIndex env.code object key
  | _, _ => throw (.invalidIndex target.typeName index.typeName)

/-- Set an element. The value is checked before the place. -/
def setElement (a : ArrayRef) (index : Float) (value : Value) : Run σ Unit := do
  match (← Run.heap).arrays[a]? with
  | none => throw (.indexOutOfRange index 0)
  | some o =>
    let slot ← store "element" o.layout.element value
    let i ← position index o.items.size
    Run.modifyHeap fun h => h.setItem a i slot

def setIndex (env : Env σ) (target index value : Value) : Run σ Unit := do
  match target, index with
  | .null, _ => throw (.nullReference "[]")
  | .array a, .number x => setElement a x value
  | .record _, .str name => setMember env target name value
  | .host object, _ =>
    match indexer? env.types object.typeId with
    | none => throw (.invalidIndex target.typeName index.typeName)
    | some m =>
      match m.kind with
      | .indexer keyType ty _ =>
        let key ← Run.ofExcept (keyType.coerce (indexLabel m) index)
        let value ← Run.ofExcept (ty.coerce (indexLabel m) value)
        m.writeIndex env.code object key value
      | _ => m.writeIndex env.code object index value
  | _, _ => throw (.invalidIndex target.typeName index.typeName)

/-! ### Calls -/

/-- Convert arguments to the types of parameters, from argument number `i` on. -/
def coerceArgs (m : Member) : Nat → List TypeRef → List Value → Except RuntimeError (List Value)
  | i, ty :: types, value :: values => do
    let value ← ty.coerce ("argument " ++ toString i ++ " of '" ++ m.qualifiedName ++ "'") value
    return value :: (← coerceArgs m (i + 1) types values)
  | _, _, _ => return []

def hostArgs (m : Member) (params : List TypeRef) (args : List Value) :
    Except RuntimeError (List Value) :=
  if args.length = params.length then coerceArgs m 1 params args
  else .error (.arity m.qualifiedName params.length args.length)

/-- Call a bound method. -/
def callBound (env : Env σ) (bound : BoundMethod) (args : List Value) : Run σ Value := do
  match bound.target with
  | .member m =>
    let args ← Run.ofExcept (hostArgs m m.callParams args)
    match bound.receiver with
    | .host object => m.call env.code (some object) args
    | _ => throw (.nullReference m.qualifiedName)
  | .extension m =>
    let params := match m.kind with
      | .function params _ => params
      | _ => []
    if args.length + 1 ≠ params.length then
      throw (.arity m.qualifiedName (params.length - 1) args.length)
    let args ← Run.ofExcept (hostArgs m params (bound.receiver :: args))
    m.call env.code none args
  | .arrayAdd =>
    match args with
    | [item] =>
      match bound.receiver with
      | .array a =>
        match (← Run.heap).arrays[a]? with
        | none => throw (.nullReference "add")
        | some o =>
          let slot ← store "add" o.layout.element item
          Run.modifyHeap fun h => h.addItem a slot
          return .null
      | _ => throw (.nullReference "add")
    | _ => throw (.arity "add" 1 args.length)

/-- Call a value that is not a closure. -/
def callMethod (env : Env σ) (callee : Value) (args : List Value) : Run σ Value := do
  match callee with
  | .method m =>
    match (← Run.heap).methods[m]? with
    | some bound => callBound env bound args
    | none => throw (.notCallable callee.typeName)
  | _ => throw (.notCallable callee.typeName)

/-- Call a value. Closures are called by `enter`. -/
def call (env : Env σ) (enter : ClosureRef → List Value → Run σ Value) (callee : Value)
    (args : List Value) : Run σ Value :=
  match callee with
  | .closure c => enter c args
  | _ => callMethod env callee args

/-- The member of a value, if it can be called. -/
def memberCallee (env : Env σ) (target : Value) (name : String) : Run σ Value := do
  match ← getMember env target name with
  | .closure c => return .closure c
  | .method m => return .method m
  | _ => throw (.notCallable (target.typeName ++ "." ++ name))

def callMember (env : Env σ) (enter : ClosureRef → List Value → Run σ Value) (target : Value)
    (name : String) (args : List Value) : Run σ Value := do
  let callee ← memberCallee env target name
  call env enter callee args

end HostScript.Dynamic
