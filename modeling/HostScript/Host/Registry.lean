import HostScript.Host.Member
import HostScript.Options
import HostScript.Text.Json

/-!
# The registry of host types

Types are declared, defined and validated. Validation follows the types that members mention and
is done once for each type. Extension types offer functions that become members of the type of
their first parameter.
-/

namespace HostScript

open Text (Json)

/-- Why a type is not supported. -/
inductive Unsupported where
  | notPublic
  | memberNotPublic (member : String)
  | notAnExtension (member : String)
  | staticMember (member : String)
  | secondIndexer
  | repeatedName (name : String)
  | pointer (ty : TypeRef)
  | generic (ty : TypeRef)
  | receiver (function : String)
deriving Repr

def Unsupported.message : Unsupported → String
  | notPublic => "type is not public"
  | memberNotPublic member => "member '" ++ member ++ "' is script-visible but not public"
  | notAnExtension member =>
    "extension member '" ++ member ++ "' must be a static function taking a receiver"
  | staticMember member => "static member '" ++ member ++ "' is only allowed on extension types"
  | secondIndexer => "more than one indexer"
  | repeatedName name => "more than one member is exposed as '" ++ name ++ "'"
  | pointer ty => "pointer type " ++ ty.display ++ " is not supported"
  | generic ty => "generic type " ++ ty.display ++ " is not supported"
  | receiver function => "extension '" ++ function ++ "' has an unsupported receiver type"

inductive TypeError where
  | unsupported (type : String) (reason : Unsupported)
  | unknown (type : String)
  | notRegistered (type : String)
deriving Repr

namespace TypeError

def message : TypeError → String
  | unsupported type reason => "Type '" ++ type ++ "' is not supported: " ++ reason.message
  | unknown type => "Unknown host type '" ++ type ++ "'"
  | notRegistered type => "Host type '" ++ type ++ "' is not registered"

def code : TypeError → String
  | unsupported .. => "unsupported_type"
  | unknown _ => "unknown_type"
  | notRegistered _ => "not_registered"

def toJson (e : TypeError) : Json :=
  let detail : Json := match e with
    | unsupported type reason =>
      .object [("ty", .str type), ("reason", .str reason.message)]
    | unknown type => .str type
    | notRegistered type => .str type
  .object [("code", .str e.code), ("detail", detail)]

end TypeError

structure Registry where
  naming : Naming
  names : Array String := #[]
  /-- A type that was declared and not yet defined has none. -/
  descriptors : Array (Option TypeDescriptor) := #[]
  /-- The type defined last for each kind of data. -/
  byData : OrderedMap String HostTypeId := {}
  /-- The outcome of validation, for types that were validated. -/
  validated : OrderedMap HostTypeId (Except TypeError TypeInfo) := {}
  /-- Types whose validation is under way. -/
  inProgress : List HostTypeId := []
  extensions : OrderedMap Receiver (OrderedMap String Member) := {}
  nextMember : MemberId := 0

namespace Registry

/-- Changes stay when an operation fails. -/
abbrev Register := EStateM TypeError Registry

def typeName (r : Registry) (id : HostTypeId) : String :=
  r.names[id]?.getD "<unknown>"

/-- The type defined last for a kind of data. -/
def idOf? (r : Registry) (dataType : String) : Option HostTypeId :=
  r.byData.get? dataType

/-- The members of a type that was validated with success. -/
def info? (r : Registry) (id : HostTypeId) : Option TypeInfo :=
  match r.validated.get? id with
  | some (.ok info) => some info
  | _ => none

def extension? (r : Registry) (receiver : Receiver) (name : String) : Option Member :=
  (r.extensions.get? receiver).bind (·.get? name)

/-- Reserve a number, so that descriptors can mention the type before it is defined. -/
def declare (name : String) : Register HostTypeId :=
  modifyGet fun r =>
    (r.names.size, { r with names := r.names.push name, descriptors := r.descriptors.push none })

def define (id : HostTypeId) (desc : TypeDescriptor) : Register Unit := do
  let r ← get
  if id < r.descriptors.size then
    set { r with
      byData := r.byData.insert desc.dataType id
      names := r.names.set! id desc.name
      descriptors := r.descriptors.set! id (some desc)
      validated := r.validated.erase id }
  else
    throw (.unknown desc.name)

/-! ### Validation -/

/-- Check a type that a member of `owner` mentions. -/
def checkType (validate : HostTypeId → Register Unit) (owner : String) : TypeRef → Register Unit
  | .pointer target => throw (.unsupported owner (.pointer (.pointer target)))
  | .generic .list [inner] => checkType validate owner inner
  | .generic .iterable [inner] => checkType validate owner inner
  | .generic .nullable [.bool] => return
  | .generic .nullable [.number _] => return
  | .generic container args => throw (.unsupported owner (.generic (.generic container args)))
  | .host id => do
    if id < (← get).descriptors.size then
      validate id
    else
      throw (.unknown ("Host#" ++ toString id))
  | _ => return

def checkKind (validate : HostTypeId → Register Unit) (owner : String) : MemberKind → Register Unit
  | .field ty _ => checkType validate owner ty
  | .property ty _ _ => checkType validate owner ty
  | .method params ret | .function params ret => do
    params.forM (checkType validate owner)
    checkType validate owner ret
  | .indexer key ty _ => do
    checkType validate owner key
    checkType validate owner ty

/-- Whether a member is a static function with a receiver. -/
def isExtensionMember (m : MemberDescriptor) : Bool :=
  match m.kind with
  | .function params _ => m.isStatic && !params.isEmpty
  | _ => false

/-- A numbered member, put among those found so far. -/
def enter (owner : String) (found : OrderedMap String Member × Option Member) (member : Member) :
    Register (OrderedMap String Member × Option Member) := do
  let (members, indexer) := found
  match member.kind with
  | .indexer .. =>
    if indexer.isSome then
      throw (.unsupported owner .secondIndexer)
    return (members, some member)
  | _ =>
    if members.contains member.name then
      throw (.unsupported owner (.repeatedName member.name))
    return (members.insert member.name member, indexer)

/-- A member that passed the checks gets its number. -/
def addNumbered (validate : HostTypeId → Register Unit) (owner : String)
    (found : OrderedMap String Member × Option Member) (m : MemberDescriptor) :
    Register (OrderedMap String Member × Option Member) := do
  checkKind validate owner m.kind
  let name := m.scriptName.getD ((← get).naming.apply m.name)
  let id ← modifyGet fun r => (r.nextMember, { r with nextMember := r.nextMember + 1 })
  enter owner found { id, name, hostName := m.name, owner, kind := m.kind, code := m.code }

/-- Validate a member and add it to those found so far. -/
def addMember (validate : HostTypeId → Register Unit) (asExtension : Bool) (owner : String)
    (found : OrderedMap String Member × Option Member) (m : MemberDescriptor) :
    Register (OrderedMap String Member × Option Member) :=
  if !m.isPublic then throw (.unsupported owner (.memberNotPublic m.name))
  else if asExtension && !isExtensionMember m then
    throw (.unsupported owner (.notAnExtension m.name))
  else if !asExtension && m.isStatic then throw (.unsupported owner (.staticMember m.name))
  else addNumbered validate owner found m

/-- Validate the descriptor of a type. Own members come before extensions of the same name. -/
def buildInfo (validate : HostTypeId → Register Unit) (asExtension : Bool) (id : HostTypeId) :
    Register TypeInfo := do
  let r ← get
  let name := r.typeName id
  match r.descriptors[id]?.join with
  | none => throw (.notRegistered name)
  | some desc =>
    if !desc.isPublic then
      throw (.unsupported name .notPublic)
    let visible := desc.members.filter MemberDescriptor.isVisible
    let (own, indexer) ← visible.foldlM (addMember validate asExtension name) ({}, none)
    let overlay := ((← get).extensions.get? (.host id)).getD {}
    let members := overlay.entries.foldl (fun ms (n, m) => ms.insertIfNew n m) own
    return { id, name, members, indexer }

/-- Run a validation and keep its outcome. -/
def remember (id : HostTypeId) (build : Register TypeInfo) : Register Unit := fun r =>
  let finish (r : Registry) (outcome : Except TypeError TypeInfo) : Registry :=
    { r with
      inProgress := r.inProgress.filter (· ≠ id)
      validated := r.validated.insert id outcome }
  match build { r with inProgress := id :: r.inProgress } with
  | .ok info r => .ok () (finish r (.ok info))
  | .error e r => .error e (finish r (.error e))

/-- Validate a type and all that its members mention. A type that mentions itself is taken for valid
while its validation is under way, so the budget need not exceed the number of types. -/
def validateWith : Nat → Bool → HostTypeId → Register Unit
  | 0, _, _ => return
  | budget + 1, asExtension, id => do
    let r ← get
    match r.validated.get? id with
    | some (.ok _) => return
    | some (.error e) => throw e
    | none =>
      if r.inProgress.contains id then
        return
      remember id (buildInfo (validateWith budget false) asExtension id)

def validate (asExtension : Bool) (id : HostTypeId) : Register Unit := do
  validateWith ((← get).descriptors.size + 2) asExtension id

/-! ### Registration -/

/-- Declare, define and validate a type. -/
def registerType (desc : TypeDescriptor) : Register HostTypeId := do
  let id ← declare desc.name
  define id desc
  validate false id
  return id

/-- Offer a function as a member of its receiver. A type that is validated already gains it, unless
it has a member of that name. -/
def addExtension (function : Member) : Register Unit := do
  match function.kind with
  | .function params _ =>
    match params.head?.bind Receiver.ofType? with
    | none => throw (.unsupported function.owner (.receiver function.hostName))
    | some receiver =>
      modify fun r =>
        let named := ((r.extensions.get? receiver).getD {}).insert function.name function
        { r with extensions := r.extensions.insert receiver named }
      match receiver with
      | .host target =>
        modify fun r =>
          match r.info? target with
          | none => r
          | some info =>
            let info := { info with members := info.members.insertIfNew function.name function }
            { r with validated := r.validated.insert target (.ok info) }
      | _ => return
  | _ => return

/-- Register a type of extension functions. -/
def registerExtension (desc : TypeDescriptor) : Register Unit := do
  let id ← declare desc.name
  define id desc
  validate true id
  let functions := (((← get).info? id).map fun info => info.members.values).getD []
  functions.forM addExtension

/-- The members that a type offers. Types that are not host types have none. -/
def typeInfo? (ty : TypeRef) : Register (Option TypeInfo) := do
  match ty with
  | .host id =>
    validate false id
    return (← get).info? id
  | _ => return none

end Registry

/-- What was valid at one moment. Programs look members up in it. -/
structure Snapshot where
  types : OrderedMap HostTypeId TypeInfo := {}
  extensions : OrderedMap Receiver (OrderedMap String Member) := {}

def Registry.snapshot (r : Registry) : Snapshot where
  types := ⟨r.validated.entries.filterMap fun (id, outcome) => outcome.toOption.map (id, ·)⟩
  extensions := r.extensions

/-- The member of a receiver. A member of the type itself comes before an extension. -/
def Snapshot.member? (s : Snapshot) (receiver : Receiver) (name : String) : Option Member :=
  let own := match receiver with
    | .host id => (s.types.get? id).bind fun info => info.members.get? name
    | _ => none
  own <|> (s.extensions.get? receiver).bind (·.get? name)

end HostScript
