import HostScript.Code.Conversion

/-!
# Code for variables, members and places

Loads and stores. A place is decided from the shape of its receiver before code is generated for
the receiver.
-/

namespace HostScript

/-- A place to load from and store to. -/
inductive CodePlace where
  | local (symbol : Symbol)
  | input (member : Member)
  | field (record : Rep) (index : Nat) (rep : Rep)
  | host (receiver : Rep) (member : Member)
  | element (array : Rep) (rep : Rep)
  | hostIndex (receiver : Rep) (member : Member) (key ty : TypeRef)
  | dynMember (name : String)
  | dynIndex

namespace CodePlace

/-- The representation in which the receiver of a member place is needed, and its label. -/
def receiver : CodePlace → Rep × String
  | .field record .. => (record, "record")
  | .host receiver _ => (receiver, "receiver")
  | _ => (.any, "receiver")

/-- Push again what a store takes below the value. -/
def again : CodePlace → List Op
  | .local _ => []
  | .input _ | .field .. | .host .. | .dynMember _ => [.dup]
  | .element .. | .hostIndex .. | .dynIndex => [.dup2]

end CodePlace

namespace Generate

/-! ### Variables -/

/-- A local slot for a variable. The same declaration always has the same slot. -/
def declareLocal (b : Body) (symbol : Symbol) : Generate Storage := do
  let t ← get
  match t.locals.get? symbol with
  | some storage => return storage
  | none =>
    let storage : Storage := {
      slot := slotNumber t.localCount
      rep := b.rep symbol.node
      inCell := b.analysis.captured.contains symbol }
    set { t with locals := t.locals.insert symbol storage, localCount := t.localCount + 1 }
    return storage

def captureIndex (b : Body) (symbol : Symbol) (span : Span) : Generate Nat :=
  orFail (b.captures.findIdx? (· = symbol)) .noStorage span

def loadSymbol (b : Body) (symbol : Symbol) (span : Span) : Generate Fragment := do
  match (← get).locals.get? symbol with
  | some storage =>
    let op := if storage.inCell then Op.loadCell storage.slot else .loadLocal storage.slot
    return ⟨[op], storage.rep⟩
  | none =>
    let index ← captureIndex b symbol span
    return ⟨[.loadCapture index], b.rep symbol.node⟩

def storeSymbol (b : Body) (symbol : Symbol) (given : Rep) (label : String) (span : Span) :
    Generate (List Op) := do
  match (← get).locals.get? symbol with
  | some storage =>
    let ops ← convert b given storage.rep label
    let op := if storage.inCell then Op.storeCell storage.slot else .storeLocal storage.slot
    return ops ++ [op]
  | none =>
    let index ← captureIndex b symbol span
    let ops ← convert b given (b.rep symbol.node) label
    return ops ++ [.storeCapture index]

/-! ### Members -/

/-- The representation of the value of a field or property. -/
def memberRep (m : Member) : Rep :=
  (m.valueType?.map TypeRef.rep).getD .any

/-- Read a member of the host object on top of the stack. A method that is not called is bound. -/
def hostMember (m : Member) : Generate Fragment := do
  if m.isCallable then
    return ⟨[.bindMethod (← member m .any)], .any⟩
  else
    return ⟨[.getHost (← member m (memberRep m))], memberRep m⟩

/-- Read a member by name from a value of any kind. -/
def dynMember (b : Body) (object : Fragment) (memberName : String) : Generate Fragment := do
  let ops ← as b object .any "receiver"
  return ⟨ops ++ [.dynGetMember (← name memberName)], .any⟩

/-- The layout number of a record, for the field that is read or written. -/
def field? (b : Body) (record : Rep) (fieldName : String) : Option (Nat × Rep) :=
  match record with
  | .record layout => b.layouts.field? layout fieldName
  | _ => none

def elementRep (b : Body) (array : Rep) : Rep :=
  match array with
  | .array layout => b.layouts.element layout
  | _ => .any

def target (b : Body) (object : NodeId) (memberName : String) : MemberTarget :=
  MemberTarget.resolve b.analysis.arena b.types (b.shape object) memberName

/-- Read a member of the object for which there is code. -/
def memberValue (b : Body) (objectNode : NodeId) (object : Fragment) (memberName : String) :
    MemberTarget → Generate Fragment
  | .recordField _ => do
    let record := b.rep objectNode
    match field? b record memberName with
    | some (index, rep) => return ⟨(← as b object record "record") ++ [.getField index], rep⟩
    | none => dynMember b object memberName
  | .arrayLength => do
    return ⟨(← as b object (b.rep objectNode) "array") ++ [.arrayLength], .num⟩
  | .stringLength => do
    return ⟨(← as b object .str "string") ++ [.strLength], .num⟩
  | .host m => do
    let ops ← as b object (b.rep objectNode) "receiver"
    let value ← hostMember m
    return ⟨ops ++ value.ops, value.rep⟩
  | .extension m => do
    let ops ← as b object .any "receiver"
    return ⟨ops ++ [.bindMethod (← member m .any)], .any⟩
  | .arrayAdd => do
    return ⟨(← as b object .any "receiver") ++ [.bindArrayAdd], .any⟩
  | .missingField _ | .dynamic | .noMember => dynMember b object memberName

/-- Analysis reports members that are not there. -/
def checkMember (found : MemberTarget) (memberName : String) (span : Span) : Generate Unit :=
  match found with
  | .noMember => fail (.noMember memberName) span
  | _ => return

/-! ### Indices -/

/-- How an element or entry is reached. -/
inductive IndexTarget where
  | array (rep : Rep)
  | host (id : HostTypeId) (member : Member) (key ty : TypeRef)
  | dynamic

def indexTarget (b : Body) (object : NodeId) (span : Span) : Generate IndexTarget := do
  match b.analysis.arena.resolved (b.shape object) with
  | .array .. => return .array (b.rep object)
  | .concrete (.host id) =>
    let m ← orFail ((b.types.info? id).bind TypeInfo.indexer) .noIndexer span
    match m.kind with
    | .indexer key ty _ => return .host id m key ty
    | _ => fail .noIndexer span
  | _ => return .dynamic

/-- The representation in which the object of an index is needed, and its label. -/
def IndexTarget.object : IndexTarget → Rep × String
  | .array rep => (rep, "array")
  | .host id .. => (.host id, "receiver")
  | .dynamic => (.any, "receiver")

/-- Turn the index into what the object needs. -/
def indexKey (b : Body) (key : Fragment) : IndexTarget → Generate (List Op)
  | .array _ => as b key .num "index"
  | .host _ _ keyType _ => do
    return key.ops ++ (← hostValue b keyType key.rep "index")
  | .dynamic => as b key .any "index"

/-- Read the element or entry. The object and the index are on the stack. -/
def indexValue (b : Body) : IndexTarget → Generate Fragment
  | .array rep => return ⟨[.getIndex], elementRep b rep⟩
  | .host _ m _ ty => do
    return ⟨[.getHostIndex (← member m ty.rep)], ty.rep⟩
  | .dynamic => return ⟨[.dynGetIndex], .any⟩

/-! ### Places -/

/-- The place that a name stands for. -/
def namedPlace (b : Body) (node : Node) : Generate CodePlace := do
  match b.analysis.resolutions.get? node.id with
  | some (.local symbol) => return .local symbol
  | some (.input m) => return .input m
  | none => fail .unresolvedTarget node.span

/-- The place of a member. A field that analysis could not add, because the record was frozen, is
reached by name. -/
def memberPlace (b : Body) (object : NodeId) (memberName : String) (span : Span) :
    Generate CodePlace := do
  match target b object memberName with
  | .recordField _ | .missingField _ =>
    let record := b.rep object
    match field? b record memberName with
    | some (index, rep) => return .field record index rep
    | none => return .dynMember memberName
  | .host m => return .host (b.rep object) m
  | .dynamic => return .dynMember memberName
  | _ => fail (.notAssignable memberName) span

def indexPlace (b : Body) : IndexTarget → CodePlace
  | .array rep => .element rep (elementRep b rep)
  | .host id m key ty => .hostIndex (.host id) m key ty
  | .dynamic => .dynIndex

/-- Load from a place. What the place needs is on the stack. -/
def loadPlace (b : Body) (span : Span) : CodePlace → Generate Fragment
  | .local symbol => loadSymbol b symbol span
  | .input m | .host _ m => do
    return ⟨[.getHost (← member m (memberRep m))], memberRep m⟩
  | .field _ index rep => return ⟨[.getField index], rep⟩
  | .element _ rep => return ⟨[.getIndex], rep⟩
  | .hostIndex _ m _ ty => do
    return ⟨[.getHostIndex (← member m ty.rep)], ty.rep⟩
  | .dynMember memberName => do
    return ⟨[.dynGetMember (← name memberName)], .any⟩
  | .dynIndex => return ⟨[.dynGetIndex], .any⟩

/-- Store the value on top of the stack. What the place needs is below it. -/
def storePlace (b : Body) (given : Rep) (span : Span) : CodePlace → Generate (List Op)
  | .local symbol => storeSymbol b symbol given "variable" span
  | .input m | .host _ m => do
    let ops ← match m.valueType? with
      | some ty => hostValue b ty given m.qualifiedName
      | none => pure []
    return ops ++ [.setHost (← member m (memberRep m))]
  | .field _ index rep => do
    return (← convert b given rep "field") ++ [.setField index]
  | .element _ rep => do
    return (← convert b given rep "element") ++ [.setIndex]
  | .hostIndex _ m _ ty => do
    let ops ← hostValue b ty given (m.owner ++ "[]")
    return ops ++ [.setHostIndex (← member m ty.rep)]
  | .dynMember memberName => do
    let ops ← convert b given .any memberName
    return ops ++ [.dynSetMember (← name memberName)]
  | .dynIndex => do
    return (← convert b given .any "element") ++ [.dynSetIndex]

end Generate

end HostScript
