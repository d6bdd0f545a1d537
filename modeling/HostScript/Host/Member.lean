import HostScript.Host.Type
import HostScript.OrderedMap
import HostScript.Text.Quoted

/-!
# Members of host types

The host describes a type by its members. A member that passed validation is known by its number;
the host code behind it is named by a number that the host chose.
-/

namespace HostScript

inductive MemberKind where
  | field (ty : TypeRef) (writable : Bool)
  | property (ty : TypeRef) (readable writable : Bool)
  | method (params : List TypeRef) (ret : TypeRef)
  /-- A function without a receiver of its own. As an extension its first parameter is the receiver.
  -/
  | function (params : List TypeRef) (ret : TypeRef)
  | indexer (key ty : TypeRef) (writable : Bool)
deriving Repr

/-- What a function or an indexer belongs to. -/
inductive Receiver where
  | host (id : HostTypeId)
  | string
  | number
  | bool
  | record
  | array
deriving DecidableEq, Repr

namespace Receiver

def ofType? : TypeRef → Option Receiver
  | .host id => some (host id)
  | .string => some string
  | .number _ => some number
  | .bool => some bool
  | .record => some record
  | .array => some array
  | .generic .list _ => some array
  | .generic .iterable _ => some array
  | _ => none

def describe : Receiver → String
  | host id => "Host(HostTypeId(" ++ toString id ++ "))"
  | string => "String"
  | number => "Number"
  | bool => "Bool"
  | record => "Record"
  | array => "Array"

end Receiver

/-- The number by which the host knows the code of a member. -/
abbrev CodeId := Nat

structure MemberDescriptor where
  name : String
  /-- The name in scripts, if it is not formed by the naming. -/
  scriptName : Option String := none
  /-- Only visible members are offered to scripts. -/
  isVisible : Bool := true
  isPublic : Bool := true
  isStatic : Bool
  kind : MemberKind
  code : CodeId

structure TypeDescriptor where
  name : String
  isPublic : Bool := true
  /-- The name of the data that objects of the type hold. -/
  dataType : String
  members : List MemberDescriptor

abbrev MemberId := Nat

/-- A member that scripts can use. -/
structure Member where
  id : MemberId
  /-- The name in scripts. -/
  name : String
  hostName : String
  /-- The name of the type that declares it. -/
  owner : String
  kind : MemberKind
  code : CodeId

namespace Member

def qualifiedName (m : Member) : String :=
  m.owner ++ "." ++ m.hostName

/-- The type of a field or property. -/
def valueType? (m : Member) : Option TypeRef :=
  match m.kind with
  | .field ty _ => some ty
  | .property ty _ _ => some ty
  | _ => none

def isReadable (m : Member) : Bool :=
  match m.kind with
  | .field .. | .indexer .. => true
  | .property _ readable _ => readable
  | .method .. | .function .. => false

def isWritable (m : Member) : Bool :=
  match m.kind with
  | .field _ writable | .property _ _ writable | .indexer _ _ writable => writable
  | .method .. | .function .. => false

def isCallable (m : Member) : Bool :=
  match m.kind with
  | .method .. | .function .. => true
  | _ => false

def isExtension (m : Member) : Bool :=
  match m.kind with
  | .function .. => true
  | _ => false

/-- The parameters that a call gives. The receiver of an extension is not among them. -/
def callParams (m : Member) : List TypeRef :=
  match m.kind with
  | .method params _ => params
  | .function params _ => params.drop 1
  | _ => []

def ret? (m : Member) : Option TypeRef :=
  match m.kind with
  | .method _ ret | .function _ ret => some ret
  | _ => none

end Member

/-- A host type that passed validation. -/
structure TypeInfo where
  id : HostTypeId
  name : String
  members : OrderedMap String Member
  indexer : Option Member

/-! ### Descriptions in full -/

def Container.describe : Container → String
  | .other name => "Other(" ++ Text.quoted name ++ ")"
  | container => container.name

def NumKind.describe (kind : NumKind) : String :=
  kind.name.capitalize

mutual

/-- The type with its structure spelled out. -/
def TypeRef.describe : TypeRef → String
  | .number kind => "Number(" ++ kind.describe ++ ")"
  | .host id => "Host(HostTypeId(" ++ toString id ++ "))"
  | .generic container args =>
    "Generic \x7b container: " ++ container.describe ++ ", args: [" ++
      String.intercalate ", " (TypeRef.describeAll args) ++ "] \x7d"
  | .pointer target => "Pointer(" ++ TypeRef.describe target ++ ")"
  | ty => ty.display

def TypeRef.describeAll : List TypeRef → List String
  | [] => []
  | ty :: rest => TypeRef.describe ty :: TypeRef.describeAll rest

end

def MemberKind.describe : MemberKind → String
  | field ty writable =>
    "Field \x7b ty: " ++ ty.describe ++ ", writable: " ++ toString writable ++ " \x7d"
  | property ty readable writable =>
    "Property \x7b ty: " ++ ty.describe ++ ", readable: " ++ toString readable ++ ", writable: " ++
      toString writable ++ " \x7d"
  | method params ret => "Method" ++ signature params ret
  | function params ret => "Function" ++ signature params ret
  | indexer key ty writable =>
    "Indexer \x7b key: " ++ key.describe ++ ", ty: " ++ ty.describe ++ ", writable: " ++
      toString writable ++ " \x7d"
where
  signature (params : List TypeRef) (ret : TypeRef) : String :=
    " \x7b params: [" ++ String.intercalate ", " (params.map TypeRef.describe) ++ "], ret: " ++
      ret.describe ++ " \x7d"

end HostScript
