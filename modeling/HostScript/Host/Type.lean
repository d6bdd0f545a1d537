import HostScript.Number.Kind

/-!
# Types of host members

The types in which the host describes its fields, parameters and results.
-/

namespace HostScript

/-- The number of a registered host type. -/
abbrev HostTypeId := Nat

inductive Container where
  | list
  | iterable
  | nullable
  | other (name : String)
deriving DecidableEq, Repr

def Container.name : Container → String
  | list => "List"
  | iterable => "Iterable"
  | nullable => "Nullable"
  | other name => name

inductive TypeRef where
  /-- Any value of a script. -/
  | any
  | null
  | void
  | bool
  | number (kind : NumKind)
  | string
  | host (id : HostTypeId)
  | record
  | array
  | function
  | generic (container : Container) (args : List TypeRef)
  | pointer (target : TypeRef)
deriving Repr, Inhabited

namespace TypeRef

mutual

/-- The type as messages name it. -/
def display : TypeRef → String
  | any => "Any"
  | null => "Null"
  | void => "Void"
  | bool => "Bool"
  | number kind => "Number(" ++ kind.name ++ ")"
  | string => "String"
  | host id => "Host#" ++ toString id
  | record => "Record"
  | array => "Array"
  | function => "Function"
  | generic container args =>
    container.name ++ "<" ++ String.intercalate ", " (displayAll args) ++ ">"
  | pointer target => "*" ++ display target

def displayAll : List TypeRef → List String
  | [] => []
  | ty :: rest => display ty :: displayAll rest

end

end TypeRef

end HostScript
