/-!
# Built-in members

Members of arrays and strings that need no registration by the host.
-/

namespace HostScript

inductive Builtin.Receiver where
  | array
  | string
deriving DecidableEq, Repr

inductive Builtin where
  | arrayLength
  | arrayAdd
  | stringLength
deriving DecidableEq, Repr

namespace Builtin

def all : List Builtin :=
  [arrayLength, arrayAdd, stringLength]

def name : Builtin → String
  | arrayLength | stringLength => "length"
  | arrayAdd => "add"

def receiver : Builtin → Receiver
  | arrayLength | arrayAdd => .array
  | stringLength => .string

/-- How many arguments a built-in method takes. A member that is read as a value has none. -/
def arity? : Builtin → Option Nat
  | arrayAdd => some 1
  | arrayLength | stringLength => none

def description : Builtin → String
  | arrayLength => "Number of elements"
  | arrayAdd => "Append an element"
  | stringLength => "Number of characters"

def lookup? (receiver : Receiver) (name : String) : Option Builtin :=
  all.find? fun b => b.receiver == receiver && b.name == name

end Builtin

end HostScript
