import HostScript.OrderedMap

/-!
# Maps of numbered keys

Entries are kept by the digits of the numbers of their keys, so that looking one up passes few
others.
-/

namespace HostScript

class Numbered (κ : Type) where
  number : κ → Nat

instance : Numbered Nat := ⟨id⟩

namespace OrderedMap

variable {κ ι α : Type} [DecidableEq κ]

/-- The map at a key of a map of maps. -/
def inner (m : OrderedMap κ (OrderedMap ι α)) (key : κ) : OrderedMap ι α :=
  (m.get? key).getD {}

/-- Change the map at a key. -/
def alterIn (key : κ) (f : OrderedMap ι α → OrderedMap ι α) :
    List (κ × OrderedMap ι α) → List (κ × OrderedMap ι α)
  | [] => [(key, f {})]
  | (k, m) :: rest => if k = key then (k, f m) :: rest else (k, m) :: alterIn key f rest

def alter (m : OrderedMap κ (OrderedMap ι α)) (key : κ) (f : OrderedMap ι α → OrderedMap ι α) :
    OrderedMap κ (OrderedMap ι α) :=
  ⟨alterIn key f m.entries⟩

end OrderedMap

structure NumberedMap (κ α : Type) where
  pages : OrderedMap Nat (OrderedMap Nat (OrderedMap κ α)) := {}

namespace NumberedMap

variable {κ α : Type}

def entries (m : NumberedMap κ α) : List (κ × α) :=
  m.pages.values.flatMap fun page => page.values.flatMap OrderedMap.entries

def values (m : NumberedMap κ α) : List α :=
  m.entries.map Prod.snd

variable [DecidableEq κ] [Numbered κ]

def get? (m : NumberedMap κ α) (key : κ) : Option α :=
  let n := Numbered.number key
  ((m.pages.inner (n / 4096)).inner (n / 64)).get? key

def insert (m : NumberedMap κ α) (key : κ) (value : α) : NumberedMap κ α :=
  let n := Numbered.number key
  ⟨m.pages.alter (n / 4096) fun page => page.alter (n / 64) (·.insert key value)⟩

end NumberedMap

end HostScript
