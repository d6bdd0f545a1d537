/-!
# Maps in insertion order

Entries keep the order in which their keys first came. Writing a key again replaces its value in
place; a new key goes to the end.
-/

namespace HostScript

structure OrderedMap (κ α : Type) where
  entries : List (κ × α) := []
deriving Repr

namespace OrderedMap

variable {κ α : Type}

instance : Inhabited (OrderedMap κ α) := ⟨{}⟩

def keys (m : OrderedMap κ α) : List κ :=
  m.entries.map Prod.fst

def values (m : OrderedMap κ α) : List α :=
  m.entries.map Prod.snd

def size (m : OrderedMap κ α) : Nat :=
  m.entries.length

def mapValues {β : Type} (f : κ → α → β) (m : OrderedMap κ α) : OrderedMap κ β :=
  ⟨m.entries.map fun (k, a) => (k, f k a)⟩

variable [DecidableEq κ]

def lookup (key : κ) : List (κ × α) → Option α
  | [] => none
  | (k, a) :: rest => if k = key then some a else lookup key rest

def put (key : κ) (value : α) : List (κ × α) → List (κ × α)
  | [] => [(key, value)]
  | (k, a) :: rest => if k = key then (k, value) :: rest else (k, a) :: put key value rest

def get? (m : OrderedMap κ α) (key : κ) : Option α :=
  lookup key m.entries

def contains (m : OrderedMap κ α) (key : κ) : Bool :=
  (m.get? key).isSome

def insert (m : OrderedMap κ α) (key : κ) (value : α) : OrderedMap κ α :=
  ⟨put key value m.entries⟩

/-- Keep the value of a key that is there already. -/
def insertIfNew (m : OrderedMap κ α) (key : κ) (value : α) : OrderedMap κ α :=
  if m.contains key then m else m.insert key value

def erase (m : OrderedMap κ α) (key : κ) : OrderedMap κ α :=
  ⟨m.entries.filter fun (k, _) => k ≠ key⟩

def ofList (entries : List (κ × α)) : OrderedMap κ α :=
  entries.foldl (fun m (k, a) => m.insert k a) {}

/-- The place of a key in the order of insertion. -/
def indexOf? (m : OrderedMap κ α) (key : κ) : Option Nat :=
  m.keys.findIdx? (· = key)

private theorem lookup_put_self (key : κ) (value : α) (entries : List (κ × α)) :
    lookup key (put key value entries) = some value := by
  induction entries with
  | nil => simp [put, lookup]
  | cons entry rest ih =>
    obtain ⟨k, a⟩ := entry
    by_cases h : k = key <;> simp [put, lookup, h, ih]

private theorem lookup_put_of_ne {key other : κ} (value : α) (entries : List (κ × α))
    (h : other ≠ key) : lookup other (put key value entries) = lookup other entries := by
  induction entries with
  | nil => simp [put, lookup, h.symm]
  | cons entry rest ih =>
    obtain ⟨k, a⟩ := entry
    by_cases hk : k = key
    · subst hk
      simp [put, lookup, h.symm]
    · by_cases ho : k = other
      · subst ho
        simp [put, lookup, hk]
      · simp [put, lookup, hk, ho, ih]

@[simp] theorem get?_insert_self (m : OrderedMap κ α) (key : κ) (value : α) :
    (m.insert key value).get? key = some value :=
  lookup_put_self key value m.entries

theorem get?_insert_of_ne (m : OrderedMap κ α) {key other : κ} (value : α) (h : other ≠ key) :
    (m.insert key value).get? other = m.get? other :=
  lookup_put_of_ne value m.entries h

end OrderedMap

end HostScript
