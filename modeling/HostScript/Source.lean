/-!
# Places in a script

A span is a range of byte offsets. A position counts lines and characters, both from one.
-/

namespace HostScript

/-- Bytes from `start` to before `stop`. -/
structure Span where
  start : Nat
  stop : Nat
deriving DecidableEq, Repr, Inhabited

/-- The least span around both. -/
def Span.merge (a b : Span) : Span :=
  ⟨min a.start b.start, max a.stop b.stop⟩

structure Position where
  line : Nat
  column : Nat
deriving DecidableEq, Repr

namespace Position

def first : Position := ⟨1, 1⟩

def after (p : Position) (c : Char) : Position :=
  if c = '\n' then ⟨p.line + 1, 1⟩ else ⟨p.line, p.column + 1⟩

/-- Walk over the characters that start before byte `offset`. The first one starts at byte
`byte`. -/
def walk (offset : Nat) : List Char → Nat → Position → Position
  | [], _, p => p
  | c :: cs, byte, p =>
    if offset ≤ byte then p else walk offset cs (byte + c.utf8Size) (p.after c)

def ofOffset (source : String) (offset : Nat) : Position :=
  walk offset source.toList 0 first

end Position

/-- The number of a node in a script, in order of creation. -/
abbrev NodeId := Nat

end HostScript
