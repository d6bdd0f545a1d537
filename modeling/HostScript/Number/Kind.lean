import HostScript.Number.Scaled

/-!
# Numeric kinds of the host

Scripts have one kind of number. A number that is stored in the host is narrowed to the kind of the
member: integers truncate and saturate, and what is no number becomes zero.
-/

namespace HostScript

inductive NumKind where
  | i32
  | i64
  | u8
  | f32
  | f64
deriving DecidableEq, Repr

namespace NumKind

def name : NumKind → String
  | i32 => "i32"
  | i64 => "i64"
  | u8 => "u8"
  | f32 => "f32"
  | f64 => "f64"

/-- Truncate, then move into the range from `low` to `high`. -/
def clamp (low high : Int) (x : Float) : Float :=
  if x.isNaN then 0
  else if x.isInf then Float.ofInt (if Number.isNegative x then low else high)
  else Float.ofInt (max low (min high (Number.truncate x)))

/-- Round to 24 bits, none of them below `2 ^ -149`; from `2 ^ 128` on the result is infinite. -/
def single (x : Float) : Float :=
  if x.isNaN || x.isInf then x
  else
    let rounded := (Number.magnitude x).round 24 (-149)
    if rounded.floor ≥ Nat.pow 2 128 then
      if Number.isNegative x then -Number.infinity else Number.infinity
    else Number.ofMagnitude (Number.isNegative x) rounded

def narrow : NumKind → Float → Float
  | i32, x => clamp (-2147483648) 2147483647 x
  | i64, x => clamp (-9223372036854775808) 9223372036854775807 x
  | u8, x => clamp 0 255 x
  | f32, x => single x
  | f64, x => x

end NumKind

end HostScript
