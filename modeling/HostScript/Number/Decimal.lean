import HostScript.Number.Scaled

/-!
# Shortest decimals

`shortest` selects the fewest decimal digits that read back as a given magnitude, and among those
the nearest. Selection tests the two neighbours of the magnitude on ever finer decimal grids, in
exact arithmetic.
-/

namespace HostScript.Number

/-- The number `digits * 10 ^ exponent`. -/
structure Decimal where
  digits : Nat
  exponent : Int
deriving DecidableEq, Repr

/-- The choice between two candidates that are equally near. -/
inductive Tie where
  | up
  | even
deriving DecidableEq, Repr

namespace Decimal

/-- Compare `a * 10 ^ i` with `n * 2 ^ j`. -/
def compareScaled (a : Nat) (i : Int) (n : Nat) (j : Int) : Ordering :=
  compare (a * Nat.pow 10 i.toNat * Nat.pow 2 (-j).toNat)
    (n * Nat.pow 2 j.toNat * Nat.pow 10 (-i).toNat)

/-- The gap below a magnitude is half the gap above it when its mantissa is the least of its
exponent. -/
def hasNarrowGap (s : Scaled) : Bool :=
  s.mantissa == Nat.pow 2 52 && s.exponent > -1074

/-- `d` lies among the reals that round to `s`. -/
def readsBack (s : Scaled) (d : Decimal) : Bool :=
  let low := 4 * s.mantissa - (if hasNarrowGap s then 1 else 2)
  let high := 4 * s.mantissa + 2
  let closed := s.mantissa % 2 == 0
  let below := compareScaled d.digits d.exponent low (s.exponent - 2)
  let above := compareScaled d.digits d.exponent high (s.exponent - 2)
  (below == .gt || closed && below == .eq) && (above == .lt || closed && above == .eq)

/-- The greatest multiple of `10 ^ exponent` that is not above `s`, in units of `10 ^ exponent`. -/
def gridFloor (s : Scaled) (exponent : Int) : Nat :=
  s.mantissa * Nat.pow 2 s.exponent.toNat * Nat.pow 10 (-exponent).toNat /
    (Nat.pow 2 (-s.exponent).toNat * Nat.pow 10 exponent.toNat)

/-- The least `k` near its binary estimate with `s < 10 ^ k`. -/
def scale (s : Scaled) : Int :=
  let estimate := ((s.mantissa.log2 : Int) + s.exponent) * 30103 / 100000
  let fits (k : Int) : Bool := compareScaled 1 k s.mantissa s.exponent == .gt
  if fits (estimate - 1) then estimate - 1
  else if fits estimate then estimate
  else if fits (estimate + 1) then estimate + 1
  else estimate + 2

/-- The candidate of the grid `10 ^ exponent` that reads back as `s`, if there is one. -/
def onGrid? (tie : Tie) (s : Scaled) (exponent : Int) : Option Decimal :=
  let n := gridFloor s exponent
  let lower : Decimal := ⟨n, exponent⟩
  let upper : Decimal := ⟨n + 1, exponent⟩
  match readsBack s lower, readsBack s upper with
  | false, false => none
  | true, false => some lower
  | false, true => some upper
  | true, true =>
    match compareScaled (2 * n + 1) exponent (2 * s.mantissa) s.exponent with
    | .lt => some upper
    | .gt => some lower
    | .eq =>
      match tie with
      | .up => some upper
      | .even => some (if n % 2 == 0 then lower else upper)

/-- Try grids of one more digit each, at most `budget` of them. -/
def search (tie : Tie) (s : Scaled) (exponent : Int) : Nat → Decimal
  | 0 => ⟨gridFloor s exponent, exponent⟩
  | budget + 1 => (onGrid? tie s exponent).getD (search tie s (exponent - 1) budget)

/-- Move trailing zeros of the digits into the exponent. -/
def strip (d : Decimal) : Nat → Decimal
  | 0 => d
  | budget + 1 =>
    if d.digits % 10 == 0 && d.digits != 0 then strip ⟨d.digits / 10, d.exponent + 1⟩ budget else d

/-- The fewest digits that read back as `s`, and the nearest such. -/
def shortest (tie : Tie) (s : Scaled) : Decimal :=
  strip (search tie s (scale s - 1) 20) 20

end Decimal

end HostScript.Number
