/-!
# Exact magnitudes of floating-point numbers

A finite number is a sign and a magnitude `mantissa * 2 ^ exponent`. Truncation, remainder and
rounding to fewer bits are defined on magnitudes, in natural-number arithmetic.
-/

namespace HostScript.Number

/-- The non-negative number `mantissa * 2 ^ exponent`. -/
structure Scaled where
  mantissa : Nat
  exponent : Int
deriving DecidableEq, Repr

namespace Scaled

/-- The integral part. -/
def floor (s : Scaled) : Nat :=
  s.mantissa * Nat.pow 2 s.exponent.toNat / Nat.pow 2 (-s.exponent).toNat

def isIntegral (s : Scaled) : Bool :=
  s.mantissa % Nat.pow 2 (-s.exponent).toNat == 0

/-- The mantissa that stands for the same number at a smaller exponent. -/
def mantissaAt (s : Scaled) (exponent : Int) : Nat :=
  s.mantissa * Nat.pow 2 (s.exponent - exponent).toNat

/-- What is left of `a` after taking away the divisor `b` as often as it fits. -/
def remainder (a b : Scaled) : Scaled :=
  let exponent := min a.exponent b.exponent
  ⟨a.mantissaAt exponent % b.mantissaAt exponent, exponent⟩

/-- Divide by `2 ^ shift`, to nearest, a half to the even neighbour. -/
def roundShift (n shift : Nat) : Nat :=
  let unit := Nat.pow 2 shift
  let quotient := n / unit
  let twice := 2 * (n % unit)
  if twice > unit || (twice == unit && quotient % 2 == 1) then quotient + 1 else quotient

/-- Keep at most `precision` bits, none of them below `2 ^ least`. -/
def round (s : Scaled) (precision : Nat) (least : Int) : Scaled :=
  let excess := (s.mantissa.log2 : Int) + 1 - precision
  let shift := (max excess (least - s.exponent)).toNat
  ⟨roundShift s.mantissa shift, s.exponent + shift⟩

end Scaled

/-- The sign bit, also of zeros and of values that are no numbers. -/
def isNegative (x : Float) : Bool :=
  x.toBits.toNat / Nat.pow 2 63 == 1

/-- The magnitude of a finite number. -/
def magnitude (x : Float) : Scaled :=
  let bits := x.toBits.toNat
  let field : Nat := bits / Nat.pow 2 52 % Nat.pow 2 11
  let fraction : Nat := bits % Nat.pow 2 52
  if field = 0 then ⟨fraction, -1074⟩ else ⟨Nat.pow 2 52 + fraction, (field : Int) - 1075⟩

/-- The number nearest to a signed magnitude. -/
def ofMagnitude (negative : Bool) (s : Scaled) : Float :=
  let down := (-s.exponent).toNat
  let x := Float.ofScientific (s.mantissa * Nat.pow 2 s.exponent.toNat * Nat.pow 5 down) true down
  if negative then -x else x

/-- The integral part of a finite number, rounded toward zero. -/
def truncate (x : Float) : Int :=
  let n := (magnitude x).floor
  if isNegative x then -(n : Int) else n

def isIntegral (x : Float) : Bool :=
  x.isFinite && (magnitude x).isIntegral

def infinity : Float := 1 / 0

/-- The remainder of a division that rounds toward zero. It has the sign of the dividend. -/
def remainder (a b : Float) : Float :=
  if a.isNaN || b.isNaN || a.isInf || b == 0 then 0 / 0
  else if b.isInf then a
  else ofMagnitude (isNegative a) ((magnitude a).remainder (magnitude b))

/-- `x` as a position in a sequence of `length` elements. -/
def position? (x : Float) (length : Nat) : Option Nat :=
  if x >= 0 && isIntegral x then
    let n := (magnitude x).floor
    if n < length then some n else none
  else none

end HostScript.Number
