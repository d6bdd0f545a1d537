import HostScript.Number.Decimal

/-!
# Written forms of numbers

A `Form` collects the decisions that turn digits into text. Three forms are in use: `display` for
what scripts print, `literal` for numbers inside messages about tokens, and `json` for serialized
values.
-/

namespace HostScript.Number

structure Form where
  /-- Which powers of ten of the leading digit are written without an exponent. -/
  positional : Int → Bool
  /-- Write `.0` after an integral number. -/
  pointZero : Bool
  /-- Write a plus sign before a non-negative exponent. -/
  plusExponent : Bool
  tie : Tie
  notANumber : String
  positiveInfinity : String
  negativeInfinity : String

namespace Form

/-- Digits around a point that stands `point` places after the first digit. -/
def placePoint (form : Form) (digits : String) (point : Int) : String :=
  let count : Int := digits.length
  if point ≤ 0 then
    "0." ++ String.ofList (List.replicate (-point).toNat '0') ++ digits
  else if count ≤ point then
    digits ++ String.ofList (List.replicate (point - count).toNat '0') ++
      (if form.pointZero then ".0" else "")
  else
    String.ofList (digits.toList.take point.toNat) ++ "." ++
      String.ofList (digits.toList.drop point.toNat)

/-- One digit, the other digits behind a point, and the power of ten. -/
def scientific (form : Form) (digits : String) (power : Int) : String :=
  let rest := digits.toList.drop 1
  let fraction := if rest.isEmpty then "" else "." ++ String.ofList rest
  let sign := if power < 0 then "-" else if form.plusExponent then "+" else ""
  String.ofList (digits.toList.take 1) ++ fraction ++ "e" ++ sign ++ toString power.natAbs

def writeMagnitude (form : Form) (s : Scaled) : String :=
  if s.mantissa = 0 then
    if form.pointZero then "0.0" else "0"
  else
    let d := Decimal.shortest form.tie s
    let digits := toString d.digits
    let point := (digits.length : Int) + d.exponent
    if form.positional (point - 1) then form.placePoint digits point
    else form.scientific digits (point - 1)

def write (form : Form) (x : Float) : String :=
  if x.isNaN then form.notANumber
  else if x.isInf then
    if isNegative x then form.negativeInfinity else form.positiveInfinity
  else (if isNegative x then "-" else "") ++ form.writeMagnitude (magnitude x)

/-- Never an exponent, and no fraction on integral numbers. -/
def display : Form where
  positional _ := true
  pointZero := false
  plusExponent := false
  tie := .up
  notANumber := "NaN"
  positiveInfinity := "inf"
  negativeInfinity := "-inf"

/-- At least one decimal; an exponent from `10 ^ 16` on and below `10 ^ -4`. -/
def literal : Form where
  positional power := -4 ≤ power && power < 16
  pointZero := true
  plusExponent := false
  tie := .up
  notANumber := "NaN"
  positiveInfinity := "inf"
  negativeInfinity := "-inf"

/-- At least one decimal; a signed exponent from `10 ^ 16` on and below `10 ^ -5`. -/
def json : Form where
  positional power := -5 ≤ power && power < 16
  pointZero := true
  plusExponent := true
  tie := .even
  notANumber := "null"
  positiveInfinity := "null"
  negativeInfinity := "null"

end Form

/-- A number as scripts see it: integral numbers below `10 ^ 15` as integers, so zero has no
sign. -/
def toText (x : Float) : String :=
  if isIntegral x && x.abs < 1e15 then toString (truncate x) else Form.display.write x

/-- The number nearest to `whole.fraction`, both in decimal digits. -/
def ofDigits (whole fraction : List Char) : Float :=
  let digits := (whole ++ fraction).foldl (fun n c => n * 10 + (c.toNat - '0'.toNat)) 0
  Float.ofScientific digits true fraction.length

end HostScript.Number
