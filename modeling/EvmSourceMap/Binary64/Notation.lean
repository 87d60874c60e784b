import EvmSourceMap.Binary64.Shortest
import EvmSourceMap.Decimal

/-!
Texts of double precision numbers: the shortest digits, written positionally or with an exponent,
and a set number of decimal places.
-/

namespace EvmSourceMap.Binary64

/-- Where positional writing ends. A number `0.d₁d₂… · 10 ^ point` is written positionally for
`lowest ≤ point ≤ highest`. -/
structure Layout where
  lowest : Int
  highest : Int
  /-- The least number of digits of an exponent. -/
  exponentWidth : Nat

def digitText (digits : List Nat) : Bytes :=
  digits.map fun d => (0x30 + d).toUInt8

/-- An exponent with its sign, filled up with zeros on the left. -/
def exponentText (width : Nat) (e : Int) : Bytes :=
  let digits := Decimal.ofNat e.natAbs
  (if e < 0 then Bytes.ofString "e-" else "e+") ++ Decimal.zeros (width - digits.length) ++ digits

/-- Writes digits positionally, with a zero on a side of the point that has no digit, or with one
digit in front of the point and an exponent. -/
def Layout.write (layout : Layout) (x : Digits) : Bytes :=
  let count : Int := x.digits.length
  if x.point < layout.lowest ∨ layout.highest < x.point then
    let head := digitText (x.digits.take 1)
    let tail := digitText (x.digits.drop 1)
    let mantissa : Bytes := if tail.isEmpty then head else head ++ "." ++ tail
    mantissa ++ exponentText layout.exponentWidth (x.point - 1)
  else if x.point ≤ 0 then
    "0." ++ Decimal.zeros (-x.point).toNat ++ digitText x.digits
  else if count ≤ x.point then
    digitText x.digits ++ Decimal.zeros (x.point - count).toNat ++ ".0"
  else
    digitText (x.digits.take x.point.toNat) ++ "." ++ digitText (x.digits.drop x.point.toNat)

/-- The shortest text of a finite number. Zero has one digit on each side of the point. -/
def Layout.text (layout : Layout) (x : Binary64) : Bytes :=
  let sign : Bytes := if x.isNegative then "-" else ""
  sign ++ if x.significand = 0 then Bytes.ofString "0.0" else layout.write x.shortest

/-- The quotient rounded to the nearest integer, and to the even one of two. -/
def roundDiv (num den : Nat) : Nat :=
  let below := num / den
  let rest := num % den
  if den < 2 * rest ∨ (den = 2 * rest ∧ below % 2 = 1) then below + 1 else below

/-- The absolute value of a finite number with the given number of decimal places, at least one. -/
def fixed (places : Nat) (x : Binary64) : Bytes :=
  let scaled := Ratio.scaled x.significand x.exponent places
  let digits := Decimal.ofNat (roundDiv scaled.num scaled.den)
  let padded := Decimal.zeros (places + 1 - digits.length) ++ digits
  padded.take (padded.length - places) ++ "." ++ padded.drop (padded.length - places)

end EvmSourceMap.Binary64
