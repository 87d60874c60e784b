import EvmSourceMap.Binary64

/-!
The fewest decimal digits that read back to the same number. The reals that round to a number form
an interval around it, which includes its ends when the significand is even. On the grid of
decimals with one, two, … significant digits the two neighbours of the number are tried, and the
first grid that has a point in the interval gives the digits. Printers that trade this for speed may
choose other digits that read back, such as `9.999999999999999e+22` for `1e23`; no result about a run
depends on the choice (`EvmSourceMap.Json.Codec`).
-/

namespace EvmSourceMap.Binary64

/-- A positive decimal `0.d₁d₂…dₖ · 10 ^ point`, by its digits. -/
structure Digits where
  digits : List Nat
  point : Int
  deriving DecidableEq, Repr

/-- A positive fraction. -/
structure Ratio where
  num : Nat
  den : Nat

/-- The fraction `m · 2 ^ q · 10 ^ p`. -/
def Ratio.scaled (m : Nat) (q p : Int) : Ratio :=
  ⟨m * Nat.pow 2 q.toNat * Nat.pow 10 p.toNat, Nat.pow 2 (-q).toNat * Nat.pow 10 (-p).toNat⟩

/-- The number of digits in front of the decimal point; minus the number of zeros that follow the
point if there is none. So `10 ^ (n - 1) ≤ x < 10 ^ n` for the result `n`. -/
def Ratio.pointPosition (x : Ratio) : Int :=
  if x.den ≤ x.num then (Nat.toDigits 10 (x.num / x.den)).length
  else Int.negOfNat ((Nat.toDigits 10 ((x.den - 1) / x.num)).length - 1)

/-- The least and the greatest real that round to the number, in units of a quarter of the last
place. Below a power of two the numbers are twice as dense. -/
def interval (x : Binary64) : Nat × Nat :=
  let m := x.significand
  (if x.fractionField = 0 ∧ 1 < x.exponentField then 4 * m - 1 else 4 * m - 2, 4 * m + 2)

/-- Whether the decimal `d · 10 ^ p` rounds to the number. -/
def readsBack (x : Binary64) (d : Nat) (p : Int) : Bool :=
  let scale := Ratio.scaled 1 (x.exponent - 2) (-p)
  let low := x.interval.1 * scale.num
  let high := x.interval.2 * scale.num
  let here := d * scale.den
  if x.significand % 2 = 0 then low ≤ here && here ≤ high else low < here && here < high

/-- The better of the two neighbours on the grid of multiples of `10 ^ p`, if one of them reads
back: the nearer one, of two equally near ones the even one. -/
def onGrid? (x : Binary64) (p : Int) : Option Nat :=
  let scaled := Ratio.scaled x.significand x.exponent (-p)
  let below := scaled.num / scaled.den
  let rest := scaled.num % scaled.den
  let aboveFirst := scaled.den < 2 * rest ∨ (scaled.den = 2 * rest ∧ below % 2 = 1)
  let candidates := if aboveFirst then [below + 1, below] else [below, below + 1]
  candidates.find? fun d => 0 < d && x.readsBack d p

/-- The digits of a number without the zeros at its end. -/
def significantDigits (d : Nat) : List Nat :=
  let digits := (Nat.toDigits 10 d).map fun c => c.toNat - '0'.toNat
  (digits.reverse.dropWhile (· == 0)).reverse

/-- The shortest digits of a positive finite number. Seventeen always suffice. -/
def shortest (x : Binary64) : Digits :=
  let n := (Ratio.scaled x.significand x.exponent 0).pointPosition
  let found := (List.range 17).findSome? fun k =>
    let p := n - (k + 1 : Nat)
    (x.onGrid? p).map fun d => (d, p)
  match found with
  | some (d, p) => ⟨significantDigits d, (Nat.toDigits 10 d).length + p⟩
  | none => ⟨[], 0⟩

end EvmSourceMap.Binary64
