/-!
Double precision numbers by their bits. Two of them are equal when their bits are, so equality is
decidable and tells the two zeros apart.
-/

namespace EvmSourceMap

/-- A double precision number: a sign bit, eleven exponent bits and 52 fraction bits. -/
structure Binary64 where
  bits : UInt64
  deriving DecidableEq, Repr

namespace Binary64

/-- The bits of a machine number. -/
def ofFloat (x : Float) : Binary64 :=
  ⟨x.toBits⟩

def isNegative (x : Binary64) : Bool :=
  x.bits >>> 63 == 1

def exponentField (x : Binary64) : Nat :=
  ((x.bits >>> 52) &&& 0x7ff).toNat

def fractionField (x : Binary64) : Nat :=
  (x.bits &&& 0xfffffffffffff).toNat

/-- Infinities and numbers that are none have all exponent bits set. -/
def isFinite (x : Binary64) : Bool :=
  x.exponentField != 0x7ff

/-- The integer `m` of the absolute value `m · 2 ^ q` of a finite number. -/
def significand (x : Binary64) : Nat :=
  if x.exponentField = 0 then x.fractionField else 0x10000000000000 + x.fractionField

/-- The exponent `q` of the absolute value `m · 2 ^ q` of a finite number. -/
def exponent (x : Binary64) : Int :=
  if x.exponentField = 0 then -1074 else (x.exponentField : Int) - 1075

/-- The number next to `digits · 10 ^ exponent`, with a sign. Exponents far outside the range of
the format are cut off first, which leaves zero and overflow as they are and keeps the power of ten
small. -/
def ofDecimal (negative : Bool) (digits : Nat) (exponent : Int) : Binary64 :=
  let scale := exponent + (Nat.toDigits 10 digits).length
  let magnitude : Float :=
    if digits = 0 ∨ scale < -400 then 0
    else if scale > 400 then 1 / 0
    else if 0 ≤ exponent then Float.ofScientific digits false exponent.toNat
    else Float.ofScientific digits true exponent.natAbs
  ofFloat (if negative then -magnitude else magnitude)

end Binary64

end EvmSourceMap
