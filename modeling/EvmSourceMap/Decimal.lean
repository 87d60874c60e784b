import EvmSourceMap.Bytes

/-!
Decimal numbers in texts: the canonical spelling of a natural number or an integer, and the two
grammars in which integers are read. The strict one, of source maps and source ids, has an optional
minus sign and digits; the lenient one, of command line arguments, also allows leading blanks and a
plus sign.
-/

namespace EvmSourceMap.Decimal

/-- The digits of a number, without leading zeros. -/
def ofNat (n : Nat) : Bytes :=
  (Nat.toDigits 10 n).map fun c => c.toUInt8

/-- The canonical spelling of an integer: its digits, after a minus sign if it is negative. -/
def ofInt (n : Int) : Bytes :=
  if n < 0 then '-'.toUInt8 :: ofNat n.natAbs else ofNat n.natAbs

def zeros (count : Nat) : Bytes :=
  List.replicate count 0x30

def isDigit (b : UInt8) : Bool :=
  0x30 ≤ b && b ≤ 0x39

/-- The value of a sequence of digits. -/
def digitsValue (s : Bytes) : Nat :=
  s.foldl (fun n b => 10 * n + (b.toNat - 0x30)) 0

/-- Reads one or more digits. -/
def readNat? (s : Bytes) : Option Nat :=
  if !s.isEmpty && s.all isDigit then some (digitsValue s) else none

/-- Reads an optional minus sign and one or more digits. -/
def readInt? (s : Bytes) : Option Int :=
  match s with
  | 0x2d :: digits => (readNat? digits).map fun n => -(n : Int)
  | digits => (readNat? digits).map Int.ofNat

/-- Reads a signed number that fits into 32 bits. -/
def readInt32? (s : Bytes) : Option Int32 :=
  (readInt? s).bind fun n =>
    if Int32.minValue.toInt ≤ n ∧ n ≤ Int32.maxValue.toInt then some (Int32.ofInt n) else none

/-- Reads an integer with either sign or none. -/
def readSigned? : Bytes → Option Int
  | 0x2b :: digits => (readNat? digits).map Int.ofNat
  | text => readInt? text

/-- Reads a signed number that fits into 64 bits, after any number of blanks and with either
sign. -/
def readLenient? (s : Bytes) : Option Int :=
  (readSigned? (s.dropWhile Bytes.isBlank)).filter fun n =>
    Int64.minValue.toInt ≤ n ∧ n ≤ Int64.maxValue.toInt

end EvmSourceMap.Decimal
