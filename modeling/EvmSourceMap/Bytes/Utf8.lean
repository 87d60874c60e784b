import EvmSourceMap.Bytes

/-!
UTF-8 as a machine that reads a byte at a time. Overlong forms, surrogates and values above
U+10FFFF are ruled out by the range that the second byte of a character must lie in.
-/

namespace EvmSourceMap.Utf8

/-- Where a reader stands inside a character: how many continuation bytes are still owed, and the
range that the next one must lie in. Nothing is owed between characters. -/
structure State where
  owed : Nat
  low : UInt8
  high : UInt8
  deriving DecidableEq, Repr

/-- Between two characters. -/
def start : State := ⟨0, 0x80, 0xbf⟩

/-- The state after the first byte of a character. -/
def first (b : UInt8) : Option State :=
  if b < 0x80 then some start
  else if b < 0xc2 then none
  else if b < 0xe0 then some ⟨1, 0x80, 0xbf⟩
  else if b == 0xe0 then some ⟨2, 0xa0, 0xbf⟩
  else if b == 0xed then some ⟨2, 0x80, 0x9f⟩
  else if b < 0xf0 then some ⟨2, 0x80, 0xbf⟩
  else if b == 0xf0 then some ⟨3, 0x90, 0xbf⟩
  else if b < 0xf4 then some ⟨3, 0x80, 0xbf⟩
  else if b == 0xf4 then some ⟨3, 0x80, 0x8f⟩
  else none

/-- One byte more. Only the first continuation byte has a range narrower than `80` to `bf`. -/
def step (s : State) (b : UInt8) : Option State :=
  match s.owed with
  | 0 => first b
  | n + 1 => if s.low ≤ b && b ≤ s.high then some ⟨n, 0x80, 0xbf⟩ else none

/-- Whether a text, read on from a state, ends between two characters. -/
def isValidFrom (s : State) : Bytes → Bool
  | [] => s.owed == 0
  | b :: rest =>
    match step s b with
    | some t => isValidFrom t rest
    | none => false

/-- Whether a text is valid UTF-8. -/
def isValid (s : Bytes) : Bool :=
  isValidFrom start s

/-- The continuation byte that carries the six low bits. -/
def continuation (c : Nat) : UInt8 :=
  (0x80 + c % 0x40).toUInt8

/-- The UTF-8 bytes of a code point below `110000`. -/
def encode (c : Nat) : Bytes :=
  if c < 0x80 then [c.toUInt8]
  else if c < 0x800 then [(0xc0 + c / 0x40).toUInt8, continuation c]
  else if c < 0x10000 then [(0xe0 + c / 0x1000).toUInt8, continuation (c / 0x40), continuation c]
  else [(0xf0 + c / 0x40000).toUInt8, continuation (c / 0x1000), continuation (c / 0x40),
    continuation c]

end EvmSourceMap.Utf8
