import EvmSourceMap.Bytes

/-!
Hexadecimal digits, two for a byte. They are read in either case and written in lower case.
-/

namespace EvmSourceMap.Hex

/-- The value of a hexadecimal digit. -/
def digitValue? (b : UInt8) : Option UInt8 :=
  if 0x30 ≤ b && b ≤ 0x39 then some (b - 0x30)
  else if 0x61 ≤ b && b ≤ 0x66 then some (b - 0x61 + 10)
  else if 0x41 ≤ b && b ≤ 0x46 then some (b - 0x41 + 10)
  else none

/-- The lower case digit of a value below sixteen. -/
def digit (v : UInt8) : UInt8 :=
  if v < 10 then 0x30 + v else 0x61 + (v - 10)

def ofByte (b : UInt8) : Bytes :=
  [digit (b / 16), digit (b % 16)]

/-- The lower case digits of a sequence of bytes. -/
def encode (code : Bytes) : Bytes :=
  code.flatMap ofByte

end EvmSourceMap.Hex
