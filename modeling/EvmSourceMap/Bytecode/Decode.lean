import EvmSourceMap.Bytes.Hex
import EvmSourceMap.Decimal

/-!
Reading code from its hexadecimal text: two digits a byte, in either case, after an optional `0x`.
-/

namespace EvmSourceMap.Bytecode

/-- Removes one leading `0x` or `0X`. -/
def stripMark : Bytes → Bytes
  | 0x30 :: 0x78 :: digits => digits
  | 0x30 :: 0x58 :: digits => digits
  | digits => digits

/-- Why a text is no sequence of bytes. Offsets count from the first digit. -/
inductive Error
  /-- The last digit has no partner. -/
  | oddLength (length : Nat) (last : UInt8)
  /-- The character at the offset is no digit; the text from its pair on is shown beside it. -/
  | notHex (offset : Nat) (character : UInt8) (near : Bytes)
  deriving DecidableEq, Repr

namespace Error

def offset : Error → Nat
  | oddLength length _ => length - 1
  | notHex offset _ _ => offset

/-- The part of the text to show for the error. -/
def offending : Error → Bytes
  | oddLength _ last => [last]
  | notHex _ _ near => near

def message (e : Error) : Bytes :=
  Bytes.beforeNul <| match e with
    | oddLength length last =>
      "bytecode has odd hex length " ++ Decimal.ofNat length ++ " (dangling '" ++ [last] ++ "')"
    | notHex offset character near =>
      "bytecode has non-hex character '" ++ [character] ++ "' at offset " ++
        Decimal.ofNat offset ++ " (near \"" ++ near ++ "\")"

end Error

/-- Reads pairs of digits, the first of which stands at the offset. -/
def decodePairs (offset : Nat) : Bytes → Except Error Bytes
  | high :: low :: rest =>
    match Hex.digitValue? high, Hex.digitValue? low with
    | some h, some l => (decodePairs (offset + 2) rest).map ((16 * h + l) :: ·)
    | none, _ => .error (.notHex offset high ((high :: low :: rest).take 8))
    | some _, none => .error (.notHex (offset + 1) low ((high :: low :: rest).take 8))
  | _ => .ok []

/-- Reads a hexadecimal text. An odd number of digits is reported before any character that is no
digit. -/
def decode (s : Bytes) : Except Error Bytes :=
  let digits := stripMark s
  match digits.getLast? with
  | none => .ok []
  | some last =>
    if digits.length % 2 = 1 then .error (.oddLength digits.length last)
    else decodePairs 0 digits

end EvmSourceMap.Bytecode
