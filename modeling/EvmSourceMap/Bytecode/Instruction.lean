import EvmSourceMap.Bytecode.Opcode

/-!
The instructions of a piece of code, found by one pass from its first byte. Operand bytes are
skipped, so a byte inside an operand is never taken for an opcode.
-/

namespace EvmSourceMap

/-- One instruction of a piece of code. -/
structure Instruction where
  /-- The number of instructions before it. -/
  ordinal : UInt32
  /-- The offset of its opcode. -/
  pc : UInt32
  opcode : Opcode
  /-- The number of operand bytes that are there. -/
  operandLength : UInt32
  /-- Whether the code ends before the last operand byte. -/
  truncated : Bool := false
  deriving DecidableEq, Repr

namespace Instruction

/-- The instructions of the code that starts at offset `pc`, the first of which is number
`ordinal`. -/
def scanFrom (ordinal pc : Nat) (code : Bytes) : List Instruction :=
  match code with
  | [] => []
  | op :: rest =>
    let length := Opcode.operandLength op
    let operand := rest.take length
    if operand.length < length then
      [⟨.ofNat ordinal, .ofNat pc, op, .ofNat operand.length, true⟩]
    else
      ⟨.ofNat ordinal, .ofNat pc, op, .ofNat length, false⟩ ::
        scanFrom (ordinal + 1) (pc + 1 + length) (rest.drop length)
termination_by code.length
decreasing_by simp only [List.length_cons, List.length_drop]; omega

/-- The instructions of a piece of code. -/
def scan (code : Bytes) : List Instruction :=
  scanFrom 0 0 code

end Instruction

end EvmSourceMap
