import EvmSourceMap.PcIndex

/-!
Joining the rows of a source map and the instructions of the code, first with first, second with
second, up to the end of the shorter list. Rows that are numbered out of turn and instructions
whose pcs do not ascend are reported, and the join goes on.
-/

namespace EvmSourceMap

/-- The entry for the row and the instruction at a position. -/
def PcEntry.ofRow (position : Nat) (row : SourceMap.Row) (instruction : Instruction) : PcEntry :=
  { row.toElement with
    pc := instruction.pc
    ordinal := .ofNat position
    opcode := instruction.opcode }

namespace PcIndex

/-- Pairs rows and instructions in their order. -/
def joinedEntries (rows : List SourceMap.Row) (code : List Instruction) : List PcEntry :=
  (rows.zip code).zipIdx.map fun ((row, instruction), position) =>
    PcEntry.ofRow position row instruction

/-- The index of rows and instructions. -/
def join (rows : List SourceMap.Row) (code : List Instruction) : PcIndex :=
  ofEntries (joinedEntries rows code)

/-- What can be wrong with the lists that are joined. -/
inductive JoinFault
  /-- The row or the instruction at the position has another number. -/
  | misnumbered (position : Nat)
  /-- The instruction at the position does not start after the one before. -/
  | notAscending (position : Nat)
  deriving DecidableEq, Repr

/-- The faults from a position on, behind the pc of the instruction before it. -/
def joinFaultsFrom (position : Nat) (previous : Option UInt32) :
    List (SourceMap.Row × Instruction) → List JoinFault
  | [] => []
  | (row, instruction) :: rest =>
    let numbered := row.ordinal.toNat == position && instruction.ordinal.toNat == position
    let ascending := previous.all fun pc => pc < instruction.pc
    (if numbered then [] else [.misnumbered position]) ++
      (if ascending then [] else [.notAscending position]) ++
        joinFaultsFrom (position + 1) (some instruction.pc) rest

/-- The faults of two lists, in the order of their positions. -/
def joinFaults (rows : List SourceMap.Row) (code : List Instruction) : List JoinFault :=
  joinFaultsFrom 0 none (rows.zip code)

end PcIndex

end EvmSourceMap
