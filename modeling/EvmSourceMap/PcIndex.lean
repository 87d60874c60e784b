import EvmSourceMap.Bytecode.Instruction
import EvmSourceMap.SortedMap
import EvmSourceMap.SourceMap.Element

/-!
The index from program counters to source ranges. It has a key for the first byte of each mapped
instruction and none for operand bytes; the owner of any byte is found by looking down to the
nearest key.
-/

namespace EvmSourceMap

/-- A mapped instruction. -/
structure PcEntry extends SourceMap.Element where
  pc : UInt32
  /-- The number of instructions before it. -/
  ordinal : UInt32
  opcode : Opcode
  deriving DecidableEq, Repr

/-- The mapped instructions by the offset of their first byte. -/
abbrev PcIndex := SortedMap UInt32 PcEntry

namespace PcIndex

/-- The index that holds the given entries. Of two entries for one pc the first one counts. -/
def ofEntries (entries : List PcEntry) : PcIndex :=
  SortedMap.ofListFirst (entries.map fun e => (e.pc, e))

/-- The instruction that starts at a pc. -/
def find? (index : PcIndex) (pc : UInt32) : Option PcEntry :=
  index.get? pc

/-- The instruction that a pc belongs to: the last one that starts at or before it. Beyond the last
mapped instruction no pc has an owner. -/
def owner? (index : PcIndex) (pc : UInt32) : Option PcEntry :=
  match index.maxKey? with
  | some last => if pc ≤ last then index.getLE? pc else none
  | none => none

/-- Every entry, once for each pc from its own up to the next key, and the last one up to
`stop`. -/
def spread (stop : UInt32) : List (UInt32 × PcEntry) → List (Option PcEntry)
  | [] => []
  | [(pc, e)] => List.replicate (stop.toNat - pc.toNat) (some e)
  | (pc, e) :: (next, e') :: rest =>
    List.replicate (next.toNat - pc.toNat) (some e) ++ spread stop ((next, e') :: rest)

/-- The owners of all pcs from zero to the last mapped instruction, in order. The pcs before the
first mapped instruction have none. The end of the last range is a pc too, so behind the greatest
pc of all it is zero, and the place of that pc stays empty. -/
def dense (index : PcIndex) : List (Option PcEntry) :=
  match index.minKey?, index.maxKey? with
  | some least, some last =>
    (List.replicate least.toNat none ++ spread (last + 1) index.entries).rightpad
      (last.toNat + 1) none
  | _, _ => []

end PcIndex

end EvmSourceMap
