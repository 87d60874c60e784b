import EvmSourceMap.PcIndex

/-!
Figures about an index: how many instructions are mapped, where they lie, how many of them are jumps
of each kind and how many files they come from.
-/

namespace EvmSourceMap

/-- How often each kind of jump occurs. -/
structure JumpCounts where
  regular : Nat
  into : Nat
  out : Nat
  deriving DecidableEq, Repr

namespace JumpCounts

/-- Counts the kinds in a list. -/
def ofList (jumps : List Jump) : JumpCounts :=
  ⟨jumps.count .regular, jumps.count .into, jumps.count .out⟩

/-- The count of one kind. -/
def get (counts : JumpCounts) : Jump → Nat
  | .regular => counts.regular
  | .into => counts.into
  | .out => counts.out

end JumpCounts

namespace PcIndex

/-- Figures about an index. The bounds of an empty index are zero. -/
structure Summary where
  entryCount : Nat
  minPc : UInt32
  maxPc : UInt32
  jumps : JumpCounts
  fileCount : Nat
  deriving DecidableEq, Repr

/-- The figures about an index. -/
def summary (index : PcIndex) : Summary where
  entryCount := index.size
  minPc := index.minKey?.getD 0
  maxPc := index.maxKey?.getD 0
  jumps := .ofList (index.values.map (·.jump))
  fileCount := (index.values.map (·.fileIndex)).eraseDups.length

end PcIndex

end EvmSourceMap
