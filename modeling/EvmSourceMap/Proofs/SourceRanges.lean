import EvmSourceMap.Proofs.LinePositions
import EvmSourceMap.Proofs.SortedMapLookup
import EvmSourceMap.SourceFile.Location

namespace EvmSourceMap.Proofs.SourceRanges

open LinePositions
open SortedMapLookup

theorem find?_add (files : FileTable) (id id' : Int32) (path contents : Bytes) :
    (files.add id path contents).find? id' =
      if id' = id then some { id, path, contents } else files.find? id' := by
  refine (get?_insert id' id _ files.entries).trans ?_
  simp only [Std.LawfulEqOrd.compare_eq_iff_eq]
  rfl

/-- No line has the number zero, since the first line starts at the beginning
and 32 bits are enough for the number of lines. -/
theorem line_position_pos {file : SourceFile} (h : file.contents.length < 2 ^ 31 - 1)
    (offset : Nat) : 0 < (file.position offset).line.toInt := by
  obtain ⟨start, hlast⟩ := exists_getLast?_lineStartsOf (file.contents.take offset)
  have hcount : (file.contents.take offset).count newline ≤ file.contents.length :=
    Nat.le_trans List.count_le_length (List.length_take_le' _ _)
  rw [position_eq hlast, Int32.toInt_ofNat_of_lt (by omega)]
  omega

/-- The range of some bytes of a file, as far as the file goes. -/
def rangeOf (file : SourceFile) (start length : Int32) : Location :=
  let first := start.toInt.toNat
  let last := min (first + length.toInt.toNat) file.contents.length
  { path := file.path
    first := file.position first
    last := file.position last
    snippet := Bytes.trim ((file.contents.drop first).take (last - first)) }

theorem resolve?_eq_some_iff {files : FileTable} {fileIndex start length : Int32}
    {range : Location} :
    Location.resolve? files fileIndex start length = some range ↔
      ∃ file, files.find? fileIndex = some file ∧
        (0 ≤ start ∧ 0 < length ∧ start.toInt.toNat < file.contents.length) ∧
          rangeOf file start length = range := by
  rw [Location.resolve?, Option.bind_eq_some_iff]
  apply exists_congr
  intro file
  rw [Location.inFile?, Option.ite_none_left_eq_some, Option.some.injEq]
  simp only [not_or, Int32.not_lt, Int32.not_le, Nat.not_le]
  rfl

end EvmSourceMap.Proofs.SourceRanges
