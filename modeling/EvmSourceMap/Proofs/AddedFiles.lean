import EvmSourceMap.Proofs.LinePositions
import EvmSourceMap.Proofs.SortedMapLookup
import EvmSourceMap.Proofs.SourceIds

namespace EvmSourceMap.Proofs.AddedFiles

open LinePositions
open SortedMapLookup
open SourceIds

/-- The file that was added last under an id, of files added one after the
other. -/
def AddedLast (files : List SourceFile) (id : Int32) (file : SourceFile) : Prop :=
  ∃ before after, files = before ++ file :: after ∧ file.id = id ∧ ∀ other ∈ after, other.id ≠ id

namespace AddedLast

variable {files : List SourceFile} {id : Int32} {file : SourceFile} (h : AddedLast files id file)

include h

theorem mem : file ∈ files := by
  obtain ⟨before, after, rfl, -, -⟩ := h
  simp

theorem id_eq : file.id = id := by
  obtain ⟨-, -, -, hid, -⟩ := h
  exact hid

theorem eq_or_of_pairwise {r : SourceFile → SourceFile → Prop} (hr : files.Pairwise r)
    {other : SourceFile} (hother : other ∈ files) (hid : other.id = id) :
    other = file ∨ r other file := by
  obtain ⟨before, after, rfl, -, hafter⟩ := h
  rcases List.mem_append.mp hother with hbefore | hbehind
  · exact .inr ((List.pairwise_append.mp hr).2.2 other hbefore file List.mem_cons_self)
  · rcases List.mem_cons.mp hbehind with rfl | hlater
    · exact .inl rfl
    · exact absurd hid (hafter other hlater)

end AddedLast

theorem find?_tableOf_eq_some_iff {files : List SourceFile} {id : Int32} {file : SourceFile} :
    (tableOf files).find? id = some file ↔ AddedLast files id file := by
  rw [find?_tableOf, List.find?_eq_some_iff_append]
  simp only [decide_eq_true_eq, Bool.not_eq_true', decide_eq_false_iff_not]
  constructor
  · rintro ⟨hid, after, before, hreverse, hafter⟩
    refine ⟨before.reverse, after.reverse, ?_, hid, fun other hother => ?_⟩
    · rw [← List.reverse_reverse files, hreverse]
      simp
    · exact hafter other (List.mem_reverse.mp hother)
  · rintro ⟨before, after, rfl, hid, hafter⟩
    refine ⟨hid, after.reverse, before.reverse, by simp, fun other hother => ?_⟩
    exact hafter other (List.mem_reverse.mp hother)

theorem find?_tableOf_eq_none_iff {files : List SourceFile} {id : Int32} :
    (tableOf files).find? id = none ↔ ∀ file ∈ files, file.id ≠ id := by
  rw [find?_tableOf, List.find?_eq_none]
  simp

theorem mem_keys_tableOf_iff {files : List SourceFile} {id : Int32} :
    id ∈ (tableOf files).keys ↔ ∃ file ∈ files, file.id = id := by
  rw [← exists_get?_iff]
  show (∃ file, (tableOf files).find? id = some file) ↔ _
  rw [← Option.ne_none_iff_exists', Ne, find?_tableOf_eq_none_iff]
  simp

/-- An id stands for the file that was added last under it, and the place of an
offset in that file, or behind its end, follows from the newlines before it: they
are counted for the line, and the column counts from the last one of them. -/
theorem position_of_added (files : List SourceFile) (id : Int32) :
    (∀ file, (tableOf files).find? id = some file ↔ AddedLast files id file) ∧
    ((tableOf files).find? id = none ↔ ∀ file ∈ files, file.id ≠ id) ∧
    ∀ file offset, (tableOf files).find? id = some file → offset < 2 ^ 31 - 1 →
      (file.position offset).line.toInt = 1 + (file.contents.take offset).count newline ∧
      ∃ start, IsLastLineStart (file.contents.take offset) start ∧
        (file.position offset).column.toInt = (offset : Int) - start + 1 := by
  refine ⟨fun file => find?_tableOf_eq_some_iff, find?_tableOf_eq_none_iff, ?_⟩
  intro file offset _ hoffset
  obtain ⟨start, hlast⟩ := exists_getLast?_lineStartsOf (file.contents.take offset)
  obtain ⟨hline, hcolumn⟩ := toInt_position_eq hlast hoffset
  exact ⟨hline.trans (Int.add_comm _ _), start, isLastLineStart_of_getLast? hlast, hcolumn⟩

/-- The second file with the id 3 takes the place of the first one. Offset 9 lies
three bytes behind its end. -/
theorem position_of_added_twice :
    let first : SourceFile := { id := 3, path := "p", contents := "abc" }
    let other : SourceFile := { id := -1, path := "q", contents := "\n\n\n" }
    let second : SourceFile := { id := 3, path := "p", contents := "a\n\nbcd" }
    (tableOf [first, other, second]).find? 3 = some second ∧ 9 < 2 ^ 31 - 1 ∧
      (second.position 9).line.toInt = 3 ∧
      ∃ start, IsLastLineStart "a\n\nbcd" start ∧
        (second.position 9).column.toInt = (9 : Nat) - (start : Int) + 1 := by
  intro first other second
  have hfind : (tableOf [first, other, second]).find? 3 = some second := rfl
  have hoffset : 9 < 2 ^ 31 - 1 := by decide
  obtain ⟨-, -, hposition⟩ := position_of_added [first, other, second] 3
  obtain ⟨hline, hcolumn⟩ := hposition second 9 hfind hoffset
  exact ⟨hfind, hoffset, hline, hcolumn⟩

end EvmSourceMap.Proofs.AddedFiles
