import EvmSourceMap.Proofs.LinePositions
import EvmSourceMap.Proofs.SourceRanges

namespace EvmSourceMap.Proofs.PositionOrder

open LinePositions
open SourceRanges

/-- On an earlier line, or further left on the same one. -/
def Precedes (a b : Position) : Prop :=
  a.line < b.line ∨ a.line = b.line ∧ a.column < b.column

theorem Precedes.irrefl (a : Position) : ¬ Precedes a a := by
  rintro (hline | ⟨-, hcolumn⟩)
  · exact Int32.lt_irrefl hline
  · exact Int32.lt_irrefl hcolumn

theorem Precedes.trans {a b c : Position} (h : Precedes a b) (h' : Precedes b c) :
    Precedes a c := by
  rcases h with hline | ⟨hline, hcolumn⟩ <;> rcases h' with hline' | ⟨hline', hcolumn'⟩
  · exact .inl (Int32.lt_trans hline hline')
  · exact .inl (hline' ▸ hline)
  · exact .inl (hline ▸ hline')
  · exact .inr ⟨hline.trans hline', Int32.lt_trans hcolumn hcolumn'⟩

/-- The offset of a place, found in the table of the starts of the lines. -/
def OffsetOf (file : SourceFile) (place : Position) (offset : Nat) : Prop :=
  1 ≤ place.line.toInt ∧ ∃ start, file.lineStarts[place.line.toInt.toNat - 1]? = some start ∧
    (offset : Int) = start + place.column.toInt - 1

section

variable {file : SourceFile} {offset : Nat}

theorem take_succ_contents (h : offset < file.contents.length) :
    file.contents.take (offset + 1) = file.contents.take offset ++ [file.contents[offset]] :=
  (List.take_append_getElem h).symm

theorem getElem?_lineStarts {start : Nat}
    (h : (lineStartsOf (file.contents.take offset)).getLast? = some start) :
    file.lineStarts[(file.contents.take offset).count newline]? = some start := by
  rw [List.getLast?_eq_getElem?, length_lineStartsOf, Nat.add_sub_cancel,
    ← takeWhile_lineStartsOf, ← file.lineStarts_eq] at h
  -- the lines that start later stand behind those in the table
  obtain ⟨later, hlater⟩ := List.takeWhile_prefix (l := file.lineStarts) (· ≤ offset)
  rw [← hlater, List.getElem?_append_left (List.getElem?_eq_some_iff.mp h).1, h]

variable (hsize : file.contents.length < 2 ^ 31 - 1)

include hsize

theorem offsetOf_position (hoffset : offset ≤ file.contents.length) :
    OffsetOf file (file.position offset) offset := by
  obtain ⟨start, hstart⟩ := exists_getLast?_lineStartsOf (file.contents.take offset)
  obtain ⟨hline, hcolumn⟩ := toInt_position_eq hstart (by omega)
  have hindex : (file.position offset).line.toInt.toNat - 1 =
      (file.contents.take offset).count newline := by omega
  refine ⟨by omega, start, ?_, by omega⟩
  rw [hindex]
  exact getElem?_lineStarts hstart

theorem precedes_succ (h : offset < file.contents.length) :
    Precedes (file.position offset) (file.position (offset + 1)) := by
  obtain ⟨start, hstart⟩ := exists_getLast?_lineStartsOf (file.contents.take offset)
  obtain ⟨next, hnext⟩ := exists_getLast?_lineStartsOf (file.contents.take (offset + 1))
  obtain ⟨hline, hcolumn⟩ := toInt_position_eq hstart (by omega)
  obtain ⟨hline', hcolumn'⟩ := toInt_position_eq hnext (by omega)
  rw [take_succ_contents h, List.count_append, List.count_singleton] at hline'
  rw [take_succ_contents h, lineStartsOf_concat] at hnext
  -- a newline leads on to the next line, every other byte to the next column
  by_cases hb : (file.contents[offset] == newline) = true
  · left
    rw [if_pos hb] at hline'
    rw [Int32.lt_iff_toInt_lt]
    omega
  · right
    rw [if_neg hb] at hline'
    rw [if_neg hb, List.append_nil, hstart] at hnext
    obtain rfl := Option.some.inj hnext
    rw [Int32.lt_iff_toInt_lt, ← Int32.toInt_inj]
    omega

variable {first last : Nat}

theorem precedes_of_lt (hlt : first < last) (hlast : last ≤ file.contents.length) :
    Precedes (file.position first) (file.position last) := by
  induction last with
  | zero => cases hlt
  | succ last ih =>
      have hstep := precedes_succ hsize hlast
      rcases Nat.lt_succ_iff_lt_or_eq.mp hlt with hbefore | rfl
      · exact (ih hbefore (Nat.le_of_lt hlast)).trans hstep
      · exact hstep

theorem eq_of_position_eq (hfirst : first ≤ file.contents.length)
    (hlast : last ≤ file.contents.length) (h : file.position first = file.position last) :
    first = last := by
  rcases Nat.lt_trichotomy first last with hlt | heq | hlt
  · exact absurd (h ▸ precedes_of_lt hsize hlt hlast) (Precedes.irrefl _)
  · exact heq
  · exact absurd (h ▸ precedes_of_lt hsize hlt hfirst) (Precedes.irrefl _)

theorem precedes_rangeOf {start length : Int32} (hlength : 0 < length)
    (hinside : start.toInt.toNat < file.contents.length) :
    Precedes (rangeOf file start length).first (rangeOf file start length).last := by
  apply precedes_of_lt hsize
  · have hpositive : 0 < length.toInt := Int32.lt_iff_toInt_lt.mp hlength
    omega
  · exact Nat.min_le_right _ _

end

/-- The places of a file come in the order of their offsets and give the offsets
back, and no range ends where it begins. -/
theorem position_ordered {files : FileTable} {id : Int32} {file : SourceFile}
    (hfile : files.find? id = some file) (hsize : file.contents.length < 2 ^ 31 - 1) :
    (∀ first last, first < last → last ≤ file.contents.length →
      Precedes (file.position first) (file.position last)) ∧
    (∀ offset, offset ≤ file.contents.length → OffsetOf file (file.position offset) offset) ∧
    (∀ first last, first ≤ file.contents.length → last ≤ file.contents.length →
      file.position first = file.position last → first = last) ∧
    ∀ start length range, Location.resolve? files id start length = some range →
      Precedes range.first range.last := by
  refine ⟨fun _ _ => precedes_of_lt hsize, fun _ => offsetOf_position hsize,
    fun _ _ => eq_of_position_eq hsize, ?_⟩
  intro start length range hresolve
  obtain ⟨file', hfile', ⟨-, hlength, hinside⟩, rfl⟩ := resolve?_eq_some_iff.mp hresolve
  obtain rfl := Option.some.inj (hfile.symm.trans hfile')
  exact precedes_rangeOf hsize hlength hinside

/-- The first newline ends its own line, and the place behind the last one is on
a line of its own. The longest range from there is its one byte. -/
theorem position_ordered_newlines :
    let file : SourceFile := { id := 3, path := "p", contents := "a\n\n" }
    let files : FileTable := FileTable.add ∅ 3 "p" "a\n\n"
    let range : Location := ⟨"p", ⟨2, 1⟩, ⟨3, 1⟩, ""⟩
    files.find? 3 = some file ∧ file.contents.length < 2 ^ 31 - 1 ∧
      Precedes (file.position 1) (file.position 2) ∧ OffsetOf file ⟨3, 1⟩ 3 ∧
      Location.resolve? files 3 2 2147483647 = some range ∧ Precedes range.first range.last := by
  intro file files range
  have hfile : files.find? 3 = some file := rfl
  have hsize : file.contents.length < 2 ^ 31 - 1 := by decide
  have hresolve : Location.resolve? files 3 2 2147483647 = some range := by decide +kernel
  obtain ⟨hordered, hoffset, -, hrange⟩ := position_ordered hfile hsize
  exact ⟨hfile, hsize, hordered 1 2 (by decide) (by decide), hoffset 3 (by decide), hresolve,
    hrange 2 2147483647 range hresolve⟩

end EvmSourceMap.Proofs.PositionOrder
