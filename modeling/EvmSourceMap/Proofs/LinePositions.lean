import EvmSourceMap.Proofs.TextSplitting
import EvmSourceMap.SourceFile
import Mathlib.Algebra.Group.Nat.Defs
import Mathlib.Data.List.Induction
import Mathlib.Data.List.TakeWhile

namespace EvmSourceMap.Proofs.LinePositions

open TextSplitting

def newline : UInt8 := 0x0a

/-- The offsets just past each newline, where the text begins at an offset. -/
def newlineEnds (offset : Nat) (text : Bytes) : List Nat :=
  (text.zipIdx offset).filterMap fun (b, i) => if b == newline then some (i + 1) else none

theorem lineStartsOf_eq (text : Bytes) : lineStartsOf text = 0 :: newlineEnds 0 text :=
  rfl

theorem newlineEnds_append (offset : Nat) (front back : Bytes) :
    newlineEnds offset (front ++ back) =
      newlineEnds offset front ++ newlineEnds (offset + front.length) back := by
  rw [newlineEnds, List.zipIdx_append, List.filterMap_append]
  rfl

theorem mem_newlineEnds {offset e : Nat} {text : Bytes} (h : e ∈ newlineEnds offset text) :
    offset < e ∧ e ≤ offset + text.length := by
  obtain ⟨⟨b, i⟩, hmem, hnewline⟩ := List.mem_filterMap.mp h
  obtain ⟨hfirst, hlast, -⟩ := List.mem_zipIdx hmem
  dsimp only at hnewline
  split at hnewline
  · obtain rfl := Option.some.inj hnewline
    omega
  · cases hnewline

theorem takeWhile_lineStartsOf (text : Bytes) (offset : Nat) :
    (lineStartsOf text).takeWhile (· ≤ offset) = lineStartsOf (text.take offset) := by
  have hsplit : newlineEnds 0 text = newlineEnds 0 (text.take offset) ++
      newlineEnds (text.take offset).length (text.drop offset) := by
    rw [← Nat.zero_add (text.take offset).length, ← newlineEnds_append, List.take_append_drop]
  rw [lineStartsOf_eq, lineStartsOf_eq, List.takeWhile_cons_of_pos (by simp), hsplit,
    List.takeWhile_append_of_pos]
  · -- the next line, if there is one, starts behind the offset
    cases hends : newlineEnds (text.take offset).length (text.drop offset) with
    | nil => simp
    | cons e ends =>
        have hmem : e ∈ newlineEnds (text.take offset).length (text.drop offset) :=
          hends ▸ List.mem_cons_self
        have hrange := mem_newlineEnds hmem
        rw [List.length_take, List.length_drop] at hrange
        rw [List.takeWhile_cons_of_neg, List.append_nil]
        simp only [decide_eq_true_eq]
        omega
  · intro e he
    have hmem := mem_newlineEnds he
    rw [List.length_take] at hmem
    simp only [decide_eq_true_eq]
    omega

theorem lineStartsOf_concat (text : Bytes) (b : UInt8) :
    lineStartsOf (text ++ [b]) =
      lineStartsOf text ++ if b == newline then [text.length + 1] else [] := by
  rw [lineStartsOf_eq, lineStartsOf_eq, newlineEnds_append, Nat.zero_add, List.cons_append]
  congr 2
  by_cases hb : b = newline
  · rw [hb]
    rfl
  · simp [newlineEnds, hb]

theorem length_lineStartsOf (text : Bytes) :
    (lineStartsOf text).length = text.count newline + 1 := by
  induction text using List.reverseRecOn with
  | nil => rfl
  | append_singleton front b ih =>
      rw [lineStartsOf_concat, List.length_append, ih, List.count_append, List.count_singleton]
      split <;> simp

theorem exists_getLast?_lineStartsOf (text : Bytes) :
    ∃ start, (lineStartsOf text).getLast? = some start :=
  ⟨_, List.getLast?_eq_some_getLast (List.cons_ne_nil _ _)⟩

/-- The place just past the last newline of a text, or its beginning if it has
none. -/
def IsLastLineStart (text : Bytes) (start : Nat) : Prop :=
  newline ∉ text ∧ start = 0 ∨
    ∃ front line, text = front ++ newline :: line ∧ newline ∉ line ∧ start = front.length + 1

theorem isLastLineStart_concat_newline (front : Bytes) :
    IsLastLineStart (front ++ [newline]) (front.length + 1) :=
  .inr ⟨front, [], rfl, List.not_mem_nil, rfl⟩

section

variable {text : Bytes} {start : Nat}

theorem IsLastLineStart.concat {b : UInt8} (h : IsLastLineStart text start) (hb : b ≠ newline) :
    IsLastLineStart (text ++ [b]) start := by
  rcases h with ⟨hnone, hstart⟩ | ⟨front, line, rfl, hline, hstart⟩
  · exact .inl ⟨by simp [hnone, hb.symm], hstart⟩
  · exact .inr ⟨front, line ++ [b], by simp, by simp [hline, hb.symm], hstart⟩

theorem IsLastLineStart.le (h : IsLastLineStart text start) : start ≤ text.length := by
  rcases h with ⟨-, rfl⟩ | ⟨front, line, rfl, -, rfl⟩
  · exact Nat.zero_le _
  · rw [List.length_append, List.length_cons]
    omega

theorem isLastLineStart_of_getLast? (h : (lineStartsOf text).getLast? = some start) :
    IsLastLineStart text start := by
  -- from the end: only a newline makes another line begin, just behind it
  induction text using List.reverseRecOn with
  | nil => exact .inl ⟨List.not_mem_nil, (Option.some.inj h).symm⟩
  | append_singleton front b ih =>
      rw [lineStartsOf_concat] at h
      split at h
      · rename_i hb
        rw [List.getLast?_concat] at h
        rw [beq_iff_eq.mp hb, ← Option.some.inj h]
        exact isLastLineStart_concat_newline front
      · rename_i hb
        rw [List.append_nil] at h
        exact (ih h).concat (mt beq_iff_eq.mpr hb)

theorem IsLastLineStart.add_length_of_split (hlast : IsLastLineStart text start)
    {before : List Bytes} {piece : Bytes} (h : Bytes.split newline text = before ++ [piece]) :
    start + piece.length = text.length := by
  rcases hlast with ⟨hnone, rfl⟩ | ⟨front, line, rfl, hline, rfl⟩
  · have hsplit : before ++ [piece] = [] ++ [text] :=
      h.symm.trans (split_of_not_mem hnone)
    rw [(eq_of_concat_eq hsplit).2, Nat.zero_add]
  · have hsplit : before ++ [piece] = Bytes.split newline front ++ [line] := by
      rw [← h, split_append_cons, split_of_not_mem hline]
    rw [(eq_of_concat_eq hsplit).2, List.length_append, List.length_cons]
    omega

end

section

variable {file : SourceFile} {offset start : Nat}
  (h : (lineStartsOf (file.contents.take offset)).getLast? = some start)

include h

theorem position_eq : file.position offset =
    ⟨.ofNat ((file.contents.take offset).count newline + 1), .ofNat (offset - start + 1)⟩ := by
  rw [SourceFile.position, file.lineStarts_eq, takeWhile_lineStartsOf, length_lineStartsOf, h]
  rfl

/-- 32 bits are enough for the line and the column of an offset that is small
enough itself, whatever the size of the file. -/
theorem toInt_position_eq (hoffset : offset < 2 ^ 31 - 1) :
    (file.position offset).line.toInt = (file.contents.take offset).count newline + 1 ∧
      (file.position offset).column.toInt = (offset : Int) - start + 1 := by
  have hcount : (file.contents.take offset).count newline ≤ offset :=
    Nat.le_trans List.count_le_length (List.length_take_le _ _)
  have hstart : start ≤ offset :=
    Nat.le_trans (isLastLineStart_of_getLast? h).le (List.length_take_le _ _)
  rw [position_eq h, Int32.toInt_ofNat_of_lt (by omega), Int32.toInt_ofNat_of_lt (by omega)]
  omega

end

/-- A place by the pieces of the text before it: there is a line for each, and the
last one ends there. -/
theorem toInt_position {file : SourceFile} (hsize : file.contents.length < 2 ^ 31 - 1)
    {offset : Nat} (hoffset : offset ≤ file.contents.length) {before : List Bytes} {piece : Bytes}
    (h : Bytes.split newline (file.contents.take offset) = before ++ [piece]) :
    (file.position offset).line.toInt = before.length + 1 ∧
      (file.position offset).column.toInt = piece.length + 1 := by
  obtain ⟨start, hlast⟩ := exists_getLast?_lineStartsOf (file.contents.take offset)
  obtain ⟨hline, hcolumn⟩ := toInt_position_eq hlast (by omega)
  have hend := (isLastLineStart_of_getLast? hlast).add_length_of_split h
  have hcount := length_split newline (file.contents.take offset)
  rw [List.length_take_of_le hoffset] at hend
  rw [h, List.length_append, List.length_singleton] at hcount
  omega

end EvmSourceMap.Proofs.LinePositions
