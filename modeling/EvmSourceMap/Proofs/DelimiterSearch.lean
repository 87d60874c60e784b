import EvmSourceMap.Proofs.TextSplitting

/-!
Splitting by positions: the next delimiter is looked for from where the piece begins, the bytes up
to it are cut out, and the next piece begins just behind it. This ends, stays inside the text and
gives the pieces of the text.
-/

namespace EvmSourceMap.Proofs.DelimiterSearch

open TextSplitting

/-- The first position of a byte that is not before `start`. -/
def find? (b : UInt8) (s : Bytes) (start : Nat) : Option Nat :=
  ((s.drop start).idxOf? b).map (start + ·)

/-- The bytes between two positions, if these are in order and inside the text. -/
def slice? (s : Bytes) (start stop : Nat) : Option Bytes :=
  if start ≤ stop ∧ stop ≤ s.length then some ((s.drop start).take (stop - start)) else none

section

variable {delimiter : UInt8} {s : Bytes} {start stop : Nat}

theorem find?_eq_none_iff : find? delimiter s start = none ↔ delimiter ∉ s.drop start := by
  rw [find?, Option.map_eq_none_iff, List.idxOf?_eq_none_iff]

theorem exists_of_find? (h : find? delimiter s start = some stop) :
    ∃ piece rest, s.drop start = piece ++ delimiter :: rest ∧ delimiter ∉ piece ∧
      stop = start + piece.length := by
  obtain ⟨i, hi, rfl⟩ := Option.map_eq_some_iff.mp h
  obtain ⟨hlt, hget, hfirst⟩ := List.idxOf?_eq_some_iff.mp hi
  refine ⟨(s.drop start).take i, (s.drop start).drop (i + 1), ?_, ?_, ?_⟩
  · rw [← hget, ← List.drop_eq_getElem_cons, List.take_append_drop]
  · intro hmem
    obtain ⟨j, hj, hdelimiter⟩ := List.mem_take_iff_getElem.mp hmem
    exact hfirst j (Nat.lt_of_lt_of_le hj (Nat.min_le_left _ _)) hdelimiter
  · rw [List.length_take_of_le (Nat.le_of_lt hlt)]

theorem bounds_of_find? (h : find? delimiter s start = some stop) :
    start ≤ stop ∧ stop < s.length := by
  obtain ⟨piece, rest, hdrop, -, rfl⟩ := exists_of_find? h
  have hlength := congrArg List.length hdrop
  rw [List.length_drop, List.length_append, List.length_cons] at hlength
  omega

end

/-- The pieces that were cut out before, and those from a position on. -/
def piecesFrom? (delimiter : UInt8) (s : Bytes) (start : Nat) (before : List Bytes) :
    Option (List Bytes) :=
  match h : find? delimiter s start with
  | some stop => (slice? s start stop).bind fun piece =>
      piecesFrom? delimiter s (stop + 1) (before ++ [piece])
  | none => (slice? s start s.length).map fun piece => before ++ [piece]
termination_by s.length - start
decreasing_by
  have hbounds := bounds_of_find? h
  omega

def pieces? (delimiter : UInt8) (s : Bytes) : Option (List Bytes) :=
  piecesFrom? delimiter s 0 []

section

variable {delimiter : UInt8} {s : Bytes} {start : Nat}

/-- One round cuts out the first piece of what is left and leaves the others. -/
theorem exists_slice?_of_find? {stop : Nat} (h : find? delimiter s start = some stop) :
    ∃ piece, slice? s start stop = some piece ∧
      Bytes.split delimiter (s.drop start) =
        piece :: Bytes.split delimiter (s.drop (stop + 1)) := by
  have hbounds := bounds_of_find? h
  obtain ⟨piece, rest, hdrop, hpiece, rfl⟩ := exists_of_find? h
  refine ⟨piece, ?_, ?_⟩
  · rw [slice?, if_pos ⟨hbounds.1, Nat.le_of_lt hbounds.2⟩, hdrop, Nat.add_sub_cancel_left,
      List.take_left]
  · have hrest : s.drop (start + piece.length + 1) = rest := by
      rw [Nat.add_assoc, ← List.drop_drop, hdrop, ← List.drop_drop, List.drop_left]
      rfl
    rw [hdrop, hrest, split_piece_append hpiece]

theorem slice?_length (h : start ≤ s.length) : slice? s start s.length = some (s.drop start) := by
  rw [slice?, if_pos ⟨h, Nat.le_refl _⟩, ← List.length_drop, List.take_length]

theorem piecesFrom?_eq (h : start ≤ s.length) (before : List Bytes) :
    piecesFrom? delimiter s start before =
      some (before ++ Bytes.split delimiter (s.drop start)) := by
  -- what has been cut out, with the pieces of what is left, stays the same from round to round
  fun_induction piecesFrom? delimiter s start before with
  | case1 start before stop hfind ih =>
      obtain ⟨piece, hslice, hsplit⟩ := exists_slice?_of_find? hfind
      rw [hslice, Option.bind_some, ih piece (bounds_of_find? hfind).2, hsplit, List.append_assoc,
        List.singleton_append]
  | case2 start before hfind =>
      rw [slice?_length h, Option.map_some, split_of_not_mem (find?_eq_none_iff.mp hfind)]

end

/-- The search ends with the pieces of the text. No other pieces make up the text, there is one more
of them than there are delimiters, and a delimiter divides the pieces as it divides the text. -/
theorem pieces_of_search (delimiter : UInt8) (s : Bytes) :
    pieces? delimiter s = some (Bytes.split delimiter s) ∧
    (∀ pieces, PiecesOf delimiter s pieces ↔ pieces = Bytes.split delimiter s) ∧
    (Bytes.split delimiter s).length = s.count delimiter + 1 ∧
    ∀ front back, Bytes.split delimiter (front ++ delimiter :: back) =
      Bytes.split delimiter front ++ Bytes.split delimiter back := by
  refine ⟨?_, fun pieces => piecesOf_iff, length_split delimiter s, split_append_cons delimiter⟩
  exact piecesFrom?_eq (Nat.zero_le _) []

example : Bytes.split ';'.toUInt8 "a;;b;" = (["a", "", "b", ""] : List Bytes) := by decide

end EvmSourceMap.Proofs.DelimiterSearch
