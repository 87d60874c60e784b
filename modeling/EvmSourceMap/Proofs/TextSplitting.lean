import EvmSourceMap.Bytes

namespace EvmSourceMap.Proofs.TextSplitting

/-- The pieces between the delimiters of a text: no piece has a delimiter in it, and they are the
text again once delimiters are put between them. -/
structure PiecesOf (delimiter : UInt8) (s : Bytes) (pieces : List Bytes) : Prop where
  ne_nil : pieces ≠ []
  not_mem : ∀ piece ∈ pieces, delimiter ∉ piece
  intercalate_eq : [delimiter].intercalate pieces = s

theorem split_of_not_mem {delimiter : UInt8} {s : Bytes} (h : delimiter ∉ s) :
    Bytes.split delimiter s = [s] :=
  List.splitOn_eq_singleton h

theorem split_append_cons (delimiter : UInt8) (front back : Bytes) :
    Bytes.split delimiter (front ++ delimiter :: back) =
      Bytes.split delimiter front ++ Bytes.split delimiter back :=
  List.splitOn_append_cons_self front back

/-- Induction along the pieces of a text: the last one, and one more in front of those behind it. -/
@[elab_as_elim]
theorem piece_induction {delimiter : UInt8} {motive : Bytes → Prop}
    (last : ∀ piece, delimiter ∉ piece → motive piece)
    (cons : ∀ piece rest, delimiter ∉ piece → motive rest → motive (piece ++ delimiter :: rest))
    (s : Bytes) : motive s := by
  by_cases h : delimiter ∈ s
  · obtain ⟨piece, rest, hs, hpiece⟩ := List.eq_append_cons_of_mem h
    rw [hs]
    exact cons piece rest hpiece (piece_induction last cons rest)
  · exact last s h
termination_by s.length
decreasing_by
  rw [hs, List.length_append, List.length_cons]
  omega

theorem split_piece_append {delimiter : UInt8} {piece : Bytes} (h : delimiter ∉ piece)
    (rest : Bytes) :
    Bytes.split delimiter (piece ++ delimiter :: rest) = piece :: Bytes.split delimiter rest := by
  rw [split_append_cons, split_of_not_mem h, List.singleton_append]

theorem not_mem_of_mem_split {delimiter : UInt8} {s piece : Bytes}
    (h : piece ∈ Bytes.split delimiter s) : delimiter ∉ piece := by
  induction s using piece_induction with
  | last first hfirst =>
      rw [split_of_not_mem hfirst, List.mem_singleton] at h
      exact h ▸ hfirst
  | cons first rest hfirst ih =>
      rw [split_piece_append hfirst, List.mem_cons] at h
      rcases h with rfl | hrest
      · exact hfirst
      · exact ih hrest

theorem piecesOf_split (delimiter : UInt8) (s : Bytes) :
    PiecesOf delimiter s (Bytes.split delimiter s) where
  ne_nil := List.splitOn_ne_nil delimiter s
  not_mem _ := not_mem_of_mem_split
  intercalate_eq := List.intercalate_splitOn delimiter

theorem PiecesOf.split_eq {delimiter : UInt8} {s : Bytes} {pieces : List Bytes}
    (h : PiecesOf delimiter s pieces) : Bytes.split delimiter s = pieces := by
  rw [← h.intercalate_eq]
  exact List.splitOn_intercalate delimiter h.not_mem h.ne_nil

theorem piecesOf_iff {delimiter : UInt8} {s : Bytes} {pieces : List Bytes} :
    PiecesOf delimiter s pieces ↔ pieces = Bytes.split delimiter s := by
  constructor
  · intro h
    exact h.split_eq.symm
  · rintro rfl
    exact piecesOf_split delimiter s

theorem length_split (delimiter : UInt8) (s : Bytes) :
    (Bytes.split delimiter s).length = s.count delimiter + 1 := by
  induction s using piece_induction with
  | last piece hpiece =>
      rw [split_of_not_mem hpiece, List.count_eq_zero_of_not_mem hpiece]
      rfl
  | cons piece rest hpiece ih =>
      rw [split_piece_append hpiece, List.length_cons, ih, List.count_append, List.count_cons_self,
        List.count_eq_zero_of_not_mem hpiece, Nat.zero_add]

theorem exists_split_concat (delimiter : UInt8) (s : Bytes) :
    ∃ before piece, Bytes.split delimiter s = before ++ [piece] :=
  ⟨_, _, (List.dropLast_concat_getLast (piecesOf_split delimiter s).ne_nil).symm⟩

theorem exists_split_append_of_not_mem {delimiter : UInt8} {front : Bytes}
    (h : delimiter ∉ front) (back : Bytes) :
    ∃ b after, Bytes.split delimiter back = b :: after ∧
      Bytes.split delimiter (front ++ back) = (front ++ b) :: after := by
  have hjoint {b : Bytes} (hb : delimiter ∉ b) : delimiter ∉ front ++ b := by
    rw [List.mem_append, not_or]
    exact ⟨h, hb⟩
  induction back using piece_induction with
  | last b hb => exact ⟨b, [], split_of_not_mem hb, split_of_not_mem (hjoint hb)⟩
  | cons b rest hb _ =>
      refine ⟨b, Bytes.split delimiter rest, split_piece_append hb rest, ?_⟩
      rw [← List.append_assoc, split_piece_append (hjoint hb)]

theorem exists_split_append (delimiter : UInt8) (front back : Bytes) :
    ∃ before a b after, Bytes.split delimiter front = before ++ [a] ∧
      Bytes.split delimiter back = b :: after ∧
      Bytes.split delimiter (front ++ back) = before ++ (a ++ b) :: after := by
  induction front using piece_induction with
  | last a ha =>
      obtain ⟨b, after, hback, hwhole⟩ := exists_split_append_of_not_mem ha back
      exact ⟨[], a, b, after, split_of_not_mem ha, hback, hwhole⟩
  | cons piece rest hpiece ih =>
      obtain ⟨before, a, b, after, hrest, hback, hwhole⟩ := ih
      refine ⟨piece :: before, a, b, after, ?_, hback, ?_⟩
      · rw [split_piece_append hpiece, hrest, List.cons_append]
      · rw [List.append_assoc, List.cons_append, split_piece_append hpiece, hwhole,
          List.cons_append]

theorem eq_of_concat_eq {α : Type} {before before' : List α} {piece piece' : α}
    (h : before ++ [piece] = before' ++ [piece']) : before = before' ∧ piece = piece' := by
  obtain ⟨hbefore, hpiece⟩ := List.append_inj' h rfl
  exact ⟨hbefore, List.singleton_inj.mp hpiece⟩

/-- Where two texts meet, the last piece of the one and the first piece of the other
become one piece. -/
theorem split_append {delimiter : UInt8} {front : Bytes} {before : List Bytes} {piece : Bytes}
    (h : Bytes.split delimiter front = before ++ [piece]) (back : Bytes) :
    ∃ b after, Bytes.split delimiter back = b :: after ∧
      Bytes.split delimiter (front ++ back) = before ++ (piece ++ b) :: after := by
  obtain ⟨before', a, b, after, hfront, hback, hwhole⟩ := exists_split_append delimiter front back
  obtain ⟨rfl, rfl⟩ := eq_of_concat_eq (h.symm.trans hfront)
  exact ⟨b, after, hback, hwhole⟩

theorem mem_intercalate {delimiter b : UInt8} {pieces : List Bytes}
    (h : b ∈ [delimiter].intercalate pieces) : b = delimiter ∨ ∃ piece ∈ pieces, b ∈ piece := by
  induction pieces with
  | nil => cases h
  | cons piece pieces ih =>
      cases pieces with
      | nil =>
          rw [List.intercalate_singleton] at h
          exact .inr ⟨piece, List.mem_cons_self, h⟩
      | cons next pieces =>
          rw [List.intercalate_cons_cons, List.append_assoc] at h
          rcases List.mem_append.mp h with hpiece | h
          · exact .inr ⟨piece, List.mem_cons_self, hpiece⟩
          · rcases List.mem_cons.mp h with hdelimiter | hrest
            · exact .inl hdelimiter
            · rcases ih hrest with hdelimiter | ⟨piece', hmem, hb⟩
              · exact .inl hdelimiter
              · exact .inr ⟨piece', List.mem_cons_of_mem _ hmem, hb⟩

theorem mem_intercalate_of_mem {delimiter b : UInt8} {piece : Bytes} {pieces : List Bytes}
    (hpiece : piece ∈ pieces) (hb : b ∈ piece) : b ∈ [delimiter].intercalate pieces := by
  induction pieces with
  | nil => cases hpiece
  | cons first pieces ih =>
      cases pieces with
      | nil =>
          rw [List.mem_singleton] at hpiece
          rw [List.intercalate_singleton]
          exact hpiece ▸ hb
      | cons next pieces =>
          rw [List.intercalate_cons_cons, List.append_assoc]
          rcases List.mem_cons.mp hpiece with rfl | hrest
          · exact List.mem_append_left _ hb
          · exact List.mem_append_right _ (List.mem_cons_of_mem _ (ih hrest))

end EvmSourceMap.Proofs.TextSplitting
