import EvmSourceMap.Bytes.Utf8
import EvmSourceMap.Proofs.Trimming

namespace EvmSourceMap.Proofs.Utf8Cuts

open Trimming
open Utf8

def run (s : State) (text : Bytes) : Option State :=
  text.foldlM step s

theorem run_append (s : State) (a b : Bytes) :
    run s (a ++ b) = (run s a).bind fun t => run t b :=
  List.foldlM_append

/-- What is owed next is a continuation byte, and the only state in which
nothing is owed is the one between two characters. -/
structure Regular (s : State) : Prop where
  low : 0x80 ≤ s.low
  high : s.high ≤ 0xbf
  between : s.owed = 0 → s = start

theorem regular_start : Regular start := by
  refine ⟨by decide, by decide, fun _ => rfl⟩

theorem regular_first {b : UInt8} {s : State} (h : first b = some s) : Regular s := by
  rw [first] at h
  repeat' split at h
  all_goals cases h <;> exact ⟨by decide, by decide, by decide⟩

theorem regular_step {s t : State} {b : UInt8} (h : step s b = some t) : Regular t := by
  rw [step] at h
  split at h
  · exact regular_first h
  · rename_i n _
    split at h
    · cases h
      refine ⟨UInt8.le_refl _, UInt8.le_refl _, ?_⟩
      rintro rfl
      rfl
    · cases h

theorem regular_run {text : Bytes} {s t : State} (hs : Regular s) (h : run s text = some t) :
    Regular t := by
  induction text generalizing s with
  | nil => exact Option.some.inj h ▸ hs
  | cons b text ih =>
      obtain ⟨s', hstep, hrest⟩ := Option.bind_eq_some_iff.mp h
      exact ih (regular_step hstep) hrest

theorem isValidFrom_iff {s : State} {text : Bytes} :
    isValidFrom s text = true ↔ ∃ t, run s text = some t ∧ t.owed = 0 := by
  induction text generalizing s with
  | nil => simp [isValidFrom, run]
  | cons b text ih =>
      rw [isValidFrom, run, List.foldlM_cons]
      cases hstep : step s b with
      | none => simp
      | some s' => exact ih

theorem isValid_iff {text : Bytes} : isValid text = true ↔ run start text = some start := by
  rw [isValid, isValidFrom_iff]
  constructor
  · rintro ⟨t, hrun, howed⟩
    rw [hrun, (regular_run regular_start hrun).between howed]
  · exact fun h => ⟨start, h, rfl⟩

theorem owed_eq_zero {s t t' : State} {b : UInt8} (hs : Regular s) (hfirst : first b = some t)
    (hstep : step s b = some t') : s.owed = 0 := by
  rw [step] at hstep
  split at hstep
  · assumption
  · split at hstep
    · rename_i hrange
      rw [Bool.and_eq_true, decide_eq_true_eq, decide_eq_true_eq] at hrange
      have hlow : ¬ b < 0x80 := UInt8.not_lt.mpr (UInt8.le_trans hs.low hrange.1)
      have hhigh : b < 0xc2 :=
        UInt8.lt_of_le_of_lt (UInt8.le_trans hrange.2 hs.high) (by decide)
      rw [first, if_neg hlow, if_pos hhigh] at hfirst
      cases hfirst
    · cases hstep

theorem isValid_append_iff_of_left {a : Bytes} (ha : isValid a = true) (b : Bytes) :
    isValid (a ++ b) = true ↔ isValid b = true := by
  rw [isValid_iff, isValid_iff, run_append, isValid_iff.mp ha, Option.bind_some]

theorem isValid_append {a b : Bytes} (ha : isValid a = true) (hb : isValid b = true) :
    isValid (a ++ b) = true :=
  (isValid_append_iff_of_left ha b).mpr hb

theorem isValid_of_run_append {a b : Bytes} {t : State} (hrun : run start (a ++ b) = some t)
    (hb : isValid b = true) (hne : b ≠ []) : isValid a = true := by
  obtain ⟨c, rest, rfl⟩ := List.exists_cons_of_ne_nil hne
  rw [run_append] at hrun
  obtain ⟨s, hs, hrest⟩ := Option.bind_eq_some_iff.mp hrun
  obtain ⟨_, hfirst, -⟩ := Option.bind_eq_some_iff.mp (isValid_iff.mp hb)
  obtain ⟨_, hstep, -⟩ := Option.bind_eq_some_iff.mp hrest
  exact isValidFrom_iff.mpr ⟨s, hs, owed_eq_zero (regular_run regular_start hs) hfirst hstep⟩

theorem isValid_append_iff_of_right (a : Bytes) {b : Bytes} (hb : isValid b = true) :
    isValid (a ++ b) = true ↔ isValid a = true := by
  rcases List.eq_nil_or_concat b with rfl | ⟨_, _, hconcat⟩
  · rw [List.append_nil]
  · constructor
    · intro h
      refine isValid_of_run_append (isValid_iff.mp h) hb ?_
      rw [hconcat]
      simp
    · exact fun ha => isValid_append ha hb

theorem isValid_of_ascii {text : Bytes} (h : ∀ b ∈ text, b < 0x80) : isValid text = true := by
  induction text with
  | nil => rfl
  | cons b text ih =>
      have hb : step start b = some start := if_pos (h b List.mem_cons_self)
      rw [isValid, isValidFrom, hb]
      exact ih fun c hc => h c (List.mem_cons_of_mem _ hc)

theorem lt_of_isBlank {b : UInt8} (h : Bytes.isBlank b = true) : b < 0x80 := by
  rw [Bytes.isBlank, Bool.or_eq_true, beq_iff_eq, Bool.and_eq_true, decide_eq_true_eq,
    decide_eq_true_eq] at h
  rcases h with rfl | ⟨-, hhigh⟩
  · decide
  · exact UInt8.lt_of_le_of_lt hhigh (by decide)

/-- Blanks at the ends are whole characters. -/
theorem isValid_trim_iff (text : Bytes) :
    isValid (Bytes.trim text) = true ↔ isValid text = true := by
  obtain ⟨front, back, htext, hfront, hback⟩ := exists_trim text
  have hvalid : ∀ blanks : Bytes, (∀ b ∈ blanks, Bytes.isBlank b = true) → isValid blanks = true :=
    fun _ h => isValid_of_ascii fun b hb => lt_of_isBlank (h b hb)
  have hiff : isValid (front ++ Bytes.trim text ++ back) = true ↔
      isValid (Bytes.trim text) = true := by
    rw [isValid_append_iff_of_right _ (hvalid back hback),
      isValid_append_iff_of_left (hvalid front hfront)]
  rw [← htext] at hiff
  exact hiff.symm

/-- An offset lies between two characters, or at an end of the text. -/
def AtBoundary (text : Bytes) (offset : Nat) : Prop :=
  isValid (text.take offset) = true

theorem atBoundary_min (text : Bytes) (offset : Nat) :
    AtBoundary text (min offset text.length) ↔ AtBoundary text offset := by
  have htake : text.take (min offset text.length) = text.take offset :=
    List.take_eq_take_iff.mpr (Nat.min_eq_left (Nat.min_le_right offset text.length))
  rw [AtBoundary, AtBoundary, htake]

/-- A part that is cut out of a valid text is valid exactly if both cuts are made
between two characters. -/
theorem isValid_cut_iff {text : Bytes} (htext : isValid text = true) {first last : Nat}
    (hlt : first < last) (hlast : last ≤ text.length) :
    isValid ((text.drop first).take (last - first)) = true ↔
      AtBoundary text first ∧ AtBoundary text last := by
  have htake : text.take last = text.take first ++ (text.drop first).take (last - first) := by
    rw [← List.take_add, Nat.add_sub_cancel' (Nat.le_of_lt hlt)]
  have hne : (text.drop first).take (last - first) ≠ [] := by
    rw [ne_eq, ← List.length_eq_zero_iff, List.length_take, List.length_drop]
    omega
  obtain ⟨t, hrun⟩ : ∃ t, run start (text.take last) = some t := by
    have hall := isValid_iff.mp htext
    rw [← List.take_append_drop last text, run_append] at hall
    obtain ⟨t, hrun, -⟩ := Option.bind_eq_some_iff.mp hall
    exact ⟨t, hrun⟩
  rw [AtBoundary, AtBoundary, htake]
  constructor
  · intro hcut
    have hfirst := isValid_of_run_append (htake ▸ hrun) hcut hne
    exact ⟨hfirst, (isValid_append_iff_of_left hfirst _).mpr hcut⟩
  · rintro ⟨hfirst, hlast⟩
    exact (isValid_append_iff_of_left hfirst _).mp hlast

end EvmSourceMap.Proofs.Utf8Cuts
