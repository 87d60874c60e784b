import EvmSourceMap.Bytes
import Mathlib.Data.List.DropRight

namespace EvmSourceMap.Proofs.Trimming

/-- Space, tab, line feed, carriage return, vertical tab and form feed. -/
def whitespace : Bytes := [0x20, 0x09, 0x0a, 0x0d, 0x0b, 0x0c]

theorem isBlank_iff_mem {b : UInt8} : Bytes.isBlank b = true ↔ b ∈ whitespace := by
  simp only [Bytes.isBlank, whitespace, Bool.or_eq_true, Bool.and_eq_true, beq_iff_eq,
    decide_eq_true_eq, UInt8.le_iff_toNat_le, List.mem_cons, List.not_mem_nil, or_false,
    ← UInt8.toNat_inj]
  simp only [UInt8.reduceToNat]
  omega

theorem getLast?_rdropWhile_ne {p : UInt8 → Bool} {b : UInt8} (hb : p b) (s : Bytes) :
    (s.rdropWhile p).getLast? ≠ some b := by
  intro h
  have hne : s.rdropWhile p ≠ [] := by
    intro hnil
    rw [hnil] at h
    cases h
  rw [List.getLast?_eq_some_getLast hne] at h
  exact List.rdropWhile_last_not p s hne (Option.some.inj h ▸ hb)

theorem head?_dropWhile_ne {p : UInt8 → Bool} {b : UInt8} (hb : p b) (s : Bytes) :
    (s.dropWhile p).head? ≠ some b := by
  intro h
  have hnot := List.head?_dropWhile_not p s
  rw [h] at hnot
  exact absurd hb (Bool.eq_false_iff.mp hnot)

theorem exists_trim (text : Bytes) :
    ∃ front back, text = front ++ Bytes.trim text ++ back ∧
      (∀ b ∈ front, Bytes.isBlank b = true) ∧ ∀ b ∈ back, Bytes.isBlank b = true := by
  refine ⟨text.takeWhile Bytes.isBlank, (text.dropWhile Bytes.isBlank).rtakeWhile Bytes.isBlank,
    ?_, fun b => List.mem_takeWhile_imp, fun b => List.mem_rtakeWhile_imp⟩
  change text = _ ++ (text.dropWhile Bytes.isBlank).rdropWhile Bytes.isBlank ++ _
  rw [List.append_assoc, List.rdropWhile_append_rtakeWhile, List.takeWhile_append_dropWhile]

/-- What is left of a text without the longest runs of whitespace at its two
ends. -/
structure IsTrimmed (text kept : Bytes) : Prop where
  runs : ∃ front back, text = front ++ kept ++ back ∧ (∀ b ∈ front, b ∈ whitespace) ∧
    ∀ b ∈ back, b ∈ whitespace
  first : ∀ b, kept.head? = some b → b ∉ whitespace
  last : ∀ b, kept.getLast? = some b → b ∉ whitespace

theorem isTrimmed_trim (text : Bytes) : IsTrimmed text (Bytes.trim text) where
  runs := by
    simp only [← isBlank_iff_mem]
    exact exists_trim text
  first b hb := by
    rw [← isBlank_iff_mem]
    intro hblank
    apply head?_dropWhile_ne hblank text
    obtain ⟨back, hback⟩ : Bytes.trim text <+: text.dropWhile Bytes.isBlank :=
      List.rdropWhile_prefix _ _
    rw [← hback, List.head?_append, hb]
    rfl
  last b hb := by
    rw [← isBlank_iff_mem]
    intro hblank
    exact getLast?_rdropWhile_ne hblank (text.dropWhile Bytes.isBlank) hb

end EvmSourceMap.Proofs.Trimming
