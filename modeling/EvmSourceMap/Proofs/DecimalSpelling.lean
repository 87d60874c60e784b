import EvmSourceMap.Decimal
import Mathlib.Algebra.Group.Int.Defs

namespace EvmSourceMap.Proofs.DecimalSpelling

open Decimal

/-- One or more digits. -/
def IsNumeral (s : Bytes) : Prop :=
  s ≠ [] ∧ ∀ b ∈ s, isDigit b = true

/-- A text spells an integer by digits, which may have a minus sign before
them. Leading zeros do not matter. -/
inductive Spells : Bytes → Int → Prop
  | unsigned {s : Bytes} (h : IsNumeral s) : Spells s (digitsValue s)
  | negated {s : Bytes} (h : IsNumeral s) : Spells ('-'.toUInt8 :: s) (-digitsValue s)

theorem Spells.ne_nil {s : Bytes} {n : Int} (h : Spells s n) : s ≠ [] := by
  cases h with
  | unsigned hnumeral => exact hnumeral.1
  | negated => exact List.cons_ne_nil _ _

theorem readNat?_eq_some_iff {s : Bytes} {n : Nat} :
    readNat? s = some n ↔ IsNumeral s ∧ digitsValue s = n := by
  simp [readNat?, IsNumeral]

theorem not_isNumeral_minus (s : Bytes) : ¬ IsNumeral ('-'.toUInt8 :: s) := by
  rintro ⟨-, hdigits⟩
  have hminus := hdigits _ List.mem_cons_self
  revert hminus
  decide

theorem readInt?_minus (s : Bytes) :
    readInt? ('-'.toUInt8 :: s) = (readNat? s).map fun n : Nat => -(n : Int) := by
  change Option.map _ (readNat? s >>= _) = _
  cases readNat? s <;> rfl

theorem readInt?_unsigned {s : Bytes} (h : ∀ t, s ≠ '-'.toUInt8 :: t) :
    readInt? s = (readNat? s).map Int.ofNat := by
  rw [readInt?.eq_def]
  split
  · exact absurd rfl (h _)
  · rfl

theorem readInt?_eq_some_iff {s : Bytes} {n : Int} : readInt? s = some n ↔ Spells s n := by
  constructor
  · intro h
    by_cases hminus : ∃ t, s = '-'.toUInt8 :: t
    · obtain ⟨t, rfl⟩ := hminus
      rw [readInt?_minus] at h
      obtain ⟨value, hvalue, rfl⟩ := Option.map_eq_some_iff.mp h
      obtain ⟨hnumeral, rfl⟩ := readNat?_eq_some_iff.mp hvalue
      exact .negated hnumeral
    · rw [readInt?_unsigned (not_exists.mp hminus)] at h
      obtain ⟨value, hvalue, rfl⟩ := Option.map_eq_some_iff.mp h
      obtain ⟨hnumeral, rfl⟩ := readNat?_eq_some_iff.mp hvalue
      exact .unsigned hnumeral
  · intro h
    cases h with
    | unsigned hnumeral =>
        rw [readInt?_unsigned (fun t ht => not_isNumeral_minus t (ht ▸ hnumeral)),
          readNat?_eq_some_iff.mpr ⟨hnumeral, rfl⟩]
        rfl
    | negated hnumeral =>
        rw [readInt?_minus, readNat?_eq_some_iff.mpr ⟨hnumeral, rfl⟩]
        rfl

theorem readInt32?_eq_some_iff {s : Bytes} {v : Int32} :
    readInt32? s = some v ↔ Spells s v.toInt := by
  rw [readInt32?, Option.bind_eq_some_iff, ← readInt?_eq_some_iff]
  constructor
  · rintro ⟨n, hread, hv⟩
    split at hv
    · rename_i hfits
      cases hv
      rw [hread, Int32.toInt_ofInt_of_le hfits.1 (Int.lt_add_one_of_le hfits.2)]
    · cases hv
  · intro hread
    refine ⟨v.toInt, hread, ?_⟩
    rw [if_pos ⟨v.minValue_le_toInt, v.toInt_le⟩, Int32.ofInt_toInt]

theorem exists_readInt32?_iff {s : Bytes} :
    (∃ v, readInt32? s = some v) ↔ ∃ n, Spells s n ∧ -2 ^ 31 ≤ n ∧ n ≤ 2 ^ 31 - 1 := by
  constructor
  · rintro ⟨v, hv⟩
    exact ⟨v.toInt, readInt32?_eq_some_iff.mp hv, v.le_toInt, Int.le_sub_one_of_lt v.toInt_lt⟩
  · rintro ⟨n, hspells, hlow, hhigh⟩
    refine ⟨Int32.ofInt n, readInt32?_eq_some_iff.mpr ?_⟩
    rw [Int32.toInt_ofInt_of_le hlow (by omega)]
    exact hspells

theorem toNat_toUInt8 {c : Char} (h : c.isDigit = true) : c.toUInt8.toNat = c.toNat := by
  obtain ⟨-, hhigh⟩ := Char.isDigit_iff_toNat.mp h
  exact Nat.mod_eq_of_lt (Nat.lt_of_le_of_lt hhigh (by decide))

theorem isDigit_toUInt8 {c : Char} (h : c.isDigit = true) : isDigit c.toUInt8 = true := by
  obtain ⟨hlow, hhigh⟩ := Char.isDigit_iff_toNat.mp h
  rw [← toNat_toUInt8 h] at hlow hhigh
  simp only [isDigit, Bool.and_eq_true, decide_eq_true_eq, UInt8.le_iff_toNat_le]
  exact ⟨hlow, hhigh⟩

theorem isNumeral_ofNat (n : Nat) : IsNumeral (ofNat n) := by
  refine ⟨by simp [ofNat], ?_⟩
  intro b hb
  obtain ⟨c, hc, rfl⟩ := List.mem_map.mp hb
  exact isDigit_toUInt8 (Nat.isDigit_of_mem_toDigits (by decide) (by decide) hc)

theorem foldl_toUInt8 {cs : List Char} (h : ∀ c ∈ cs, c.isDigit = true) (value : Nat) :
    (cs.map fun c => c.toUInt8).foldl (fun n b => 10 * n + (b.toNat - 0x30)) value =
      Nat.ofDigitChars 10 cs value := by
  induction cs generalizing value with
  | nil => rfl
  | cons c cs ih =>
      have hc : c.isDigit = true := h c List.mem_cons_self
      have hcs : ∀ c ∈ cs, c.isDigit = true := fun c hmem => h c (List.mem_cons_of_mem _ hmem)
      rw [List.map_cons, List.foldl_cons, ih hcs, toNat_toUInt8 hc, Nat.ofDigitChars_cons]
      rfl

theorem digitsValue_ofNat (n : Nat) : digitsValue (ofNat n) = n := by
  have hdigits : ∀ c ∈ Nat.toDigits 10 n, c.isDigit = true := fun c hc =>
    Nat.isDigit_of_mem_toDigits (by decide) (by decide) hc
  calc
    digitsValue (ofNat n) = Nat.ofDigitChars 10 (Nat.toDigits 10 n) 0 := foldl_toUInt8 hdigits 0
    _ = n := Nat.ofDigitChars_ten_toDigits

theorem ofNat_injective : Function.Injective ofNat :=
  Function.LeftInverse.injective digitsValue_ofNat

theorem spells_ofNat (n : Nat) : Spells (ofNat n) n := by
  have hspells := Spells.unsigned (isNumeral_ofNat n)
  rwa [digitsValue_ofNat] at hspells

theorem spells_ofInt (n : Int) : Spells (ofInt n) n := by
  rw [ofInt]
  split
  · have hn : -(digitsValue (ofNat n.natAbs) : Int) = n := by
      rw [digitsValue_ofNat]
      omega
    have hspells := Spells.negated (isNumeral_ofNat n.natAbs)
    rwa [hn] at hspells
  · have hn : (n.natAbs : Int) = n := by omega
    have hspells := spells_ofNat n.natAbs
    rwa [hn] at hspells

theorem ofInt_injective : Function.Injective ofInt := by
  intro n n' hsame
  have hread := readInt?_eq_some_iff.mpr (spells_ofInt n)
  rw [hsame, readInt?_eq_some_iff.mpr (spells_ofInt n')] at hread
  exact (Option.some.inj hread).symm

end EvmSourceMap.Proofs.DecimalSpelling
