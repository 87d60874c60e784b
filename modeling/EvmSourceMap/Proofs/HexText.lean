import EvmSourceMap.Bytecode.Decode
import Mathlib.Tactic.SplitIfs

/-!
Code as hexadecimal text. A text is read exactly if it consists of pairs of digits, what is read
has these digits up to their case, and a text that is refused is refused at its first fault.
-/

namespace EvmSourceMap.Proofs.HexText

open Bytecode

/-! ### Digits -/

/-- A hexadecimal digit, in either case. -/
def IsDigit (b : UInt8) : Prop :=
  b ∈ Bytes.ofString "0123456789abcdefABCDEF"

instance : DecidablePred IsDigit := fun b =>
  inferInstanceAs (Decidable (b ∈ Bytes.ofString "0123456789abcdefABCDEF"))

def toUpper (b : UInt8) : UInt8 :=
  if 0x61 ≤ b && b ≤ 0x7a then b - 0x20 else b

theorem isDigit_iff {b : UInt8} : IsDigit b ↔ ∃ v, Hex.digitValue? b = some v := by
  have hdigits : Bytes.ofString "0123456789abcdefABCDEF" =
      [0x30, 0x31, 0x32, 0x33, 0x34, 0x35, 0x36, 0x37, 0x38, 0x39, 0x61, 0x62, 0x63, 0x64, 0x65,
        0x66, 0x41, 0x42, 0x43, 0x44, 0x45, 0x46] := rfl
  rw [IsDigit, hdigits, Hex.digitValue?]
  simp only [List.mem_cons, List.not_mem_nil, or_false, Bool.and_eq_true, decide_eq_true_eq,
    ← UInt8.toNat_inj, UInt8.le_iff_toNat_le, UInt8.reduceToNat]
  split_ifs <;> simp <;> omega

theorem digitValue?_eq_some_iff {b v : UInt8} :
    Hex.digitValue? b = some v ↔ v < 16 ∧ Hex.digit v = Bytes.toLower b := by
  simp only [Hex.digitValue?, Hex.digit, Bytes.toLower, Bool.and_eq_true, decide_eq_true_eq]
  split_ifs <;>
    simp only [Option.some.injEq, false_iff, not_and, ← UInt8.toNat_inj, UInt8.le_iff_toNat_le,
      UInt8.lt_iff_toNat_lt, UInt8.toNat_add, UInt8.toNat_sub, UInt8.reduceToNat] at * <;>
    omega

theorem toLower_toUpper (b : UInt8) : Bytes.toLower (toUpper b) = Bytes.toLower b := by
  simp only [toUpper, Bytes.toLower, Bool.and_eq_true, decide_eq_true_eq]
  split_ifs <;>
    simp only [← UInt8.toNat_inj, UInt8.le_iff_toNat_le, UInt8.toNat_add, UInt8.toNat_sub,
      UInt8.reduceToNat] at * <;>
    omega

theorem toLower_digit {v : UInt8} (h : v < 16) : Bytes.toLower (Hex.digit v) = Hex.digit v := by
  grind [Hex.digit, Bytes.toLower]

theorem digitValue?_digit {v : UInt8} (h : v < 16) : Hex.digitValue? (Hex.digit v) = some v :=
  digitValue?_eq_some_iff.mpr ⟨h, (toLower_digit h).symm⟩

theorem isDigit_of_toLower {b v : UInt8} (hv : v < 16) (h : Bytes.toLower b = Hex.digit v) :
    IsDigit b :=
  isDigit_iff.mpr ⟨v, digitValue?_eq_some_iff.mpr ⟨hv, h.symm⟩⟩

/-! ### Pairs of digits -/

theorem high_lt (b : UInt8) : b / 16 < 16 := by
  rw [UInt8.lt_iff_toNat_lt, UInt8.toNat_div]
  exact Nat.div_lt_of_lt_mul b.toNat_lt

theorem low_lt (b : UInt8) : b % 16 < 16 := by
  rw [UInt8.lt_iff_toNat_lt, UInt8.toNat_mod]
  exact Nat.mod_lt _ (by decide)

theorem ofByte_pair {high low : UInt8} (hhigh : high < 16) (hlow : low < 16) :
    Hex.ofByte (16 * high + low) = [Hex.digit high, Hex.digit low] := by
  have hdiv : (16 * high + low) / 16 = high := by grind
  have hmod : (16 * high + low) % 16 = low := by grind
  rw [Hex.ofByte, hdiv, hmod]

theorem encode_cons (b : UInt8) (code : Bytes) :
    Hex.encode (b :: code) = Hex.digit (b / 16) :: Hex.digit (b % 16) :: Hex.encode code := by
  rfl

theorem length_encode (code : Bytes) : (Hex.encode code).length = 2 * code.length := by
  induction code with
  | nil => rfl
  | cons b code ih =>
      rw [encode_cons]
      simp only [List.length_cons, ih]
      omega

theorem exists_of_mem_encode {code : Bytes} {b : UInt8} (h : b ∈ Hex.encode code) :
    ∃ v < 16, b = Hex.digit v := by
  obtain ⟨c, -, hb⟩ := List.mem_flatMap.mp h
  rw [Hex.ofByte, List.mem_cons, List.mem_singleton] at hb
  rcases hb with rfl | rfl
  · exact ⟨c / 16, high_lt c, rfl⟩
  · exact ⟨c % 16, low_lt c, rfl⟩

theorem map_toLower_encode (code : Bytes) :
    (Hex.encode code).map Bytes.toLower = Hex.encode code := by
  have hsame : ∀ b ∈ Hex.encode code, Bytes.toLower b = b := by
    intro b hb
    obtain ⟨v, hv, rfl⟩ := exists_of_mem_encode hb
    exact toLower_digit hv
  exact (List.map_congr_left hsame).trans (List.map_id _)

theorem encode_injective : Function.Injective Hex.encode := by
  intro code code' hsame
  induction code generalizing code' with
  | nil =>
      cases code' with
      | nil => rfl
      | cons b code' => cases hsame
  | cons b code ih =>
      cases code' with
      | nil => cases hsame
      | cons b' code' =>
          simp only [encode_cons, List.cons.injEq] at hsame
          obtain ⟨hhigh, hlow, hrest⟩ := hsame
          have hdiv : b / 16 = b' / 16 := by
            have hvalue := digitValue?_digit (high_lt b)
            rw [hhigh, digitValue?_digit (high_lt b')] at hvalue
            exact (Option.some.inj hvalue).symm
          have hmod : b % 16 = b' % 16 := by
            have hvalue := digitValue?_digit (low_lt b)
            rw [hlow, digitValue?_digit (low_lt b')] at hvalue
            exact (Option.some.inj hvalue).symm
          have hbyte : b = b' := by grind
          rw [hbyte, ih hrest]

/-- The first character that is no digit, and where it stands. -/
structure FirstOther (text : Bytes) (i : Nat) (b : UInt8) : Prop where
  here : text[i]? = some b
  notDigit : ¬ IsDigit b
  before : ∀ c ∈ text.take i, IsDigit c

theorem firstOther_cons_zero {c : UInt8} {text : Bytes} (h : ¬ IsDigit c) :
    FirstOther (c :: text) 0 c where
  here := rfl
  notDigit := h
  before := by simp

theorem FirstOther.cons {text : Bytes} {i : Nat} {b c : UInt8} (hc : IsDigit c)
    (h : FirstOther text i b) : FirstOther (c :: text) (i + 1) b where
  here := h.here
  notDigit := h.notDigit
  before := by
    rw [List.take_succ_cons]
    exact List.forall_mem_cons.mpr ⟨hc, h.before⟩

/-- What reading pairs comes to: bytes with the same digits, or a fault at the first character that
is none, which is shown from its pair on. -/
inductive Outcome (offset : Nat) (text : Bytes) : Except Error Bytes → Prop
  | read {code : Bytes} (hdigits : ∀ b ∈ text, IsDigit b)
      (hcode : Hex.encode code = text.map Bytes.toLower) : Outcome offset text (.ok code)
  | refused {i : Nat} {b : UInt8} (hfirst : FirstOther text i b) :
      Outcome offset text (.error (.notHex (offset + i) b ((text.drop (i - i % 2)).take 8)))

theorem Outcome.cons {offset : Nat} {high low h l : UInt8} {rest : Bytes}
    {result : Except Error Bytes} (hhigh : Hex.digitValue? high = some h)
    (hlow : Hex.digitValue? low = some l) (hrest : Outcome (offset + 2) rest result) :
    Outcome offset (high :: low :: rest) (result.map ((16 * h + l) :: ·)) := by
  have hdigits : IsDigit high ∧ IsDigit low :=
    ⟨isDigit_iff.mpr ⟨h, hhigh⟩, isDigit_iff.mpr ⟨l, hlow⟩⟩
  cases hrest with
  | read hrest hcode =>
      obtain ⟨hh, hhigh⟩ := digitValue?_eq_some_iff.mp hhigh
      obtain ⟨hl, hlow⟩ := digitValue?_eq_some_iff.mp hlow
      refine .read ?_ ?_
      · simpa [hdigits] using hrest
      · show Hex.ofByte (16 * h + l) ++ Hex.encode _ = _
        rw [ofByte_pair hh hl, hcode, hhigh, hlow]
        rfl
  | @refused i b hfirst =>
      have hpair : i + 2 - (i + 2) % 2 = i - i % 2 + 2 := by omega
      have hrefused : Outcome offset (high :: low :: rest) _ :=
        .refused ((hfirst.cons hdigits.2).cons hdigits.1)
      rw [Nat.add_assoc i, hpair] at hrefused
      show Outcome offset (high :: low :: rest) (.error _)
      rw [Nat.add_assoc, Nat.add_comm 2]
      exact hrefused

theorem outcome_decodePairs (offset : Nat) {text : Bytes} (heven : text.length % 2 = 0) :
    Outcome offset text (decodePairs offset text) := by
  fun_induction decodePairs offset text with
  | case1 offset high low rest h l hlow hhigh ih =>
      apply Outcome.cons hhigh hlow
      apply ih
      simp only [List.length_cons] at heven
      omega
  | case2 offset high low rest hhigh =>
      have hother : ¬ IsDigit high := by simp [isDigit_iff, hhigh]
      exact .refused (firstOther_cons_zero hother)
  | case3 offset high low rest h hlow hhigh =>
      have hdigit : IsDigit high := isDigit_iff.mpr ⟨h, hhigh⟩
      have hother : ¬ IsDigit low := by simp [isDigit_iff, hlow]
      exact .refused ((firstOther_cons_zero hother).cons hdigit)
  | case4 text offset hshort =>
      match text, hshort with
      | [], _ => exact .read nofun rfl
      | [_], _ => cases heven
      | high :: low :: rest, hshort => exact absurd rfl (hshort high low rest)

theorem FirstOther.not_forall {text : Bytes} {i : Nat} {b : UInt8} (h : FirstOther text i b) :
    ¬ ∀ c ∈ text, IsDigit c :=
  fun hall => h.notDigit (hall b (List.mem_of_getElem? h.here))

/-! ### Whole texts -/

/-- A text and what it is without the mark that it may begin with. A second mark stays. -/
inductive Unmarked : Bytes → Bytes → Prop
  | marked {x : UInt8} {digits : Bytes} (hx : x = 'x'.toUInt8 ∨ x = 'X'.toUInt8) :
      Unmarked ('0'.toUInt8 :: x :: digits) digits
  | plain {digits : Bytes}
      (hplain : ∀ x rest, digits = '0'.toUInt8 :: x :: rest → x ≠ 'x'.toUInt8 ∧ x ≠ 'X'.toUInt8) :
      Unmarked digits digits

theorem unmarked_stripMark (text : Bytes) : Unmarked text (stripMark text) := by
  rw [stripMark.eq_def]
  split
  · exact .marked (.inl rfl)
  · exact .marked (.inr rfl)
  · rename_i hlower hupper
    refine .plain fun x rest htext => ⟨?_, ?_⟩
    · rintro rfl
      exact hlower rest htext
    · rintro rfl
      exact hupper rest htext

/-- Where a text that is no code has its fault, and what is shown of it. -/
inductive FaultAt (digits : Bytes) : Nat → Bytes → Prop
  | dangling {last : UInt8} (hodd : digits.length % 2 = 1)
      (hlast : digits.getLast? = some last) : FaultAt digits (digits.length - 1) [last]
  | other {i : Nat} {b : UInt8} (heven : digits.length % 2 = 0) (hfirst : FirstOther digits i b) :
      FaultAt digits i ((digits.drop (i - i % 2)).take 8)

theorem decode_of_odd {text : Bytes} (hodd : (stripMark text).length % 2 = 1) :
    ∃ last, (stripMark text).getLast? = some last ∧
      decode text = .error (.oddLength (stripMark text).length last) := by
  rw [decode]
  cases hlast : (stripMark text).getLast? with
  | none =>
      rw [List.getLast?_eq_none_iff.mp hlast] at hodd
      cases hodd
  | some last => exact ⟨last, rfl, if_pos hodd⟩

theorem decode_of_even {text : Bytes} (heven : (stripMark text).length % 2 = 0) :
    decode text = decodePairs 0 (stripMark text) := by
  rw [decode]
  cases hlast : (stripMark text).getLast? with
  | none =>
      rw [List.getLast?_eq_none_iff.mp hlast]
      rfl
  | some last => exact if_neg (by omega)

theorem exists_decode_iff {text : Bytes} :
    (∃ code, decode text = .ok code) ↔
      (stripMark text).length % 2 = 0 ∧ ∀ b ∈ stripMark text, IsDigit b := by
  rcases Nat.mod_two_eq_zero_or_one (stripMark text).length with heven | hodd
  · rw [decode_of_even heven]
    have houtcome := outcome_decodePairs 0 heven
    constructor
    · rintro ⟨code, hcode⟩
      rw [hcode] at houtcome
      cases houtcome with
      | read hdigits => exact ⟨heven, hdigits⟩
    · rintro ⟨-, hdigits⟩
      cases hresult : decodePairs 0 (stripMark text) with
      | ok code => exact ⟨code, rfl⟩
      | error e =>
          rw [hresult] at houtcome
          cases houtcome with
          | refused hfirst => exact absurd hdigits hfirst.not_forall
  · obtain ⟨last, -, herror⟩ := decode_of_odd hodd
    rw [herror]
    refine iff_of_false (by simp) ?_
    rintro ⟨heven, -⟩
    omega

theorem encode_of_decode {text code : Bytes} (h : decode text = .ok code) :
    Hex.encode code = (stripMark text).map Bytes.toLower := by
  have heven := (exists_decode_iff.mp ⟨code, h⟩).1
  have houtcome := outcome_decodePairs 0 heven
  rw [← decode_of_even heven, h] at houtcome
  cases houtcome with
  | read _ hcode => exact hcode

theorem faultAt_of_decode {text : Bytes} {e : Error} (h : decode text = .error e) :
    FaultAt (stripMark text) e.offset e.offending := by
  rcases Nat.mod_two_eq_zero_or_one (stripMark text).length with heven | hodd
  · have houtcome := outcome_decodePairs 0 heven
    rw [← decode_of_even heven, h] at houtcome
    cases houtcome with
    | @refused i b hfirst =>
        show FaultAt _ (0 + i) _
        rw [Nat.zero_add]
        exact .other heven hfirst
  · obtain ⟨last, hlast, herror⟩ := decode_of_odd hodd
    cases h.symm.trans herror
    exact .dangling hodd hlast

theorem forall_isDigit_of_toLower {digits code : Bytes}
    (h : digits.map Bytes.toLower = Hex.encode code) : ∀ b ∈ digits, IsDigit b := by
  intro b hb
  have hmem : Bytes.toLower b ∈ Hex.encode code := h ▸ List.mem_map_of_mem hb
  obtain ⟨v, hv, hlower⟩ := exists_of_mem_encode hmem
  exact isDigit_of_toLower hv hlower

/-- The digits of some code are read as this code, in whatever case each of them is. -/
theorem decode_of_toLower {text code : Bytes}
    (h : (stripMark text).map Bytes.toLower = Hex.encode code) : decode text = .ok code := by
  have hlength : (stripMark text).length = 2 * code.length := by
    rw [← length_encode, ← h, List.length_map]
  obtain ⟨code', hcode'⟩ := exists_decode_iff.mpr ⟨by omega, forall_isDigit_of_toLower h⟩
  have hsame : Hex.encode code' = Hex.encode code := (encode_of_decode hcode').trans h
  rw [hcode', encode_injective hsame]

theorem stripMark_of_digits {digits : Bytes} (h : ∀ b ∈ digits, IsDigit b) :
    stripMark digits = digits := by
  have hlower : ¬ IsDigit 0x78 := by decide
  have hupper : ¬ IsDigit 0x58 := by decide
  rw [stripMark.eq_def]
  split
  · exact absurd (h 0x78 (by simp)) hlower
  · exact absurd (h 0x58 (by simp)) hupper
  · rfl

/-- The marks that may stand before the digits. -/
def marks : List Bytes :=
  ["", "0x", "0X"]

theorem decode_marked {mark digits code : Bytes} (hmark : mark ∈ marks)
    (h : digits.map Bytes.toLower = Hex.encode code) : decode (mark ++ digits) = .ok code := by
  apply decode_of_toLower
  simp only [marks, List.mem_cons, List.not_mem_nil, or_false] at hmark
  rcases hmark with rfl | rfl | rfl
  · show (stripMark digits).map Bytes.toLower = _
    rw [stripMark_of_digits (forall_isDigit_of_toLower h), h]
  · exact h
  · exact h

/-- A text is read exactly if there are, behind its mark, pairs of digits and nothing else. What is
read has the same digits in lower case, and each code is read from its digits in either case. An odd
length is what is wrong with a text before any character is; otherwise it is the first character
that is no digit. -/
theorem decode_digits (text : Bytes) :
    (∃ digits, Unmarked text digits ∧
      ((∃ code, decode text = .ok code) ↔ digits.length % 2 = 0 ∧ ∀ b ∈ digits, IsDigit b) ∧
      (∀ code, decode text = .ok code → Hex.encode code = digits.map Bytes.toLower) ∧
      ∀ e, decode text = .error e → FaultAt digits e.offset e.offending) ∧
    ∀ code, ∀ mark ∈ marks, decode (mark ++ Hex.encode code) = .ok code ∧
      decode (mark ++ (Hex.encode code).map toUpper) = .ok code := by
  refine ⟨⟨stripMark text, unmarked_stripMark text, exists_decode_iff, fun _ => encode_of_decode,
    fun _ => faultAt_of_decode⟩, ?_⟩
  intro code mark hmark
  refine ⟨decode_marked hmark (map_toLower_encode code), decode_marked hmark ?_⟩
  calc
    ((Hex.encode code).map toUpper).map Bytes.toLower = (Hex.encode code).map Bytes.toLower := by
      rw [List.map_map]
      exact List.map_congr_left fun b _ => toLower_toUpper b
    _ = Hex.encode code := map_toLower_encode code

/-- The fault is in the second digit of its pair, and what is shown begins with the first one. -/
example : decode "0X60Az" = .error (.notHex 3 'z'.toUInt8 "Az") := by
  rfl

end EvmSourceMap.Proofs.HexText
