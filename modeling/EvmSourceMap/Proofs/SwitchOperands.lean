import EvmSourceMap.CommandLine.Arguments
import EvmSourceMap.Proofs.DecimalSpelling
import Mathlib.Algebra.Group.Nat.Defs
import Mathlib.Data.List.Forall2
import Mathlib.Tactic.SplitIfs

/-!
The operand of a switch: which argument it is, when it counts as missing, and how it is read as an
integer.
-/

namespace EvmSourceMap.Proofs.SwitchOperands

open CommandLine
open Arguments
open Decimal
open DecimalSpelling

def IsCapital (b : UInt8) : Prop :=
  'A'.toUInt8 ≤ b ∧ b ≤ 'Z'.toUInt8

/-- Two bytes are one, or a capital letter and the small letter for it. -/
inductive SameLetter : UInt8 → UInt8 → Prop
  | same (b : UInt8) : SameLetter b b
  | small {b : UInt8} (h : IsCapital b) : SameLetter b (b + 0x20)
  | capital {b : UInt8} (h : IsCapital b) : SameLetter (b + 0x20) b

/-- Two texts are the same up to the case of their letters. -/
def SameUpToCase (s t : Bytes) : Prop :=
  List.Forall₂ SameLetter s t

/-- The arguments behind a switch, behind the first argument that is the switch. The name of the
program is none. -/
def Behind (arguments : Arguments) (switch : Bytes) (rest : List Bytes) : Prop :=
  ∃ program before found, arguments = program :: (before ++ found :: rest) ∧
    (∀ argument ∈ before, ¬ SameUpToCase switch argument) ∧ SameUpToCase switch found

/-- A text looks like a switch, or it is empty. -/
def IsNoOperand (text : Bytes) : Prop :=
  text = [] ∨ text.head? = some '-'.toUInt8

/-- What stands behind a switch as its operand. -/
inductive Operand (arguments : Arguments) (switch : Bytes) : Except UsageError (Option Bytes) → Prop
  | absent (h : ∀ argument ∈ arguments.drop 1, ¬ SameUpToCase switch argument) :
      Operand arguments switch (.ok none)
  | given {operand : Bytes} {rest : List Bytes} (hbehind : Behind arguments switch (operand :: rest))
      (hoperand : ¬ IsNoOperand operand) : Operand arguments switch (.ok (some operand))
  | last (hbehind : Behind arguments switch []) :
      Operand arguments switch (.error (.missingOperands switch ["value"]))
  | missing {other : Bytes} {rest : List Bytes} (hbehind : Behind arguments switch (other :: rest))
      (hother : IsNoOperand other) :
      Operand arguments switch (.error (.missingOperands switch ["value"]))

/-- A text spells an integer in digits, which may have a sign before them, and blanks before the
sign. -/
inductive SpellsLeniently : Bytes → Int → Prop
  | exact {s : Bytes} {n : Int} (h : Spells s n) : SpellsLeniently s n
  | plus {s : Bytes} (h : IsNumeral s) : SpellsLeniently ('+'.toUInt8 :: s) (digitsValue s)
  | blank {b : UInt8} {s : Bytes} {n : Int} (hb : Bytes.isBlank b = true)
      (h : SpellsLeniently s n) : SpellsLeniently (b :: s) n

/-- An operand as an integer of 64 bits. -/
inductive IntegerOperand (arguments : Arguments) (switch : Bytes) :
    Except UsageError (Option Int) → Prop
  | absent (h : Operand arguments switch (.ok none)) : IntegerOperand arguments switch (.ok none)
  | missing {e : UsageError} (h : Operand arguments switch (.error e)) :
      IntegerOperand arguments switch (.error e)
  | given {operand : Bytes} {n : Int} (h : Operand arguments switch (.ok (some operand)))
      (hn : SpellsLeniently operand n) (hlow : -2 ^ 63 ≤ n) (hhigh : n ≤ 2 ^ 63 - 1) :
      IntegerOperand arguments switch (.ok (some n))
  | notAnInteger {operand : Bytes} (h : Operand arguments switch (.ok (some operand)))
      (hnone : ∀ n, SpellsLeniently operand n → ¬ (-2 ^ 63 ≤ n ∧ n ≤ 2 ^ 63 - 1)) :
      IntegerOperand arguments switch (.error (.notAnInteger switch operand))

/-! ### Letters -/

theorem sameLetter_iff {a b : UInt8} :
    SameLetter a b ↔ a = b ∨ (IsCapital a ∧ b = a + 0x20) ∨ (IsCapital b ∧ a = b + 0x20) := by
  constructor
  · rintro (_ | h | h)
    · exact .inl rfl
    · exact .inr (.inl ⟨h, rfl⟩)
    · exact .inr (.inr ⟨h, rfl⟩)
  · rintro (rfl | ⟨h, rfl⟩ | ⟨h, rfl⟩)
    · exact .same a
    · exact .small h
    · exact .capital h

theorem toLower_eq_toLower_iff {a b : UInt8} :
    Bytes.toLower a = Bytes.toLower b ↔ SameLetter a b := by
  have hA : 'A'.toUInt8.toNat = 0x41 := rfl
  have hZ : 'Z'.toUInt8.toNat = 0x5a := rfl
  simp only [sameLetter_iff, IsCapital, Bytes.toLower, Bool.and_eq_true, decide_eq_true_eq]
  split_ifs <;>
    simp only [← UInt8.toNat_inj, UInt8.le_iff_toNat_le, UInt8.toNat_add, UInt8.reduceToNat, hA,
      hZ] at * <;>
    omega

theorem equalsIgnoringCase_iff {s t : Bytes} :
    Bytes.equalsIgnoringCase s t = true ↔ SameUpToCase s t := by
  rw [Bytes.equalsIgnoringCase, beq_iff_eq, ← List.forall₂_eq_eq_eq, List.forall₂_map_left_iff,
    List.forall₂_map_right_iff]
  simp only [toLower_eq_toLower_iff]
  rfl

theorem SameLetter.eq_hyphen {b : UInt8} (h : SameLetter '-'.toUInt8 b) : b = '-'.toUInt8 := by
  have hhyphen : Bytes.toLower b = '-'.toUInt8 := (toLower_eq_toLower_iff.mpr h).symm
  rw [Bytes.toLower] at hhyphen
  split at hhyphen
  · rename_i hcapital
    have hnat : '-'.toUInt8.toNat = 0x2d := rfl
    simp only [Bool.and_eq_true, decide_eq_true_eq, ← UInt8.toNat_inj, UInt8.le_iff_toNat_le,
      UInt8.toNat_add, UInt8.reduceToNat, hnat] at hhyphen hcapital
    omega
  · exact hhyphen

theorem SameUpToCase.isNoOperand {switch text : Bytes} (h : SameUpToCase switch text)
    (hswitch : switch.head? = some '-'.toUInt8) : IsNoOperand text := by
  obtain ⟨rest, rfl⟩ := List.head?_eq_some_iff.mp hswitch
  cases h with
  | cons hfirst _ => exact .inr (congrArg some hfirst.eq_hyphen)

/-! ### Numbers -/

theorem readSigned?_plus (s : Bytes) :
    readSigned? ('+'.toUInt8 :: s) = (readNat? s).map Int.ofNat := rfl

theorem readSigned?_of_ne {s : Bytes} (h : ∀ t, s ≠ '+'.toUInt8 :: t) :
    readSigned? s = readInt? s := by
  rw [readSigned?.eq_def]
  split
  · exact absurd rfl (h _)
  · rfl

theorem not_spells_plus {s : Bytes} {n : Int} : ¬ Spells ('+'.toUInt8 :: s) n := by
  generalize htext : '+'.toUInt8 :: s = text
  rintro (⟨-, hdigits⟩ | _)
  · subst htext
    exact absurd (hdigits _ List.mem_cons_self) (by decide)
  · exact absurd (List.cons.inj htext).1 (by decide)

theorem readSigned?_eq_some_iff {s : Bytes} {n : Int} :
    readSigned? s = some n ↔
      Spells s n ∨ ∃ t, s = '+'.toUInt8 :: t ∧ IsNumeral t ∧ (digitsValue t : Int) = n := by
  by_cases hplus : ∃ t, s = '+'.toUInt8 :: t
  · obtain ⟨t, rfl⟩ := hplus
    simp only [readSigned?_plus, Option.map_eq_some_iff, readNat?_eq_some_iff, not_spells_plus,
      false_or, List.cons.injEq, true_and, exists_eq_left']
    constructor
    · rintro ⟨_, ⟨hnumeral, rfl⟩, rfl⟩
      exact ⟨hnumeral, rfl⟩
    · rintro ⟨hnumeral, rfl⟩
      exact ⟨_, ⟨hnumeral, rfl⟩, rfl⟩
  · rw [readSigned?_of_ne (not_exists.mp hplus), readInt?_eq_some_iff]
    constructor
    · exact .inl
    · rintro (hspells | ⟨t, rfl, -⟩)
      · exact hspells
      · exact absurd ⟨t, rfl⟩ hplus

theorem not_isBlank_of_isDigit {b : UInt8} (h : isDigit b = true) : Bytes.isBlank b = false := by
  simp only [isDigit, Bytes.isBlank, Bool.and_eq_true, decide_eq_true_eq, Bool.or_eq_false_iff,
    Bool.and_eq_false_iff, beq_eq_false_iff_ne, decide_eq_false_iff_not, ne_eq, ← UInt8.toNat_inj,
    UInt8.le_iff_toNat_le, UInt8.reduceToNat] at *
  omega

theorem not_isBlank_of_spells {b : UInt8} {s : Bytes} {n : Int} (h : Spells (b :: s) n) :
    Bytes.isBlank b = false := by
  cases h with
  | unsigned hnumeral => exact not_isBlank_of_isDigit (hnumeral.2 b List.mem_cons_self)
  | negated => rfl

theorem not_isBlank_of_readSigned? {b : UInt8} {s : Bytes} {n : Int}
    (h : readSigned? (b :: s) = some n) : Bytes.isBlank b = false := by
  rcases readSigned?_eq_some_iff.mp h with hspells | ⟨t, ht, -⟩
  · exact not_isBlank_of_spells hspells
  · rw [(List.cons.inj ht).1]
    rfl

theorem readSigned?_dropWhile_iff {s : Bytes} {n : Int} :
    readSigned? (s.dropWhile Bytes.isBlank) = some n ↔ SpellsLeniently s n := by
  constructor
  · intro h
    induction s with
    | nil => cases h
    | cons b s ih =>
        by_cases hb : Bytes.isBlank b = true
        · rw [List.dropWhile_cons_of_pos hb] at h
          exact .blank hb (ih h)
        · rw [List.dropWhile_cons_of_neg hb] at h
          rcases readSigned?_eq_some_iff.mp h with hspells | ⟨t, ht, hnumeral, rfl⟩
          · exact .exact hspells
          · rw [ht]
            exact .plus hnumeral
  · -- What is read begins with a sign or a digit, so that nothing is dropped before it.
    have hread : ∀ {s : Bytes}, readSigned? s = some n →
        readSigned? (s.dropWhile Bytes.isBlank) = some n := by
      intro s hs
      cases s with
      | nil => exact hs
      | cons b s =>
          rw [List.dropWhile_cons_of_neg (by simp [not_isBlank_of_readSigned? hs])]
          exact hs
    intro h
    induction h with
    | exact hspells => exact hread (readSigned?_eq_some_iff.mpr (.inl hspells))
    | plus hnumeral => exact hread (readSigned?_eq_some_iff.mpr (.inr ⟨_, rfl, hnumeral, rfl⟩))
    | blank hb _ ih =>
        rw [List.dropWhile_cons_of_pos hb]
        exact ih hread

theorem readLenient?_eq_some_iff {s : Bytes} {n : Int} :
    readLenient? s = some n ↔ SpellsLeniently s n ∧ -2 ^ 63 ≤ n ∧ n ≤ 2 ^ 63 - 1 := by
  rw [readLenient?, Option.filter_eq_some_iff, readSigned?_dropWhile_iff, decide_eq_true_eq]
  rfl

/-! ### Operands -/

theorem text?_eq (arguments : Arguments) (switch : Bytes) :
    arguments.text? switch =
      match arguments.position? switch with
      | none => .ok none
      | some position =>
        if arguments[position + 1]?.any isOperand then .ok arguments[position + 1]?
        else .error (.missingOperands switch ["value"]) := by
  rw [Arguments.text?, Arguments.check]
  cases arguments.position? switch with
  | none => rfl
  | some position =>
      dsimp only
      rw [show [Bytes.ofString "value"].length = 1 from rfl, List.take_one, List.head?_drop]
      cases hargument : arguments[position + 1]? with
      | none => rfl
      | some argument =>
          by_cases hoperand : isOperand argument = true
          · rw [if_pos (by simpa using hoperand), if_pos (by simpa using hoperand)]
            exact congrArg Except.ok hargument
          · rw [if_neg (by simpa using hoperand), if_neg (by simpa using hoperand)]
            rfl

section

variable {arguments : Arguments} {switch : Bytes}

theorem position?_eq_none_iff :
    arguments.position? switch = none ↔
      ∀ argument ∈ arguments.drop 1, ¬ SameUpToCase switch argument := by
  simp only [Arguments.position?, Option.map_eq_none_iff, List.findIdx?_eq_none_iff,
    ← equalsIgnoringCase_iff, Bool.not_eq_true]

theorem getElem?_of_behind {rest : List Bytes} (h : Behind arguments switch rest) :
    ∃ position, arguments.position? switch = some position ∧
      arguments[position + 1]? = rest.head? := by
  obtain ⟨program, before, found, rfl, hbefore, hfound⟩ := h
  simp only [← equalsIgnoringCase_iff, Bool.not_eq_true] at hbefore hfound
  -- The program's name is not searched, but it is counted.
  refine ⟨before.length + 1, ?_, ?_⟩
  · rw [Arguments.position?, List.drop_one, List.tail_cons, List.findIdx?_append,
      List.findIdx?_eq_none_iff.mpr hbefore, List.findIdx?_cons, hfound]
    simp
  · simp [List.head?_eq_getElem?, List.getElem?_append_right]

theorem absent_or_behind (arguments : Arguments) (switch : Bytes) :
    (∀ argument ∈ arguments.drop 1, ¬ SameUpToCase switch argument) ∨
      ∃ rest, Behind arguments switch rest := by
  cases arguments with
  | nil => exact .inl nofun
  | cons program arguments =>
      cases hfind : arguments.find? (Bytes.equalsIgnoringCase switch) with
      | none =>
          left
          intro argument hmem
          rw [← equalsIgnoringCase_iff]
          exact List.find?_eq_none.mp hfind argument hmem
      | some found =>
          right
          obtain ⟨hfound, before, rest, rfl, hbefore⟩ := List.find?_eq_some_iff_append.mp hfind
          refine ⟨rest, program, before, found, rfl, fun argument hmem => ?_, ?_⟩
          · rw [← equalsIgnoringCase_iff]
            simpa using hbefore argument hmem
          · exact equalsIgnoringCase_iff.mp hfound

theorem isOperand_iff {text : Bytes} : isOperand text = true ↔ ¬ IsNoOperand text := by
  cases text with
  | nil => simp [Arguments.isOperand, IsNoOperand]
  | cons b text => simp [Arguments.isOperand, IsNoOperand]

theorem text?_of_behind {rest : List Bytes} (h : Behind arguments switch rest) :
    arguments.text? switch =
      if rest.head?.any isOperand then .ok rest.head?
      else .error (.missingOperands switch ["value"]) := by
  obtain ⟨position, hposition, hrest⟩ := getElem?_of_behind h
  rw [text?_eq, hposition]
  dsimp only
  rw [hrest]

theorem operand_text? (arguments : Arguments) (switch : Bytes) :
    Operand arguments switch (arguments.text? switch) := by
  rcases absent_or_behind arguments switch with habsent | ⟨rest, hbehind⟩
  · rw [text?_eq, position?_eq_none_iff.mpr habsent]
    exact .absent habsent
  · rw [text?_of_behind hbehind]
    cases rest with
    | nil => exact .last hbehind
    | cons operand rest =>
        by_cases hoperand : isOperand operand = true
        · rw [if_pos (by simpa using hoperand)]
          exact .given hbehind (isOperand_iff.mp hoperand)
        · rw [if_neg (by simpa using hoperand)]
          exact .missing hbehind (not_not.mp (mt isOperand_iff.mpr hoperand))

theorem text?_of_operand {r : Except UsageError (Option Bytes)} (h : Operand arguments switch r) :
    arguments.text? switch = r := by
  cases h with
  | absent habsent => rw [text?_eq, position?_eq_none_iff.mpr habsent]
  | given hbehind hoperand =>
      rw [text?_of_behind hbehind]
      exact if_pos (isOperand_iff.mpr hoperand)
  | last hbehind => rw [text?_of_behind hbehind, if_neg (by simp)]
  | missing hbehind hother =>
      rw [text?_of_behind hbehind, if_neg]
      exact fun hoperand => isOperand_iff.mp hoperand hother

theorem text?_eq_iff {r : Except UsageError (Option Bytes)} :
    arguments.text? switch = r ↔ Operand arguments switch r := by
  constructor
  · rintro rfl
    exact operand_text? arguments switch
  · exact text?_of_operand

theorem integer?_eq (arguments : Arguments) (switch : Bytes) :
    arguments.integer? switch =
      match arguments.text? switch with
      | .error e => .error e
      | .ok none => .ok none
      | .ok (some text) =>
        match readLenient? text with
        | some n => .ok (some n)
        | none => .error (.notAnInteger switch text) := by
  rw [Arguments.integer?]
  cases arguments.text? switch with
  | error e => rfl
  | ok operand =>
      cases operand with
      | none => rfl
      | some text =>
          change (readInteger switch text).map some = _
          rw [readInteger]
          dsimp only
          cases readLenient? text <;> rfl

theorem integer?_eq_iff {r : Except UsageError (Option Int)} :
    arguments.integer? switch = r ↔ IntegerOperand arguments switch r := by
  rw [integer?_eq]
  constructor
  · rintro rfl
    cases htext : arguments.text? switch with
    | error e => exact .missing (text?_eq_iff.mp htext)
    | ok operand =>
        cases operand with
        | none => exact .absent (text?_eq_iff.mp htext)
        | some text =>
            have hgiven := text?_eq_iff.mp htext
            dsimp only
            cases hread : readLenient? text with
            | some n =>
                obtain ⟨hspells, hlow, hhigh⟩ := readLenient?_eq_some_iff.mp hread
                exact .given hgiven hspells hlow hhigh
            | none =>
                refine .notAnInteger hgiven fun n hspells hfits => ?_
                rw [readLenient?_eq_some_iff.mpr ⟨hspells, hfits⟩] at hread
                cases hread
  · rintro (hoperand | hoperand | ⟨hoperand, hspells, hlow, hhigh⟩ | ⟨hoperand, hnone⟩)
    · rw [text?_eq_iff.mpr hoperand]
    · rw [text?_eq_iff.mpr hoperand]
    · rw [text?_eq_iff.mpr hoperand]
      dsimp only
      rw [readLenient?_eq_some_iff.mpr ⟨hspells, hlow, hhigh⟩]
    · rw [text?_eq_iff.mpr hoperand]
      dsimp only
      rename_i operand
      cases hread : readLenient? operand with
      | none => rfl
      | some n =>
          obtain ⟨hspells, hfits⟩ := readLenient?_eq_some_iff.mp hread
          exact absurd hfits (hnone n hspells)

theorem not_isNoOperand_ofNat (n : Nat) : ¬ IsNoOperand (ofNat n) := by
  obtain ⟨hne, hdigits⟩ := isNumeral_ofNat n
  rintro (hempty | hhyphen)
  · exact hne hempty
  · have hhyphen : isDigit '-'.toUInt8 = true := hdigits _ (List.mem_of_mem_head? hhyphen)
    revert hhyphen
    decide

end

/-- What is read for a switch follows from the first argument that is the switch, and from the one
behind it. -/
theorem operand_of_switch (arguments : Arguments) (switch : Bytes) :
    (∀ r, arguments.text? switch = r ↔ Operand arguments switch r) ∧
    (∀ r, arguments.integer? switch = r ↔ IntegerOperand arguments switch r) ∧
    ∀ n : Nat, n ≤ 2 ^ 63 - 1 → ∀ rest, Behind arguments switch (ofNat n :: rest) →
      arguments.integer? switch = .ok (some (n : Int)) := by
  refine ⟨fun r => text?_eq_iff, fun r => integer?_eq_iff, fun n hn rest hbehind => ?_⟩
  have hoperand := Operand.given hbehind (not_isNoOperand_ofNat n)
  exact integer?_eq_iff.mpr (.given hoperand (.exact (spells_ofNat n)) (by omega) (by omega))

/-- The first of two switches counts, in whatever case. Its operand begins with a blank, so that it
may be a negative number; the greatest number is read as it is. -/
theorem operand_of_switch_lenient :
    let arguments (operand : Bytes) : Arguments :=
      ["-threads", "x", "-THREADS", operand, "-threads", "7"]
    let greatest : Nat := 2 ^ 63 - 1
    Operand (arguments " -5") "-threads" (.ok (some " -5")) ∧
      IntegerOperand (arguments " -5") "-threads" (.ok (some (-5))) ∧
      Operand (arguments "-5") "-threads" (.error (.missingOperands "-threads" ["value"])) ∧
      greatest ≤ 2 ^ 63 - 1 ∧ Behind (arguments (ofNat greatest)) "-threads"
        [ofNat greatest, "-threads", "7"] ∧
      (arguments (ofNat greatest)).integer? "-threads" = .ok (some (2 ^ 63 - 1)) := by
  intro arguments greatest
  have hbehind : ∀ operand, Behind (arguments operand) "-threads" [operand, "-threads", "7"] := by
    intro operand
    refine ⟨"-threads", ["x"], "-THREADS", rfl, ?_, equalsIgnoringCase_iff.mp rfl⟩
    intro argument hmem
    rw [List.mem_singleton.mp hmem, ← equalsIgnoringCase_iff]
    decide
  obtain ⟨htext, hinteger, -⟩ := operand_of_switch (arguments " -5") "-threads"
  obtain ⟨hother, -, -⟩ := operand_of_switch (arguments "-5") "-threads"
  obtain ⟨-, -, hdecimal⟩ := operand_of_switch (arguments (ofNat greatest)) "-threads"
  exact ⟨(htext _).mp rfl, (hinteger _).mp rfl, (hother _).mp rfl, Nat.le_refl _, hbehind _,
    hdecimal greatest (Nat.le_refl _) _ (hbehind _)⟩

end EvmSourceMap.Proofs.SwitchOperands
