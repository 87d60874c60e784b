import EvmSourceMap.Proofs.DecimalSpelling
import EvmSourceMap.Proofs.SourceMapDecoding
import Mathlib.Data.List.TakeWhile

/-!
What a segment of a source map may be, and what it says: the grammar of its
fields, and the values that it writes to them.
-/

namespace EvmSourceMap.Proofs.SegmentGrammar

open SourceMap
open DecimalSpelling
open ExceptInversion
open SourceMapDecoding

/-- There is nothing but blanks, or nothing at all. -/
def Blank (text : Bytes) : Prop :=
  ∀ b ∈ text, Bytes.isBlank b = true

theorem forall_mem_dropWhile_iff {p : UInt8 → Bool} {s : Bytes} :
    (∀ b ∈ s.dropWhile p, p b = true) ↔ ∀ b ∈ s, p b = true := by
  constructor
  · intro h b hb
    rw [← List.takeWhile_append_dropWhile (p := p) (l := s)] at hb
    rcases List.mem_append.mp hb with hb | hb
    · exact List.mem_takeWhile_imp hb
    · exact h b hb
  · intro h b hb
    exact h b ((List.dropWhile_sublist p).mem hb)

theorem isBlank_iff {text : Bytes} : Segment.isBlank text = true ↔ Blank text := by
  rw [Segment.isBlank, List.isEmpty_iff, Bytes.trim, List.reverse_eq_nil_iff,
    List.dropWhile_eq_nil_iff]
  simp only [List.mem_reverse]
  exact forall_mem_dropWhile_iff

/-- Where a field stands in a segment. -/
def position : Field → Nat
  | .start => 0
  | .length => 1
  | .fileIndex => 2
  | .jump => 3
  | .modifierDepth => 4

/-- A segment that is not blank writes to the fields for which it has a text. -/
def Writes (segment : Bytes) (field : Field) (text : Bytes) : Prop :=
  ¬ Blank segment ∧ (Bytes.split ':'.toUInt8 segment)[position field]? = some text ∧ text ≠ []

theorem Writes.unique {segment text text' : Bytes} {field : Field}
    (h : Writes segment field text) (h' : Writes segment field text') : text = text' :=
  Option.some.inj (h.2.1.symm.trans h'.2.1)

/-- The value that a segment gives to a field, if it gives one. -/
def Sets {α : Type} (spells : Bytes → α → Prop) (segment : Bytes) (field : Field) :
    Option α → Prop
  | some value => ∃ text, Writes segment field text ∧ spells text value
  | none => ∀ text, ¬ Writes segment field text

def SpellsInt32 (text : Bytes) (value : Int32) : Prop :=
  Spells text value.toInt

def SpellsJump (text : Bytes) (jump : Jump) : Prop :=
  text = [jump.symbol]

theorem readJump?_eq_some_iff {text : Bytes} {jump : Jump} :
    readJump? text = some jump ↔ SpellsJump text jump := by
  constructor
  · intro h
    rw [readJump?.eq_def] at h
    split at h
    · have hsymbol := List.find?_some h
      rw [beq_iff_eq] at hsymbol
      rw [SpellsJump, hsymbol]
    · cases h
  · rintro rfl
    cases jump <;> rfl

/-- The text at the place of a field, which is empty where the segment ends
before it. -/
def fieldText (segment : Bytes) (field : Field) : Bytes :=
  (Bytes.split ':'.toUInt8 segment).getD (position field) []

theorem writes_iff {segment text : Bytes} {field : Field} (hblank : ¬ Blank segment) :
    Writes segment field text ↔ fieldText segment field = text ∧ text ≠ [] := by
  rw [Writes, fieldText, List.getD_eq_getElem?_getD]
  constructor
  · rintro ⟨-, hfield, hne⟩
    rw [hfield]
    exact ⟨rfl, hne⟩
  · rintro ⟨hfield, hne⟩
    refine ⟨hblank, ?_, hne⟩
    cases hget : (Bytes.split ':'.toUInt8 segment)[position field]? with
    | none =>
        rw [hget] at hfield
        exact absurd hfield.symm hne
    | some text' =>
        rw [hget] at hfield
        exact congrArg some hfield

theorem readField_eq_ok_iff {α : Type} {read? : Bytes → Option α} {spells : Bytes → α → Prop}
    (hread : ∀ text value, read? text = some value ↔ spells text value)
    {segment : Bytes} (hblank : ¬ Blank segment) {field : Field} {value : Option α} :
    readField read? field (fieldText segment field) = .ok value ↔
      Sets spells segment field value := by
  rw [readField]
  by_cases hempty : fieldText segment field = []
  · have hnone : ∀ text, ¬ Writes segment field text := by
      intro text hwrites
      obtain ⟨htext, hne⟩ := (writes_iff hblank).mp hwrites
      exact hne (htext ▸ hempty)
    rw [hempty]
    cases value with
    | none => exact iff_of_true rfl hnone
    | some value =>
        refine iff_of_false (by simp) ?_
        rintro ⟨text, hwrites, -⟩
        exact hnone text hwrites
  · have hwrites : Writes segment field (fieldText segment field) :=
      (writes_iff hblank).mpr ⟨rfl, hempty⟩
    rw [if_neg (by simpa using hempty)]
    cases value with
    | none =>
        refine iff_of_false ?_ fun hnone => hnone _ hwrites
        cases read? (fieldText segment field) <;> simp
    | some value =>
        have hsome : Sets spells segment field (some value) ↔
            spells (fieldText segment field) value := by
          constructor
          · rintro ⟨text, htext, hspells⟩
            exact hwrites.unique htext ▸ hspells
          · exact fun hspells => ⟨_, hwrites, hspells⟩
        rw [hsome, ← hread]
        cases read? (fieldText segment field) <;> simp

/-- What a segment says, field by field. -/
structure Says (text : Bytes) (segment : Segment) : Prop where
  start : Sets SpellsInt32 text .start segment.start
  length : Sets SpellsInt32 text .length segment.length
  fileIndex : Sets SpellsInt32 text .fileIndex segment.fileIndex
  jump : Sets SpellsJump text .jump segment.jump
  modifierDepth : Sets SpellsInt32 text .modifierDepth segment.modifierDepth

theorem sets_of_blank {α : Type} {spells : Bytes → α → Prop} {text : Bytes}
    (hblank : Blank text) {field : Field} {value : Option α} :
    Sets spells text field value ↔ value = none := by
  cases value with
  | none => exact iff_of_true (fun _ hwrites => hwrites.1 hblank) rfl
  | some value =>
      refine iff_of_false ?_ (by simp)
      rintro ⟨_, hwrites, -⟩
      exact hwrites.1 hblank

theorem says_of_blank {text : Bytes} (hblank : Blank text) {segment : Segment} :
    Says text segment ↔ segment = {} := by
  constructor
  · intro h
    cases segment
    simp only [Segment.mk.injEq]
    exact ⟨(sets_of_blank hblank).mp h.start, (sets_of_blank hblank).mp h.length,
      (sets_of_blank hblank).mp h.fileIndex, (sets_of_blank hblank).mp h.jump,
      (sets_of_blank hblank).mp h.modifierDepth⟩
  · rintro rfl
    constructor <;> exact (sets_of_blank hblank).mpr rfl

/-- Reads the fields of a segment one after the other. -/
def readFields (text : Bytes) : Except Fault Segment := do
  let start ← readField Decimal.readInt32? .start (fieldText text .start)
  let length ← readField Decimal.readInt32? .length (fieldText text .length)
  let fileIndex ← readField Decimal.readInt32? .fileIndex (fieldText text .fileIndex)
  let jump ← readField readJump? .jump (fieldText text .jump)
  let modifierDepth ← readField Decimal.readInt32? .modifierDepth (fieldText text .modifierDepth)
  return { start, length, fileIndex, jump, modifierDepth }

theorem read_of_blank {text : Bytes} (hblank : Blank text) : Segment.read text = .ok {} := by
  rw [Segment.read, if_pos (isBlank_iff.mpr hblank)]
  rfl

theorem read_of_tooManyFields {text : Bytes} (hblank : ¬ Blank text)
    (hcount : maxFields < (Bytes.split ':'.toUInt8 text).length) :
    Segment.read text = .error (.tooManyFields (Bytes.split ':'.toUInt8 text).length) := by
  rw [Segment.read, if_neg (mt isBlank_iff.mp hblank)]
  dsimp only
  rw [if_pos hcount]
  rfl

theorem read_of_fields {text : Bytes} (hblank : ¬ Blank text)
    (hcount : ¬ maxFields < (Bytes.split ':'.toUInt8 text).length) :
    Segment.read text = readFields text := by
  rw [Segment.read, if_neg (mt isBlank_iff.mp hblank)]
  dsimp only
  rw [if_neg hcount]
  rfl

theorem readFields_eq_ok_iff {text : Bytes} (hblank : ¬ Blank text) {segment : Segment} :
    readFields text = .ok segment ↔ Says text segment := by
  have hnumber : ∀ text value, Decimal.readInt32? text = some value ↔ SpellsInt32 text value :=
    fun _ _ => readInt32?_eq_some_iff
  have hjump : ∀ text jump, readJump? text = some jump ↔ SpellsJump text jump :=
    fun _ _ => readJump?_eq_some_iff
  simp only [readFields, bind_eq_ok_iff, readField_eq_ok_iff hnumber hblank,
    readField_eq_ok_iff hjump hblank]
  constructor
  · rintro ⟨start, hstart, length, hlength, fileIndex, hfile, jump, hjump, depth, hdepth, h⟩
    cases h
    exact ⟨hstart, hlength, hfile, hjump, hdepth⟩
  · rintro ⟨hstart, hlength, hfile, hjump, hdepth⟩
    exact ⟨_, hstart, _, hlength, _, hfile, _, hjump, _, hdepth, rfl⟩

/-- A segment is read as what it says, unless it has too many fields. -/
theorem read_eq_ok_iff {text : Bytes} {segment : Segment} :
    Segment.read text = .ok segment ↔
      (Blank text ∨ (Bytes.split ':'.toUInt8 text).length ≤ maxFields) ∧ Says text segment := by
  by_cases hblank : Blank text
  · rw [read_of_blank hblank, says_of_blank hblank, Except.ok.injEq]
    simp only [hblank, true_or, true_and]
    exact eq_comm
  · by_cases hcount : maxFields < (Bytes.split ':'.toUInt8 text).length
    · rw [read_of_tooManyFields hblank hcount]
      simp [hblank, Nat.not_le.mpr hcount]
    · rw [read_of_fields hblank hcount, readFields_eq_ok_iff hblank]
      simp [Nat.not_lt.mp hcount]

theorem exists_sets_iff {α : Type} {spells : Bytes → α → Prop} {segment : Bytes} {field : Field} :
    (∃ value, Sets spells segment field value) ↔
      ∀ text, Writes segment field text → ∃ value, spells text value := by
  constructor
  · rintro ⟨value, hsets⟩ text hwrites
    cases value with
    | none => exact absurd hwrites (hsets text)
    | some value =>
        obtain ⟨text', hwrites', hspells⟩ := hsets
        exact ⟨value, hwrites'.unique hwrites ▸ hspells⟩
  · intro h
    by_cases hwritten : ∃ text, Writes segment field text
    · obtain ⟨text, hwrites⟩ := hwritten
      obtain ⟨value, hspells⟩ := h text hwrites
      exact ⟨some value, text, hwrites, hspells⟩
    · exact ⟨none, not_exists.mp hwritten⟩

/-- The texts that a field may have, apart from none. -/
def FieldGrammar : Field → Bytes → Prop
  | .jump, text => text = "i" ∨ text = "o" ∨ text = "-"
  | _, text => ∃ n, Spells text n ∧ -2 ^ 31 ≤ n ∧ n ≤ 2 ^ 31 - 1

theorem exists_sets_number_iff {segment : Bytes} {field : Field} (hfield : field ≠ .jump) :
    (∃ value, Sets SpellsInt32 segment field value) ↔
      ∀ text, Writes segment field text → FieldGrammar field text := by
  have hgrammar : ∀ text, FieldGrammar field text ↔ ∃ value, SpellsInt32 text value := by
    intro text
    calc
      FieldGrammar field text ↔ ∃ n, Spells text n ∧ -2 ^ 31 ≤ n ∧ n ≤ 2 ^ 31 - 1 := by
        cases field <;> first | rfl | exact absurd rfl hfield
      _ ↔ ∃ value, Decimal.readInt32? text = some value := exists_readInt32?_iff.symm
      _ ↔ ∃ value, SpellsInt32 text value := exists_congr fun _ => readInt32?_eq_some_iff
  simp only [exists_sets_iff, hgrammar]

theorem exists_sets_jump_iff {segment : Bytes} :
    (∃ jump, Sets SpellsJump segment .jump jump) ↔
      ∀ text, Writes segment .jump text → FieldGrammar .jump text := by
  have hgrammar : ∀ text, FieldGrammar .jump text ↔ ∃ jump, SpellsJump text jump := by
    intro text
    constructor
    · rintro (rfl | rfl | rfl)
      · exact ⟨.into, rfl⟩
      · exact ⟨.out, rfl⟩
      · exact ⟨.regular, rfl⟩
    · rintro ⟨jump, rfl⟩
      cases jump with
      | regular => exact .inr (.inr rfl)
      | into => exact .inl rfl
      | out => exact .inr (.inl rfl)
  simp only [exists_sets_iff, hgrammar]

theorem exists_says_iff {text : Bytes} :
    (∃ segment, Says text segment) ↔
      ∀ field fieldText, Writes text field fieldText → FieldGrammar field fieldText := by
  constructor
  · rintro ⟨segment, h⟩ field
    cases field with
    | start => exact (exists_sets_number_iff (by decide)).mp ⟨_, h.start⟩
    | length => exact (exists_sets_number_iff (by decide)).mp ⟨_, h.length⟩
    | fileIndex => exact (exists_sets_number_iff (by decide)).mp ⟨_, h.fileIndex⟩
    | jump => exact exists_sets_jump_iff.mp ⟨_, h.jump⟩
    | modifierDepth => exact (exists_sets_number_iff (by decide)).mp ⟨_, h.modifierDepth⟩
  · intro h
    obtain ⟨start, hstart⟩ := (exists_sets_number_iff (by decide)).mpr (h .start)
    obtain ⟨length, hlength⟩ := (exists_sets_number_iff (by decide)).mpr (h .length)
    obtain ⟨fileIndex, hfile⟩ := (exists_sets_number_iff (by decide)).mpr (h .fileIndex)
    obtain ⟨jump, hjump⟩ := exists_sets_jump_iff.mpr (h .jump)
    obtain ⟨depth, hdepth⟩ := (exists_sets_number_iff (by decide)).mpr (h .modifierDepth)
    exact ⟨⟨start, length, fileIndex, jump, depth⟩, hstart, hlength, hfile, hjump, hdepth⟩

/-- A segment may be blank. Otherwise it has at most five fields, each of which
is empty or in the grammar for its place. -/
def WellFormed (segment : Bytes) : Prop :=
  Blank segment ∨ (Bytes.split ':'.toUInt8 segment).length ≤ 5 ∧
    ∀ field text, (Bytes.split ':'.toUInt8 segment)[position field]? = some text →
      text = [] ∨ FieldGrammar field text

theorem exists_read_iff {text : Bytes} :
    (∃ segment, Segment.read text = .ok segment) ↔ WellFormed text := by
  simp only [read_eq_ok_iff, exists_and_left, exists_says_iff]
  by_cases hblank : Blank text
  · refine iff_of_true ⟨.inl hblank, ?_⟩ (.inl hblank)
    intro field fieldText hwrites
    exact absurd hblank hwrites.1
  · simp only [WellFormed, hblank, false_or, maxFields]
    refine and_congr_right fun _ => forall_congr' fun field => forall_congr' fun fieldText => ?_
    constructor
    · intro h hget
      by_cases hempty : fieldText = []
      · exact .inl hempty
      · exact .inr (h ⟨hblank, hget, hempty⟩)
    · rintro h ⟨-, hget, hne⟩
      exact (h hget).resolve_left hne

/-- The texts of source maps: those of an absent map, and those whose segments
are all well formed. -/
def InGrammar (text : Bytes) : Prop :=
  text = [] ∨ text = "null" ∨ ∀ segment ∈ Bytes.split ';'.toUInt8 text, WellFormed segment

/-- The segment is the first one that keeps a text from being a source map. -/
def FirstViolation (text : Bytes) (index : Nat) (segment : Bytes) : Prop :=
  text ≠ [] ∧ text ≠ "null" ∧ (Bytes.split ';'.toUInt8 text)[index]? = some segment ∧
    ¬ WellFormed segment ∧
    ∀ j < index, ∀ earlier, (Bytes.split ';'.toUInt8 text)[j]? = some earlier → WellFormed earlier

theorem FirstViolation.unique {text segment segment' : Bytes} {i j : Nat}
    (h : FirstViolation text i segment) (h' : FirstViolation text j segment') :
    i = j ∧ segment = segment' := by
  obtain ⟨-, -, hget, hbad, hearlier⟩ := h
  obtain ⟨-, -, hget', hbad', hearlier'⟩ := h'
  have hij : i = j := by
    rcases Nat.lt_trichotomy i j with hlt | heq | hgt
    · exact absurd (hearlier' i hlt segment hget) hbad
    · exact heq
    · exact absurd (hearlier j hgt segment' hget') hbad'
  subst hij
  exact ⟨rfl, Option.some.inj (hget.symm.trans hget')⟩

theorem FirstViolation.not_inGrammar {text segment : Bytes} {i : Nat}
    (h : FirstViolation text i segment) : ¬ InGrammar text := by
  obtain ⟨hne, hnull, hget, hbad, -⟩ := h
  rintro (hempty | hnull' | hall)
  · exact hne hempty
  · exact hnull hnull'
  · exact hbad (hall segment (List.mem_of_getElem? hget))

theorem segments_of_ne {text : Bytes} (hne : text ≠ []) (hnull : text ≠ "null") :
    segments text = Bytes.split ';'.toUInt8 text := by
  rw [segments, if_neg]
  rintro (h | h)
  · exact hne h
  · exact hnull h

theorem forall_segments_iff {text : Bytes} :
    (∀ segment ∈ segments text, WellFormed segment) ↔ InGrammar text := by
  by_cases hempty : text = []
  · exact iff_of_true (by simp [segments, hempty]) (.inl hempty)
  · by_cases hnull : text = "null"
    · exact iff_of_true (by simp [segments, hnull]) (.inr (.inl hnull))
    · rw [segments_of_ne hempty hnull, InGrammar]
      simp only [hempty, hnull, false_or]

theorem firstViolation_of_decode {text : Bytes} {e : Error} (h : decode text = .error e) :
    FirstViolation text e.index e.segment := by
  obtain ⟨hget, hbad, hearlier⟩ := decode_eq_error h
  have hrejected : ¬ InGrammar text := by
    rw [← forall_segments_iff]
    intro hall
    obtain ⟨read, hread⟩ := exists_read_iff.mpr (hall e.segment (List.mem_of_getElem? hget))
    exact hbad read hread
  have hne : text ≠ [] := fun hempty => hrejected (.inl hempty)
  have hnull : text ≠ "null" := fun hnull => hrejected (.inr (.inl hnull))
  rw [segments_of_ne hne hnull] at hget hearlier
  refine ⟨hne, hnull, hget, ?_, ?_⟩
  · intro hwell
    obtain ⟨read, hread⟩ := exists_read_iff.mpr hwell
    exact hbad read hread
  · intro j hj earlier hearlierGet
    exact exists_read_iff.mp (hearlier j hj earlier hearlierGet)

/-- A text is decoded if and only if it is in the grammar, and the error for any
other text names the first segment that is not. -/
theorem decode_inGrammar (text : Bytes) :
    ((∃ rows, decode text = .ok rows) ↔ InGrammar text) ∧
      ∀ index segment, (∃ fault, decode text = .error ⟨index, segment, fault⟩) ↔
        FirstViolation text index segment := by
  have haccepts : (∃ rows, decode text = .ok rows) ↔ InGrammar text := by
    rw [exists_decode_iff, ← forall_segments_iff]
    simp only [exists_read_iff]
  refine ⟨haccepts, fun index segment => ⟨?_, ?_⟩⟩
  · rintro ⟨fault, h⟩
    exact firstViolation_of_decode h
  · intro hviolation
    cases hdecode : decode text with
    | ok rows => exact absurd (haccepts.mp ⟨rows, hdecode⟩) hviolation.not_inGrammar
    | error e =>
        obtain ⟨rfl, rfl⟩ := hviolation.unique (firstViolation_of_decode hdecode)
        exact ⟨e.fault, rfl⟩

end EvmSourceMap.Proofs.SegmentGrammar
