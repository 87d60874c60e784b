import EvmSourceMap.Proofs.SegmentGrammar
import EvmSourceMap.Proofs.TextSplitting

/-!
The texts that a compiler may write for a list of elements. A field need not
be written again while its value stays the same, so one list has many texts.
-/

namespace EvmSourceMap.Proofs.DeltaEncoding

open SourceMap
open DecimalSpelling
open SegmentGrammar
open SourceMapDecoding
open TextSplitting

/-- A field shows its value, or nothing where the value is still the one
before. -/
def Shows {α : Type} (spelling : α → Bytes) (before value : α) (text : Bytes) : Prop :=
  text = spelling value ∨ text = [] ∧ value = before

def numberText (value : Int32) : Bytes :=
  Decimal.ofInt value.toInt

def jumpText (jump : Jump) : Bytes :=
  [jump.symbol]

/-- The five fields for an element that follows another one. -/
inductive FieldsOf (before e : Element) : List Bytes → Prop
  | mk {start length fileIndex jump modifierDepth : Bytes}
      (hstart : Shows numberText before.start e.start start)
      (hlength : Shows numberText before.length e.length length)
      (hfileIndex : Shows numberText before.fileIndex e.fileIndex fileIndex)
      (hjump : Shows jumpText before.jump e.jump jump)
      (hmodifierDepth : Shows numberText before.modifierDepth e.modifierDepth modifierDepth) :
      FieldsOf before e [start, length, fileIndex, jump, modifierDepth]

/-- A segment lists the fields with colons between them. Empty fields at its end
may be dropped together with their colons. -/
def SegmentOf (before e : Element) (text : Bytes) : Prop :=
  ∃ kept dropped, FieldsOf before e (kept ++ List.replicate dropped []) ∧
    text = [':'.toUInt8].intercalate kept

/-- The segments of a list of elements, each of which follows the one before. -/
inductive SegmentsOf : Element → List Element → List Bytes → Prop
  | nil (before : Element) : SegmentsOf before [] []
  | cons {before e : Element} {es : List Element} {text : Bytes} {texts : List Bytes}
      (hsegment : SegmentOf before e text) (hrest : SegmentsOf e es texts) :
      SegmentsOf before (e :: es) (text :: texts)

/-- A text without delimiters and blanks. -/
def Plain (text : Bytes) : Prop :=
  ∀ b ∈ text, b ≠ ':'.toUInt8 ∧ b ≠ ';'.toUInt8 ∧ Bytes.isBlank b = false

theorem plain_nil : Plain [] := by
  intro b hb
  cases hb

theorem plain_of_isDigit {b : UInt8} (h : Decimal.isDigit b = true) :
    b ≠ ':'.toUInt8 ∧ b ≠ ';'.toUInt8 ∧ Bytes.isBlank b = false := by
  rw [Decimal.isDigit, Bool.and_eq_true, decide_eq_true_eq, decide_eq_true_eq] at h
  obtain ⟨hlow, hhigh⟩ := h
  refine ⟨?_, ?_, ?_⟩
  · rintro rfl
    exact absurd hhigh (by decide)
  · rintro rfl
    exact absurd hhigh (by decide)
  · rw [Bytes.isBlank, Bool.or_eq_false_iff, beq_eq_false_iff_ne, Bool.and_eq_false_iff]
    refine ⟨?_, .inr ?_⟩
    · rintro rfl
      exact absurd hlow (by decide)
    · rw [decide_eq_false_iff_not]
      intro hle
      exact absurd (UInt8.le_trans hlow hle) (by decide)

theorem plain_numberText (value : Int32) : Plain (numberText value) := by
  intro b hb
  have hdigits := (isNumeral_ofNat value.toInt.natAbs).2
  rw [numberText, Decimal.ofInt] at hb
  split at hb
  · rcases List.mem_cons.mp hb with rfl | hb
    · decide
    · exact plain_of_isDigit (hdigits b hb)
  · exact plain_of_isDigit (hdigits b hb)

theorem plain_jumpText (jump : Jump) : Plain (jumpText jump) := by
  intro b hb
  rw [List.mem_singleton.mp hb]
  cases jump <;> decide

theorem Shows.plain {α : Type} {spelling : α → Bytes} {before value : α} {text : Bytes}
    (h : Shows spelling before value text) (hspelling : Plain (spelling value)) : Plain text := by
  rcases h with rfl | ⟨rfl, -⟩
  · exact hspelling
  · exact plain_nil

theorem FieldsOf.plain {before e : Element} {fields : List Bytes} (h : FieldsOf before e fields) :
    ∀ text ∈ fields, Plain text := by
  cases h with
  | mk hstart hlength hfileIndex hjump hmodifierDepth =>
      intro text hmem
      simp only [List.mem_cons, List.not_mem_nil, or_false] at hmem
      rcases hmem with rfl | rfl | rfl | rfl | rfl
      · exact hstart.plain (plain_numberText _)
      · exact hlength.plain (plain_numberText _)
      · exact hfileIndex.plain (plain_numberText _)
      · exact hjump.plain (plain_jumpText _)
      · exact hmodifierDepth.plain (plain_numberText _)

theorem split_intercalate {fields : List Bytes} (hplain : ∀ text ∈ fields, Plain text)
    (hne : fields ≠ []) :
    Bytes.split ':'.toUInt8 ([':'.toUInt8].intercalate fields) = fields := by
  refine PiecesOf.split_eq ⟨hne, ?_, rfl⟩
  intro text hmem hcolon
  exact (hplain text hmem _ hcolon).1 rfl

theorem writes_intercalate_iff {kept : List Bytes} (hplain : ∀ text ∈ kept, Plain text)
    (dropped : Nat) {field : Field} {text : Bytes} :
    Writes ([':'.toUInt8].intercalate kept) field text ↔
      (kept ++ List.replicate dropped [])[position field]? = some text ∧ text ≠ [] := by
  by_cases hnil : kept = []
  · subst hnil
    constructor
    · rintro ⟨hblank, -⟩
      exact absurd (fun b hb => nomatch hb) hblank
    · rintro ⟨hget, hne⟩
      have hmem := List.mem_of_getElem? hget
      exact absurd (List.eq_of_mem_replicate hmem) hne
  · rw [Writes, split_intercalate hplain hnil]
    constructor
    · rintro ⟨-, hget, hne⟩
      refine ⟨?_, hne⟩
      rw [List.getElem?_append_left (List.getElem?_eq_some_iff.mp hget).1]
      exact hget
    · rintro ⟨hget, hne⟩
      have hkept : kept[position field]? = some text := by
        rw [List.getElem?_append] at hget
        split at hget
        · exact hget
        · exact absurd (List.eq_of_mem_replicate (List.mem_of_getElem? hget)) hne
      refine ⟨?_, hkept, hne⟩
      intro hblank
      obtain ⟨b, rest, rfl⟩ := List.exists_cons_of_ne_nil hne
      have hmem := List.mem_of_getElem? hkept
      have hb := (hplain _ hmem b List.mem_cons_self).2.2
      rw [hblank b (mem_intercalate_of_mem hmem List.mem_cons_self)] at hb
      cases hb

theorem exists_sets_of_shows {α : Type} {spells : Bytes → α → Prop} {spelling : α → Bytes}
    {before value : α} {kept : List Bytes} {dropped : Nat} {field : Field} {text : Bytes}
    (hplain : ∀ text ∈ kept, Plain text) (hspells : spells (spelling value) value)
    (hne : spelling value ≠ []) (hshows : Shows spelling before value text)
    (hget : (kept ++ List.replicate dropped [])[position field]? = some text) :
    ∃ change, Sets spells ([':'.toUInt8].intercalate kept) field change ∧
      change.getD before = value := by
  rcases hshows with rfl | ⟨rfl, hvalue⟩
  · refine ⟨some value, ⟨_, ?_, hspells⟩, rfl⟩
    exact (writes_intercalate_iff hplain dropped).mpr ⟨hget, hne⟩
  · refine ⟨none, ?_, hvalue.symm⟩
    intro text hwrites
    obtain ⟨hget', hne'⟩ := (writes_intercalate_iff hplain dropped).mp hwrites
    rw [hget] at hget'
    exact hne' (Option.some.inj hget').symm

theorem exists_says_of_fieldsOf {before e : Element} {kept : List Bytes} {dropped : Nat}
    (h : FieldsOf before e (kept ++ List.replicate dropped [])) :
    ∃ segment, Says ([':'.toUInt8].intercalate kept) segment ∧ before.update segment = e := by
  have hplain : ∀ text ∈ kept, Plain text := fun text hmem =>
    h.plain text (List.mem_append_left _ hmem)
  have hnumber : ∀ value, SpellsInt32 (numberText value) value := fun value =>
    spells_ofInt value.toInt
  have hnumberNe : ∀ value, numberText value ≠ [] := fun value => (hnumber value).ne_nil
  have hjumpText : ∀ jump, SpellsJump (jumpText jump) jump := fun _ => rfl
  have hjumpNe : ∀ jump, jumpText jump ≠ [] := fun _ => List.cons_ne_nil _ _
  generalize hfields : kept ++ List.replicate dropped [] = fields at h
  cases h with
  | @mk start length fileIndex jump depth hstart hlength hfileIndex hjump hdepth =>
      have hget : ∀ field : Field, (kept ++ List.replicate dropped [])[position field]? =
          [start, length, fileIndex, jump, depth][position field]? := by
        intro field
        rw [hfields]
      obtain ⟨start', hstart', hstartEq⟩ :=
        exists_sets_of_shows hplain (hnumber _) (hnumberNe _) hstart (hget .start)
      obtain ⟨length', hlength', hlengthEq⟩ :=
        exists_sets_of_shows hplain (hnumber _) (hnumberNe _) hlength (hget .length)
      obtain ⟨fileIndex', hfileIndex', hfileIndexEq⟩ :=
        exists_sets_of_shows hplain (hnumber _) (hnumberNe _) hfileIndex (hget .fileIndex)
      obtain ⟨jump', hjump', hjumpEq⟩ :=
        exists_sets_of_shows hplain (hjumpText _) (hjumpNe _) hjump (hget .jump)
      obtain ⟨depth', hdepth', hdepthEq⟩ :=
        exists_sets_of_shows hplain (hnumber _) (hnumberNe _) hdepth (hget .modifierDepth)
      refine ⟨⟨start', length', fileIndex', jump', depth'⟩, ?_, ?_⟩
      · exact ⟨hstart', hlength', hfileIndex', hjump', hdepth'⟩
      · simp only [Element.update, hstartEq, hlengthEq, hfileIndexEq, hjumpEq, hdepthEq]

theorem FieldsOf.length_eq {before e : Element} {fields : List Bytes}
    (h : FieldsOf before e fields) : fields.length = maxFields := by
  cases h
  rfl

theorem exists_read_of_segmentOf {before e : Element} {text : Bytes}
    (h : SegmentOf before e text) :
    ∃ segment, Segment.read text = .ok segment ∧ before.update segment = e := by
  obtain ⟨kept, dropped, hfields, rfl⟩ := h
  obtain ⟨segment, hmeaning, hupdate⟩ := exists_says_of_fieldsOf hfields
  refine ⟨segment, read_eq_ok_iff.mpr ⟨?_, hmeaning⟩, hupdate⟩
  by_cases hnil : kept = []
  · subst hnil
    exact .inl fun b hb => nomatch hb
  · right
    have hplain : ∀ text ∈ kept, Plain text := fun text hmem =>
      hfields.plain text (List.mem_append_left _ hmem)
    have hlength := hfields.length_eq
    rw [List.length_append] at hlength
    rw [split_intercalate hplain hnil]
    omega

theorem exists_reads_of_segmentsOf {before : Element} {es : List Element} {texts : List Bytes}
    (h : SegmentsOf before es texts) :
    ∃ read, Reads texts read ∧ elements before read = es := by
  -- The decoder always holds the element that was written last.
  induction h with
  | nil before => exact ⟨[], .nil, rfl⟩
  | cons hsegment hrest ih =>
      obtain ⟨segment, hread, rfl⟩ := exists_read_of_segmentOf hsegment
      obtain ⟨read, hreads, rfl⟩ := ih
      exact ⟨segment :: read, .cons hread hreads, rfl⟩

theorem SegmentOf.not_mem_semicolon {before e : Element} {text : Bytes}
    (h : SegmentOf before e text) : ';'.toUInt8 ∉ text := by
  obtain ⟨kept, dropped, hfields, rfl⟩ := h
  intro hmem
  rcases mem_intercalate hmem with hcolon | ⟨piece, hpiece, hb⟩
  · exact absurd hcolon (by decide)
  · exact (hfields.plain piece (List.mem_append_left _ hpiece) _ hb).2.1 rfl

theorem SegmentsOf.not_mem_semicolon {before : Element} {es : List Element} {texts : List Bytes}
    (h : SegmentsOf before es texts) : ∀ text ∈ texts, ';'.toUInt8 ∉ text := by
  induction h with
  | nil => simp
  | cons hsegment hrest ih =>
      exact List.forall_mem_cons.mpr ⟨hsegment.not_mem_semicolon, ih⟩

theorem segments_intercalate {before : Element} {es : List Element} {texts : List Bytes}
    (h : SegmentsOf before es texts) (hne : [';'.toUInt8].intercalate texts ≠ []) :
    segments ([';'.toUInt8].intercalate texts) = texts := by
  have htexts : texts ≠ [] := by
    rintro rfl
    exact hne rfl
  have hsplit : Bytes.split ';'.toUInt8 ([';'.toUInt8].intercalate texts) = texts :=
    PiecesOf.split_eq ⟨htexts, h.not_mem_semicolon, rfl⟩
  rw [segments_of_ne hne, hsplit]
  -- No segment is `null`, so the text is not taken for an absent map.
  intro hnull
  rw [hnull] at hsplit
  have htexts' : texts = ["null"] := hsplit.symm
  subst htexts'
  obtain ⟨read, hreads, -⟩ := exists_reads_of_segmentsOf h
  obtain ⟨segment, -, hread, -⟩ := List.forall₂_cons_left_iff.mp hreads
  cases hread

/-- Decoding undoes every encoding: the elements come back in their order, each
with the number of elements before it. -/
theorem decode_of_segmentsOf {es : List Element} {texts : List Bytes}
    (h : SegmentsOf .initial es texts) (hne : [';'.toUInt8].intercalate texts ≠ []) :
    ∃ result, decode ([';'.toUInt8].intercalate texts) = .ok result ∧
      result.map Row.toElement = es ∧
      ∀ (i : Nat) (row : Row), result[i]? = some row → row.ordinal = .ofNat i := by
  obtain ⟨read, hreads, helements⟩ := exists_reads_of_segmentsOf h
  rw [← segments_intercalate h hne] at hreads
  have hdecode := decode_eq_ok_iff.mpr ⟨read, hreads, rfl⟩
  refine ⟨_, hdecode, ?_, ?_⟩
  · rw [helements, map_toElement_rows]
  · intro i row hrow
    exact ordinal_of_decode hdecode hrow

/-- Only the first of three elements is written in full, up to its depth. The
second one shows its jump alone, and the third one nothing. -/
theorem decode_of_segmentsOf_minValue :
    SegmentsOf .initial
        [⟨Int32.minValue, 5, 3, .into, 0⟩, ⟨Int32.minValue, 5, 3, .regular, 0⟩,
          ⟨Int32.minValue, 5, 3, .regular, 0⟩]
        ["-2147483648:5:3:i", ":::-:", ""] ∧
      [';'.toUInt8].intercalate ["-2147483648:5:3:i", ":::-:", ""] ≠ [] ∧
      ∃ result, decode "-2147483648:5:3:i;:::-:;" = .ok result ∧
        result.map Row.toElement =
          [⟨Int32.minValue, 5, 3, .into, 0⟩, ⟨Int32.minValue, 5, 3, .regular, 0⟩,
            ⟨Int32.minValue, 5, 3, .regular, 0⟩] := by
  have hfirst : SegmentOf .initial ⟨Int32.minValue, 5, 3, .into, 0⟩ "-2147483648:5:3:i" := by
    refine ⟨["-2147483648", "5", "3", "i"], 1, ?_, rfl⟩
    constructor
    · exact .inl rfl
    · exact .inl rfl
    · exact .inl rfl
    · exact .inl rfl
    · exact .inr ⟨rfl, rfl⟩
  have hsecond : SegmentOf ⟨Int32.minValue, 5, 3, .into, 0⟩ ⟨Int32.minValue, 5, 3, .regular, 0⟩
      ":::-:" := by
    refine ⟨[[], [], [], "-", []], 0, ?_, rfl⟩
    constructor
    · exact .inr ⟨rfl, rfl⟩
    · exact .inr ⟨rfl, rfl⟩
    · exact .inr ⟨rfl, rfl⟩
    · exact .inl rfl
    · exact .inr ⟨rfl, rfl⟩
  have hthird : SegmentOf ⟨Int32.minValue, 5, 3, .regular, 0⟩
      ⟨Int32.minValue, 5, 3, .regular, 0⟩ "" := by
    refine ⟨[], 5, ?_, rfl⟩
    constructor <;> exact .inr ⟨rfl, rfl⟩
  have hsegments := SegmentsOf.cons hfirst (.cons hsecond (.cons hthird (.nil _)))
  refine ⟨hsegments, by decide, ?_⟩
  obtain ⟨result, hdecode, helements, -⟩ := decode_of_segmentsOf hsegments (by decide)
  exact ⟨result, hdecode, helements⟩

end EvmSourceMap.Proofs.DeltaEncoding
