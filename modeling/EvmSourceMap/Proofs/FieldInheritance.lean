import EvmSourceMap.Proofs.SegmentGrammar
import EvmSourceMap.Proofs.TextSplitting
import Mathlib.Algebra.Group.Nat.Defs

namespace EvmSourceMap.Proofs.FieldInheritance

open SourceMap
open SegmentGrammar
open SourceMapDecoding
open TextSplitting

section

variable {α : Type} {spells : Bytes → α → Prop} {field : Field}

/-- The last of the segments up to a position that writes to the field gives it
the text. -/
def LastWrite (texts : List Bytes) (field : Field) (i : Nat) (text : Bytes) : Prop :=
  ∃ j ≤ i, (∃ segment, texts[j]? = some segment ∧ Writes segment field text) ∧
    ∀ k, j < k → k ≤ i → ∀ segment, texts[k]? = some segment →
      ∀ later, ¬ Writes segment field later

def NeverWritten (texts : List Bytes) (field : Field) (i : Nat) : Prop :=
  ∀ k ≤ i, ∀ segment, texts[k]? = some segment → ∀ text, ¬ Writes segment field text

/-- The value of a field at a position is the one that was written last, or the
initial one if none was. -/
def Inherits (spells : Bytes → α → Prop) (texts : List Bytes) (field : Field) (initial : α)
    (i : Nat) (value : α) : Prop :=
  (∃ text, LastWrite texts field i text ∧ spells text value) ∨
    NeverWritten texts field i ∧ value = initial

/-- The values of a field along its changes. -/
def held (value : α) : List (Option α) → List α
  | [] => []
  | change :: changes => change.getD value :: held (change.getD value) changes

theorem LastWrite.cons {texts : List Bytes} {i : Nat} {text : Bytes}
    (h : LastWrite texts field i text) (first : Bytes) :
    LastWrite (first :: texts) field (i + 1) text := by
  obtain ⟨j, hj, hwrites, hlater⟩ := h
  refine ⟨j + 1, Nat.succ_le_succ hj, hwrites, ?_⟩
  intro k hjk hki segment hget
  cases k with
  | zero => exact absurd hjk (Nat.not_lt_zero _)
  | succ k => exact hlater k (Nat.lt_of_succ_lt_succ hjk) (Nat.le_of_succ_le_succ hki) segment hget

theorem lastWrite_of_neverWritten {texts : List Bytes} {i : Nat} {first text : Bytes}
    (hfirst : Writes first field text) (h : NeverWritten texts field i) :
    LastWrite (first :: texts) field (i + 1) text := by
  refine ⟨0, Nat.zero_le _, ⟨first, rfl, hfirst⟩, ?_⟩
  intro k hk hki segment hget
  cases k with
  | zero => exact absurd hk (Nat.lt_irrefl 0)
  | succ k => exact h k (Nat.le_of_succ_le_succ hki) segment hget

theorem NeverWritten.cons {texts : List Bytes} {i : Nat} {first : Bytes}
    (h : NeverWritten texts field i) (hfirst : ∀ text, ¬ Writes first field text) :
    NeverWritten (first :: texts) field (i + 1) := by
  intro k hk segment hget
  cases k with
  | zero => exact Option.some.inj hget ▸ hfirst
  | succ k => exact h k (Nat.le_of_succ_le_succ hk) segment hget

theorem inherits_held {texts : List Bytes} {changes : List (Option α)}
    (hsets : List.Forall₂ (fun text change => Sets spells text field change) texts changes)
    {initial value : α} {i : Nat} (hget : (held initial changes)[i]? = some value) :
    Inherits spells texts field initial i value := by
  -- The induction is along the segments, for every value that the field may have before them.
  induction hsets generalizing initial i with
  | nil => cases hget
  | @cons first change texts changes hset hrest ih =>
      cases i with
      | zero =>
          have hvalue : change.getD initial = value := Option.some.inj hget
          cases change with
          | none =>
              refine .inr ⟨?_, hvalue.symm⟩
              intro k hk segment hsegment
              rw [Nat.le_zero.mp hk] at hsegment
              exact Option.some.inj hsegment ▸ hset
          | some change =>
              obtain ⟨text, hwrites, hspells⟩ := hset
              refine .inl ⟨text, ⟨0, Nat.le_refl 0, ⟨first, rfl, hwrites⟩, ?_⟩, hvalue ▸ hspells⟩
              intro k hk hk0
              omega
      | succ i =>
          rcases ih hget with ⟨text, hlast, hspells⟩ | ⟨hnever, hvalue⟩
          · exact .inl ⟨text, hlast.cons first, hspells⟩
          · cases change with
            | none => exact .inr ⟨hnever.cons hset, hvalue⟩
            | some change =>
                obtain ⟨text, hwrites, hspells⟩ := hset
                exact .inl ⟨text, lastWrite_of_neverWritten hwrites hnever, hvalue ▸ hspells⟩

theorem map_elements {proj : Element → α} {change : Segment → Option α}
    (hupdate : ∀ e segment, proj (e.update segment) = (change segment).getD (proj e))
    (e : Element) (segments : List Segment) :
    (elements e segments).map proj = held (proj e) (segments.map change) := by
  induction segments generalizing e with
  | nil => rfl
  | cons segment segments ih =>
      simp only [elements, List.map_cons, held, ih, hupdate]

theorem inherits_elements {proj : Element → α} {change : Segment → Option α}
    (hupdate : ∀ e segment, proj (e.update segment) = (change segment).getD (proj e))
    (hmeaning : ∀ text segment, Says text segment → Sets spells text field (change segment))
    {texts : List Bytes} {segments : List Segment} (hread : Reads texts segments)
    {initial e : Element} {i : Nat} (hget : (elements initial segments)[i]? = some e) :
    Inherits spells texts field (proj initial) i (proj e) := by
  have hsets : List.Forall₂ (fun text change => Sets spells text field change) texts
      (segments.map change) := by
    rw [List.forall₂_map_right_iff]
    exact hread.imp fun text segment h => hmeaning text segment (read_eq_ok_iff.mp h).2
  apply inherits_held hsets
  rw [← map_elements hupdate, List.getElem?_map, hget]
  rfl

end

/-- Every field of an element is inherited from the segments up to a position,
and from the element before the first instruction. -/
structure InheritsAll (texts : List Bytes) (i : Nat) (e : Element) : Prop where
  start : Inherits SpellsInt32 texts .start 0 i e.start
  length : Inherits SpellsInt32 texts .length 0 i e.length
  fileIndex : Inherits SpellsInt32 texts .fileIndex 0 i e.fileIndex
  jump : Inherits SpellsJump texts .jump .regular i e.jump
  modifierDepth : Inherits SpellsInt32 texts .modifierDepth 0 i e.modifierDepth

theorem inheritsAll_elements {texts : List Bytes} {segments : List Segment}
    (hread : Reads texts segments) {e : Element} {i : Nat}
    (hget : (elements .initial segments)[i]? = some e) :
    InheritsAll texts i e where
  start := inherits_elements (fun _ _ => rfl) (fun _ _ h => h.start) hread hget
  length := inherits_elements (fun _ _ => rfl) (fun _ _ h => h.length) hread hget
  fileIndex := inherits_elements (fun _ _ => rfl) (fun _ _ h => h.fileIndex) hread hget
  jump := inherits_elements (fun _ _ => rfl) (fun _ _ h => h.jump) hread hget
  modifierDepth := inherits_elements (fun _ _ => rfl) (fun _ _ h => h.modifierDepth) hread hget

/-- A source map that is there has one row for each segment, in turn, and a row
holds in every field what was written to it last. -/
theorem decode_inherits {text : Bytes} {result : List Row} (h : decode text = .ok result)
    (hne : text ≠ []) (hnull : text ≠ "null")
    (hcount : (Bytes.split ';'.toUInt8 text).length < 2 ^ 32) :
    result.length = (Bytes.split ';'.toUInt8 text).length ∧
      result.length = text.count ';'.toUInt8 + 1 ∧
      ∀ i row, result[i]? = some row →
        row.ordinal.toNat = i ∧
          InheritsAll (Bytes.split ';'.toUInt8 text) i row.toElement := by
  have hlength : result.length = (Bytes.split ';'.toUInt8 text).length := by
    rw [length_of_decode h, segments_of_ne hne hnull]
  refine ⟨hlength, hlength.trans (length_split _ text), ?_⟩
  intro i row hrow
  constructor
  · have hi := (List.getElem?_eq_some_iff.mp hrow).1
    rw [ordinal_of_decode h hrow, UInt32.toNat_ofNat']
    omega
  · obtain ⟨read, hread, rfl⟩ := decode_eq_ok_iff.mp h
    rw [segments_of_ne hne hnull] at hread
    rw [getElem?_rows, Option.map_eq_some_iff] at hrow
    obtain ⟨e, he, rfl⟩ := hrow
    exact inheritsAll_elements hread he

/-- The blank third segment changes nothing, and the last one writes a length
only. -/
theorem decode_inherits_partial :
    decode "7:8:9:i;;  ;:5" = .ok
        [⟨⟨7, 8, 9, .into, 0⟩, 0⟩, ⟨⟨7, 8, 9, .into, 0⟩, 1⟩, ⟨⟨7, 8, 9, .into, 0⟩, 2⟩,
          ⟨⟨7, 5, 9, .into, 0⟩, 3⟩] ∧
      ("7:8:9:i;;  ;:5" : Bytes) ≠ [] ∧ ("7:8:9:i;;  ;:5" : Bytes) ≠ "null" ∧
      (Bytes.split ';'.toUInt8 "7:8:9:i;;  ;:5").length < 2 ^ 32 ∧
      InheritsAll (Bytes.split ';'.toUInt8 "7:8:9:i;;  ;:5") 3 ⟨7, 5, 9, .into, 0⟩ := by
  have hdecode : decode "7:8:9:i;;  ;:5" = .ok
      [⟨⟨7, 8, 9, .into, 0⟩, 0⟩, ⟨⟨7, 8, 9, .into, 0⟩, 1⟩, ⟨⟨7, 8, 9, .into, 0⟩, 2⟩,
        ⟨⟨7, 5, 9, .into, 0⟩, 3⟩] := rfl
  obtain ⟨-, -, hrows⟩ := decode_inherits hdecode (by decide) (by decide) (by decide)
  exact ⟨hdecode, by decide, by decide, by decide, (hrows 3 _ rfl).2⟩

end EvmSourceMap.Proofs.FieldInheritance
