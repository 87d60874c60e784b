import EvmSourceMap.Proofs.ListReading
import EvmSourceMap.SourceMap.Decode

namespace EvmSourceMap.Proofs.SourceMapDecoding

open SourceMap
open ExceptInversion
open ListReading

/-- Reads segments of which the first one has the given number. -/
def readFrom (index : Nat) (texts : List Bytes) : Except Error (List Segment) :=
  (texts.zipIdx index).mapM fun (text, index) =>
    (Segment.read text).mapError (Error.mk index text)

theorem readSegments_eq_readFrom (texts : List Bytes) :
    readSegments texts = readFrom 0 texts := rfl

/-- The texts are read as the segments, each as the one at its place. -/
abbrev Reads : List Bytes → List Segment → Prop :=
  List.Forall₂ fun text segment => Segment.read text = .ok segment

theorem readFrom_eq_ok_iff {index : Nat} {texts : List Bytes} {segments : List Segment} :
    readFrom index texts = .ok segments ↔ Reads texts segments := by
  rw [readFrom, mapM_eq_ok_iff, Reads]
  simp only [mapError_eq_ok_iff]
  conv => rhs; rw [← List.zipIdx_map_fst index texts, List.forall₂_map_left_iff]

theorem Reads.isPrefix {front back : List Bytes} {segments segments' : List Segment}
    (h : Reads front segments) (h' : Reads (front ++ back) segments') : segments <+: segments' := by
  have htake := List.forall₂_take front.length h'
  rw [List.take_left] at htake
  have hread : readFrom 0 front = .ok segments := readFrom_eq_ok_iff.mpr h
  rw [readFrom_eq_ok_iff.mpr htake] at hread
  rw [← Except.ok.inj hread]
  exact List.take_prefix _ _

/-- The error of a reading is that of the first segment that cannot be read. -/
theorem readFrom_eq_error {index : Nat} {texts : List Bytes} {e : Error}
    (h : readFrom index texts = .error e) :
    ∃ before after, texts = before ++ e.segment :: after ∧ e.index = index + before.length ∧
      (∀ text ∈ before, ∃ segment, Segment.read text = .ok segment) ∧
      Segment.read e.segment = .error e.fault := by
  obtain ⟨front, ⟨text, i⟩, back, htexts, hfront, hfault⟩ := mapM_eq_error_iff.mp h
  obtain ⟨before, behind, rfl, rfl, hbehind⟩ := List.zipIdx_eq_append_iff.mp htexts
  obtain ⟨_, after, rfl, hhead, rfl⟩ := List.zipIdx_eq_cons_iff.mp hbehind.symm
  cases hhead
  obtain ⟨fault, hread, rfl⟩ := mapError_eq_error_iff.mp hfault
  simp only [mapError_eq_ok_iff] at hfront
  have hbefore : ∀ text ∈ (before.zipIdx index).map Prod.fst,
      ∃ segment, Segment.read text = .ok segment := List.forall_mem_map.mpr hfront
  rw [List.zipIdx_map_fst] at hbefore
  exact ⟨before, after, rfl, rfl, hbefore, hread⟩

theorem length_elements (e : Element) (segments : List Segment) :
    (elements e segments).length = segments.length := by
  induction segments generalizing e with
  | nil => rfl
  | cons segment segments ih => simp [elements, ih]

theorem elements_append (e : Element) (front back : List Segment) :
    elements e (front ++ back) = elements e front ++ elements (front.foldl Element.update e) back := by
  induction front generalizing e with
  | nil => rfl
  | cons segment front ih => exact congrArg (e.update segment :: ·) (ih (e.update segment))

theorem getElem?_rows (elements : List Element) (i : Nat) :
    (rows elements)[i]? = elements[i]?.map fun e => { e with ordinal := .ofNat i } := by
  simp only [rows, List.getElem?_map, List.getElem?_zipIdx, Option.map_map, Nat.zero_add]
  rfl

theorem length_rows (elements : List Element) : (rows elements).length = elements.length := by
  simp [rows]

theorem map_toElement_rows (elements : List Element) :
    (rows elements).map Row.toElement = elements := by
  apply List.ext_getElem?
  intro i
  rw [List.getElem?_map, getElem?_rows, Option.map_map]
  exact Option.map_id'

theorem decode_eq_ok_iff {text : Bytes} {result : List Row} :
    decode text = .ok result ↔
      ∃ read, Reads (segments text) read ∧ result = rows (elements .initial read) := by
  simp only [decode, readSegments_eq_readFrom, map_eq_ok_iff, readFrom_eq_ok_iff]
  exact exists_congr fun read => and_congr_right fun _ => eq_comm

theorem exists_decode_iff {text : Bytes} :
    (∃ result, decode text = .ok result) ↔
      ∀ segment ∈ segments text, ∃ read, Segment.read segment = .ok read := by
  simp only [decode_eq_ok_iff, Reads, ← exists_forall₂_iff]
  constructor
  · rintro ⟨_, read, hforall, -⟩
    exact ⟨read, hforall⟩
  · rintro ⟨read, hforall⟩
    exact ⟨_, read, hforall, rfl⟩

theorem decode_eq_error {text : Bytes} {e : Error} (h : decode text = .error e) :
    (segments text)[e.index]? = some e.segment ∧
      (∀ read, Segment.read e.segment ≠ .ok read) ∧
      ∀ j < e.index, ∀ segment, (segments text)[j]? = some segment →
        ∃ read, Segment.read segment = .ok read := by
  rw [decode, readSegments_eq_readFrom, map_eq_error_iff] at h
  obtain ⟨before, after, htexts, hindex, hbefore, hfault⟩ := readFrom_eq_error h
  rw [Nat.zero_add] at hindex
  rw [htexts, hindex]
  refine ⟨by simp, ?_, ?_⟩
  · intro read hread
    rw [hfault] at hread
    cases hread
  · intro j hj segment hget
    rw [List.getElem?_append_left hj] at hget
    exact hbefore segment (List.mem_of_getElem? hget)

theorem length_of_decode {text : Bytes} {result : List Row} (h : decode text = .ok result) :
    result.length = (segments text).length := by
  obtain ⟨read, hforall, rfl⟩ := decode_eq_ok_iff.mp h
  rw [length_rows, length_elements, hforall.length_eq]

theorem ordinal_of_decode {text : Bytes} {result : List Row} {i : Nat} {row : Row}
    (h : decode text = .ok result) (hrow : result[i]? = some row) :
    row.ordinal = .ofNat i := by
  obtain ⟨read, -, rfl⟩ := decode_eq_ok_iff.mp h
  rw [getElem?_rows, Option.map_eq_some_iff] at hrow
  obtain ⟨e, -, rfl⟩ := hrow
  rfl

end EvmSourceMap.Proofs.SourceMapDecoding
