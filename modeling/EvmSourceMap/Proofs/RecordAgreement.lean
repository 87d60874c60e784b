import EvmSourceMap.Proofs.SourceRanges
import EvmSourceMap.Proofs.TraceAnnotation

namespace EvmSourceMap.Proofs.RecordAgreement

open Trace
open JsonMembers
open SortedMapLookup
open SourceRanges
open TraceAnnotation

def bareEntry (pc : UInt32) : Json :=
  .object [("pc", .ofUInt32 pc)]

theorem recordedAt_bareEntry_iff {pc pc' : UInt32} : RecordedAt (bareEntry pc) pc' ↔ pc' = pc := by
  have hget : (bareEntry pc).get? "pc" = some (.integer pc.toNat) := rfl
  rw [RecordedAt, hget, Option.some.injEq, Json.integer.injEq, Int.natCast_inj,
    UInt32.toNat_inj]
  constructor
  · exact fun h => h.2.symm
  · exact fun h => ⟨rfl, h.symm⟩

theorem located_bareEntry_iff {index : PcIndex} {files : FileTable} {pc : UInt32} {e : PcEntry}
    {range : Location} :
    Located index files (bareEntry pc) e range ↔
      index.find? pc = some e ∧ e.location? files = some range := by
  constructor
  · rintro ⟨⟨pc', hpc, hmem⟩, hrange⟩
    rw [recordedAt_bareEntry_iff.mp hpc] at hmem
    exact ⟨find?_eq_some_iff_mem.mpr hmem, hrange⟩
  · rintro ⟨hfind, hrange⟩
    exact ⟨⟨pc, recordedAt_bareEntry_iff.mpr rfl, find?_eq_some_iff_mem.mp hfind⟩, hrange⟩

theorem get?_record (e : PcEntry) (files : FileTable) (key : Bytes) :
    (e.record files).get? key =
      (Entries.get? key (e.rangeFields files).reverse).or
        ((Entries.get? key (e.fileFields files).reverse).or
          (Entries.get? key e.instructionFields.reverse)) := by
  rw [PcEntry.record, get?_ofMembers, List.reverse_append, List.reverse_append, get?_append,
    get?_append]

/-- The names of what a source record and a record for a pc both tell. -/
def sharedNames : List (Bytes × Bytes) :=
  [("file", "source_path"), ("line", "line_start"), ("column", "column_start"),
    ("line_end", "line_end"), ("column_end", "column_end"), ("snippet", "snippet"),
    ("bytecode_offset", "offset"), ("length", "length"), ("jump", "jump_type_description")]

/-- The members of a record for a pc that tell a source range. -/
def rangeMembers (range : Location) : List (Bytes × Json) :=
  [("snippet", .string range.snippet), ("line_start", .ofInt32 range.first.line),
    ("line_end", .ofInt32 range.last.line), ("column_start", .ofInt32 range.first.column),
    ("column_end", .ofInt32 range.last.column)]

section

variable {e : PcEntry} {files : FileTable}

theorem rangeFields_of_location? {range : Location} (h : e.location? files = some range) :
    e.rangeFields files = rangeMembers range := by
  rw [PcEntry.rangeFields, h]
  rfl

theorem rangeFields_of_no_location? (h : e.location? files = none) :
    e.rangeFields files = rangeMembers ⟨[], ⟨0, 0⟩, ⟨0, 0⟩, []⟩ := by
  rw [PcEntry.rangeFields, h]
  rfl

theorem fileFields_of_location? {range : Location} (h : e.location? files = some range) :
    ∃ id : Json, e.fileFields files =
      ([("source_path", .string range.path), ("source_id", id)] : List (Bytes × Json)) := by
  obtain ⟨file, hfile, -, rfl⟩ := resolve?_eq_some_iff.mp h
  refine ⟨.ofInt32 file.id, ?_⟩
  rw [PcEntry.fileFields, hfile]
  rfl

theorem shares_of_location? {range : Location} (h : e.location? files = some range) :
    ∀ names ∈ sharedNames, ∃ value, (sourceRecord range e).get? names.1 = some value ∧
      (e.record files).get? names.2 = some value := by
  obtain ⟨id, hfile⟩ := fileFields_of_location? h
  simp only [get?_record, hfile, rangeFields_of_location? h, sharedNames, List.forall_mem_cons]
  exact ⟨⟨_, rfl, rfl⟩, ⟨_, rfl, rfl⟩, ⟨_, rfl, rfl⟩, ⟨_, rfl, rfl⟩, ⟨_, rfl, rfl⟩, ⟨_, rfl, rfl⟩,
    ⟨_, rfl, rfl⟩, ⟨_, rfl, rfl⟩, ⟨_, rfl, rfl⟩, nofun⟩

theorem get?_record_of_no_location? (h : e.location? files = none) :
    (∀ name ∈ (["line_start", "column_start", "line_end", "column_end"] : List Bytes),
      (e.record files).get? name = some (.integer 0)) ∧
      (e.record files).get? "snippet" = some (.string []) := by
  simp only [get?_record, rangeFields_of_no_location? h, List.forall_mem_cons]
  exact ⟨⟨rfl, rfl, rfl, rfl, nofun⟩, rfl⟩

theorem exists_location?_iff
    (hfiles : ∀ id file, files.find? id = some file → file.contents.length < 2 ^ 31 - 1) :
    (∃ range, e.location? files = some range) ↔
      ∃ line, (e.record files).get? "line_start" = some (.integer line) ∧ line ≠ 0 := by
  constructor
  · rintro ⟨range, h⟩
    refine ⟨range.first.line.toInt, ?_, ?_⟩
    · rw [get?_record, rangeFields_of_location? h]
      rfl
    · obtain ⟨file, hfile, -, rfl⟩ := resolve?_eq_some_iff.mp h
      exact Int.ne_of_gt (line_position_pos (hfiles _ file hfile) _)
  · rintro ⟨line, hline, hne⟩
    cases h : e.location? files with
    | some range => exact ⟨range, rfl⟩
    | none =>
        rw [(get?_record_of_no_location? h).1 "line_start" List.mem_cons_self] at hline
        exact absurd (Json.integer.inj (Option.some.inj hline)).symm hne

end

/-- Annotating an entry and describing its pc tell the same, and where there is
nothing to tell for one of them, the other one has blanks. -/
theorem annotate?_agrees_describe? (mapping : Mapping) {files : FileTable}
    (hfiles : ∀ id file, files.find? id = some file → file.contents.length < 2 ^ 31 - 1)
    (pc : UInt32) :
    ((∃ entry, annotate? mapping.index files (bareEntry pc) = some entry) ↔
        ∃ record line, mapping.describe? files pc = some record ∧
          record.get? "line_start" = some (.integer line) ∧ line ≠ 0) ∧
      (∀ entry record, annotate? mapping.index files (bareEntry pc) = some entry →
        mapping.describe? files pc = some record →
        ∃ source, entry.get? "source" = some source ∧ ∀ names ∈ sharedNames, ∃ value,
          source.get? names.1 = some value ∧ record.get? names.2 = some value) ∧
      ∀ record, annotate? mapping.index files (bareEntry pc) = none →
        mapping.describe? files pc = some record →
        (∀ name ∈ (["line_start", "column_start", "line_end", "column_end"] : List Bytes),
          record.get? name = some (.integer 0)) ∧
          record.get? "snippet" = some (.string []) := by
  simp only [Mapping.describe?, Option.map_eq_some_iff]
  refine ⟨?_, ?_, ?_⟩
  · constructor
    · rintro ⟨_, hannotate⟩
      obtain ⟨e, range, hlocated, -⟩ := annotate?_eq_some_iff.mp hannotate
      obtain ⟨hfind, hrange⟩ := located_bareEntry_iff.mp hlocated
      obtain ⟨line, hline⟩ := (exists_location?_iff hfiles).mp ⟨range, hrange⟩
      exact ⟨_, line, ⟨e, hfind, rfl⟩, hline⟩
    · rintro ⟨_, line, ⟨e, hfind, rfl⟩, hline⟩
      obtain ⟨range, hrange⟩ := (exists_location?_iff hfiles).mpr ⟨line, hline⟩
      exact ⟨_, annotate?_eq_some_iff.mpr
        ⟨e, range, located_bareEntry_iff.mpr ⟨hfind, hrange⟩, rfl⟩⟩
  · rintro _ _ hannotate ⟨e, hfind, rfl⟩
    obtain ⟨e', range, hlocated, rfl⟩ := annotate?_eq_some_iff.mp hannotate
    obtain ⟨hfind', hrange⟩ := located_bareEntry_iff.mp hlocated
    cases hfind.symm.trans hfind'
    exact ⟨sourceRecord range e, (updated_set rfl _ _).here, shares_of_location? hrange⟩
  · rintro _ hannotate ⟨e, hfind, rfl⟩
    apply get?_record_of_no_location?
    cases hrange : e.location? files with
    | none => rfl
    | some range =>
        have hlocated := located_bareEntry_iff.mpr ⟨hfind, hrange⟩
        rw [annotate?_eq_some_iff.mpr ⟨e, range, hlocated, rfl⟩] at hannotate
        cases hannotate

/-- One of two instructions has a range that ends behind its file, and the other
one has a file that is not there. -/
theorem annotate?_agrees_describe?_clamped :
    let element : SourceMap.Element := ⟨3, 100, 0, .into, 0⟩
    let index : PcIndex := .ofEntries
      [{ element with pc := 0, ordinal := 0, opcode := 0x5b },
        { element with fileIndex := 1, pc := 1, ordinal := 1, opcode := 0x5b }]
    let mapping : Mapping := { index }
    let files := FileTable.add ∅ 0 "a.sol" "ab\n  cd"
    (∀ id file, files.find? id = some file → file.contents.length < 2 ^ 31 - 1) ∧
      (∃ record line, mapping.describe? files 0 = some record ∧
        record.get? "line_start" = some (.integer line) ∧ line ≠ 0) ∧
      annotate? mapping.index files (bareEntry 1) = none ∧
      ∃ record, mapping.describe? files 1 = some record ∧
        record.get? "snippet" = some (.string []) := by
  intro element index mapping files
  have hfiles : ∀ id file, files.find? id = some file → file.contents.length < 2 ^ 31 - 1 := by
    intro id file hfile
    rw [find?_add] at hfile
    split at hfile
    · cases hfile
      decide
    · cases hfile
  refine ⟨hfiles, ?_, rfl, ?_⟩
  · exact (annotate?_agrees_describe? mapping hfiles 0).1.mp ⟨_, rfl⟩
  · exact ⟨_, rfl, ((annotate?_agrees_describe? mapping hfiles 1).2.2 _ rfl rfl).2⟩

end EvmSourceMap.Proofs.RecordAgreement
