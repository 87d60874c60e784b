import EvmSourceMap.Proofs.SourceRanges
import EvmSourceMap.Proofs.TraceReannotation

/-!
One more source file in a table: what it adds to an annotated trace, and that it changes nothing
that was told without it.
-/

namespace EvmSourceMap.Proofs.TableExtension

open Trace
open SourceRanges
open TraceAnnotation
open TraceChunks
open TraceReannotation

/-- An entry was recorded at a mapped pc whose range begins in a file with an id and contents. -/
def PointsInto (index : PcIndex) (id : Int32) (contents : Bytes) (entry : Json) : Prop :=
  ∃ pc e, RecordedAt entry pc ∧ index.find? pc = some e ∧ e.fileIndex = id ∧
    0 ≤ e.start ∧ 0 < e.length ∧ e.start.toInt.toNat < contents.length

section

variable {files : FileTable} {id : Int32} {path contents : Bytes}

theorem resolve?_add_of_ne {fileIndex : Int32} (h : fileIndex ≠ id) (start length : Int32) :
    Location.resolve? (files.add id path contents) fileIndex start length =
      Location.resolve? files fileIndex start length := by
  rw [Location.resolve?, find?_add, if_neg h, Location.resolve?]

theorem exists_resolve?_add_iff {start length : Int32} :
    (∃ range, Location.resolve? (files.add id path contents) id start length = some range) ↔
      0 ≤ start ∧ 0 < length ∧ start.toInt.toNat < contents.length := by
  simp only [resolve?_eq_some_iff, find?_add, if_true, Option.some.injEq, exists_eq_left']
  constructor
  · rintro ⟨_, hinside, -⟩
    exact hinside
  · exact fun hinside => ⟨_, hinside, rfl⟩

theorem record_add_of_ne {e : PcEntry} (h : e.fileIndex ≠ id) :
    e.record (files.add id path contents) = e.record files := by
  have hfile : e.fileFields (files.add id path contents) = e.fileFields files := by
    rw [PcEntry.fileFields, find?_add, if_neg h, PcEntry.fileFields]
  have hrange : e.location? (files.add id path contents) = e.location? files :=
    resolve?_add_of_ne h e.start e.length
  rw [PcEntry.record, hfile, PcEntry.rangeFields, hrange, PcEntry.record, PcEntry.rangeFields]

variable (h : files.find? id = none)

include h

theorem resolve?_of_absent (start length : Int32) :
    Location.resolve? files id start length = none := by
  rw [Location.resolve?, h, Option.bind_none]

theorem location?_add {e : PcEntry}
    (houtside : ¬ (e.fileIndex = id ∧ 0 ≤ e.start ∧ 0 < e.length ∧
      e.start.toInt.toNat < contents.length)) :
    e.location? (files.add id path contents) = e.location? files := by
  by_cases hid : e.fileIndex = id
  · rw [PcEntry.location?, PcEntry.location?, hid, resolve?_of_absent h,
      Option.eq_none_iff_forall_ne_some]
    intro range hrange
    exact houtside ⟨hid, exists_resolve?_add_iff.mp ⟨range, hrange⟩⟩
  · exact resolve?_add_of_ne hid e.start e.length

theorem annotate?_add {index : PcIndex} {entry : Json}
    (houtside : ¬ PointsInto index id contents entry) :
    annotate? index (files.add id path contents) entry = annotate? index files entry := by
  suffices hsource : source? index (files.add id path contents) entry = source? index files entry by
    rw [annotate?, hsource, annotate?]
  rw [source?, source?]
  refine Option.bind_congr fun pc hpc => Option.bind_congr fun e he => ?_
  rw [location?_add h]
  rintro ⟨hid, hinside⟩
  exact houtside ⟨pc, e, pc?_eq_some_iff.mp hpc, he, hid, hinside⟩

omit h in
theorem isSome_annotate?_add {index : PcIndex} {entry : Json}
    (hinto : PointsInto index id contents entry) :
    (annotate? index (files.add id path contents) entry).isSome = true := by
  obtain ⟨pc, e, hpc, he, rfl, hinside⟩ := hinto
  obtain ⟨range, hrange⟩ := exists_resolve?_add_iff.mpr hinside
  exact isSome_annotate?_iff.mpr ⟨e, range, ⟨pc, hpc, find?_eq_some_iff_mem.mp he⟩, hrange⟩

theorem annotate?_of_pointsInto {index : PcIndex} {entry : Json}
    (hinto : PointsInto index id contents entry) : annotate? index files entry = none := by
  obtain ⟨pc, e, hpc, he, rfl, -⟩ := hinto
  rw [← Option.not_isSome_iff_eq_none, isSome_annotate?_iff]
  rintro ⟨e', range, ⟨pc', hpc', he'⟩, hrange⟩
  cases (pc?_eq_some_iff.mpr hpc).symm.trans (pc?_eq_some_iff.mpr hpc')
  cases he.symm.trans (find?_eq_some_iff_mem.mpr he')
  rw [resolve?_of_absent h] at hrange
  cases hrange

theorem not_mem_positions_of_pointsInto {index : PcIndex} {entries : List Json} {i : Nat}
    {entry : Json} (hentry : entries[i]? = some entry)
    (hinto : PointsInto index id contents entry) :
    i ∉ (annotateAll index files entries).positions := by
  rw [mem_positions_annotateAll_iff]
  rintro ⟨entry', hentry', hsome⟩
  cases hentry.symm.trans hentry'
  rw [annotate?_of_pointsInto h hinto] at hsome
  cases hsome

theorem mem_positions_add_iff {index : PcIndex} {entries : List Json} {i : Nat} :
    i ∈ (annotateAll index (files.add id path contents) entries).positions ↔
      i ∈ (annotateAll index files entries).positions ∨
        ∃ entry, entries[i]? = some entry ∧ PointsInto index id contents entry := by
  simp only [mem_positions_annotateAll_iff]
  constructor
  · rintro ⟨entry, hentry, hsome⟩
    by_cases hinto : PointsInto index id contents entry
    · exact .inr ⟨entry, hentry, hinto⟩
    · rw [annotate?_add h hinto] at hsome
      exact .inl ⟨entry, hentry, hsome⟩
  · rintro (⟨entry, hentry, hsome⟩ | ⟨entry, hentry, hinto⟩)
    · have houtside : ¬ PointsInto index id contents entry := by
        intro hinto
        rw [annotate?_of_pointsInto h hinto] at hsome
        cases hsome
      exact ⟨entry, hentry, annotate?_add h houtside ▸ hsome⟩
    · exact ⟨entry, hentry, isSome_annotate?_add hinto⟩

theorem getElem?_entries_add {index : PcIndex} {entries : List Json} {i : Nat}
    (houtside : ∀ entry, entries[i]? = some entry → ¬ PointsInto index id contents entry) :
    (annotateAll index (files.add id path contents) entries).entries[i]? =
      (annotateAll index files entries).entries[i]? := by
  rw [getElem?_entries_annotateAll, getElem?_entries_annotateAll]
  refine Option.map_congr fun entry hentry => ?_
  rw [annotated, annotate?_add h (houtside entry hentry), annotated]

end

/-- A file that is added under a new id gives a source to the entries whose ranges begin in it, and
to no others. All that was told before stays as it was. -/
theorem annotate_add {options : Options} {entries : List Json}
    (hoptions : options.Suits entries.length) (index : PcIndex) {files : FileTable} {id : Int32}
    (h : files.find? id = none) (path contents : Bytes) :
    (∃ before after, annotate options index files (.array entries) = .ok before ∧
      annotate options index (files.add id path contents) (.array entries) = .ok after ∧
      before.positions.Pairwise (· < ·) ∧ after.positions.Pairwise (· < ·) ∧
      (∀ i ∈ before.positions, i ∈ after.positions ∧ after.entries[i]? = before.entries[i]?) ∧
      (∀ i, i ∈ after.positions ∧ i ∉ before.positions ↔
        ∃ entry, entries[i]? = some entry ∧ PointsInto index id contents entry) ∧
      ∀ i, i ∉ after.positions →
        after.entries[i]? = before.entries[i]? ∧ before.entries[i]? = entries[i]?) ∧
    ∀ (mapping : Mapping) (pc : UInt32) (e : PcEntry), mapping.index.find? pc = some e →
      e.fileIndex ≠ id → ∃ record, mapping.describe? files pc = some record ∧
        mapping.describe? (files.add id path contents) pc = some record := by
  refine ⟨⟨_, _, annotate_eq_annotateAll hoptions index files,
    annotate_eq_annotateAll hoptions index (files.add id path contents),
    pairwise_annotateRange_snd index files 0 entries,
    pairwise_annotateRange_snd index (files.add id path contents) 0 entries, ?_, ?_, ?_⟩, ?_⟩
  · intro i hbefore
    refine ⟨(mem_positions_add_iff h).mpr (.inl hbefore), getElem?_entries_add h ?_⟩
    exact fun entry hentry hinto => not_mem_positions_of_pointsInto h hentry hinto hbefore
  · intro i
    constructor
    · rintro ⟨hafter, hbefore⟩
      exact ((mem_positions_add_iff h).mp hafter).resolve_left hbefore
    · rintro ⟨entry, hentry, hinto⟩
      exact ⟨(mem_positions_add_iff h).mpr (.inr ⟨entry, hentry, hinto⟩),
        not_mem_positions_of_pointsInto h hentry hinto⟩
  · intro i hafter
    rw [mem_positions_add_iff h, not_or] at hafter
    refine ⟨getElem?_entries_add h fun entry hentry hinto => hafter.2 ⟨entry, hentry, hinto⟩, ?_⟩
    cases hentry : entries[i]? with
    | none => rw [getElem?_entries_annotateAll, hentry, Option.map_none]
    | some entry => exact getElem?_annotateAll_of_not_mem index files hentry hafter.1
  · intro mapping pc e hfind hne
    refine ⟨e.record files, ?_, ?_⟩
    · rw [Mapping.describe?, hfind, Option.map_some]
    · rw [Mapping.describe?, hfind, Option.map_some, record_add_of_ne hne]

/-- The entry at position 1 gets the source that it lacked. That at position 2 has a range which
begins behind the end of the new file. -/
theorem annotate_add_second :
    let element : SourceMap.Element := ⟨0, 9, 7, .regular, 0⟩
    let index : PcIndex := .ofEntries
      [{ element with fileIndex := 3, pc := 0, ordinal := 0, opcode := 0x5b },
        { element with pc := 1, ordinal := 1, opcode := 0x5b },
        { element with start := 4, pc := 2, ordinal := 2, opcode := 0x5b }]
    let files := FileTable.add ∅ 3 "a.sol" "abc"
    let entry (pc : Int) : Json := .object [("pc", .integer pc)]
    let entries := [entry 0, entry 1, entry 2, .null]
    Options.Suits {} entries.length ∧ files.find? 7 = none ∧ ∃ before after,
      annotate {} index files (.array entries) = .ok before ∧
      annotate {} index (files.add 7 "b.sol" "text") (.array entries) = .ok after ∧
      before.positions = [0] ∧ after.positions = [0, 1] ∧
      after.entries[0]? = before.entries[0]? ∧ after.entries[2]? = some (entry 2) := by
  intro element index files entry entries
  have hoptions : Options.Suits {} entries.length := suits_of_ne_nil {} (List.cons_ne_nil _ _)
  have habsent : files.find? 7 = none := rfl
  obtain ⟨⟨before, after, hbefore, hafter, -, -, hkept, -, hothers⟩, -⟩ :=
    annotate_add hoptions index habsent "b.sol" "text"
  have hpositions : before.positions = [0] := by
    rw [← Except.ok.inj hbefore]
    rfl
  have hpositions' : after.positions = [0, 1] := by
    rw [← Except.ok.inj hafter]
    rfl
  obtain ⟨hsame, hpassed⟩ := hothers 2 (by simp [hpositions'])
  exact ⟨hoptions, habsent, before, after, hbefore, hafter, hpositions, hpositions',
    (hkept 0 (by simp [hpositions])).2, hsame.trans hpassed⟩

end EvmSourceMap.Proofs.TableExtension
