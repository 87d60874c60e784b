import EvmSourceMap.Proofs.JsonMembers
import EvmSourceMap.Trace.Annotated
import Mathlib.Data.List.Forall2

namespace EvmSourceMap.Proofs.TraceAnnotation

open Trace
open JsonMembers
open SortedMapLookup

/-- An object with an integer of 32 bits under `pc`. -/
def RecordedAt (entry : Json) (pc : UInt32) : Prop :=
  entry.isObject = true ∧ entry.get? "pc" = some (.integer pc.toNat)

theorem pc?_eq_some_iff {entry : Json} {pc : UInt32} :
    pc? entry = some pc ↔ RecordedAt entry pc := by
  constructor
  · intro h
    rw [pc?] at h
    split at h
    · rename_i n hmember
      split at h
      · rename_i hrange
        refine ⟨isObject_of_get? hmember, ?_⟩
        rw [hmember, ← Option.some.inj h, UInt32.toNat_ofNat_of_lt' (by omega),
          Int.toNat_of_nonneg hrange.1]
      · cases h
    · cases h
  · rintro ⟨-, hmember⟩
    have hrange : (0 : Int) ≤ pc.toNat ∧ (pc.toNat : Int) < UInt32.size := by
      have hlt := pc.toNat_lt_size
      omega
    simp only [pc?, hmember]
    rw [if_pos hrange, Int.toNat_natCast, UInt32.ofNat_toNat]

theorem find?_eq_some_iff_mem {index : PcIndex} {pc : UInt32} {e : PcEntry} :
    index.find? pc = some e ↔ (pc, e) ∈ index.entries :=
  get?_eq_some_iff

/-- An entry was recorded at a mapped pc that has a source range. -/
structure Located (index : PcIndex) (files : FileTable) (entry : Json) (e : PcEntry)
    (range : Location) : Prop where
  mapped : ∃ pc, RecordedAt entry pc ∧ (pc, e) ∈ index.entries
  resolved : Location.resolve? files e.fileIndex e.start e.length = some range

def sourceNames : List Bytes :=
  ["file", "line", "column", "line_end", "column_end", "snippet", "bytecode_offset", "length",
    "jump"]

/-- A record of a source range and of what the source map says about it: nine
members and no more. -/
structure IsSourceRecord (range : Location) (e : PcEntry) (source : Json) : Prop where
  file : source.get? "file" = some (.string range.path)
  line : source.get? "line" = some (.integer range.first.line.toInt)
  column : source.get? "column" = some (.integer range.first.column.toInt)
  lineEnd : source.get? "line_end" = some (.integer range.last.line.toInt)
  columnEnd : source.get? "column_end" = some (.integer range.last.column.toInt)
  snippet : source.get? "snippet" = some (.string range.snippet)
  offset : source.get? "bytecode_offset" = some (.integer e.start.toInt)
  length : source.get? "length" = some (.integer e.length.toInt)
  jump : source.get? "jump" = some (.string e.jump.label)
  others : ∀ name, name ∉ sourceNames → source.get? name = none

theorem isSourceRecord_sourceRecord (range : Location) (e : PcEntry) :
    IsSourceRecord range e (sourceRecord range e) where
  file := rfl
  line := rfl
  column := rfl
  lineEnd := rfl
  columnEnd := rfl
  snippet := rfl
  offset := rfl
  length := rfl
  jump := rfl
  others := fun _ hname => get?_ofMembers_eq_none hname

theorem source?_eq_some_iff {index : PcIndex} {files : FileTable} {entry source : Json} :
    source? index files entry = some source ↔
      ∃ e range, Located index files entry e range ∧ sourceRecord range e = source := by
  simp only [source?, Option.bind_eq_bind, Option.bind_eq_some_iff, Option.pure_def,
    Option.some.injEq, pc?_eq_some_iff, find?_eq_some_iff_mem]
  constructor
  · rintro ⟨pc, hpc, e, hmem, range, hrange, hsource⟩
    exact ⟨e, range, ⟨⟨pc, hpc, hmem⟩, hrange⟩, hsource⟩
  · rintro ⟨e, range, ⟨⟨pc, hpc, hmem⟩, hrange⟩, hsource⟩
    exact ⟨pc, hpc, e, hmem, range, hrange, hsource⟩

theorem annotate?_eq_some_iff {index : PcIndex} {files : FileTable} {entry entry' : Json} :
    annotate? index files entry = some entry' ↔
      ∃ e range, Located index files entry e range ∧
        entry.set "source" (sourceRecord range e) = entry' := by
  simp only [annotate?, Option.map_eq_some_iff, source?_eq_some_iff]
  constructor
  · rintro ⟨_, ⟨e, range, hlocated, rfl⟩, hentry'⟩
    exact ⟨e, range, hlocated, hentry'⟩
  · rintro ⟨e, range, hlocated, hentry'⟩
    exact ⟨_, ⟨e, range, hlocated, rfl⟩, hentry'⟩

theorem isSome_annotate?_iff {index : PcIndex} {files : FileTable} {entry : Json} :
    (annotate? index files entry).isSome = true ↔ ∃ e range, Located index files entry e range := by
  rw [Option.isSome_iff_exists]
  simp only [annotate?_eq_some_iff]
  constructor
  · rintro ⟨_, e, range, hlocated, -⟩
    exact ⟨e, range, hlocated⟩
  · rintro ⟨e, range, hlocated⟩
    exact ⟨_, e, range, hlocated, rfl⟩

/-- What becomes of an entry: it gets the record of its source if it has one,
and passes through as it is if it has none. -/
inductive Annotates (index : PcIndex) (files : FileTable) : Json → Json → Prop
  | located {entry entry' source : Json} {e : PcEntry} {range : Location}
      (hlocated : Located index files entry e range) (hsource : IsSourceRecord range e source)
      (hupdated : Updated entry "source" source entry') : Annotates index files entry entry'
  | passed {entry : Json} (hnone : ¬ ∃ e range, Located index files entry e range) :
      Annotates index files entry entry

def annotated (index : PcIndex) (files : FileTable) (entry : Json) : Json :=
  (annotate? index files entry).getD entry

theorem annotates_annotated (index : PcIndex) (files : FileTable) (entry : Json) :
    Annotates index files entry (annotated index files entry) := by
  rw [annotated]
  cases hentry : annotate? index files entry with
  | none =>
      apply Annotates.passed
      rw [← isSome_annotate?_iff, hentry]
      simp
  | some entry' =>
      obtain ⟨e, range, hlocated, rfl⟩ := annotate?_eq_some_iff.mp hentry
      obtain ⟨pc, hpc, -⟩ := hlocated.mapped
      exact .located hlocated (isSourceRecord_sourceRecord range e) (updated_set hpc.1 _ _)

section

variable (index : PcIndex) (files : FileTable)

theorem annotateRange_fst (first : Nat) (entries : List Json) :
    (annotateRange index files first entries).1 = entries.map (annotated index files) := by
  rw [annotateRange, List.map_map]
  rfl

theorem annotateRange_snd_nil (first : Nat) : (annotateRange index files first []).2 = [] := rfl

theorem annotateRange_snd_cons (first : Nat) (entry : Json) (entries : List Json) :
    (annotateRange index files first (entry :: entries)).2 =
      (if (annotate? index files entry).isSome then [first] else []) ++
        (annotateRange index files (first + 1) entries).2 := by
  simp only [annotateRange, List.map_cons, List.zipIdx_cons, List.filterMap_cons]
  cases annotate? index files entry <;> rfl

theorem annotateRange_snd_append (first : Nat) (front back : List Json) :
    (annotateRange index files first (front ++ back)).2 =
      (annotateRange index files first front).2 ++
        (annotateRange index files (first + front.length) back).2 := by
  induction front generalizing first with
  | nil => rfl
  | cons entry front ih =>
      rw [List.cons_append, annotateRange_snd_cons, annotateRange_snd_cons, ih,
        List.append_assoc, List.length_cons, Nat.add_right_comm first 1, Nat.add_assoc first]

theorem mem_annotateRange_snd_iff {first i : Nat} {entries : List Json} :
    i ∈ (annotateRange index files first entries).2 ↔
      ∃ j entry, i = first + j ∧ entries[j]? = some entry ∧
        (annotate? index files entry).isSome = true := by
  induction entries generalizing first with
  | nil => simp [annotateRange_snd_nil]
  | cons entry entries ih =>
      rw [annotateRange_snd_cons, List.mem_append, ih]
      constructor
      · rintro (hfirst | ⟨j, entry', rfl, hget, hsome⟩)
        · split at hfirst
          · rename_i hsome
            exact ⟨0, entry, List.mem_singleton.mp hfirst, rfl, hsome⟩
          · cases hfirst
        · exact ⟨j + 1, entry', by omega, hget, hsome⟩
      · rintro ⟨j, entry', rfl, hget, hsome⟩
        cases j with
        | zero =>
            left
            rw [← Option.some.inj hget] at hsome
            rw [if_pos hsome]
            exact List.mem_singleton.mpr rfl
        | succ j => exact .inr ⟨j, entry', by omega, hget, hsome⟩

theorem pairwise_annotateRange_snd (first : Nat) (entries : List Json) :
    (annotateRange index files first entries).2.Pairwise (· < ·) := by
  induction entries generalizing first with
  | nil => exact List.Pairwise.nil
  | cons entry entries ih =>
      rw [annotateRange_snd_cons]
      split
      · refine List.pairwise_cons.mpr ⟨?_, ih (first + 1)⟩
        intro i hmem
        obtain ⟨j, _, rfl, -, -⟩ := (mem_annotateRange_snd_iff index files).mp hmem
        omega
      · exact ih (first + 1)

theorem mem_positions_annotateAll_iff {entries : List Json} {i : Nat} :
    i ∈ (annotateAll index files entries).positions ↔
      ∃ entry, entries[i]? = some entry ∧ (annotate? index files entry).isSome = true := by
  refine (mem_annotateRange_snd_iff index files).trans ?_
  simp only [Nat.zero_add]
  constructor
  · rintro ⟨_, entry, rfl, hget, hsome⟩
    exact ⟨entry, hget, hsome⟩
  · rintro ⟨entry, hget, hsome⟩
    exact ⟨i, entry, rfl, hget, hsome⟩

theorem entries_annotateAll (entries : List Json) :
    (annotateAll index files entries).entries = entries.map (annotated index files) :=
  annotateRange_fst index files 0 entries

theorem getElem?_entries_annotateAll (entries : List Json) (i : Nat) :
    (annotateAll index files entries).entries[i]? = entries[i]?.map (annotated index files) := by
  rw [entries_annotateAll, List.getElem?_map]

end

/-- Without a pool every entry is annotated in its place, and the positions of
the entries that have got a source are listed in ascending order. -/
theorem annotate_inTurn (minParallel progressInterval : Nat) (index : PcIndex) (files : FileTable)
    (entries : List Json) :
    ∃ result,
      annotate { pool := none, minParallel, progressInterval } index files (.array entries) =
          .ok result ∧
        List.Forall₂ (Annotates index files) entries result.entries ∧
        result.positions.Pairwise (· < ·) ∧
        (∀ i, i ∈ result.positions ↔
          ∃ entry, entries[i]? = some entry ∧ ∃ e range, Located index files entry e range) ∧
        result.stats.annotated = result.positions.length := by
  refine ⟨annotateAll index files entries, rfl, ?_, ?_, ?_, rfl⟩
  · rw [entries_annotateAll, List.forall₂_map_right_iff]
    exact List.forall₂_same.mpr fun entry _ => annotates_annotated index files entry
  · exact pairwise_annotateRange_snd index files 0 entries
  · intro i
    refine (mem_annotateRange_snd_iff index files).trans ?_
    simp only [isSome_annotate?_iff, Nat.zero_add]
    constructor
    · rintro ⟨_, entry, rfl, hget, hlocated⟩
      exact ⟨entry, hget, hlocated⟩
    · rintro ⟨entry, hget, hlocated⟩
      exact ⟨i, entry, rfl, hget, hlocated⟩

/-- The second entry was recorded at the mapped pc and has a stale source; the first
one was recorded elsewhere. -/
theorem annotate_inTurn_staleSource :
    let e : PcEntry := ⟨⟨0, 4, 0, .regular, 0⟩, 7, 0, 0x5b⟩
    let index : PcIndex := .ofEntries [e]
    let files := FileTable.add ∅ 0 "a.sol" "text"
    let other : Json := .object [("pc", .integer 8)]
    let entry : Json := .object [("op", .string "ADD"), ("pc", .integer 7), ("source", .null)]
    ∃ range result entry' source, Located index files entry e range ∧
      annotate {} index files (.array [other, entry]) = .ok result ∧
      result.entries = [other, entry'] ∧ IsSourceRecord range e source ∧
      Updated entry "source" source entry' ∧ result.positions = [1] := by
  intro e index files other entry
  have hmapped : ∀ {pc e'}, (pc, e') ∈ index.entries → pc = 7 ∧ e' = e := fun hmem =>
    Prod.mk.inj (List.mem_singleton.mp hmem)
  have hentry : ∃ range, Located index files entry e range :=
    ⟨_, ⟨7, ⟨rfl, rfl⟩, List.mem_singleton.mpr rfl⟩, rfl⟩
  have hother : ¬ ∃ e' range, Located index files other e' range := by
    rintro ⟨_, _, ⟨pc, ⟨-, hpc⟩, hmem⟩, -⟩
    cases (hmapped hmem).1
    cases hpc
  obtain ⟨result, hresult, hentries, -, -, -⟩ := annotate_inTurn 4096 100 index files [other, entry]
  have hpositions : result.positions = [1] := by
    rw [← Except.ok.inj hresult]
    rfl
  generalize hresultEntries : result.entries = entries at hentries
  obtain _ | ⟨hfirst, _ | ⟨hsecond, _ | _⟩⟩ := hentries
  cases hfirst with
  | located hlocated => exact absurd ⟨_, _, hlocated⟩ hother
  | passed =>
      cases hsecond with
      | passed hnone => exact absurd ⟨e, hentry⟩ hnone
      | located hlocated hsource hupdated =>
          obtain ⟨pc, -, hmem⟩ := hlocated.mapped
          obtain ⟨-, rfl⟩ := hmapped hmem
          exact ⟨_, result, _, _, hlocated, hresult, hresultEntries, hsource,
            hupdated, hpositions⟩

end EvmSourceMap.Proofs.TraceAnnotation
