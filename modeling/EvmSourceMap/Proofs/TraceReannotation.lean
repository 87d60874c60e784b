import EvmSourceMap.Proofs.TraceChunks

namespace EvmSourceMap.Proofs.TraceReannotation

open Trace
open JsonMembers
open TraceAnnotation
open TraceChunks

section

variable (index : PcIndex) (files : FileTable)

theorem source?_set (entry source : Json) :
    source? index files (entry.set "source" source) = source? index files entry := by
  have hpc : pc? (entry.set "source" source) = pc? entry := by
    rw [pc?, get?_set_of_ne (by decide), pc?]
  rw [source?, hpc, source?]

theorem annotate?_annotated (entry : Json) :
    annotate? index files (annotated index files entry) = annotate? index files entry := by
  cases hsource : source? index files entry with
  | none =>
      have hnone : annotate? index files entry = none := by rw [annotate?, hsource, Option.map_none]
      rw [annotated, hnone, Option.getD_none, hnone]
  | some source =>
      have hsome : annotate? index files entry = some (entry.set "source" source) := by
        rw [annotate?, hsource, Option.map_some]
      rw [annotated, hsome, Option.getD_some, annotate?, source?_set, hsource, Option.map_some,
        set_set]

theorem annotated_annotated (entry : Json) :
    annotated index files (annotated index files entry) = annotated index files entry := by
  rw [annotated, annotate?_annotated, annotated]
  cases annotate? index files entry <;> rfl

theorem annotateRange_map_annotated (first : Nat) (entries : List Json) :
    annotateRange index files first (entries.map (annotated index files)) =
      annotateRange index files first entries := by
  apply Prod.ext
  · rw [annotateRange_fst, annotateRange_fst, List.map_map]
    exact List.map_congr_left fun entry _ => annotated_annotated index files entry
  · induction entries generalizing first with
    | nil => rfl
    | cons entry entries ih =>
        rw [List.map_cons, annotateRange_snd_cons, annotateRange_snd_cons, annotate?_annotated, ih]

theorem annotateAll_entries_annotateAll (entries : List Json) :
    annotateAll index files (annotateAll index files entries).entries =
      annotateAll index files entries := by
  rw [annotateAll, entries_annotateAll, annotateRange_map_annotated, ← annotateAll]

theorem getElem?_annotateAll_of_not_mem {entries : List Json} {i : Nat} {entry : Json}
    (hentry : entries[i]? = some entry) (hi : i ∉ (annotateAll index files entries).positions) :
    (annotateAll index files entries).entries[i]? = some entry := by
  have hnone : annotate? index files entry = none := by
    rw [← Option.not_isSome_iff_eq_none]
    exact fun hsome => hi ((mem_positions_annotateAll_iff index files).mpr ⟨entry, hentry, hsome⟩)
  rw [getElem?_entries_annotateAll, hentry, Option.map_some, annotated, hnone, Option.getD_none]

end

/-- Annotating the entries of an annotated trace leaves the same result, with the
same pool or another one and in whatever order it runs its tasks. An entry that
has got no source keeps what it came with, a source of an earlier run included. -/
theorem annotate_again {options again : Options} {entries : List Json}
    (hoptions : options.Suits entries.length) (hagain : again.Suits entries.length)
    (index : PcIndex) (files : FileTable) :
    ∃ result, annotate options index files (.array entries) = .ok result ∧
      annotate again index files (.array result.entries) = .ok result ∧
      ∀ i entry, entries[i]? = some entry → i ∉ result.positions →
        result.entries[i]? = some entry := by
  refine ⟨_, annotate_eq_annotateAll hoptions index files, ?_, ?_⟩
  · have hlength : (annotateAll index files entries).entries.length = entries.length := by
      rw [entries_annotateAll, List.length_map]
    rw [annotate_eq_annotateAll (hlength ▸ hagain), annotateAll_entries_annotateAll]
  · exact fun i entry => getElem?_annotateAll_of_not_mem index files

/-- Two workers annotate first, and nobody but the caller annotates again. The entry
that was recorded elsewhere keeps its stale source. -/
theorem annotate_again_staleSource :
    let pool : TaskPool := ⟨2, fun _ size => ⟨(List.range size).reverse, List.reverse_perm _⟩⟩
    let options : Options := { pool := some pool, minParallel := 0 }
    let index : PcIndex := .ofEntries [⟨⟨0, 4, 0, .regular, 0⟩, 7, 0, 0x5b⟩]
    let files := FileTable.add ∅ 0 "a.sol" "text"
    let stale : Json := .object [("pc", .integer 8), ("source", .string "old")]
    let entries := [.object [("pc", .integer 7)], stale]
    options.Suits entries.length ∧ Options.Suits {} entries.length ∧
      ∃ result, annotate options index files (.array entries) = .ok result ∧
        annotate {} index files (.array result.entries) = .ok result ∧
        result.positions = [0] ∧ result.entries[1]? = some stale := by
  intro pool options index files stale entries
  have hoptions : options.Suits entries.length := suits_of_ne_nil options (List.cons_ne_nil _ _)
  have hagain : Options.Suits {} entries.length := suits_of_ne_nil {} (List.cons_ne_nil _ _)
  obtain ⟨result, hresult, hsame, hpassed⟩ := annotate_again hoptions hagain index files
  have hpositions : result.positions = [0] := by
    rw [annotate_eq_annotateAll hoptions] at hresult
    rw [← Except.ok.inj hresult]
    rfl
  refine ⟨hoptions, hagain, result, hresult, hsame, hpositions, hpassed 1 stale rfl ?_⟩
  rw [hpositions]
  decide

end EvmSourceMap.Proofs.TraceReannotation
