import EvmSourceMap.Proofs.TraceAnnotation

namespace EvmSourceMap.Proofs.TraceChunks

open Trace
open TraceAnnotation

section

variable {workers total : Nat}

theorem chunkFirst_succ (chunk : Nat) :
    chunkFirst workers total (chunk + 1) =
      chunkFirst workers total chunk + chunkSize workers total :=
  Nat.succ_mul chunk (chunkSize workers total)

theorem total_le_chunkFirst (hcount : 0 < chunkCount workers total) :
    total ≤ chunkFirst workers total (chunkCount workers total) := by
  have hmod := Nat.div_add_mod (total + chunkCount workers total - 1) (chunkCount workers total)
  have hlt := Nat.mod_lt (total + chunkCount workers total - 1) hcount
  change total ≤ chunkCount workers total *
    ((total + chunkCount workers total - 1) / chunkCount workers total)
  omega

theorem exists_chunk {count i : Nat} (h : i < chunkFirst workers total count) :
    ∃ chunk < count,
      chunkFirst workers total chunk ≤ i ∧ i < chunkFirst workers total (chunk + 1) := by
  induction count with
  | zero =>
      rw [chunkFirst, Nat.zero_mul] at h
      exact absurd h (Nat.not_lt_zero i)
  | succ count ih =>
      rcases Nat.lt_or_ge i (chunkFirst workers total count) with hbefore | hwithin
      · obtain ⟨chunk, hchunk, hi⟩ := ih hbefore
        exact ⟨chunk, Nat.lt_succ_of_lt hchunk, hi⟩
      · exact ⟨count, Nat.lt_succ_self count, hwithin, h⟩

end

section

variable {target entries : List Json} (hlength : entries.length = target.length)

include hlength

theorem length_overwrite (first count : Nat) :
    (overwrite first ((target.drop first).take count) entries).length = target.length := by
  simp only [overwrite, List.length_append, List.length_take, List.length_drop]
  omega

theorem getElem?_overwrite (first count i : Nat) :
    (overwrite first ((target.drop first).take count) entries)[i]? =
      if first ≤ i ∧ i < first + count then target[i]? else entries[i]? := by
  rcases Nat.lt_or_ge entries.length first with hbehind | hfirst
  · have hrun : (target.drop first).take count = [] := by
      rw [List.drop_eq_nil_of_le (by omega), List.take_nil]
    rw [hrun, overwrite, List.append_nil, List.length_nil, Nat.add_zero, List.take_append_drop]
    split
    · rw [List.getElem?_eq_none (by omega), List.getElem?_eq_none (by omega)]
    · rfl
  · have htake : (entries.take first).length = first := List.length_take_of_le hfirst
    rw [overwrite, List.append_assoc]
    rcases Nat.lt_or_ge i first with hbefore | hwithin
    · rw [if_neg (by omega), List.getElem?_append_left (by omega),
        List.getElem?_take_of_lt hbefore]
    · have hi : first + (i - first) = i := by omega
      rw [List.getElem?_append_right (by omega), htake, List.getElem?_append]
      simp only [List.length_take, List.length_drop, List.getElem?_take, List.getElem?_drop]
      split
      · rw [if_pos (by omega), if_pos (by omega), hi]
      · split
        · rw [List.getElem?_eq_none (by omega), List.getElem?_eq_none (by omega)]
        · congr 1
          omega

end

section

variable (workers : Nat) (index : PcIndex) (files : FileTable) (trace : List Json)

def chunkEntries (chunk : Nat) : List Json :=
  (trace.drop (chunkFirst workers trace.length chunk)).take (chunkSize workers trace.length)

def chunkPositions (chunk : Nat) : List Nat :=
  (annotateRange index files (chunkFirst workers trace.length chunk)
    (chunkEntries workers trace chunk)).2

theorem chunkTask_eq (chunk : Nat) (slots : Slots) :
    chunkTask workers index files trace chunk slots =
      { entries :=
          overwrite (chunkFirst workers trace.length chunk)
            (((trace.map (annotated index files)).drop
              (chunkFirst workers trace.length chunk)).take (chunkSize workers trace.length))
            slots.entries
        positions := slots.positions.set chunk (chunkPositions workers index files trace chunk) } := by
  have hentries :
      (trace.drop (chunkFirst workers trace.length chunk)).take
          (chunkLast workers trace.length chunk - chunkFirst workers trace.length chunk) =
        chunkEntries workers trace chunk := by
    apply List.take_eq_take_iff.mpr
    rw [List.length_drop, chunkLast]
    omega
  simp only [chunkTask, hentries, annotateRange_fst]
  rw [chunkEntries, List.map_take, List.map_drop]
  rfl

/-- The tasks for some chunks are done: the places of these chunks hold what is
to be there in the end. -/
structure Filled (done : Nat → Prop) (slots : Slots) : Prop where
  length_entries : slots.entries.length = trace.length
  entries : ∀ chunk, done chunk → ∀ i, chunkFirst workers trace.length chunk ≤ i →
    i < chunkFirst workers trace.length (chunk + 1) →
    slots.entries[i]? = (trace.map (annotated index files))[i]?
  length_positions : slots.positions.length = chunkCount workers trace.length
  positions : ∀ chunk, done chunk →
    slots.positions[chunk]? = some (chunkPositions workers index files trace chunk)

variable {workers index files trace}

theorem Filled.mono {done done' : Nat → Prop} {slots : Slots}
    (h : Filled workers index files trace done slots) (hdone : ∀ chunk, done' chunk → done chunk) :
    Filled workers index files trace done' slots where
  length_entries := h.length_entries
  entries := fun chunk hchunk => h.entries chunk (hdone chunk hchunk)
  length_positions := h.length_positions
  positions := fun chunk hchunk => h.positions chunk (hdone chunk hchunk)

/-- A task fills the places of its chunk. It may write over places that are
filled, but only with what is there already. -/
theorem Filled.chunkTask {done : Nat → Prop} {slots : Slots} {chunk : Nat}
    (h : Filled workers index files trace done slots)
    (hchunk : chunk < chunkCount workers trace.length) :
    Filled workers index files trace (fun other => other = chunk ∨ done other)
      (chunkTask workers index files trace chunk slots) := by
  have hlength : slots.entries.length = (trace.map (annotated index files)).length := by
    rw [h.length_entries, List.length_map]
  rw [chunkTask_eq]
  refine ⟨?_, ?_, ?_, ?_⟩
  · rw [length_overwrite hlength, List.length_map]
  · intro other hother i hfirst hlast
    rw [getElem?_overwrite hlength]
    split
    · rfl
    · rename_i houtside
      rcases hother with rfl | hdone
      · rw [chunkFirst_succ] at hlast
        exact absurd ⟨hfirst, hlast⟩ houtside
      · exact h.entries other hdone i hfirst hlast
  · rw [List.length_set]
    exact h.length_positions
  · intro other hother
    rw [List.getElem?_set]
    split
    · rename_i hsame
      rw [if_pos (h.length_positions ▸ hchunk), hsame]
    · rename_i hne
      rcases hother with rfl | hdone
      · exact absurd rfl hne
      · exact h.positions other hdone

theorem Filled.foldl {tasks : List Nat} {done : Nat → Prop} {slots : Slots}
    (h : Filled workers index files trace done slots)
    (htasks : ∀ chunk ∈ tasks, chunk < chunkCount workers trace.length) :
    Filled workers index files trace (fun chunk => chunk ∈ tasks ∨ done chunk)
      (tasks.foldl (fun s i => Trace.chunkTask workers index files trace i s) slots) := by
  -- The tasks come in the order in which they run; nothing else depends on it.
  induction tasks generalizing done slots with
  | nil => exact h.mono (by simp)
  | cons task tasks ih =>
      have htask := h.chunkTask (htasks task List.mem_cons_self)
      have hrest := ih htask fun chunk hmem => htasks chunk (List.mem_cons_of_mem _ hmem)
      apply hrest.mono
      rintro chunk (hmem | hdone)
      · rcases List.mem_cons.mp hmem with hsame | hmem
        · exact .inr (.inl hsame)
        · exact .inl hmem
      · exact .inr (.inr hdone)

variable (index files) in
/-- A batch fills the places of all chunks, in whatever order its tasks run. -/
theorem filled_runBatch (order : TaskPool.Order (chunkCount workers trace.length)) :
    Filled workers index files trace (· < chunkCount workers trace.length)
      (TaskPool.runBatch order (Trace.chunkTask workers index files trace)
        { entries := List.replicate trace.length .null
          positions := List.replicate (chunkCount workers trace.length) [] }) := by
  have hempty : Filled workers index files trace (fun _ => False)
      { entries := List.replicate trace.length .null
        positions := List.replicate (chunkCount workers trace.length) [] } :=
    ⟨List.length_replicate, nofun, List.length_replicate, nofun⟩
  have htasks : ∀ chunk, chunk ∈ order.tasks ↔ chunk < chunkCount workers trace.length :=
    fun chunk => order.perm.mem_iff.trans List.mem_range
  exact (hempty.foldl fun chunk => (htasks chunk).mp).mono fun chunk hlt =>
    .inl ((htasks chunk).mpr hlt)

theorem Filled.entries_eq {slots : Slots} (hcount : 0 < chunkCount workers trace.length)
    (h : Filled workers index files trace (· < chunkCount workers trace.length) slots) :
    slots.entries = trace.map (annotated index files) := by
  apply List.ext_getElem?
  intro i
  rcases Nat.lt_or_ge i trace.length with hi | hbehind
  · have hend := Nat.lt_of_lt_of_le hi (total_le_chunkFirst hcount)
    obtain ⟨chunk, hchunk, hfirst, hlast⟩ := exists_chunk hend
    exact h.entries chunk hchunk i hfirst hlast
  · rw [List.getElem?_eq_none (h.length_entries ▸ hbehind), List.getElem?_eq_none (by simpa)]

theorem Filled.positions_eq {slots : Slots}
    (h : Filled workers index files trace (· < chunkCount workers trace.length) slots) :
    slots.positions = (List.range (chunkCount workers trace.length)).map
      (chunkPositions workers index files trace) := by
  apply List.ext_getElem?
  intro chunk
  rcases Nat.lt_or_ge chunk (chunkCount workers trace.length) with hchunk | hbehind
  · rw [h.positions chunk hchunk, List.getElem?_map, List.getElem?_range hchunk]
    rfl
  · rw [List.getElem?_eq_none (h.length_positions ▸ hbehind), List.getElem?_eq_none (by simpa)]

theorem flatten_chunkPositions (count : Nat) :
    ((List.range count).map (chunkPositions workers index files trace)).flatten =
      (annotateRange index files 0 (trace.take (chunkFirst workers trace.length count))).2 := by
  induction count with
  | zero =>
      rw [chunkFirst, Nat.zero_mul]
      rfl
  | succ count ih =>
      rw [List.range_succ, List.map_append, List.flatten_append, ih, chunkFirst_succ, List.take_add,
        annotateRange_snd_append, Nat.zero_add, List.length_take, List.map_singleton,
        List.flatten_singleton]
      congr 1
      rcases Nat.le_total (chunkFirst workers trace.length count) trace.length with hle | hbehind
      · rw [Nat.min_eq_left hle]
        rfl
      · rw [chunkPositions, chunkEntries, List.drop_eq_nil_of_le hbehind, List.take_nil]
        rfl

theorem annotateChunks_eq_annotateAll
    (order : TaskPool.Order (chunkCount workers trace.length))
    (hcount : 0 < chunkCount workers trace.length) :
    annotateChunks workers index files trace order = annotateAll index files trace := by
  have hfilled := filled_runBatch index files order
  have hpositions := hfilled.positions_eq
  simp only [annotateChunks, annotateAll]
  rw [hfilled.entries_eq hcount, hpositions, flatten_chunkPositions,
    List.take_of_length_le (total_le_chunkFirst hcount), annotateRange_fst]

variable (index files) in
theorem entries_annotateChunks_nil (order : TaskPool.Order (chunkCount workers 0)) :
    (annotateChunks workers index files [] order).entries = [] := by
  have hfilled : Filled workers index files [] (· < chunkCount workers 0) _ :=
    filled_runBatch index files order
  exact List.eq_nil_of_length_eq_zero hfilled.length_entries

end

theorem poolFor_eq_some_iff {options : Options} {total : Nat} {pool : TaskPool} :
    options.poolFor total = some pool ↔
      options.pool = some pool ∧ 2 ≤ pool.size ∧ options.minParallel ≤ total := by
  rw [Options.poolFor, Option.filter_eq_some_iff, TaskPool.isParallel, Bool.and_eq_true,
    decide_eq_true_eq, decide_eq_true_eq]
  rfl

theorem suits_of_ne_nil (options : Options) {entries : List Json} (h : entries ≠ []) :
    options.Suits entries.length :=
  fun hlength => absurd (List.eq_nil_of_length_eq_zero hlength) h

theorem suits_default (pool : TaskPool) (total : Nat) :
    Options.Suits { pool := some pool } total := by
  rintro rfl
  rw [Option.eq_none_iff_forall_ne_some]
  intro chosen hchosen
  obtain ⟨-, -, hmin⟩ := poolFor_eq_some_iff.mp hchosen
  cases hmin

/-- The options do not matter for the result. -/
theorem annotate_eq_annotateAll {options : Options} {entries : List Json}
    (h : options.Suits entries.length) (index : PcIndex) (files : FileTable) :
    annotate options index files (.array entries) = .ok (annotateAll index files entries) := by
  rw [annotate]
  split
  · rename_i pool hpool
    obtain ⟨-, hsize, -⟩ := poolFor_eq_some_iff.mp hpool
    have hlength : 0 < entries.length := by
      apply Nat.pos_of_ne_zero
      intro hzero
      cases hpool.symm.trans (h hzero)
    have hcount : 0 < chunkCount pool.size entries.length :=
      Nat.lt_min.mpr ⟨Nat.lt_of_lt_of_le Nat.two_pos hsize, hlength⟩
    rw [annotateChunks_eq_annotateAll _ hcount]
  · rfl

theorem entries_annotate (options : Options) (index : PcIndex) (files : FileTable)
    (entries : List Json) :
    ∃ result, annotate options index files (.array entries) = .ok result ∧
      result.entries = entries.map (annotated index files) := by
  by_cases hentries : entries = []
  · subst hentries
    rw [annotate]
    split
    · exact ⟨_, rfl, entries_annotateChunks_nil index files _⟩
    · exact ⟨_, rfl, rfl⟩
  · exact ⟨_, annotate_eq_annotateAll (suits_of_ne_nil options hentries) index files,
      entries_annotateAll index files entries⟩

/-- A pool leaves the same result as no pool, for every order in which it runs
the tasks. Only a trace without entries that is split all the same is left out,
as it has no chunks. -/
theorem annotate_pool (pool : TaskPool) (minParallel progressInterval : Nat) (index : PcIndex)
    (files : FileTable) (entries : List Json)
    (h : ¬ (entries = [] ∧ minParallel = 0 ∧ 2 ≤ pool.size)) :
    ∃ result,
      annotate { pool := some pool, minParallel, progressInterval } index files (.array entries) =
          .ok result ∧
        annotate { pool := none, minParallel, progressInterval } index files (.array entries) =
          .ok result ∧
        result.positions.Pairwise (· < ·) := by
  refine ⟨annotateAll index files entries, annotate_eq_annotateAll ?_ index files, rfl,
    pairwise_annotateRange_snd index files 0 entries⟩
  intro hlength
  rw [Option.eq_none_iff_forall_ne_some]
  intro chosen hchosen
  obtain ⟨hpool, hsize, hmin⟩ := poolFor_eq_some_iff.mp hchosen
  cases hpool
  rw [hlength] at hmin
  exact h ⟨List.eq_nil_of_length_eq_zero hlength, Nat.le_zero.mp hmin, hsize⟩

/-- Three workers annotate five entries, the last chunk first. The chunks are of
two entries, so that the last one is short. -/
theorem annotate_pool_backwards :
    let pool : TaskPool := ⟨3, fun _ size => ⟨(List.range size).reverse, List.reverse_perm _⟩⟩
    let index : PcIndex := .ofEntries [{ SourceMap.Element.initial with
      length := 4, pc := 7, ordinal := 0, opcode := 0 }]
    let files := FileTable.add ∅ 0 "a.sol" "text"
    let entry : Json := .object [("pc", .integer 7)]
    let entries := [entry, .null, entry, entry, .object []]
    ¬ (entries = [] ∧ 0 = 0 ∧ 2 ≤ pool.size) ∧
      ∃ result,
        annotate { pool := some pool, minParallel := 0 } index files (.array entries) = .ok result ∧
          annotate { pool := none, minParallel := 0 } index files (.array entries) = .ok result ∧
          result.positions = [0, 2, 3] := by
  intro pool index files entry entries
  have h : ¬ (entries = [] ∧ 0 = 0 ∧ 2 ≤ pool.size) := by
    rintro ⟨hnil, -⟩
    exact List.cons_ne_nil _ _ hnil
  refine ⟨h, ?_⟩
  obtain ⟨result, hpooled, hserial, -⟩ := annotate_pool pool 0 100 index files entries h
  refine ⟨result, hpooled, hserial, ?_⟩
  rw [← Except.ok.inj hserial]
  rfl

end EvmSourceMap.Proofs.TraceChunks
