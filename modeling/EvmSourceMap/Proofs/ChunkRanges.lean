import EvmSourceMap.Proofs.TraceChunks
import Mathlib.Algebra.Group.Nat.Defs
import Mathlib.Logic.ExistsUnique

/-!
The ranges of the chunks of a trace: they cut its positions into consecutive runs, their bounds can
be computed in words, and a task writes the places of its own range and no others.
-/

namespace EvmSourceMap.Proofs.ChunkRanges

open Trace
open TraceAnnotation
open TraceChunks

/-- A position lies in the range of a chunk. -/
def InChunk (workers total chunk i : Nat) : Prop :=
  chunkFirst workers total chunk ≤ i ∧ i < chunkLast workers total chunk

/-! ### Bounds in words -/

def wordCount (workers total : UInt64) : UInt64 :=
  min workers total

def wordSize (workers total : UInt64) : UInt64 :=
  (total + wordCount workers total - 1) / wordCount workers total

def wordFirst (workers total chunk : UInt64) : UInt64 :=
  chunk * wordSize workers total

def wordLast (workers total chunk : UInt64) : UInt64 :=
  min total (wordFirst workers total chunk + wordSize workers total)

/-- The bounds of the chunks come out in words as they are, and none of the numbers on the way to
them wraps around. -/
structure FitsWords (workers total : UInt64) : Prop where
  count : (wordCount workers total).toNat = chunkCount workers.toNat total.toNat
  sum : (total + wordCount workers total).toNat =
    total.toNat + chunkCount workers.toNat total.toNat
  dividend : (total + wordCount workers total - 1).toNat =
    total.toNat + chunkCount workers.toNat total.toNat - 1
  size : (wordSize workers total).toNat = chunkSize workers.toNat total.toNat
  first : ∀ chunk : UInt64, chunk < wordCount workers total →
    (wordFirst workers total chunk).toNat = chunkFirst workers.toNat total.toNat chunk.toNat
  next : ∀ chunk : UInt64, chunk < wordCount workers total →
    (wordFirst workers total chunk + wordSize workers total).toNat =
      chunkFirst workers.toNat total.toNat chunk.toNat + chunkSize workers.toNat total.toNat
  last : ∀ chunk : UInt64, chunk < wordCount workers total →
    (wordLast workers total chunk).toNat = chunkLast workers.toNat total.toNat chunk.toNat

/-! ### Ranges -/

section

variable {workers total : Nat}

theorem chunkFirst_mono {chunk chunk' : Nat} (h : chunk ≤ chunk') :
    chunkFirst workers total chunk ≤ chunkFirst workers total chunk' :=
  Nat.mul_le_mul_right _ h

theorem chunkFirst_chunkCount_le :
    chunkFirst workers total (chunkCount workers total) ≤
      total + chunkCount workers total - 1 :=
  Nat.mul_div_le _ _

theorem chunkFirst_add_chunkSize_le {chunk : Nat} (h : chunk < chunkCount workers total) :
    chunkFirst workers total chunk + chunkSize workers total ≤
      total + chunkCount workers total - 1 := by
  rw [← chunkFirst_succ]
  exact Nat.le_trans (chunkFirst_mono h) chunkFirst_chunkCount_le

theorem chunkLast_le_chunkFirst {chunk chunk' : Nat} (h : chunk < chunk') :
    chunkLast workers total chunk ≤ chunkFirst workers total chunk' :=
  calc
    chunkLast workers total chunk ≤
        chunkFirst workers total chunk + chunkSize workers total := Nat.min_le_right _ _
    _ = chunkFirst workers total (chunk + 1) := (chunkFirst_succ chunk).symm
    _ ≤ chunkFirst workers total chunk' := chunkFirst_mono h

theorem not_inChunk_of_lt {chunk chunk' i : Nat} (hlt : chunk < chunk')
    (h : InChunk workers total chunk i) : ¬ InChunk workers total chunk' i := by
  rintro ⟨hfirst, -⟩
  exact absurd (Nat.lt_of_lt_of_le h.2 (chunkLast_le_chunkFirst hlt)) (Nat.not_lt.mpr hfirst)

theorem InChunk.unique {chunk chunk' i : Nat} (h : InChunk workers total chunk i)
    (h' : InChunk workers total chunk' i) : chunk = chunk' := by
  rcases Nat.lt_trichotomy chunk chunk' with hlt | heq | hgt
  · exact absurd h' (not_inChunk_of_lt hlt h)
  · exact heq
  · exact absurd h (not_inChunk_of_lt hgt h')

theorem exists_inChunk (hcount : 0 < chunkCount workers total) {i : Nat} (hi : i < total) :
    ∃ chunk < chunkCount workers total, InChunk workers total chunk i := by
  have hend := Nat.lt_of_lt_of_le hi (total_le_chunkFirst hcount)
  obtain ⟨chunk, hchunk, hfirst, hnext⟩ := exists_chunk hend
  rw [chunkFirst_succ] at hnext
  exact ⟨chunk, hchunk, hfirst, Nat.lt_min.mpr ⟨hi, hnext⟩⟩

theorem not_inChunk_of_lt_chunkFirst {chunk : Nat} (h : total < chunkFirst workers total chunk)
    (i : Nat) : ¬ InChunk workers total chunk i := by
  rintro ⟨hfirst, hlast⟩
  rw [chunkLast] at hlast
  omega

end

/-! ### No wrapping around -/

section

variable {workers total : UInt64} (htotal : 1 ≤ total.toNat) (hfits : total.toNat < 2 ^ 63)

theorem toNat_wordCount :
    (wordCount workers total).toNat = chunkCount workers.toNat total.toNat :=
  UInt64.toNat_min workers total

include hfits in
theorem toNat_sum :
    (total + wordCount workers total).toNat =
      total.toNat + chunkCount workers.toNat total.toNat := by
  have hle : chunkCount workers.toNat total.toNat ≤ total.toNat := Nat.min_le_right _ _
  rw [UInt64.toNat_add, toNat_wordCount, Nat.mod_eq_of_lt (by omega)]

include htotal hfits in
theorem toNat_dividend :
    (total + wordCount workers total - 1).toNat =
      total.toNat + chunkCount workers.toNat total.toNat - 1 := by
  have hsum : (total + wordCount workers total).toNat = _ := toNat_sum hfits
  rw [UInt64.toNat_sub_of_le, hsum]
  · rfl
  · rw [UInt64.le_iff_toNat_le, hsum]
    exact Nat.le_add_right_of_le htotal

include htotal hfits in
theorem toNat_wordSize :
    (wordSize workers total).toNat = chunkSize workers.toNat total.toNat := by
  rw [wordSize, UInt64.toNat_div, toNat_dividend htotal hfits, toNat_wordCount, chunkSize]

include htotal hfits

theorem fitsWords : FitsWords workers total := by
  have hsize : (wordSize workers total).toNat = _ := toNat_wordSize htotal hfits
  have hbound : ∀ chunk : UInt64, chunk < wordCount workers total →
      chunkFirst workers.toNat total.toNat chunk.toNat +
        chunkSize workers.toNat total.toNat < 2 ^ 64 := by
    intro chunk hchunk
    rw [UInt64.lt_iff_toNat_lt, toNat_wordCount] at hchunk
    -- The last chunk ends before twice the length of the trace.
    have hle := chunkFirst_add_chunkSize_le hchunk
    have hcount : chunkCount workers.toNat total.toNat ≤ total.toNat := Nat.min_le_right _ _
    omega
  have hfirst : ∀ chunk : UInt64, chunk < wordCount workers total →
      (wordFirst workers total chunk).toNat =
        chunkFirst workers.toNat total.toNat chunk.toNat := by
    intro chunk hchunk
    have hlt := Nat.lt_of_le_of_lt (Nat.le_add_right _ _) (hbound chunk hchunk)
    rw [wordFirst, UInt64.toNat_mul, hsize]
    exact Nat.mod_eq_of_lt hlt
  have hnext : ∀ chunk : UInt64, chunk < wordCount workers total →
      (wordFirst workers total chunk + wordSize workers total).toNat =
        chunkFirst workers.toNat total.toNat chunk.toNat +
          chunkSize workers.toNat total.toNat := by
    intro chunk hchunk
    rw [UInt64.toNat_add, hfirst chunk hchunk, hsize, Nat.mod_eq_of_lt (hbound chunk hchunk)]
  refine ⟨toNat_wordCount, toNat_sum hfits, toNat_dividend htotal hfits, hsize, hfirst, hnext, ?_⟩
  intro chunk hchunk
  rw [wordLast, UInt64.toNat_min, hnext chunk hchunk, chunkLast]

end

/-! ### Tasks -/

/-- A task puts what becomes of the entries into the places of its range, and leaves the others as
they are. -/
theorem getElem?_entries_chunkTask (workers : Nat) (index : PcIndex) (files : FileTable)
    {trace : List Json} {slots : Slots} (hlength : slots.entries.length = trace.length)
    (chunk i : Nat) :
    (InChunk workers trace.length chunk i →
      (chunkTask workers index files trace chunk slots).entries[i]? =
        (trace.map (annotated index files))[i]?) ∧
    (¬ InChunk workers trace.length chunk i →
      (chunkTask workers index files trace chunk slots).entries[i]? = slots.entries[i]?) := by
  have hsame : slots.entries.length = (trace.map (annotated index files)).length := by
    rw [hlength, List.length_map]
  rw [chunkTask_eq, getElem?_overwrite hsame, InChunk, chunkLast]
  constructor
  · intro hin
    rw [if_pos (by omega)]
  · intro hout
    split
    · -- Only behind the end of the trace does a chunk reach further than its range.
      rw [List.getElem?_eq_none (by omega), List.getElem?_eq_none (by omega)]
    · rfl

/-- For a trace with entries and two workers or more, the ranges of the chunks follow one another,
and every position lies in exactly one of them. The task for a chunk writes the positions in its
range only. -/
theorem chunks_partition {workers total : Nat} (hworkers : 2 ≤ workers) (htotal : 1 ≤ total) :
    (∀ w t : UInt64, w.toNat = workers → t.toNat = total → workers < 2 ^ 63 → total < 2 ^ 63 →
      FitsWords w t) ∧
    (∀ chunk chunk', chunk < chunk' →
      chunkLast workers total chunk ≤ chunkFirst workers total chunk' ∧
      ∀ i, InChunk workers total chunk i → ¬ InChunk workers total chunk' i) ∧
    (∀ i, i < total →
      ∃! chunk, chunk < chunkCount workers total ∧ InChunk workers total chunk i) ∧
    (∀ chunk, total < chunkFirst workers total chunk → ∀ i, ¬ InChunk workers total chunk i) ∧
    ∀ (index : PcIndex) (files : FileTable) (trace : List Json) (slots : Slots),
      trace.length = total → slots.entries.length = total → ∀ chunk i,
        (InChunk workers total chunk i →
          (chunkTask workers index files trace chunk slots).entries[i]? =
            (trace.map (annotated index files))[i]?) ∧
        (¬ InChunk workers total chunk i →
          (chunkTask workers index files trace chunk slots).entries[i]? = slots.entries[i]?) := by
  have hcount : 0 < chunkCount workers total :=
    Nat.lt_min.mpr ⟨Nat.lt_of_lt_of_le Nat.two_pos hworkers, htotal⟩
  refine ⟨?_, ?_, ?_, fun chunk => not_inChunk_of_lt_chunkFirst, ?_⟩
  · rintro w t rfl rfl - hfits
    exact fitsWords htotal hfits
  · intro chunk chunk' hlt
    exact ⟨chunkLast_le_chunkFirst hlt, fun i => not_inChunk_of_lt hlt⟩
  · intro i hi
    obtain ⟨chunk, hchunk, hin⟩ := exists_inChunk hcount hi
    exact ⟨chunk, ⟨hchunk, hin⟩, fun other hother => hother.2.unique hin⟩
  · rintro index files trace slots rfl hlength
    exact getElem?_entries_chunkTask workers index files hlength

/-- Five workers share six entries in chunks of two. The fourth chunk begins at the end of the trace
and the fifth one behind it. -/
theorem chunks_partition_behind :
    2 ≤ 5 ∧ 1 ≤ 6 ∧ chunkFirst 5 6 3 = 6 ∧ chunkFirst 5 6 4 = 8 ∧ FitsWords 5 6 ∧
      (∃! chunk, chunk < 5 ∧ InChunk 5 6 chunk 5) ∧ ∀ i, ¬ InChunk 5 6 4 i := by
  obtain ⟨hwords, -, hunique, hbehind, -⟩ := chunks_partition (by decide : 2 ≤ 5) (by decide : 1 ≤ 6)
  exact ⟨by decide, by decide, rfl, rfl, hwords 5 6 rfl rfl (by decide) (by decide),
    hunique 5 (by decide), hbehind 4 (by decide)⟩

end EvmSourceMap.Proofs.ChunkRanges
