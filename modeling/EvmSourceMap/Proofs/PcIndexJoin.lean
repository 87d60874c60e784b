import EvmSourceMap.PcIndex.Join
import EvmSourceMap.Proofs.SortedMapLookup

namespace EvmSourceMap.Proofs.PcIndexJoin

open SourceMap
open SortedMapLookup

theorem map_snd_zip_eq_take {α β : Type} (as : List α) (bs : List β) :
    (as.zip bs).map Prod.snd = bs.take as.length := by
  induction as generalizing bs with
  | nil => rfl
  | cons a as ih =>
      cases bs with
      | nil => rfl
      | cons b bs => simp [ih]

theorem map_pc_zip (rows : List Row) (code : List Instruction) :
    (rows.zip code).map (·.2.pc) = (code.take rows.length).map (·.pc) := by
  rw [← map_snd_zip_eq_take, List.map_map]
  rfl

theorem length_joinedEntries (rows : List Row) (code : List Instruction) :
    (PcIndex.joinedEntries rows code).length = min rows.length code.length := by
  simp [PcIndex.joinedEntries]

theorem getElem?_joinedEntries_eq_some_iff {rows : List Row} {code : List Instruction} {i : Nat}
    {e : PcEntry} :
    (PcIndex.joinedEntries rows code)[i]? = some e ↔
      ∃ row instruction, rows[i]? = some row ∧ code[i]? = some instruction ∧
        PcEntry.ofRow i row instruction = e := by
  simp only [PcIndex.joinedEntries, List.getElem?_map, List.getElem?_zipIdx, Option.map_map,
    Option.map_eq_some_iff, List.getElem?_zip_eq_some, Prod.exists, Nat.zero_add]
  constructor
  · rintro ⟨row, instruction, ⟨hrow, hcode⟩, he⟩
    exact ⟨row, instruction, hrow, hcode, he⟩
  · rintro ⟨row, instruction, hrow, hcode, he⟩
    exact ⟨row, instruction, ⟨hrow, hcode⟩, he⟩

theorem pc_joinedEntries (rows : List Row) (code : List Instruction) :
    (PcIndex.joinedEntries rows code).map (·.pc) = (code.take rows.length).map (·.pc) := by
  calc
    _ = ((rows.zip code).zipIdx.map Prod.fst).map (·.2.pc) := by
      simp only [PcIndex.joinedEntries, List.map_map]
      rfl
    _ = (rows.zip code).map (·.2.pc) := by rw [List.zipIdx_map_fst]
    _ = _ := map_pc_zip rows code

theorem entries_join_of_pairwise {rows : List Row} {code : List Instruction}
    (h : ((PcIndex.joinedEntries rows code).map (·.pc)).Pairwise (· < ·)) :
    (PcIndex.join rows code).entries =
      (PcIndex.joinedEntries rows code).map fun e => (e.pc, e) := by
  apply entries_ofListFirst
  exact List.pairwise_map.mpr ((List.pairwise_map.mp h).imp Std.compare_eq_lt.mpr)

theorem entries_join {rows : List Row} {code : List Instruction}
    (h : code.Pairwise fun a b => a.pc < b.pc) :
    (PcIndex.join rows code).entries =
      (PcIndex.joinedEntries rows code).map fun e => (e.pc, e) := by
  apply entries_join_of_pairwise
  rw [pc_joinedEntries]
  exact List.pairwise_map.mpr (h.sublist (List.take_sublist _ _))

theorem keys_join {rows : List Row} {code : List Instruction}
    (h : code.Pairwise fun a b => a.pc < b.pc) :
    (PcIndex.join rows code).keys = (code.take rows.length).map (·.pc) := by
  rw [SortedMap.keys, entries_join h, List.map_map, ← pc_joinedEntries]
  rfl

theorem size_join {rows : List Row} {code : List Instruction}
    (h : code.Pairwise fun a b => a.pc < b.pc) :
    (PcIndex.join rows code).size = min rows.length code.length := by
  rw [SortedMap.size, entries_join h, List.length_map, length_joinedEntries]

theorem find?_join_eq_some_iff {rows : List Row} {code : List Instruction}
    (h : code.Pairwise fun a b => a.pc < b.pc) {pc : UInt32} {e : PcEntry} :
    PcIndex.find? (PcIndex.join rows code) pc = some e ↔
      ∃ i : Nat, (PcIndex.joinedEntries rows code)[i]? = some e ∧ e.pc = pc := by
  constructor
  · intro hfind
    have hmem := mem_of_get? hfind
    rw [entries_join h] at hmem
    obtain ⟨e', he', heq⟩ := List.mem_map.mp hmem
    obtain ⟨rfl, rfl⟩ := Prod.mk.inj heq
    obtain ⟨i, hi⟩ := List.getElem?_of_mem he'
    exact ⟨i, hi, rfl⟩
  · rintro ⟨i, hi, rfl⟩
    apply get?_of_mem (PcIndex.join rows code).ascending
    rw [entries_join h]
    exact List.mem_map.mpr ⟨e, List.mem_of_getElem? hi, rfl⟩

theorem find?_join {rows : List Row} {code : List Instruction} {i : Nat} {row : Row}
    {instruction : Instruction} (h : code.Pairwise fun a b => a.pc < b.pc)
    (hrow : rows[i]? = some row) (hinstruction : code[i]? = some instruction) :
    PcIndex.find? (PcIndex.join rows code) instruction.pc =
      some (PcEntry.ofRow i row instruction) := by
  refine (find?_join_eq_some_iff h).mpr ⟨i, ?_, rfl⟩
  exact getElem?_joinedEntries_eq_some_iff.mpr ⟨row, instruction, hrow, hinstruction, rfl⟩

theorem find?_join_eq_none {rows : List Row} {code : List Instruction} {pc : UInt32}
    (h : ∀ instruction ∈ code.take rows.length, instruction.pc ≠ pc) :
    PcIndex.find? (PcIndex.join rows code) pc = none := by
  change (SortedMap.ofListFirst _).get? pc = none
  rw [get?_ofListFirst, get?_eq_none_iff]
  intro e hmem
  obtain ⟨e', he', heq⟩ := List.mem_map.mp hmem
  have hpc : pc ∈ (PcIndex.joinedEntries rows code).map (·.pc) :=
    List.mem_map.mpr ⟨e', he', (Prod.mk.inj heq).1⟩
  rw [pc_joinedEntries] at hpc
  obtain ⟨instruction, hinstruction, heq⟩ := List.mem_map.mp hpc
  exact h instruction hinstruction heq

theorem joinFaultsFrom_eq_nil {position : Nat} {previous : Option UInt32}
    {pairs : List (Row × Instruction)}
    (hnumbers : ∀ i row instruction, pairs[i]? = some (row, instruction) →
      row.ordinal.toNat = position + i ∧ instruction.ordinal.toNat = position + i)
    (hascending : (previous.toList ++ pairs.map (·.2.pc)).Pairwise (· < ·)) :
    PcIndex.joinFaultsFrom position previous pairs = [] := by
  induction pairs generalizing position previous with
  | nil => rfl
  | cons pair rest ih =>
      rcases pair with ⟨row, instruction⟩
      obtain ⟨hrow, hinstruction⟩ := hnumbers 0 row instruction rfl
      have hprevious : previous.all (fun pc => decide (pc < instruction.pc)) = true := by
        cases previous with
        | none => rfl
        | some pc =>
            have hlt := (List.pairwise_cons.mp hascending).1 instruction.pc (by simp)
            simpa using hlt
      have hrest : PcIndex.joinFaultsFrom (position + 1) (some instruction.pc) rest = [] := by
        apply ih
        · intro i row' instruction' hi
          have hnumber := hnumbers (i + 1) row' instruction' hi
          omega
        · exact (List.pairwise_append.mp hascending).2.1
      simp only [PcIndex.joinFaultsFrom]
      rw [hrow, hinstruction, hprevious, hrest]
      simp

theorem joinFaults_eq_nil {rows : List Row} {code : List Instruction}
    (hrows : ∀ (i : Nat) row, rows[i]? = some row → row.ordinal.toNat = i)
    (hcode : ∀ (i : Nat) instruction, code[i]? = some instruction →
      instruction.ordinal.toNat = i)
    (hascending : code.Pairwise fun a b => a.pc < b.pc) :
    PcIndex.joinFaults rows code = [] := by
  apply joinFaultsFrom_eq_nil
  · intro i row instruction hpair
    obtain ⟨hrow, hinstruction⟩ := List.getElem?_zip_eq_some.mp hpair
    rw [Nat.zero_add]
    exact ⟨hrows i row hrow, hcode i instruction hinstruction⟩
  · rw [Option.toList_none, List.nil_append, map_pc_zip]
    exact List.pairwise_map.mpr (hascending.sublist (List.take_sublist _ _))

end EvmSourceMap.Proofs.PcIndexJoin
