import EvmSourceMap.Proofs.CodePartition
import EvmSourceMap.Proofs.MappingBuild
import EvmSourceMap.Proofs.OwnerLookup

namespace EvmSourceMap.Proofs.InstructionOwners

open SourceMap
open CodePartition
open InstructionScan
open MappingBuild
open OwnerLookup
open PcIndexJoin

section

variable {rows : List Row} {code : Bytes} (hfits : code.length < 2 ^ 32)

include hfits

theorem mem_keys_join_iff {k : UInt32} :
    k ∈ (PcIndex.join rows (Instruction.scan code)).keys ↔
      ∃ (i : Nat) (instruction : Instruction), i < rows.length ∧
        (Instruction.scan code)[i]? = some instruction ∧ instruction.pc = k := by
  rw [keys_join (pairwise_scan (Nat.le_of_lt hfits)), List.mem_map]
  constructor
  · rintro ⟨instruction, hmem, hpc⟩
    obtain ⟨i, hi⟩ := List.getElem?_of_mem hmem
    rw [List.getElem?_take, Option.ite_none_right_eq_some] at hi
    exact ⟨i, instruction, hi.1, hi.2, hpc⟩
  · rintro ⟨i, instruction, hi, hinstruction, hpc⟩
    refine ⟨instruction, List.mem_of_getElem? (i := i) ?_, hpc⟩
    rw [List.getElem?_take_of_lt hi, hinstruction]

/-- No key lies outside the code, and so the greatest pc of all is none. -/
theorem key_lt_length {k : UInt32}
    (hk : k ∈ (PcIndex.join rows (Instruction.scan code)).keys) : k.toNat < code.length := by
  obtain ⟨i, instruction, -, hinstruction, rfl⟩ := (mem_keys_join_iff hfits).mp hk
  have hbyte := opcode_scan (Nat.le_of_lt hfits) (List.mem_of_getElem? hinstruction)
  exact (List.getElem?_eq_some_iff.mp hbyte).1

theorem le_of_covers {i j offset : Nat} {a b : Instruction}
    (ha : (Instruction.scan code)[i]? = some a) (hb : (Instruction.scan code)[j]? = some b)
    (hcovers : Covers a offset) (hle : offset ≤ b.pc.toNat) : i ≤ j := by
  apply Nat.le_of_not_lt
  intro hlt
  have hstop := (tiles_scan hfits).stop_le hb ha hlt
  have hfirst := hcovers.1
  rw [stop] at hstop
  omega

section

variable {i : Nat} {row : Row} {instruction : Instruction} {pc : UInt32}
  (hinstruction : (Instruction.scan code)[i]? = some instruction)
  (hcovers : Covers instruction pc.toNat)

include hinstruction hcovers

theorem exists_row_of_covers
    (hlast : ∃ k ∈ (PcIndex.join rows (Instruction.scan code)).keys, pc ≤ k) :
    ∃ row, rows[i]? = some row := by
  obtain ⟨k, hk, hle⟩ := hlast
  obtain ⟨j, b, hj, hb, rfl⟩ := (mem_keys_join_iff hfits).mp hk
  have hij := le_of_covers hfits hinstruction hb hcovers (UInt32.le_iff_toNat_le.mp hle)
  exact ⟨_, List.getElem?_eq_getElem (Nat.lt_of_le_of_lt hij hj)⟩

theorem owner?_join (hrow : rows[i]? = some row)
    (hlast : ∃ k ∈ (PcIndex.join rows (Instruction.scan code)).keys, pc ≤ k) :
    (PcIndex.join rows (Instruction.scan code)).owner? pc =
      some (PcEntry.ofRow i row instruction) := by
  have hascending := pairwise_scan (Nat.le_of_lt hfits)
  have hle : instruction.pc ≤ pc := UInt32.le_iff_toNat_le.mpr hcovers.1
  have hkey : instruction.pc ∈ (PcIndex.join rows (Instruction.scan code)).keys :=
    (mem_keys_join_iff hfits).mpr
      ⟨i, instruction, (List.getElem?_eq_some_iff.mp hrow).1, hinstruction, rfl⟩
  refine owner?_eq_some_iff.mpr ⟨⟨⟨_, hkey, hle⟩, hlast⟩, instruction.pc,
    find?_join hascending hrow hinstruction, hle, fun k hk hbelow => ?_⟩
  obtain ⟨j, b, -, hb, rfl⟩ := (mem_keys_join_iff hfits).mp hk
  -- a later instruction would start behind the bytes of this one
  apply UInt32.not_lt.mp
  intro hlt
  rw [UInt32.lt_iff_toNat_lt] at hlt
  rw [UInt32.le_iff_toNat_le] at hbelow
  have hcovers' : Covers instruction b.pc.toNat :=
    ⟨Nat.le_of_lt hlt, Nat.lt_of_le_of_lt hbelow hcovers.2⟩
  rw [(tiles_scan hfits).eq_of_covers hinstruction hb hcovers' (covers_pc b)] at hlt
  exact Nat.lt_irrefl _ hlt

theorem find?_join_of_operand (hlt : instruction.pc < pc) :
    (PcIndex.join rows (Instruction.scan code)).find? pc = none := by
  apply find?_join_eq_none
  rintro other hmem rfl
  obtain ⟨j, hj⟩ := List.getElem?_of_mem (List.mem_of_mem_take hmem)
  rw [(tiles_scan hfits).eq_of_covers hinstruction hj hcovers (covers_pc other)] at hlt
  exact UInt32.lt_irrefl _ hlt

end

end

/-- Up to the last mapped instruction every pc belongs to the one instruction
that has its byte, and only the first byte of an instruction has an entry. -/
theorem owner_of_buildWith (pool : Option TaskPool) {bytecode sourceMap : Bytes}
    {mapping : Mapping} (hbuild : Mapping.buildWith pool bytecode sourceMap = .ok mapping)
    (hcode : mapping.codeLength < 2 ^ 32) :
    (∀ pc : UInt32, (∃ last ∈ mapping.index.keys, pc ≤ last) →
      ∃ (i : Nat) (instruction : Instruction) (e : PcEntry),
        mapping.code[i]? = some instruction ∧ Covers instruction pc.toNat ∧
        (∀ (j : Nat) (other : Instruction), mapping.code[j]? = some other →
          Covers other pc.toNat → j = i) ∧
        mapping.index.owner? pc = some e ∧ e.ordinal.toNat = i ∧
        mapping.index.find? instruction.pc = some e ∧
        (pc = instruction.pc → mapping.index.find? pc = mapping.index.owner? pc) ∧
        (instruction.pc < pc → mapping.index.find? pc = none)) ∧
      ∀ pc : UInt32, (∀ k ∈ mapping.index.keys, k < pc) →
        mapping.index.owner? pc = none ∧ mapping.index.find? pc = none := by
  rw [buildWith_eq_build] at hbuild
  obtain ⟨rows, code, -, -, rfl⟩ := build_eq_ok_iff.mp hbuild
  replace hcode : code.length < 2 ^ 32 := hcode
  constructor
  · intro pc hlast
    have hinside : pc.toNat < code.length := by
      obtain ⟨last, hmem, hle⟩ := hlast
      exact Nat.lt_of_le_of_lt (UInt32.le_iff_toNat_le.mp hle) (key_lt_length hcode hmem)
    obtain ⟨i, instruction, hinstruction, hcovers⟩ :=
      (tiles_scan hcode).exists_covers (Nat.zero_le _) hinside
    obtain ⟨row, hrow⟩ := exists_row_of_covers hcode hinstruction hcovers hlast
    have howner := owner?_join hcode hinstruction hcovers hrow hlast
    have hfind := find?_join (pairwise_scan (Nat.le_of_lt hcode)) hrow hinstruction
    refine ⟨i, instruction, PcEntry.ofRow i row instruction, hinstruction, hcovers, ?_, howner,
      (describes_ofRow hcode hinstruction).ordinal, hfind, ?_,
      find?_join_of_operand hcode hinstruction hcovers⟩
    · exact fun j other hother hcovers' =>
        (tiles_scan hcode).covers_unique hother hinstruction hcovers' hcovers
    · rintro rfl
      exact hfind.trans howner.symm
  · intro pc habove
    refine ⟨owner?_eq_none_of_gt habove, ?_⟩
    rw [← Option.not_isSome_iff_eq_none, Option.isSome_iff_exists, exists_find?_iff]
    exact fun hmem => UInt32.lt_irrefl pc (habove pc hmem)

/-- The operand byte at 1 belongs to the first push. The second push is the last
one that is mapped, and its operand byte at 3 has no owner. -/
theorem owner_of_buildWith_pushes :
    let mapping := Mapping.ofParts [⟨⟨5, 9, 1, .into, 0⟩, 0⟩, ⟨⟨5, 3, 1, .into, 0⟩, 1⟩]
      [0x60, 0x01, 0x60, 0x02, 0x5b]
    Mapping.buildWith none "0x600160025b" "5:9:1:i;:3" = .ok mapping ∧
      mapping.codeLength < 2 ^ 32 ∧ (∃ last ∈ mapping.index.keys, 1 ≤ last) ∧
      (∃ e, mapping.index.owner? 1 = some e ∧ e.length = 9) ∧
      mapping.index.find? 1 = none ∧ (∀ k ∈ mapping.index.keys, k < 3) ∧
      mapping.index.owner? 3 = none := by
  intro mapping
  have hbuild : Mapping.buildWith none "0x600160025b" "5:9:1:i;:3" = .ok mapping := rfl
  have hcode : mapping.code =
      [⟨0, 0, 0x60, 1, false⟩, ⟨1, 2, 0x60, 1, false⟩, ⟨2, 4, 0x5b, 0, false⟩] := by
    decide +kernel
  have hkeys : mapping.index.keys = [0, 2] := by decide +kernel
  have hlast : ∃ last ∈ mapping.index.keys, 1 ≤ last := by simp [hkeys]
  have habove : ∀ k ∈ mapping.index.keys, k < 3 := by simp [hkeys]
  have hfind : mapping.index.find? 0 = some ⟨⟨5, 9, 1, .into, 0⟩, 0, 0, 0x60⟩ := by
    decide +kernel
  obtain ⟨hup, hbeyond⟩ := owner_of_buildWith none hbuild (by decide)
  obtain ⟨i, instruction, e, hinstruction, hcovers, hunique, howner, -, hentry, -, hoperand⟩ :=
    hup 1 hlast
  obtain rfl : 0 = i := hunique 0 ⟨0, 0, 0x60, 1, false⟩ (by rw [hcode]; rfl) ⟨by decide, by decide⟩
  obtain rfl : ⟨0, 0, 0x60, 1, false⟩ = instruction := by
    rw [hcode] at hinstruction
    exact Option.some.inj hinstruction
  obtain rfl := Option.some.inj (hfind.symm.trans hentry)
  exact ⟨hbuild, by decide, hlast, ⟨_, howner, rfl⟩, hoperand (by decide), habove,
    (hbeyond 3 habove).1⟩

end EvmSourceMap.Proofs.InstructionOwners
