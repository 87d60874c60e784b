import EvmSourceMap.Proofs.InstructionScan
import Mathlib.Logic.ExistsUnique

namespace EvmSourceMap.Proofs.CodePartition

open InstructionScan

/-- The offset behind the last byte of an instruction. -/
def stop (instruction : Instruction) : Nat :=
  instruction.pc.toNat + 1 + instruction.operandLength.toNat

/-- The byte at the offset is the opcode or an operand byte of the instruction. -/
def Covers (instruction : Instruction) (offset : Nat) : Prop :=
  instruction.pc.toNat ≤ offset ∧ offset < stop instruction

theorem covers_pc (instruction : Instruction) : Covers instruction instruction.pc.toNat := by
  rw [Covers, stop]
  omega

/-- The instructions lie one behind the other, from one offset to another. -/
def Tiles (first last : Nat) : List Instruction → Prop
  | [] => first = last
  | instruction :: rest => instruction.pc.toNat = first ∧ Tiles (stop instruction) last rest

theorem stop_located (ordinal : Nat) {pc : Nat} (op : Opcode) {available : Nat}
    (hfits : pc + 1 + available < 2 ^ 32) :
    (located ordinal pc op available).pc.toNat = pc ∧
      stop (located ordinal pc op available) =
        pc + 1 + min (Opcode.operandLength op) available := by
  have hpc : (located ordinal pc op available).pc.toNat = pc :=
    toNat_pc_located ordinal op available (by omega)
  refine ⟨hpc, ?_⟩
  rw [stop, hpc]
  simp only [located, UInt32.toNat_ofNat']
  omega

theorem tiles_scanFrom (ordinal : Nat) {pc : Nat} {code : Bytes}
    (hfits : pc + code.length < 2 ^ 32) :
    Tiles pc (pc + code.length) (Instruction.scanFrom ordinal pc code) := by
  induction code using scan_induction generalizing ordinal pc with
  | nil => simp [Instruction.scanFrom, Tiles]
  | cons op rest ih =>
      rw [List.length_cons] at hfits ⊢
      have hbytes : pc + 1 + rest.length < 2 ^ 32 := by omega
      obtain ⟨hpc, hstop⟩ := stop_located ordinal op hbytes
      rw [scanFrom_cons, Tiles, hstop]
      refine ⟨hpc, ?_⟩
      -- an operand that is cut off reaches to the end, and nothing comes after it
      obtain ⟨hcut, hnil⟩ | ⟨hwhole, hend⟩ := drop_operand_cases pc op rest
      · rw [hnil, Instruction.scanFrom, Tiles]
        omega
      · have htail := ih (ordinal + 1) (hend.symm ▸ hfits)
        rw [hend] at htail
        rwa [Nat.min_eq_left hwhole]

section

variable {first last : Nat} {instructions : List Instruction} (h : Tiles first last instructions)

include h

theorem Tiles.le : first ≤ last := by
  induction instructions generalizing first with
  | nil => exact Nat.le_of_eq h
  | cons instruction rest ih =>
      have hrest := ih h.2
      rw [stop, h.1] at hrest
      omega

theorem Tiles.within {instruction : Instruction} (hmem : instruction ∈ instructions) :
    first ≤ instruction.pc.toNat ∧ stop instruction ≤ last := by
  induction instructions generalizing first with
  | nil => cases hmem
  | cons a rest ih =>
      rcases List.mem_cons.mp hmem with rfl | hrest
      · exact ⟨Nat.le_of_eq h.1.symm, h.2.le⟩
      · obtain ⟨hfirst, hlast⟩ := ih h.2 hrest
        have hstop : first ≤ stop a := by
          rw [stop, h.1]
          omega
        exact ⟨Nat.le_trans hstop hfirst, hlast⟩

theorem Tiles.pairwise : instructions.Pairwise fun a b => stop a ≤ b.pc.toNat := by
  induction instructions generalizing first with
  | nil => exact List.Pairwise.nil
  | cons instruction rest ih =>
      exact List.pairwise_cons.mpr ⟨fun b hb => (h.2.within hb).1, ih h.2⟩

theorem Tiles.next {i : Nat} {a b : Instruction} (ha : instructions[i]? = some a)
    (hb : instructions[i + 1]? = some b) : b.pc.toNat = stop a := by
  induction instructions generalizing first i with
  | nil => cases ha
  | cons instruction rest ih =>
      cases i with
      | zero =>
          cases rest with
          | nil => cases hb
          | cons next rest =>
              cases ha
              cases hb
              exact h.2.1
      | succ i => exact ih h.2 ha hb

theorem Tiles.stop_getLast? {a : Instruction} (ha : instructions.getLast? = some a) :
    stop a = last := by
  induction instructions generalizing first with
  | nil => cases ha
  | cons instruction rest ih =>
      cases rest with
      | nil =>
          cases ha
          exact h.2
      | cons next rest => exact ih h.2 ha

theorem Tiles.exists_covers {offset : Nat} (hfirst : first ≤ offset) (hlast : offset < last) :
    ∃ (i : Nat) (instruction : Instruction),
      instructions[i]? = some instruction ∧ Covers instruction offset := by
  induction instructions generalizing first with
  | nil =>
      rw [Tiles] at h
      omega
  | cons instruction rest ih =>
      by_cases hstop : offset < stop instruction
      · exact ⟨0, instruction, rfl, h.1.symm ▸ hfirst, hstop⟩
      · obtain ⟨i, a, ha, hcovers⟩ := ih h.2 (Nat.le_of_not_lt hstop)
        exact ⟨i + 1, a, ha, hcovers⟩

theorem Tiles.stop_le {i j : Nat} {a b : Instruction} (ha : instructions[i]? = some a)
    (hb : instructions[j]? = some b) (hlt : i < j) : stop a ≤ b.pc.toNat := by
  obtain ⟨hi, rfl⟩ := List.getElem?_eq_some_iff.mp ha
  obtain ⟨hj, rfl⟩ := List.getElem?_eq_some_iff.mp hb
  exact List.pairwise_iff_getElem.mp h.pairwise i j hi hj hlt

theorem Tiles.covers_unique {i j offset : Nat} {a b : Instruction}
    (ha : instructions[i]? = some a) (hb : instructions[j]? = some b) (hcovers : Covers a offset)
    (hcovers' : Covers b offset) : i = j := by
  have hstop := hcovers.2
  have hstop' := hcovers'.2
  rcases Nat.lt_trichotomy i j with hlt | heq | hlt
  · have hle := Nat.le_trans (h.stop_le ha hb hlt) hcovers'.1
    omega
  · exact heq
  · have hle := Nat.le_trans (h.stop_le hb ha hlt) hcovers.1
    omega

theorem Tiles.eq_of_covers {i j offset : Nat} {a b : Instruction}
    (ha : instructions[i]? = some a) (hb : instructions[j]? = some b) (hcovers : Covers a offset)
    (hcovers' : Covers b offset) : a = b := by
  obtain rfl := h.covers_unique ha hb hcovers hcovers'
  exact Option.some.inj (ha.symm.trans hb)

end

theorem tiles_scan {code : Bytes} (hfits : code.length < 2 ^ 32) :
    Tiles 0 code.length (Instruction.scan code) := by
  have hbytes : 0 + code.length < 2 ^ 32 := by omega
  have htiles := tiles_scanFrom 0 hbytes
  rwa [Nat.zero_add] at htiles

/-- `k` operand bytes belong to the `k`-th opcode after `5f`, up to 32, and none
to any other. -/
def Takes (op : Opcode) (k : Nat) : Prop :=
  if 0x5f < op.toNat ∧ op.toNat ≤ 0x5f + 32 then op.toNat = 0x5f + k else k = 0

theorem takes_operandLength (op : Opcode) : Takes op (Opcode.operandLength op) := by
  have hpush : (0x60 ≤ op && op ≤ 0x7f) = true ↔ 0x5f < op.toNat ∧ op.toNat ≤ 0x5f + 32 := by
    simp only [Bool.and_eq_true, decide_eq_true_eq, UInt8.le_iff_toNat_le]
    exact Iff.rfl
  rw [Takes, Opcode.operandLength]
  by_cases hrange : 0x5f < op.toNat ∧ op.toNat ≤ 0x5f + 32
  · rw [if_pos hrange, if_pos (hpush.mpr hrange)]
    omega
  · rw [if_neg hrange, if_neg (mt hpush.mp hrange)]

theorem operand_scan {code : Bytes} {instruction : Instruction} (hfits : code.length < 2 ^ 32)
    (h : instruction ∈ Instruction.scan code) :
    (instruction.truncated = true ↔ (code.drop (instruction.pc.toNat + 1)).length <
        Opcode.operandLength instruction.opcode) ∧
      instruction.operandLength.toNat = min (Opcode.operandLength instruction.opcode)
        (code.drop (instruction.pc.toNat + 1)).length := by
  obtain ⟨ordinal, offset, op, hbyte, rfl⟩ := exists_located h
  have hoffset := (List.getElem?_eq_some_iff.mp hbyte).1
  rw [Nat.zero_add]
  have hbytes : offset + 1 + (code.length - (offset + 1)) < 2 ^ 32 := by omega
  obtain ⟨hpc, hstop⟩ := stop_located ordinal op hbytes
  rw [stop, hpc] at hstop
  rw [hpc, List.length_drop]
  exact ⟨decide_eq_true_iff, Nat.add_left_cancel hstop⟩

/-- The instructions of some code, as they have to be: numbered in turn, without
a gap and without an overlap from the first byte to the last, and cut off only
where the code ends. -/
structure Partition (code : Bytes) (instructions : List Instruction) : Prop where
  ordinal : ∀ (i : Nat) a, instructions[i]? = some a → a.ordinal.toNat = i
  empty : instructions = [] ↔ code.length = 0
  first : ∀ a, instructions[0]? = some a → a.pc = 0
  next : ∀ (i : Nat) a b, instructions[i]? = some a → instructions[i + 1]? = some b →
    b.pc.toNat = a.pc.toNat + 1 + a.operandLength.toNat
  last : ∀ a, instructions.getLast? = some a →
    a.pc.toNat + 1 + a.operandLength.toNat = code.length
  opcode : ∀ a ∈ instructions, code[a.pc.toNat]? = some a.opcode
  operand : ∀ a ∈ instructions, ∃ k, Takes a.opcode k ∧
    (a.truncated = true ↔ (code.drop (a.pc.toNat + 1)).length < k) ∧
      (a.truncated = false → a.operandLength.toNat = k)
  truncated : ∀ (i : Nat) a, instructions[i]? = some a → a.truncated = true →
    i + 1 = instructions.length
  byte : ∀ offset, offset < code.length →
    ∃! i : Nat, ∃ a, instructions[i]? = some a ∧ a.pc.toNat ≤ offset ∧
      offset < a.pc.toNat + 1 + a.operandLength.toNat

theorem scan_eq_nil_iff {code : Bytes} : Instruction.scan code = [] ↔ code.length = 0 := by
  cases code with
  | nil => simp [Instruction.scan, Instruction.scanFrom]
  | cons op rest => simp [Instruction.scan, scanFrom_cons]

theorem length_scan_of_truncated {code : Bytes} (hfits : code.length < 2 ^ 32) {i : Nat}
    {a : Instruction} (ha : (Instruction.scan code)[i]? = some a) (hcut : a.truncated = true) :
    i + 1 = (Instruction.scan code).length := by
  obtain ⟨hi, -⟩ := List.getElem?_eq_some_iff.mp ha
  obtain ⟨hshort, hlength⟩ := operand_scan hfits (List.mem_of_getElem? ha)
  apply Nat.le_antisymm hi
  apply Nat.le_of_not_lt
  intro hlt
  -- a next instruction would have its opcode behind the last byte
  have hnext := (tiles_scan hfits).next ha (List.getElem?_eq_getElem hlt)
  have hbyte := opcode_scan (Nat.le_of_lt hfits) (List.getElem_mem hlt)
  have hinside := (List.getElem?_eq_some_iff.mp hbyte).1
  rw [Nat.min_eq_right (Nat.le_of_lt (hshort.mp hcut)), List.length_drop] at hlength
  rw [hnext, stop] at hinside
  omega

theorem partition_scan {code : Bytes} (hfits : code.length < 2 ^ 32) :
    Partition code (Instruction.scan code) where
  ordinal _ _ h := ordinal_scan (Nat.le_of_lt hfits) h
  empty := scan_eq_nil_iff
  first a ha := by
    cases code with
    | nil => simp [Instruction.scan, Instruction.scanFrom] at ha
    | cons op rest =>
        rw [Instruction.scan, scanFrom_cons] at ha
        cases ha
        rfl
  next _ _ _ ha hb := (tiles_scan hfits).next ha hb
  last _ ha := (tiles_scan hfits).stop_getLast? ha
  opcode _ h := opcode_scan (Nat.le_of_lt hfits) h
  operand a h := by
    obtain ⟨hshort, hlength⟩ := operand_scan hfits h
    refine ⟨_, takes_operandLength a.opcode, hshort, fun hwhole => ?_⟩
    rw [hlength]
    apply Nat.min_eq_left
    apply Nat.le_of_not_lt
    rw [← hshort, hwhole]
    exact Bool.false_ne_true
  truncated _ _ ha hcut := length_scan_of_truncated hfits ha hcut
  byte offset hoffset := by
    have htiles := tiles_scan hfits
    obtain ⟨i, a, ha, hcovers⟩ := htiles.exists_covers (Nat.zero_le offset) hoffset
    refine ⟨i, ⟨a, ha, hcovers⟩, ?_⟩
    rintro j ⟨b, hb, hcovers'⟩
    exact htiles.covers_unique hb ha hcovers' hcovers

/-- A push, a stop and a push that is cut off: the byte at offset 4 belongs to
the last one. -/
theorem partition_scan_cutOff :
    let code : Bytes := [0x60, 0x01, 0x00, 0x61, 0x05]
    code.length < 2 ^ 32 ∧
      Instruction.scan code = [⟨0, 0, 0x60, 1, false⟩, ⟨1, 2, 0x00, 0, false⟩,
        ⟨2, 3, 0x61, 1, true⟩] ∧
      Partition code (Instruction.scan code) ∧
      ∃! i : Nat, ∃ a, (Instruction.scan code)[i]? = some a ∧ a.pc.toNat ≤ 4 ∧
        4 < a.pc.toNat + 1 + a.operandLength.toNat := by
  intro code
  have hpartition : Partition code (Instruction.scan code) := partition_scan (by decide)
  exact ⟨by decide, by decide +kernel, hpartition, hpartition.byte 4 (by decide)⟩

end EvmSourceMap.Proofs.CodePartition
