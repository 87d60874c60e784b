import EvmSourceMap.Proofs.CodePartition

namespace EvmSourceMap.Proofs.CodeConcatenation

open CodePartition
open InstructionScan

/-- An instruction with more bytes and more instructions before it. -/
def movedBy (bytes count : Nat) (instruction : Instruction) : Instruction :=
  { instruction with
    pc := .ofNat (instruction.pc.toNat + bytes)
    ordinal := .ofNat (instruction.ordinal.toNat + count) }

theorem ofNat_toNat_add (n more : Nat) :
    UInt32.ofNat ((UInt32.ofNat n).toNat + more) = .ofNat (n + more) := by
  rw [← UInt32.toNat_inj]
  simp

theorem movedBy_located (bytes count ordinal pc : Nat) (op : Opcode) (available : Nat) :
    movedBy bytes count (located ordinal pc op available) =
      located (ordinal + count) (pc + bytes) op available := by
  simp only [movedBy, located, ofNat_toNat_add]

/-- The scan of a piece of code does not depend on where the code lies. -/
theorem scanFrom_add (bytes count ordinal pc : Nat) (code : Bytes) :
    Instruction.scanFrom (ordinal + count) (pc + bytes) code =
      (Instruction.scanFrom ordinal pc code).map (movedBy bytes count) := by
  induction code using scan_induction generalizing ordinal pc with
  | nil => rw [Instruction.scanFrom, Instruction.scanFrom, List.map_nil]
  | cons op rest ih =>
      rw [scanFrom_cons, scanFrom_cons, List.map_cons, movedBy_located, ← ih]
      congr 2 <;> omega

theorem scan_append {front : Bytes} (back : Bytes)
    (hwhole : EndsWhole (Instruction.scan front)) :
    Instruction.scan (front ++ back) = Instruction.scan front ++
      (Instruction.scan back).map (movedBy front.length (Instruction.scan front).length) := by
  calc
    _ = Instruction.scan front ++
        Instruction.scanFrom (0 + (Instruction.scan front).length) (0 + front.length) back :=
      scanFrom_append back hwhole
    _ = _ := by rw [scanFrom_add, ← Instruction.scan]

section

variable {front back : Bytes} (hfits : (front ++ back).length < 2 ^ 32)

include hfits

theorem toNat_movedBy {instruction : Instruction} (h : instruction ∈ Instruction.scan back) :
    (movedBy front.length (Instruction.scan front).length instruction).pc.toNat =
        instruction.pc.toNat + front.length ∧
      (movedBy front.length (Instruction.scan front).length instruction).ordinal.toNat =
        instruction.ordinal.toNat + (Instruction.scan front).length := by
  have hback : back.length ≤ 2 ^ 32 := by
    rw [List.length_append] at hfits
    omega
  obtain ⟨i, hi⟩ := List.getElem?_of_mem h
  have hordinal := ordinal_scan hback hi
  have hlt := index_lt_of_scan hi
  have hpc := (List.getElem?_eq_some_iff.mp (opcode_scan hback h)).1
  have hcount : (Instruction.scan front).length ≤ front.length := length_scanFrom_le 0 0 front
  rw [List.length_append] at hfits
  have hpcFits : instruction.pc.toNat + front.length < 2 ^ 32 := by omega
  have hordinalFits :
      instruction.ordinal.toNat + (Instruction.scan front).length < 2 ^ 32 := by omega
  exact ⟨UInt32.toNat_ofNat_of_lt' hpcFits, UInt32.toNat_ofNat_of_lt' hordinalFits⟩

theorem endsWhole_of_scan_append {more : List Instruction}
    (h : Instruction.scan (front ++ back) = Instruction.scan front ++ more) (hmore : more ≠ []) :
    EndsWhole (Instruction.scan front) := by
  intro last hlast
  apply Bool.eq_false_iff.mpr
  intro hcut
  rw [List.getLast?_eq_getElem?] at hlast
  have hinside := (List.getElem?_eq_some_iff.mp hlast).1
  have hwhole : (Instruction.scan (front ++ back))[(Instruction.scan front).length - 1]? =
      some last := by
    rw [h, List.getElem?_append_left hinside, hlast]
  -- an instruction that is cut off is the last one of the whole code
  have hend := length_scan_of_truncated hfits hwhole hcut
  have hpositive : 0 < more.length := List.length_pos_iff.mpr hmore
  rw [h, List.length_append] at hend
  omega

/-- Two pieces of code can be scanned one by one exactly if the first one does
not end inside an instruction: behind it the second one has its own instructions,
moved by the bytes and the instructions of the first one. -/
theorem scan_append_iff :
    (Instruction.scan (front ++ back) = Instruction.scan front ++
        (Instruction.scan back).map (movedBy front.length (Instruction.scan front).length) ↔
      EndsWhole (Instruction.scan front) ∨ back = []) ∧
    ∀ instruction ∈ Instruction.scan back,
      (movedBy front.length (Instruction.scan front).length instruction).pc.toNat =
          instruction.pc.toNat + front.length ∧
        (movedBy front.length (Instruction.scan front).length instruction).ordinal.toNat =
          instruction.ordinal.toNat + (Instruction.scan front).length := by
  refine ⟨⟨fun h => ?_, ?_⟩, fun instruction => toNat_movedBy hfits⟩
  · by_cases hback : back = []
    · exact .inr hback
    · left
      apply endsWhole_of_scan_append hfits h
      rw [ne_eq, List.map_eq_nil_iff, scan_eq_nil_iff, List.length_eq_zero_iff]
      exact hback
  · rintro (hwhole | rfl)
    · exact scan_append back hwhole
    · have hnil : Instruction.scan [] = [] := scan_eq_nil_iff.mpr rfl
      rw [List.append_nil, hnil, List.map_nil, List.append_nil]

end

/-- The operand of the push reaches exactly to the end of the first piece. -/
theorem scan_append_iff_push :
    let front : Bytes := [0x5b, 0x60, 0x61]
    let back : Bytes := [0x61, 0x05]
    (front ++ back).length < 2 ^ 32 ∧ EndsWhole (Instruction.scan front) ∧
      Instruction.scan front = [⟨0, 0, 0x5b, 0, false⟩, ⟨1, 1, 0x60, 1, false⟩] ∧
      Instruction.scan back = [⟨0, 0, 0x61, 1, true⟩] ∧
      Instruction.scan (front ++ back) =
        [⟨0, 0, 0x5b, 0, false⟩, ⟨1, 1, 0x60, 1, false⟩, ⟨2, 3, 0x61, 1, true⟩] := by
  intro front back
  have hfits : (front ++ back).length < 2 ^ 32 := by decide
  have hfront : Instruction.scan front = [⟨0, 0, 0x5b, 0, false⟩, ⟨1, 1, 0x60, 1, false⟩] := by
    decide +kernel
  have hback : Instruction.scan back = [⟨0, 0, 0x61, 1, true⟩] := by decide +kernel
  have hwhole : EndsWhole (Instruction.scan front) := by
    rw [hfront]
    rintro _ ⟨⟩
    rfl
  have happend := (scan_append_iff hfits).1.mpr (.inl hwhole)
  rw [hfront, hback] at happend
  exact ⟨hfits, hwhole, hfront, hback, happend⟩

end EvmSourceMap.Proofs.CodeConcatenation
