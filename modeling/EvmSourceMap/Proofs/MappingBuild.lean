import EvmSourceMap.Mapping
import EvmSourceMap.Proofs.InstructionScan
import EvmSourceMap.Proofs.PcIndexJoin
import EvmSourceMap.Proofs.SourceMapDecoding
import EvmSourceMap.Proofs.TaskBatch

namespace EvmSourceMap.Proofs.MappingBuild

open SourceMap
open ExceptInversion
open InstructionScan
open PcIndexJoin
open SourceMapDecoding
open TaskBatch

theorem readTask_comm (bytecode sourceMap : Bytes) (i j : Nat) (slots : Mapping.Slots) :
    Mapping.readTask bytecode sourceMap i (Mapping.readTask bytecode sourceMap j slots) =
      Mapping.readTask bytecode sourceMap j (Mapping.readTask bytecode sourceMap i slots) := by
  by_cases hi : i = 0 <;> by_cases hj : j = 0 <;> simp [Mapping.readTask, hi, hj]

theorem buildInOrder_eq_build (order : TaskPool.Order 2) (bytecode sourceMap : Bytes) :
    Mapping.buildInOrder order bytecode sourceMap = Mapping.build bytecode sourceMap := by
  rw [Mapping.buildInOrder, runBatch_eq_first (readTask_comm bytecode sourceMap)]
  rfl

theorem buildWith_eq_build (pool : Option TaskPool) (bytecode sourceMap : Bytes) :
    Mapping.buildWith pool bytecode sourceMap = Mapping.build bytecode sourceMap := by
  rw [Mapping.buildWith]
  split
  · exact buildInOrder_eq_build _ bytecode sourceMap
  · rfl

theorem build_eq_ok_iff {bytecode sourceMap : Bytes} {mapping : Mapping} :
    Mapping.build bytecode sourceMap = .ok mapping ↔
      ∃ rows code, decode sourceMap = .ok rows ∧ Bytecode.decode bytecode = .ok code ∧
        Mapping.ofParts rows code = mapping := by
  simp only [Mapping.build, bind_eq_ok_iff, mapError_eq_ok_iff]
  constructor
  · rintro ⟨rows, hrows, code, hcode, hmapping⟩
    exact ⟨rows, code, hrows, hcode, Except.ok.inj hmapping⟩
  · rintro ⟨rows, code, hrows, hcode, rfl⟩
    exact ⟨rows, hrows, code, hcode, rfl⟩

/-- What the entry for the instruction at a position has to say, given the row
at the same position. -/
structure Describes (code : Bytes) (position : Nat) (row : Row) (instruction : Instruction)
    (e : PcEntry) : Prop where
  pc : e.pc = instruction.pc
  ordinal : e.ordinal.toNat = position
  element : e.toElement = row.toElement
  opcode : code[instruction.pc.toNat]? = some e.opcode

theorem describes_ofRow {code : Bytes} {i : Nat} {row : Row} {instruction : Instruction}
    (hcode : code.length < 2 ^ 32) (h : (Instruction.scan code)[i]? = some instruction) :
    Describes code i row instruction (PcEntry.ofRow i row instruction) where
  pc := rfl
  ordinal := by
    have hi := index_lt_of_scan h
    simp only [PcEntry.ofRow, UInt32.toNat_ofNat']
    omega
  element := rfl
  opcode := opcode_scan (Nat.le_of_lt hcode) (List.mem_of_getElem? h)

theorem joinFaults_scan {text code : Bytes} {rows : List Row} (hrows : decode text = .ok rows)
    (hcode : code.length < 2 ^ 32) (hsegments : (segments text).length < 2 ^ 32) :
    PcIndex.joinFaults rows (Instruction.scan code) = [] := by
  apply joinFaults_eq_nil
  · intro i row hrow
    have hi := (List.getElem?_eq_some_iff.mp hrow).1
    rw [length_of_decode hrows] at hi
    rw [ordinal_of_decode hrows hrow, UInt32.toNat_ofNat']
    omega
  · intro i instruction hinstruction
    exact ordinal_scan (Nat.le_of_lt hcode) hinstruction
  · exact pairwise_scan (Nat.le_of_lt hcode)

/-- The index of a mapping that could be built is complete and exact: nothing is
wrong with what is joined, each pair of a row and an instruction has its own
entry, and there are no others. -/
theorem index_of_buildWith (pool : Option TaskPool) {bytecode sourceMap : Bytes}
    {mapping : Mapping} (hbuild : Mapping.buildWith pool bytecode sourceMap = .ok mapping)
    (hcode : mapping.codeLength < 2 ^ 32) (hsegments : (segments sourceMap).length < 2 ^ 32) :
    ∃ code, decode sourceMap = .ok mapping.rows ∧ Bytecode.decode bytecode = .ok code ∧
      mapping.codeLength = code.length ∧ mapping.code = Instruction.scan code ∧
      PcIndex.joinFaults mapping.rows mapping.code = [] ∧
      mapping.index.size = min mapping.rows.length mapping.code.length ∧
      (∀ i row instruction, mapping.rows[i]? = some row → mapping.code[i]? = some instruction →
        ∃ e, mapping.index.find? instruction.pc = some e ∧
          Describes code i row instruction e) ∧
      ∀ pc, (∀ i instruction, i < mapping.rows.length → mapping.code[i]? = some instruction →
        instruction.pc ≠ pc) → mapping.index.find? pc = none := by
  rw [buildWith_eq_build] at hbuild
  obtain ⟨rows, code, hrows, hbytes, rfl⟩ := build_eq_ok_iff.mp hbuild
  have hascending := pairwise_scan (Nat.le_of_lt hcode)
  refine ⟨code, hrows, hbytes, rfl, rfl, joinFaults_scan hrows hcode hsegments,
    size_join hascending, ?_, ?_⟩
  · intro i row instruction hrow hinstruction
    exact ⟨PcEntry.ofRow i row instruction, find?_join hascending hrow hinstruction,
      describes_ofRow hcode hinstruction⟩
  · intro pc hother
    apply find?_join_eq_none
    intro instruction hmem
    obtain ⟨i, hi⟩ := List.getElem?_of_mem hmem
    rw [List.getElem?_take] at hi
    split at hi
    · rename_i hlt
      exact hother i instruction hlt hi
    · cases hi

/-- The first of two pushes is described by the first segment, and its operand
byte has no entry. -/
theorem index_of_buildWith_pushes :
    let mapping := Mapping.ofParts [⟨⟨5, 9, 1, .into, 0⟩, 0⟩, ⟨⟨5, 3, 1, .into, 0⟩, 1⟩]
      [0x60, 0x01, 0x60, 0x02, 0x5b]
    Mapping.buildWith none "0x600160025b" "5:9:1:i;:3" = .ok mapping ∧
      mapping.codeLength < 2 ^ 32 ∧ (segments "5:9:1:i;:3").length < 2 ^ 32 ∧
      mapping.index.size = 2 ∧
      (∃ e, mapping.index.find? 0 = some e ∧ e.length = 9) ∧ mapping.index.find? 1 = none := by
  intro mapping
  have hbuild : Mapping.buildWith none "0x600160025b" "5:9:1:i;:3" = .ok mapping := rfl
  have hscan : mapping.code =
      [⟨0, 0, 0x60, 1, false⟩, ⟨1, 2, 0x60, 1, false⟩, ⟨2, 4, 0x5b, 0, false⟩] := by
    decide +kernel
  obtain ⟨code, -, -, -, -, -, hsize, hentry, hother⟩ :=
    index_of_buildWith none hbuild (by decide) (by decide)
  refine ⟨hbuild, by decide, by decide, ?_, ?_, ?_⟩
  · rw [hsize, hscan]
    rfl
  · obtain ⟨e, hfind, hdescribes⟩ := hentry 0 _ ⟨0, 0, 0x60, 1, false⟩ rfl (by rw [hscan]; rfl)
    exact ⟨e, hfind, by rw [hdescribes.element]⟩
  · apply hother
    intro i instruction _ hinstruction
    rw [hscan] at hinstruction
    have hmem := List.mem_of_getElem? hinstruction
    simp only [List.mem_cons, List.not_mem_nil, or_false] at hmem
    rcases hmem with rfl | rfl | rfl <;> decide

end EvmSourceMap.Proofs.MappingBuild
