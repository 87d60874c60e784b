import EvmSourceMap.Proofs.MappingBuild

namespace EvmSourceMap.Proofs.OperandIndependence

open SourceMap
open InstructionScan
open MappingBuild

/-- Two pieces of code of one length that are the same outside the operands. The
opcodes of the first one tell where its operands are, and so the second one has
its operands there too. -/
inductive SameOpcodes : Bytes → Bytes → Prop
  | nil : SameOpcodes [] []
  | cons (op : Opcode) {rest rest' : Bytes} (hlength : rest'.length = rest.length)
      (hrest : SameOpcodes (rest.drop (Opcode.operandLength op))
        (rest'.drop (Opcode.operandLength op))) :
      SameOpcodes (op :: rest) (op :: rest')

theorem SameOpcodes.scanFrom_eq {code code' : Bytes} (h : SameOpcodes code code')
    (ordinal pc : Nat) :
    Instruction.scanFrom ordinal pc code' = Instruction.scanFrom ordinal pc code := by
  induction h generalizing ordinal pc with
  | nil => rfl
  | cons op hlength _ ih => rw [scanFrom_cons, scanFrom_cons, hlength, ih]

/-- Two pieces of code, which begin at one pc, have the same bytes where the
instructions start. -/
def AgreeAt (pc : Nat) (instructions : List Instruction) (code code' : Bytes) : Prop :=
  ∀ instruction ∈ instructions,
    code'[instruction.pc.toNat - pc]? = code[instruction.pc.toNat - pc]?

section

variable {ordinal pc : Nat} {op op' : Opcode} {rest rest' : Bytes}
  (hagree : AgreeAt pc (Instruction.scanFrom ordinal pc (op :: rest)) (op :: rest) (op' :: rest'))

include hagree

theorem AgreeAt.opcode (hpc : pc < 2 ^ 32) : op' = op := by
  rw [scanFrom_cons] at hagree
  have hfirst := hagree _ List.mem_cons_self
  rw [toNat_pc_located ordinal op rest.length hpc, Nat.sub_self] at hfirst
  exact Option.some.inj hfirst

theorem AgreeAt.tail (htail : pc + 1 + Opcode.operandLength op +
      (rest.drop (Opcode.operandLength op)).length ≤ 2 ^ 32) :
    AgreeAt (pc + 1 + Opcode.operandLength op)
      (Instruction.scanFrom (ordinal + 1) (pc + 1 + Opcode.operandLength op)
        (rest.drop (Opcode.operandLength op)))
      (rest.drop (Opcode.operandLength op)) (rest'.drop (Opcode.operandLength op)) := by
  intro instruction hmem
  obtain ⟨offset, hpc, -⟩ := toNat_pc_scanFrom htail hmem
  rw [scanFrom_cons] at hagree
  have hsame := hagree instruction (List.mem_cons_of_mem _ hmem)
  have hoffset : instruction.pc.toNat - pc = Opcode.operandLength op + offset + 1 := by omega
  rw [hoffset, List.getElem?_cons_succ, List.getElem?_cons_succ] at hsame
  rwa [hpc, Nat.add_sub_cancel_left, List.getElem?_drop, List.getElem?_drop]

end

theorem sameOpcodes_of_agreeAt {ordinal pc : Nat} {code code' : Bytes}
    (hlength : code'.length = code.length) (hfits : pc + code.length ≤ 2 ^ 32)
    (hagree : AgreeAt pc (Instruction.scanFrom ordinal pc code) code code') :
    SameOpcodes code code' := by
  -- the pcs are found one after the other: the same opcode leads on to the same
  -- next pc, and so only the pcs of the first scan are ever looked at
  induction code using scan_induction generalizing ordinal pc code' with
  | nil =>
      rw [List.eq_nil_of_length_eq_zero hlength]
      exact .nil
  | cons op rest ih =>
      obtain ⟨op', rest', rfl⟩ := List.exists_cons_of_length_eq_add_one hlength
      have hrest : rest'.length = rest.length := Nat.succ.inj hlength
      rw [List.length_cons] at hfits
      obtain rfl := hagree.opcode (by omega)
      refine .cons op' hrest ?_
      -- behind an operand that is cut off there is no code left to compare
      obtain ⟨hcut, hnil⟩ | ⟨-, hend⟩ := drop_operand_cases pc op' rest
      · rw [hnil, List.drop_eq_nil_of_le (hrest ▸ Nat.le_of_lt hcut)]
        exact .nil
      · have htail := Nat.le_trans (Nat.le_of_eq hend) hfits
        exact ih (by rw [List.length_drop, List.length_drop, hrest]) htail (hagree.tail htail)

theorem build_eq_of_scan_eq {hex hex' code code' : Bytes}
    (hhex : Bytecode.decode hex = .ok code) (hhex' : Bytecode.decode hex' = .ok code')
    (hlength : code'.length = code.length)
    (hscan : Instruction.scan code' = Instruction.scan code) (sourceMap : Bytes) :
    Mapping.build hex' sourceMap = Mapping.build hex sourceMap := by
  -- what a mapping takes from the code is its length and its instructions
  have hparts : ∀ rows, Mapping.ofParts rows code' = Mapping.ofParts rows code := by
    intro rows
    rw [Mapping.ofParts, Mapping.ofParts, hscan, hlength]
  rw [Mapping.build, Mapping.build, hhex, hhex']
  cases decode sourceMap with
  | error e => rfl
  | ok rows => exact congrArg Except.ok (hparts rows)

/-- Operand bytes have no influence: code of the same length with the same bytes
where the instructions start has the same instructions, and with any rows and any
source map it has the same index. -/
theorem scan_of_agreement {code code' : Bytes} (hlength : code'.length = code.length)
    (hfits : code.length < 2 ^ 32)
    (hagree : ∀ instruction ∈ Instruction.scan code,
      code'[instruction.pc.toNat]? = code[instruction.pc.toNat]?) :
    Instruction.scan code' = Instruction.scan code ∧
    (∀ rows, PcIndex.join rows (Instruction.scan code') =
      PcIndex.join rows (Instruction.scan code)) ∧
    ∀ pool pool' hex hex' sourceMap, Bytecode.decode hex = .ok code →
      Bytecode.decode hex' = .ok code' →
        Mapping.buildWith pool' hex' sourceMap = Mapping.buildWith pool hex sourceMap := by
  have hsame : SameOpcodes code code' := sameOpcodes_of_agreeAt hlength (by omega) hagree
  have hscan : Instruction.scan code' = Instruction.scan code := hsame.scanFrom_eq 0 0
  refine ⟨hscan, fun rows => by rw [hscan], ?_⟩
  intro pool pool' hex hex' sourceMap hhex hhex'
  rw [buildWith_eq_build, buildWith_eq_build]
  exact build_eq_of_scan_eq hhex hhex' hlength hscan sourceMap

/-- The operand of the first push is a push in the second code, and the operand
that is cut off a stop. -/
theorem scan_of_agreement_patched :
    let code : Bytes := [0x60, 0x5b, 0x01, 0x61, 0xff]
    let patched : Bytes := [0x60, 0x7f, 0x01, 0x61, 0x00]
    let instructions : List Instruction :=
      [⟨0, 0, 0x60, 1, false⟩, ⟨1, 2, 0x01, 0, false⟩, ⟨2, 3, 0x61, 1, true⟩]
    patched.length = code.length ∧ code.length < 2 ^ 32 ∧ Instruction.scan code = instructions ∧
      (∀ instruction ∈ instructions,
        patched[instruction.pc.toNat]? = code[instruction.pc.toNat]?) ∧
      Instruction.scan patched = instructions ∧
      Mapping.buildWith none "607f016100" "5:9:1:i;:3" =
        Mapping.buildWith none "605b0161ff" "5:9:1:i;:3" := by
  intro code patched instructions
  have hlength : patched.length = code.length := rfl
  have hscan : Instruction.scan code = instructions := by decide +kernel
  have hagree : ∀ instruction ∈ instructions,
      patched[instruction.pc.toNat]? = code[instruction.pc.toNat]? := by decide
  obtain ⟨hpatched, -, hbuild⟩ := scan_of_agreement hlength (by decide) (hscan ▸ hagree)
  exact ⟨hlength, by decide, hscan, hagree, hpatched.trans hscan,
    hbuild none none _ _ _ rfl rfl⟩

end EvmSourceMap.Proofs.OperandIndependence
