import EvmSourceMap.Bytecode.Instruction
import Mathlib.Algebra.Group.Nat.Defs

namespace EvmSourceMap.Proofs.InstructionScan

/-- The instruction at an offset of some code, where `available` bytes follow
its opcode. -/
def located (ordinal pc : Nat) (op : Opcode) (available : Nat) : Instruction where
  ordinal := .ofNat ordinal
  pc := .ofNat pc
  opcode := op
  operandLength := .ofNat (min (Opcode.operandLength op) available)
  truncated := decide (available < Opcode.operandLength op)

theorem toNat_pc_located (ordinal : Nat) {pc : Nat} (op : Opcode) (available : Nat)
    (hfits : pc < 2 ^ 32) : (located ordinal pc op available).pc.toNat = pc :=
  UInt32.toNat_ofNat_of_lt' hfits

theorem scanFrom_cons (ordinal pc : Nat) (op : Opcode) (rest : Bytes) :
    Instruction.scanFrom ordinal pc (op :: rest) =
      located ordinal pc op rest.length ::
        Instruction.scanFrom (ordinal + 1) (pc + 1 + Opcode.operandLength op)
          (rest.drop (Opcode.operandLength op)) := by
  rw [Instruction.scanFrom]
  simp only [List.length_take, located]
  -- Nothing is left behind an operand that is cut off, so both branches of the scan agree.
  by_cases hcut : rest.length < Opcode.operandLength op
  · have hmin : min (Opcode.operandLength op) rest.length = rest.length := by omega
    have hrest : rest.drop (Opcode.operandLength op) = [] :=
      List.drop_eq_nil_of_le (Nat.le_of_lt hcut)
    rw [hmin, if_pos hcut, hrest, Instruction.scanFrom]
    simp [hcut]
  · have hmin : min (Opcode.operandLength op) rest.length = Opcode.operandLength op := by omega
    rw [hmin, if_neg (Nat.lt_irrefl _)]
    simp [hcut]

/-- Induction along a scan: from what follows an operand to the instruction. -/
@[elab_as_elim]
theorem scan_induction {motive : Bytes → Prop} (nil : motive [])
    (cons : ∀ op rest, motive (rest.drop (Opcode.operandLength op)) → motive (op :: rest))
    (code : Bytes) : motive code := by
  induction hlength : code.length using Nat.strongRecOn generalizing code with
  | ind length ih =>
      cases code with
      | nil => exact nil
      | cons op rest =>
          have hlt : (rest.drop (Opcode.operandLength op)).length < length := by
            rw [← hlength, List.length_drop, List.length_cons]
            omega
          exact cons op rest (ih _ hlt _ rfl)

theorem drop_operand_cases (pc : Nat) (op : Opcode) (rest : Bytes) :
    rest.length < Opcode.operandLength op ∧ rest.drop (Opcode.operandLength op) = [] ∨
      Opcode.operandLength op ≤ rest.length ∧
        pc + 1 + Opcode.operandLength op + (rest.drop (Opcode.operandLength op)).length =
          pc + (rest.length + 1) := by
  by_cases hcut : rest.length < Opcode.operandLength op
  · exact .inl ⟨hcut, List.drop_eq_nil_of_le (Nat.le_of_lt hcut)⟩
  · refine .inr ⟨Nat.le_of_not_lt hcut, ?_⟩
    rw [List.length_drop]
    omega

theorem located_eq_of_le {op : Opcode} {available available' : Nat}
    (h : Opcode.operandLength op ≤ available) (h' : Opcode.operandLength op ≤ available')
    (ordinal pc : Nat) : located ordinal pc op available = located ordinal pc op available' := by
  rw [located, located, Nat.min_eq_left h, Nat.min_eq_left h', decide_eq_false (Nat.not_lt.mpr h),
    decide_eq_false (Nat.not_lt.mpr h')]

/-- The last instruction, if there is one, is not cut off. -/
def EndsWhole (instructions : List Instruction) : Prop :=
  ∀ last, instructions.getLast? = some last → last.truncated = false

theorem endsWhole_scanFrom_cons {ordinal pc : Nat} {op : Opcode} {rest : Bytes}
    (h : EndsWhole (Instruction.scanFrom ordinal pc (op :: rest))) :
    Opcode.operandLength op ≤ rest.length ∧
      EndsWhole (Instruction.scanFrom (ordinal + 1) (pc + 1 + Opcode.operandLength op)
        (rest.drop (Opcode.operandLength op))) := by
  rw [EndsWhole, scanFrom_cons, List.getLast?_cons] at h
  constructor
  · apply Nat.le_of_not_lt
    intro hcut
    have hlast := h _ rfl
    rw [List.drop_eq_nil_of_le (Nat.le_of_lt hcut), Instruction.scanFrom] at hlast
    exact of_decide_eq_false hlast hcut
  · intro last hlast
    rw [hlast] at h
    exact h last rfl

/-- Behind a whole instruction the scan goes on as it begins. -/
theorem scanFrom_append {ordinal pc : Nat} {front : Bytes} (back : Bytes)
    (hwhole : EndsWhole (Instruction.scanFrom ordinal pc front)) :
    Instruction.scanFrom ordinal pc (front ++ back) =
      Instruction.scanFrom ordinal pc front ++
        Instruction.scanFrom (ordinal + (Instruction.scanFrom ordinal pc front).length)
          (pc + front.length) back := by
  induction front using scan_induction generalizing ordinal pc with
  | nil =>
      rw [Instruction.scanFrom]
      rfl
  | cons op rest ih =>
      obtain ⟨hfits, htail⟩ := endsWhole_scanFrom_cons hwhole
      have hlocated : located ordinal pc op (rest ++ back).length =
          located ordinal pc op rest.length := by
        apply located_eq_of_le _ hfits
        rw [List.length_append]
        exact Nat.le_add_right_of_le hfits
      have hordinal : ∀ count : Nat, ordinal + 1 + count = ordinal + (count + 1) := by omega
      have hpc : pc + 1 + Opcode.operandLength op +
          (rest.drop (Opcode.operandLength op)).length = pc + (rest.length + 1) := by
        rw [List.length_drop]
        omega
      rw [List.cons_append, scanFrom_cons, scanFrom_cons, hlocated,
        List.drop_append_of_le_length hfits, ih htail, hpc, hordinal]
      rfl

theorem ordinal_scanFrom {ordinal pc i : Nat} {code : Bytes} {instruction : Instruction}
    (h : (Instruction.scanFrom ordinal pc code)[i]? = some instruction) :
    instruction.ordinal = .ofNat (ordinal + i) := by
  induction code using scan_induction generalizing ordinal pc i with
  | nil => simp [Instruction.scanFrom] at h
  | cons op rest ih =>
      rw [scanFrom_cons] at h
      cases i with
      | zero =>
          have hfirst : located ordinal pc op rest.length = instruction := by simpa using h
          rw [← hfirst]
          rfl
      | succ i =>
          rw [ih (by simpa using h), Nat.add_right_comm, Nat.add_assoc]

theorem length_scanFrom_le (ordinal pc : Nat) (code : Bytes) :
    (Instruction.scanFrom ordinal pc code).length ≤ code.length := by
  induction code using scan_induction generalizing ordinal pc with
  | nil => simp [Instruction.scanFrom]
  | cons op rest ih =>
      rw [scanFrom_cons, List.length_cons, List.length_cons]
      have hrest := ih (ordinal + 1) (pc + 1 + Opcode.operandLength op)
      rw [List.length_drop] at hrest
      omega

theorem exists_located {ordinal pc : Nat} {code : Bytes} {instruction : Instruction}
    (h : instruction ∈ Instruction.scanFrom ordinal pc code) :
    ∃ ordinal' offset op, code[offset]? = some op ∧
      instruction = located ordinal' (pc + offset) op (code.length - (offset + 1)) := by
  induction code using scan_induction generalizing ordinal pc with
  | nil => simp [Instruction.scanFrom] at h
  | cons op rest ih =>
      rw [scanFrom_cons] at h
      rcases List.mem_cons.mp h with rfl | hrest
      · exact ⟨ordinal, 0, op, rfl, rfl⟩
      · obtain ⟨ordinal', offset, op', hbyte, rfl⟩ := ih hrest
        rw [List.getElem?_drop] at hbyte
        refine ⟨ordinal', Opcode.operandLength op + offset + 1, op', hbyte, ?_⟩
        rw [List.length_drop, List.length_cons]
        congr 1 <;> omega

theorem opcode_scanFrom {ordinal pc : Nat} {code : Bytes} {instruction : Instruction}
    (h : instruction ∈ Instruction.scanFrom ordinal pc code) :
    ∃ offset, instruction.pc = .ofNat (pc + offset) ∧
      code[offset]? = some instruction.opcode := by
  obtain ⟨_, offset, op, hbyte, rfl⟩ := exists_located h
  exact ⟨offset, rfl, hbyte⟩

theorem toNat_pc_scanFrom {ordinal pc : Nat} {code : Bytes} {instruction : Instruction}
    (hfits : pc + code.length ≤ 2 ^ 32) (h : instruction ∈ Instruction.scanFrom ordinal pc code) :
    ∃ offset, instruction.pc.toNat = pc + offset ∧ code[offset]? = some instruction.opcode := by
  obtain ⟨offset, hpc, hbyte⟩ := opcode_scanFrom h
  have hoffset := (List.getElem?_eq_some_iff.mp hbyte).1
  have hlt : pc + offset < 2 ^ 32 := by omega
  refine ⟨offset, ?_, hbyte⟩
  rw [hpc, UInt32.toNat_ofNat_of_lt' hlt]

theorem pairwise_scanFrom {ordinal pc : Nat} {code : Bytes} (hfits : pc + code.length ≤ 2 ^ 32) :
    (Instruction.scanFrom ordinal pc code).Pairwise fun a b => a.pc < b.pc := by
  induction code using scan_induction generalizing ordinal pc with
  | nil => simp [Instruction.scanFrom]
  | cons op rest ih =>
      rw [List.length_cons] at hfits
      rw [scanFrom_cons]
      obtain ⟨-, hnil⟩ | ⟨-, hend⟩ := drop_operand_cases pc op rest
      · rw [hnil, Instruction.scanFrom]
        exact List.pairwise_singleton _ _
      · have htail := Nat.le_trans (Nat.le_of_eq hend) hfits
        refine List.pairwise_cons.mpr ⟨fun instruction hmem => ?_, ih htail⟩
        obtain ⟨offset, hpc, -⟩ := toNat_pc_scanFrom htail hmem
        rw [UInt32.lt_iff_toNat_lt, toNat_pc_located _ _ _ (by omega), hpc]
        omega

theorem opcode_scan {code : Bytes} {instruction : Instruction} (hfits : code.length ≤ 2 ^ 32)
    (h : instruction ∈ Instruction.scan code) :
    code[instruction.pc.toNat]? = some instruction.opcode := by
  obtain ⟨offset, hpc, hbyte⟩ := toNat_pc_scanFrom (by omega) h
  rw [hpc, Nat.zero_add, hbyte]

theorem index_lt_of_scan {code : Bytes} {i : Nat} {instruction : Instruction}
    (h : (Instruction.scan code)[i]? = some instruction) : i < code.length :=
  Nat.lt_of_lt_of_le (List.getElem?_eq_some_iff.mp h).1 (length_scanFrom_le 0 0 code)

theorem ordinal_scan {code : Bytes} {i : Nat} {instruction : Instruction}
    (hfits : code.length ≤ 2 ^ 32) (h : (Instruction.scan code)[i]? = some instruction) :
    instruction.ordinal.toNat = i := by
  have hi := index_lt_of_scan h
  rw [ordinal_scanFrom h, Nat.zero_add, UInt32.toNat_ofNat']
  omega

theorem scan_isPrefix_append {front : Bytes} (back : Bytes)
    (hwhole : EndsWhole (Instruction.scan front)) :
    Instruction.scan front <+: Instruction.scan (front ++ back) := by
  rw [Instruction.scan, Instruction.scan, scanFrom_append back hwhole]
  exact List.prefix_append _ _

theorem pairwise_scan {code : Bytes} (hfits : code.length ≤ 2 ^ 32) :
    (Instruction.scan code).Pairwise fun a b => a.pc < b.pc :=
  pairwise_scanFrom (by omega)

end EvmSourceMap.Proofs.InstructionScan
