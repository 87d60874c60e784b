import EvmSourceMap.Proofs.OwnerLookup
import EvmSourceMap.Proofs.PcIndexJoin

/-!
Joining lists whose numbers and pcs may be anything. What is wrong with the lists is reported in
full and in order, and no instruction is left out of the index without a report.
-/

namespace EvmSourceMap.Proofs.JoinFaults

open SourceMap
open PcIndex
open OwnerLookup
open PcIndexJoin
open SortedMapLookup

/-! ### Reports -/

/-- What can be wrong at a position that both lists reach. -/
inductive FaultAt (rows : List Row) (code : List Instruction) : JoinFault → Prop
  | misnumbered {i : Nat} {row : Row} {instruction : Instruction} (hrow : rows[i]? = some row)
      (hinstruction : code[i]? = some instruction)
      (hnumber : row.ordinal.toNat ≠ i ∨ instruction.ordinal.toNat ≠ i) :
      FaultAt rows code (.misnumbered i)
  | notAscending {i : Nat} {row : Row} {before instruction : Instruction}
      (hrow : rows[i + 1]? = some row) (hbefore : code[i]? = some before)
      (hinstruction : code[i + 1]? = some instruction) (hpc : instruction.pc ≤ before.pc) :
      FaultAt rows code (.notAscending (i + 1))

/-- The turn of a report: by positions, and at one position the numbers before the pcs. -/
def turn : JoinFault → Nat
  | .misnumbered position => 2 * position
  | .notAscending position => 2 * position + 1

section

variable {position : Nat} {previous : Option UInt32} {pairs : List (Row × Instruction)}

theorem mem_joinFaultsFrom_cons_iff {pair : Row × Instruction} {fault : JoinFault} :
    fault ∈ joinFaultsFrom position previous (pair :: pairs) ↔
      (fault = .misnumbered position ∧
        (pair.1.ordinal.toNat ≠ position ∨ pair.2.ordinal.toNat ≠ position)) ∨
      (fault = .notAscending position ∧ ∃ pc, previous = some pc ∧ pair.2.pc ≤ pc) ∨
      fault ∈ joinFaultsFrom (position + 1) (some pair.2.pc) pairs := by
  have hnumbered : fault ∈ (if pair.1.ordinal.toNat == position && pair.2.ordinal.toNat == position
        then [] else [JoinFault.misnumbered position]) ↔ fault = .misnumbered position ∧
        (pair.1.ordinal.toNat ≠ position ∨ pair.2.ordinal.toNat ≠ position) := by
    rw [List.mem_ite_nil_left, List.mem_singleton, Bool.and_eq_true, beq_iff_eq, beq_iff_eq,
      Decidable.not_and_iff_not_or_not, and_comm]
  have hascending : fault ∈ (if previous.all fun pc => pc < pair.2.pc
        then [] else [JoinFault.notAscending position]) ↔ fault = .notAscending position ∧
        ∃ pc, previous = some pc ∧ pair.2.pc ≤ pc := by
    rw [List.mem_ite_nil_left, List.mem_singleton, and_comm]
    cases previous <;> simp
  rw [joinFaultsFrom, List.mem_append, List.mem_append, hnumbered, hascending, or_assoc]

theorem misnumbered_mem_joinFaultsFrom_iff {i : Nat} :
    .misnumbered i ∈ joinFaultsFrom position previous pairs ↔
      ∃ k pair, pairs[k]? = some pair ∧ i = position + k ∧
        (pair.1.ordinal.toNat ≠ i ∨ pair.2.ordinal.toNat ≠ i) := by
  induction pairs generalizing position previous with
  | nil => simp [joinFaultsFrom]
  | cons pair rest ih =>
      rw [mem_joinFaultsFrom_cons_iff, ih]
      refine .trans ?_ Nat.or_exists_add_one
      simp only [JoinFault.misnumbered.injEq, reduceCtorEq, false_and, false_or,
        List.getElem?_cons_zero, List.getElem?_cons_succ, Option.some.injEq, exists_eq_left',
        Nat.add_zero, Nat.add_assoc, Nat.add_comm 1]
      apply or_congr_left
      apply and_congr_right
      rintro rfl
      rfl

theorem notAscending_mem_joinFaultsFrom_iff {i : Nat} :
    .notAscending i ∈ joinFaultsFrom position previous pairs ↔
      ∃ k pair pc, pairs[k]? = some pair ∧ i = position + k ∧
        (previous :: pairs.map fun pair => some pair.2.pc)[k]? = some (some pc) ∧
        pair.2.pc ≤ pc := by
  induction pairs generalizing position previous with
  | nil => simp [joinFaultsFrom]
  | cons pair rest ih =>
      rw [mem_joinFaultsFrom_cons_iff, ih]
      refine .trans ?_ Nat.or_exists_add_one
      simp only [JoinFault.notAscending.injEq, reduceCtorEq, false_and, false_or,
        List.getElem?_cons_zero, List.getElem?_cons_succ, Option.some.injEq, exists_and_left,
        exists_eq_left', List.map_cons, Nat.add_zero, Nat.add_assoc, Nat.add_comm 1]

theorem two_mul_le_turn {fault : JoinFault}
    (h : fault ∈ joinFaultsFrom position previous pairs) : 2 * position ≤ turn fault := by
  cases fault with
  | misnumbered i =>
      obtain ⟨k, -, -, rfl, -⟩ := misnumbered_mem_joinFaultsFrom_iff.mp h
      simp only [turn]
      omega
  | notAscending i =>
      obtain ⟨k, -, -, -, rfl, -⟩ := notAscending_mem_joinFaultsFrom_iff.mp h
      simp only [turn]
      omega

theorem pairwise_joinFaultsFrom :
    (joinFaultsFrom position previous pairs).Pairwise fun a b => turn a < turn b := by
  induction pairs generalizing position previous with
  | nil => exact List.Pairwise.nil
  | cons pair rest ih =>
      rw [joinFaultsFrom, List.pairwise_append]
      refine ⟨by split <;> split <;> simp [turn], ih, ?_⟩
      intro a ha b hb
      have hhere : turn a ≤ 2 * position + 1 := by
        revert ha
        split <;> split <;> simp +contextual [turn, or_imp]
      have hnext := two_mul_le_turn hb
      omega

end

section

variable {rows : List Row} {code : List Instruction}

theorem mem_joinFaults_iff {fault : JoinFault} :
    fault ∈ joinFaults rows code ↔ FaultAt rows code fault := by
  cases fault with
  | misnumbered i =>
      rw [joinFaults, misnumbered_mem_joinFaultsFrom_iff]
      constructor
      · rintro ⟨k, pair, hpair, rfl, hnumber⟩
        rw [Nat.zero_add] at hnumber ⊢
        obtain ⟨hrow, hinstruction⟩ := List.getElem?_zip_eq_some.mp hpair
        exact .misnumbered hrow hinstruction hnumber
      · intro h
        cases h with
        | @misnumbered _ row instruction hrow hinstruction hnumber =>
            have hpair := List.getElem?_zip_eq_some (z := (row, instruction)).mpr
              ⟨hrow, hinstruction⟩
            exact ⟨i, _, hpair, (Nat.zero_add i).symm, hnumber⟩
  | notAscending i =>
      rw [joinFaults, notAscending_mem_joinFaultsFrom_iff]
      constructor
      · rintro ⟨k, pair, pc, hpair, rfl, hprevious, hpc⟩
        -- The first instruction has nothing before it.
        cases k with
        | zero => cases hprevious
        | succ k =>
            rw [List.getElem?_cons_succ, List.getElem?_map, Option.map_eq_some_iff] at hprevious
            obtain ⟨previous, hprevious, hsame⟩ := hprevious
            obtain rfl := Option.some.inj hsame
            obtain ⟨hrow, hinstruction⟩ := List.getElem?_zip_eq_some.mp hpair
            obtain ⟨-, hbefore⟩ := List.getElem?_zip_eq_some.mp hprevious
            rw [Nat.zero_add]
            exact .notAscending hrow hbefore hinstruction hpc
      · intro h
        cases h with
        | @notAscending i row before instruction hrow hbefore hinstruction hpc =>
            have hpair := List.getElem?_zip_eq_some (z := (row, instruction)).mpr
              ⟨hrow, hinstruction⟩
            obtain ⟨hlength, -⟩ := List.getElem?_eq_some_iff.mp hrow
            have hprevious := List.getElem?_zip_eq_some (z := (rows[i], before)).mpr
              ⟨List.getElem?_eq_getElem (Nat.lt_of_succ_lt hlength), hbefore⟩
            refine ⟨i + 1, _, before.pc, hpair, (Nat.zero_add _).symm, ?_, hpc⟩
            rw [List.getElem?_cons_succ, List.getElem?_map, hprevious]
            rfl

end

/-! ### The index -/

/-- The first instruction with a pc, at a position that has a row too. -/
structure FirstWith (rows : List Row) (code : List Instruction) (pc : UInt32) (i : Nat) (row : Row)
    (instruction : Instruction) : Prop where
  hrow : rows[i]? = some row
  hinstruction : code[i]? = some instruction
  hpc : instruction.pc = pc
  least : ∀ j < i, ∀ earlier, code[j]? = some earlier → earlier.pc ≠ pc

/-- What the entry made at a position says. The position is kept in 32 bits. -/
structure MadeAt (i : Nat) (row : Row) (instruction : Instruction) (e : PcEntry) : Prop where
  pc : e.pc = instruction.pc
  ordinal : e.ordinal = .ofNat i
  element : e.toElement = row.toElement
  opcode : e.opcode = instruction.opcode

theorem madeAt_iff {i : Nat} {row : Row} {instruction : Instruction} {e : PcEntry} :
    MadeAt i row instruction e ↔ PcEntry.ofRow i row instruction = e := by
  constructor
  · rintro ⟨hpc, hordinal, helement, hopcode⟩
    cases e
    simp_all [PcEntry.ofRow]
  · rintro rfl
    exact ⟨rfl, rfl, rfl, rfl⟩

section

variable {rows : List Row} {code : List Instruction}

theorem find?_join_eq_find? (pc : UInt32) :
    PcIndex.find? (join rows code) pc = (joinedEntries rows code).find? fun e => e.pc = pc :=
  (get?_ofListFirst pc _).trans (get?_map_key PcEntry.pc pc _)

theorem find?_join_eq_some_iff_first {pc : UInt32} {e : PcEntry} :
    PcIndex.find? (join rows code) pc = some e ↔
      ∃ i row instruction, FirstWith rows code pc i row instruction ∧
        MadeAt i row instruction e := by
  rw [find?_join_eq_find?, List.find?_eq_some_iff_getElem]
  simp only [decide_eq_true_eq, Bool.not_eq_true', decide_eq_false_iff_not]
  constructor
  · rintro ⟨hpc, i, hi, hget, hbefore⟩
    have hentry := List.getElem?_eq_some_iff.mpr ⟨hi, hget⟩
    obtain ⟨row, instruction, hrow, hinstruction, rfl⟩ :=
      getElem?_joinedEntries_eq_some_iff.mp hentry
    refine ⟨i, row, instruction, ⟨hrow, hinstruction, hpc, ?_⟩, madeAt_iff.mpr rfl⟩
    intro j hj earlier hearlier
    obtain ⟨_, instruction', -, hinstruction', hsame⟩ := getElem?_joinedEntries_eq_some_iff.mp
      (List.getElem?_eq_getElem (Nat.lt_trans hj hi))
    obtain rfl := Option.some.inj (hearlier.symm.trans hinstruction')
    have hother := hbefore j hj
    rwa [← hsame] at hother
  · rintro ⟨i, row, instruction, ⟨hrow, hinstruction, hpc, hleast⟩, hmade⟩
    obtain rfl := madeAt_iff.mp hmade
    have hentry := getElem?_joinedEntries_eq_some_iff.mpr
      ⟨row, instruction, hrow, hinstruction, rfl⟩
    obtain ⟨hi, hget⟩ := List.getElem?_eq_some_iff.mp hentry
    refine ⟨hpc, i, hi, hget, fun j hj => ?_⟩
    obtain ⟨_, earlier, -, hearlier, hsame⟩ := getElem?_joinedEntries_eq_some_iff.mp
      (List.getElem?_eq_getElem (Nat.lt_trans hj hi))
    rw [← hsame]
    exact hleast j hj earlier hearlier

theorem mem_keys_join_iff_mem_take {pc : UInt32} :
    pc ∈ (join rows code).keys ↔
      ∃ instruction ∈ code.take (min rows.length code.length), instruction.pc = pc := by
  calc
    pc ∈ (join rows code).keys ↔ ∃ e ∈ joinedEntries rows code, e.pc = pc := by
      rw [← exists_find?_iff, find?_join_eq_find?, ← Option.isSome_iff_exists, List.find?_isSome]
      simp
    _ ↔ pc ∈ (code.take rows.length).map (·.pc) := by rw [← pc_joinedEntries, List.mem_map]
    _ ↔ _ := by rw [List.take_eq_take_min, List.mem_map]

theorem pairwise_of_joinFaultsFrom {position : Nat} {previous : Option UInt32}
    {pairs : List (Row × Instruction)}
    (h : ∀ i, .notAscending i ∉ joinFaultsFrom position previous pairs) :
    (previous.toList ++ pairs.map (·.2.pc)).Pairwise (· < ·) := by
  induction pairs generalizing position previous with
  | nil => cases previous <;> simp
  | cons pair rest ih =>
      have hrest : ((some pair.2.pc).toList ++ rest.map (·.2.pc)).Pairwise (· < ·) := by
        apply ih
        intro i hi
        exact h i (mem_joinFaultsFrom_cons_iff.mpr (.inr (.inr hi)))
      cases previous with
      | none => exact hrest
      | some pc =>
          have hlt : pc < pair.2.pc := by
            apply UInt32.not_le.mp
            intro hle
            exact h position (mem_joinFaultsFrom_cons_iff.mpr (.inr (.inl ⟨rfl, pc, rfl, hle⟩)))
          refine List.pairwise_cons.mpr ⟨?_, hrest⟩
          intro pc' hpc'
          rcases List.mem_cons.mp hpc' with rfl | hbehind
          · exact hlt
          · exact UInt32.lt_trans hlt ((List.pairwise_cons.mp hrest).1 pc' hbehind)

theorem exists_notAscending_of_size_lt
    (h : (join rows code).size < min rows.length code.length) :
    ∃ i, .notAscending i ∈ joinFaults rows code := by
  apply Classical.byContradiction
  intro hnone
  have hpairwise := pairwise_of_joinFaultsFrom (not_exists.mp hnone)
  rw [Option.toList_none, List.nil_append, map_pc_zip, ← pc_joinedEntries] at hpairwise
  rw [SortedMap.size, entries_join_of_pairwise hpairwise, List.length_map,
    length_joinedEntries] at h
  exact Nat.lt_irrefl _ h

end

/-- The index of any two lists has the pcs of the instructions that have a row, each with the entry
made at the first of its positions. All that is wrong with the lists is reported in order, and there
are fewer entries than positions only if a pc that does not ascend is reported. -/
theorem join_reported (rows : List Row) (code : List Instruction) :
    (∀ pc, pc ∈ (join rows code).keys ↔
      ∃ instruction ∈ code.take (min rows.length code.length), instruction.pc = pc) ∧
    (∀ pc e, PcIndex.find? (join rows code) pc = some e ↔
      ∃ i row instruction, FirstWith rows code pc i row instruction ∧
        MadeAt i row instruction e) ∧
    (∀ fault, fault ∈ joinFaults rows code ↔ FaultAt rows code fault) ∧
    ((joinFaults rows code).Pairwise fun a b => turn a < turn b) ∧
    ((join rows code).size < min rows.length code.length →
      ∃ i, .notAscending i ∈ joinFaults rows code) :=
  ⟨fun _ => mem_keys_join_iff_mem_take, fun _ _ => find?_join_eq_some_iff_first,
    fun _ => mem_joinFaults_iff, pairwise_joinFaultsFrom, exists_notAscending_of_size_lt⟩

/-- The third instruction has the pc of the first one, which is reported and keeps its entry. -/
example :
    let rows : List Row :=
      [⟨⟨5, 9, 1, .into, 0⟩, 0⟩, ⟨⟨5, 3, 1, .into, 0⟩, 7⟩, ⟨⟨8, 1, 1, .out, 0⟩, 2⟩]
    let code : List Instruction :=
      [⟨0, 4, 0x60, 1, false⟩, ⟨1, 6, 0x00, 0, false⟩, ⟨2, 4, 0x5b, 0, false⟩]
    joinFaults rows code = [.misnumbered 1, .notAscending 2] ∧ (join rows code).keys = [4, 6] ∧
      (PcIndex.find? (join rows code) 4).map (·.ordinal) = some 0 := by
  decide

end EvmSourceMap.Proofs.JoinFaults
