import EvmSourceMap.Proofs.MappingBuild
import EvmSourceMap.Proofs.SegmentGrammar
import EvmSourceMap.Proofs.TextSplitting

namespace EvmSourceMap.Proofs.MappingGrowth

open SourceMap
open InstructionScan
open MappingBuild
open PcIndexJoin
open SegmentGrammar
open SortedMapLookup
open SourceMapDecoding
open TextSplitting

theorem getElem?_of_isPrefix {α : Type} {front whole : List α} (h : front <+: whole) {i : Nat}
    {a : α} (hget : front[i]? = some a) : whole[i]? = some a := by
  obtain ⟨back, rfl⟩ := h
  rw [List.getElem?_append_left (List.getElem?_eq_some_iff.mp hget).1, hget]

theorem segments_append {text : Bytes} (hne : text ≠ []) (hnull : text ≠ "null") (more : Bytes) :
    segments (text ++ ';'.toUInt8 :: more) =
      segments text ++ Bytes.split ';'.toUInt8 more := by
  have hne' : text ++ ';'.toUInt8 :: more ≠ [] := by simp
  have hnull' : text ++ ';'.toUInt8 :: more ≠ "null" := by
    intro h
    have hmem : ';'.toUInt8 ∈ ("null" : Bytes) := h ▸ by simp
    revert hmem
    decide
  rw [segments_of_ne hne' hnull', segments_of_ne hne hnull]
  exact split_append_cons _ text more

theorem rows_isPrefix {front whole : List Element} (h : front <+: whole) :
    rows front <+: rows whole := by
  obtain ⟨back, rfl⟩ := h
  rw [rows, rows, List.zipIdx_append, List.map_append]
  exact List.prefix_append _ _

theorem elements_isPrefix {front whole : List Segment} (h : front <+: whole) (e : Element) :
    elements e front <+: elements e whole := by
  obtain ⟨back, rfl⟩ := h
  rw [elements_append]
  exact List.prefix_append _ _

theorem decode_isPrefix {text more : Bytes} (hne : text ≠ []) (hnull : text ≠ "null")
    {result result' : List Row} (h : decode text = .ok result)
    (h' : decode (text ++ ';'.toUInt8 :: more) = .ok result') : result <+: result' := by
  obtain ⟨read, hread, rfl⟩ := decode_eq_ok_iff.mp h
  obtain ⟨read', hread', rfl⟩ := decode_eq_ok_iff.mp h'
  rw [segments_append hne hnull] at hread'
  exact rows_isPrefix (elements_isPrefix (hread.isPrefix hread') .initial)

section

variable {rows rows' : List Row} {code code' : List Instruction}

theorem getElem?_joinedEntries_mono (hrows : rows <+: rows') (hcode : code <+: code') {i : Nat}
    {e : PcEntry} (h : (PcIndex.joinedEntries rows code)[i]? = some e) :
    (PcIndex.joinedEntries rows' code')[i]? = some e := by
  obtain ⟨row, instruction, hrow, hinstruction, he⟩ := getElem?_joinedEntries_eq_some_iff.mp h
  exact getElem?_joinedEntries_eq_some_iff.mpr
    ⟨row, instruction, getElem?_of_isPrefix hrows hrow, getElem?_of_isPrefix hcode hinstruction, he⟩

variable (hrows : rows <+: rows') (hcode : code <+: code')
  (hascending : code'.Pairwise fun a b => a.pc < b.pc)

include hrows hcode hascending

theorem find?_join_mono {pc : UInt32} {e : PcEntry}
    (h : PcIndex.find? (PcIndex.join rows code) pc = some e) :
    PcIndex.find? (PcIndex.join rows' code') pc = some e := by
  obtain ⟨i, hi, hpc⟩ :=
    (find?_join_eq_some_iff (hascending.sublist hcode.sublist)).mp h
  exact (find?_join_eq_some_iff hascending).mpr
    ⟨i, getElem?_joinedEntries_mono hrows hcode hi, hpc⟩

theorem exists_position_of_new {pc : UInt32} {e : PcEntry}
    (h : PcIndex.find? (PcIndex.join rows' code') pc = some e)
    (hnew : PcIndex.find? (PcIndex.join rows code) pc = none) :
    ∃ i, (PcIndex.join rows code).size ≤ i ∧
      (PcIndex.joinedEntries rows' code')[i]? = some e ∧ e.pc = pc := by
  have hascending' := hascending.sublist hcode.sublist
  obtain ⟨i, hi, hpc⟩ := (find?_join_eq_some_iff hascending).mp h
  refine ⟨i, ?_, hi, hpc⟩
  rw [size_join hascending', ← length_joinedEntries]
  apply Nat.le_of_not_lt
  intro hlt
  have hold : (PcIndex.joinedEntries rows code)[i]? =
      some (PcIndex.joinedEntries rows code)[i] := List.getElem?_eq_getElem hlt
  have hsame := (getElem?_joinedEntries_mono hrows hcode hold).symm.trans hi
  rw [Option.some.inj hsame] at hold
  rw [(find?_join_eq_some_iff hascending').mpr ⟨i, hold, hpc⟩] at hnew
  cases hnew

theorem key_lt_of_new {pc pc' : UInt32} {e : PcEntry}
    (h : PcIndex.find? (PcIndex.join rows' code') pc = some e)
    (hnew : PcIndex.find? (PcIndex.join rows code) pc = none)
    (hold : pc' ∈ (PcIndex.join rows code).keys) : pc' < pc := by
  have hascending' := hascending.sublist hcode.sublist
  obtain ⟨i, hsize, hi, rfl⟩ := exists_position_of_new hrows hcode hascending h hnew
  rw [keys_join hascending', ← pc_joinedEntries] at hold
  obtain ⟨e', hmem, rfl⟩ := List.mem_map.mp hold
  obtain ⟨j, hj⟩ := List.getElem?_of_mem hmem
  have hlt : j < i := by
    rw [size_join hascending', ← length_joinedEntries] at hsize
    exact Nat.lt_of_lt_of_le (List.getElem?_eq_some_iff.mp hj).1 hsize
  obtain ⟨-, instruction', -, hinstruction', rfl⟩ :=
    getElem?_joinedEntries_eq_some_iff.mp (getElem?_joinedEntries_mono hrows hcode hj)
  obtain ⟨-, instruction, -, hinstruction, rfl⟩ := getElem?_joinedEntries_eq_some_iff.mp hi
  obtain ⟨hj', rfl⟩ := List.getElem?_eq_some_iff.mp hinstruction'
  obtain ⟨hi', rfl⟩ := List.getElem?_eq_some_iff.mp hinstruction
  exact List.pairwise_iff_getElem.mp hascending j i hj' hi' hlt

end

/-- More code behind a whole instruction and more segments leave every entry of
the index as it is. What is new comes behind it, by its number and by its pc. -/
theorem index_of_append (pool pool' : Option TaskPool) {hex hex' front back text more : Bytes}
    {mapping mapping' : Mapping} (hhex : Bytecode.decode hex = .ok front)
    (hhex' : Bytecode.decode hex' = .ok (front ++ back))
    (hbuild : Mapping.buildWith pool hex text = .ok mapping)
    (hbuild' : Mapping.buildWith pool' hex' (text ++ ';'.toUInt8 :: more) = .ok mapping')
    (hne : text ≠ []) (hnull : text ≠ "null") (hwhole : EndsWhole (Instruction.scan front))
    (hfits : (front ++ back).length < 2 ^ 32) :
    (∀ pc e, mapping.index.find? pc = some e → mapping'.index.find? pc = some e) ∧
      ∀ pc e, mapping'.index.find? pc = some e → mapping.index.find? pc = none →
        mapping.index.size ≤ e.ordinal.toNat ∧ ∀ pc' ∈ mapping.index.keys, pc' < pc := by
  rw [buildWith_eq_build] at hbuild hbuild'
  obtain ⟨rows, code, hrows, hcode, rfl⟩ := build_eq_ok_iff.mp hbuild
  obtain ⟨rows', code', hrows', hcode', rfl⟩ := build_eq_ok_iff.mp hbuild'
  cases hhex.symm.trans hcode
  cases hhex'.symm.trans hcode'
  have hmore := decode_isPrefix hne hnull hrows hrows'
  have hscan := scan_isPrefix_append back hwhole
  have hascending := pairwise_scan (Nat.le_of_lt hfits)
  refine ⟨fun pc e => find?_join_mono hmore hscan hascending, fun pc e hfind hnone => ⟨?_, ?_⟩⟩
  · obtain ⟨i, hsize, hi, -⟩ := exists_position_of_new hmore hscan hascending hfind hnone
    obtain ⟨-, instruction, -, hinstruction, rfl⟩ := getElem?_joinedEntries_eq_some_iff.mp hi
    have hlt := index_lt_of_scan hinstruction
    change _ ≤ (UInt32.ofNat i).toNat
    rwa [UInt32.toNat_ofNat_of_lt' (Nat.lt_trans hlt hfits)]
  · exact fun pc' hold => key_lt_of_new hmore hscan hascending hfind hnone hold

/-- The second row has no instruction at first. -/
theorem index_of_append_push :
    let mapping := Mapping.ofParts [⟨⟨5, 9, 1, .into, 0⟩, 0⟩, ⟨⟨5, 3, 1, .into, 0⟩, 1⟩] [0x60, 0x01]
    let mapping' := Mapping.ofParts
      [⟨⟨5, 9, 1, .into, 0⟩, 0⟩, ⟨⟨5, 3, 1, .into, 0⟩, 1⟩, ⟨⟨7, 3, 1, .into, 0⟩, 2⟩]
      [0x60, 0x01, 0x60, 0x02, 0x00]
    Bytecode.decode "6001" = .ok [0x60, 0x01] ∧
      Bytecode.decode "0x6001600200" = .ok ([0x60, 0x01] ++ [0x60, 0x02, 0x00]) ∧
      Mapping.buildWith none "6001" "5:9:1:i;:3" = .ok mapping ∧
      Mapping.buildWith none "0x6001600200" ("5:9:1:i;:3" ++ ';'.toUInt8 :: "7") = .ok mapping' ∧
      ("5:9:1:i;:3" : Bytes) ≠ [] ∧ ("5:9:1:i;:3" : Bytes) ≠ "null" ∧
      EndsWhole (Instruction.scan [0x60, 0x01]) ∧
      (([0x60, 0x01] : Bytes) ++ [0x60, 0x02, 0x00]).length < 2 ^ 32 ∧
      (∃ e, mapping.index.find? 0 = some e ∧ mapping'.index.find? 0 = some e) ∧
      mapping.index.size = 1 ∧
      ∃ e, mapping'.index.find? 2 = some e ∧ mapping.index.find? 2 = none ∧ 1 ≤ e.ordinal.toNat := by
  intro mapping mapping'
  have hwhole : EndsWhole (Instruction.scan [0x60, 0x01]) := by
    have hscan : Instruction.scan [0x60, 0x01] = [⟨0, 0, 0x60, 1, false⟩] := by decide +kernel
    rw [hscan]
    rintro _ ⟨⟩
    rfl
  have hbuild : Mapping.buildWith none "6001" "5:9:1:i;:3" = .ok mapping := rfl
  have hbuild' : Mapping.buildWith none "0x6001600200" ("5:9:1:i;:3" ++ ';'.toUInt8 :: "7") =
      .ok mapping' := rfl
  have hold : mapping.index.find? 0 = some ⟨⟨5, 9, 1, .into, 0⟩, 0, 0, 0x60⟩ := by decide +kernel
  have hnone : mapping.index.find? 2 = none := by decide +kernel
  have hnew : mapping'.index.find? 2 = some ⟨⟨5, 3, 1, .into, 0⟩, 2, 1, 0x60⟩ := by decide +kernel
  have hsize : mapping.index.size = 1 := by decide +kernel
  obtain ⟨hkept, hadded⟩ := index_of_append none none rfl rfl hbuild hbuild' (by decide) (by decide)
    hwhole (by decide)
  refine ⟨rfl, rfl, hbuild, hbuild', by decide, by decide, hwhole, by decide,
    ⟨_, hold, hkept _ _ hold⟩, hsize, _, hnew, hnone, ?_⟩
  exact hsize ▸ (hadded _ _ hnew hnone).1

end EvmSourceMap.Proofs.MappingGrowth
