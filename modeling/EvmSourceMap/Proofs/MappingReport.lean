import EvmSourceMap.Mapping.Report
import EvmSourceMap.Proofs.DecimalSpelling
import EvmSourceMap.Proofs.JsonMembers
import EvmSourceMap.Proofs.MappingBuild
import Mathlib.Data.List.Nodup

namespace EvmSourceMap.Proofs.MappingReport

open DecimalSpelling
open InstructionScan
open JsonMembers
open MappingBuild
open PcIndexJoin
open SortedMapLookup

section

variable (mapping : Mapping) (files : FileTable)

/-- The members of the records before they are put in order. -/
def pcMembers : List (Bytes × Json) :=
  mapping.index.entries.map fun (pc, e) => (Decimal.ofNat pc.toNat, e.record files)

theorem map_fst_pcMembers :
    (pcMembers mapping files).map Prod.fst =
      mapping.index.keys.map fun pc => Decimal.ofNat pc.toNat := by
  rw [pcMembers, SortedMap.keys, List.map_map, List.map_map]
  rfl

theorem spelling_injective : Function.Injective fun pc : UInt32 => Decimal.ofNat pc.toNat :=
  fun _ _ hsame => UInt32.toNat_inj.mp (ofNat_injective hsame)

theorem nodup_pcMembers : ((pcMembers mapping files).map Prod.fst).Nodup := by
  rw [map_fst_pcMembers]
  exact (nodup_keys mapping.index.ascending).map spelling_injective

theorem get?_pcRecords (pc : UInt32) :
    (mapping.pcRecords files).get? (Decimal.ofNat pc.toNat) = mapping.describe? files pc := by
  rw [Mapping.pcRecords, get?_ofMembers, Mapping.describe?]
  cases hfind : mapping.index.find? pc with
  | some e =>
      apply get?_of_mem_of_nodup
      · rw [List.map_reverse, List.nodup_reverse]
        exact nodup_pcMembers mapping files
      · apply List.mem_reverse.mpr
        exact List.mem_map.mpr ⟨(pc, e), mem_of_get? hfind, rfl⟩
  | none =>
      rw [Option.map_none, get?_eq_none_iff]
      intro record hmem
      obtain ⟨⟨pc', e⟩, hentry, hsame⟩ := List.mem_map.mp (List.mem_reverse.mp hmem)
      cases spelling_injective (Prod.mk.inj hsame).1
      exact get?_eq_none_iff.mp hfind e hentry

theorem exists_pcRecords :
    ∃ records, mapping.pcRecords files = .object records ∧ records.length = mapping.index.size ∧
      (records.map Prod.fst).Perm (mapping.index.keys.map fun pc => Decimal.ofNat pc.toNat) := by
  have hperm := ofList_perm (nodup_pcMembers mapping files)
  refine ⟨_, rfl, hperm.length_eq.trans (List.length_map _), ?_⟩
  rw [← map_fst_pcMembers mapping files]
  exact hperm.map Prod.fst

end

theorem sum_count_jumps (jumps : List Jump) :
    jumps.count .into + jumps.count .out + jumps.count .regular = jumps.length := by
  induction jumps with
  | nil => rfl
  | cons jump jumps ih =>
      simp only [List.count_cons, List.length_cons, ← ih]
      cases jump <;> simp <;> omega

theorem head?_scan {code : Bytes} {instruction : Instruction}
    (h : (Instruction.scan code).head? = some instruction) : instruction.pc = 0 := by
  cases code with
  | nil => simp [Instruction.scan, Instruction.scanFrom] at h
  | cons op rest =>
      rw [Instruction.scan, scanFrom_cons] at h
      cases h
      rfl

section

variable {rows : List SourceMap.Row} {code : Bytes} (hcode : code.length < 2 ^ 32)

include hcode

theorem keys_ofParts :
    (Mapping.ofParts rows code).index.keys =
      ((Instruction.scan code).take rows.length).map (·.pc) :=
  keys_join (pairwise_scan (Nat.le_of_lt hcode))

theorem minPc_summary_ofParts : (Mapping.ofParts rows code).index.summary.minPc = 0 := by
  change (SortedMap.minKey? _).getD 0 = 0
  rw [minKey?_eq, keys_ofParts hcode, List.head?_map, List.head?_take]
  split
  · rfl
  · cases hfirst : (Instruction.scan code).head? with
    | none => rfl
    | some instruction => exact head?_scan hfirst

theorem maxPc_summary_ofParts (h : 0 < (Mapping.ofParts rows code).index.size) :
    (Mapping.ofParts rows code).index.summary.maxPc.toNat < code.length := by
  change ((Mapping.ofParts rows code).index.maxKey?.getD 0).toNat < _
  rw [maxKey?_eq]
  cases hlast : (Mapping.ofParts rows code).index.keys.getLast? with
  | none =>
      have hempty := List.length_eq_zero_iff.mpr (List.getLast?_eq_none_iff.mp hlast)
      rw [SortedMap.keys, List.length_map] at hempty
      exact absurd hempty (Nat.ne_of_gt h)
  | some pc =>
      have hmem := List.mem_of_getLast? hlast
      rw [keys_ofParts hcode] at hmem
      obtain ⟨instruction, hinstruction, rfl⟩ := List.mem_map.mp hmem
      have hbyte := opcode_scan (Nat.le_of_lt hcode) (List.mem_of_mem_take hinstruction)
      exact (List.getElem?_eq_some_iff.mp hbyte).1

end

/-- The value at the end of a path of keys. -/
def at? (path : List Bytes) (value : Json) : Option Json :=
  path.foldlM (fun value key => value.get? key) value

/-- The figures of a report on a mapping fit each other and the number of its
records. -/
structure FiguresFit (mapping : Mapping) (report : Json) (records : Nat) : Prop where
  mapped : at? ["metadata", "mapped_pcs"] report = some (.ofNat records)
  total : at? ["metadata", "total_instructions"] report = some (.ofNat mapping.rows.length)
  scanned : at? ["metadata", "bytecode_instructions"] report = some (.ofNat mapping.code.length)
  records_eq : records = min mapping.rows.length mapping.code.length
  jumps : ∃ count : Jump → Nat,
    (∀ jump, count jump = (mapping.rows.map (·.jump)).count jump ∧
      at? ["metadata", "jump_type_counts", jump.label] report = some (.ofNat (count jump))) ∧
      count .into + count .out + count .regular = mapping.rows.length
  range : 0 < records →
    at? ["metadata", "pc_range", "min"] report = some (.ofNat 0) ∧
      ∃ last length : Nat, at? ["metadata", "pc_range", "max"] report = some (.ofNat last) ∧
        at? ["metadata", "bytecode_length"] report = some (.ofNat length) ∧ last < length

theorem figuresFit_ofParts {rows : List SourceMap.Row} {code : Bytes}
    (hcode : code.length < 2 ^ 32) (files : FileTable) :
    FiguresFit (Mapping.ofParts rows code) ((Mapping.ofParts rows code).report files)
      (Mapping.ofParts rows code).index.size where
  mapped := rfl
  total := rfl
  scanned := rfl
  records_eq := size_join (pairwise_scan (Nat.le_of_lt hcode))
  jumps := by
    refine ⟨(rows.map (·.jump)).count, fun jump => ⟨rfl, ?_⟩, ?_⟩
    · cases jump <;> rfl
    · exact (sum_count_jumps _).trans (List.length_map _)
  range := by
    intro hsize
    refine ⟨?_, _, code.length, rfl, rfl, maxPc_summary_ofParts hcode hsize⟩
    change some (Json.ofUInt32 (Mapping.ofParts rows code).index.summary.minPc) = _
    rw [minPc_summary_ofParts hcode]
    rfl

/-- The report has one record for each mapped pc, under its decimal spelling and
the same as for the pc alone, and its figures fit the records. -/
theorem report_of_buildWith (pool : Option TaskPool) {bytecode sourceMap : Bytes}
    {mapping : Mapping} (hbuild : Mapping.buildWith pool bytecode sourceMap = .ok mapping)
    (hcode : mapping.codeLength < 2 ^ 32) (files : FileTable) :
    ∃ records, at? ["pc_to_source"] (mapping.report files) = some (.object records) ∧
      (records.map Prod.fst).Nodup ∧
      (∀ key, key ∈ records.map Prod.fst ↔
        ∃ pc ∈ mapping.index.keys, Decimal.ofNat pc.toNat = key) ∧
      (∀ pc : UInt32,
        Entries.get? (Decimal.ofNat pc.toNat) records = mapping.describe? files pc) ∧
      FiguresFit mapping (mapping.report files) records.length := by
  rw [buildWith_eq_build] at hbuild
  obtain ⟨rows, code, -, -, rfl⟩ := build_eq_ok_iff.mp hbuild
  obtain ⟨records, hrecords, hlength, hkeys⟩ := exists_pcRecords (Mapping.ofParts rows code) files
  refine ⟨records, ?_, ?_, ?_, ?_, ?_⟩
  · rw [← hrecords]
    rfl
  · rw [hkeys.nodup_iff]
    exact (nodup_keys (SortedMap.ascending _)).map spelling_injective
  · exact fun key => hkeys.mem_iff.trans List.mem_map
  · intro pc
    rw [← get?_pcRecords, hrecords]
    rfl
  · rw [hlength]
    exact figuresFit_ofParts hcode files

/-- Eleven instructions, so that the records are not in the order of their pcs. -/
theorem report_of_buildWith_eleven :
    let mapping := Mapping.ofParts
      [⟨⟨0, 1, 0, .into, 0⟩, 0⟩, ⟨⟨0, 1, 0, .into, 0⟩, 1⟩, ⟨⟨0, 1, 0, .into, 0⟩, 2⟩,
        ⟨⟨0, 1, 0, .into, 0⟩, 3⟩, ⟨⟨0, 1, 0, .into, 0⟩, 4⟩, ⟨⟨0, 1, 0, .into, 0⟩, 5⟩,
        ⟨⟨0, 1, 0, .into, 0⟩, 6⟩, ⟨⟨0, 1, 0, .into, 0⟩, 7⟩, ⟨⟨0, 1, 0, .into, 0⟩, 8⟩,
        ⟨⟨0, 1, 0, .into, 0⟩, 9⟩, ⟨⟨0, 2, 0, .out, 0⟩, 10⟩]
      (List.replicate 11 0x5b)
    let files := FileTable.add ∅ 0 "a.sol" "text"
    Mapping.buildWith none "5b5b5b5b5b5b5b5b5b5b5b" "0:1:0:i;;;;;;;;;;:2::o" = .ok mapping ∧
      mapping.codeLength < 2 ^ 32 ∧
      ∃ records, at? ["pc_to_source"] (mapping.report files) = some (.object records) ∧
        (records.map Prod.fst).take 3 = ["0", "1", "10"] ∧
        Entries.get? ("10" : Bytes) records = mapping.describe? files 10 ∧
        FiguresFit mapping (mapping.report files) 11 := by
  intro mapping files
  have hbuild : Mapping.buildWith none "5b5b5b5b5b5b5b5b5b5b5b" "0:1:0:i;;;;;;;;;;:2::o" =
      .ok mapping := rfl
  obtain ⟨records, hrecords, -, -, hvalues, hfigures⟩ :=
    report_of_buildWith none hbuild (by decide) files
  have hkeys : ∀ records, at? ["pc_to_source"] (mapping.report files) = some (.object records) →
      records.map Prod.fst = ["0", "1", "10", "2", "3", "4", "5", "6", "7", "8", "9"] := by
    rintro _ ⟨⟩
    decide +kernel
  have hlength : records.length = 11 := by
    rw [← List.length_map Prod.fst, hkeys records hrecords]
    rfl
  refine ⟨hbuild, by decide, records, hrecords, ?_, hvalues 10, hlength ▸ hfigures⟩
  rw [hkeys records hrecords]
  rfl

end EvmSourceMap.Proofs.MappingReport
