import EvmSourceMap.Proofs.DecimalSpelling
import EvmSourceMap.Proofs.JsonWritability
import EvmSourceMap.Proofs.RecordAgreement
import EvmSourceMap.Proofs.Utf8Cuts

namespace EvmSourceMap.Proofs.RecordWritability

open Utf8
open Trace
open DecimalSpelling
open JsonWritability
open RecordAgreement
open SourceRanges
open TraceAnnotation
open Utf8Cuts

theorem isValid_ofNat (n : Nat) : isValid (Decimal.ofNat n) = true := by
  apply isValid_of_ascii
  intro b hb
  have hdigit := (isNumeral_ofNat n).2 b hb
  rw [Decimal.isDigit, Bool.and_eq_true, decide_eq_true_eq, decide_eq_true_eq] at hdigit
  exact UInt8.lt_of_le_of_lt hdigit.2 (by decide)

theorem isValid_ofInt (n : Int) : isValid (Decimal.ofInt n) = true := by
  rw [Decimal.ofInt]
  split
  · exact isValid_append (a := ['-'.toUInt8]) rfl (isValid_ofNat n.natAbs)
  · exact isValid_ofNat n.natAbs

theorem digit_lt {v : UInt8} (h : v < 16) : Hex.digit v < 0x80 := by
  have hv : v.toNat < 16 := h
  rw [Hex.digit, UInt8.lt_iff_toNat_lt]
  split
  · change (0x30 + v.toNat) % 256 < 128
    omega
  · rename_i hten
    have hten' : ¬ v.toNat < 10 := hten
    have hsub : (v - 10).toNat = v.toNat - 10 := UInt8.toNat_sub_of_le v 10 (UInt8.not_lt.mp hten)
    rw [UInt8.toNat_add, hsub]
    change (0x61 + (v.toNat - 10)) % 256 < 128
    omega

theorem isValid_hex (op : Opcode) : isValid op.hex = true := by
  apply isValid_append rfl
  apply isValid_of_ascii
  intro b hb
  rw [Hex.ofByte, List.mem_pair] at hb
  rcases hb with rfl | rfl
  · apply digit_lt
    rw [UInt8.lt_iff_toNat_lt, UInt8.toNat_div]
    exact Nat.div_lt_of_lt_mul op.toNat_lt
  · apply digit_lt
    rw [UInt8.lt_iff_toNat_lt, UInt8.toNat_mod]
    exact Nat.mod_lt _ (by decide)

theorem isValid_assigned : ∀ e ∈ Opcode.assigned, isValid (Bytes.ofString e.2) = true := by
  decide

theorem isValid_name (op : Opcode) : isValid op.name = true := by
  rw [Opcode.name]
  split
  · rename_i name hname
    obtain ⟨_, _, hassigned, -⟩ := List.lookup_eq_some_iff.mp hname
    apply isValid_assigned (op, name)
    simp [hassigned]
  · repeat' split
    all_goals apply isValid_append rfl
    all_goals first | exact isValid_ofNat _ | exact isValid_hex op

theorem isValid_label (jump : Jump) : isValid jump.label = true := by
  cases jump <;> rfl

theorem isValid_symbol (jump : Jump) : isValid [jump.symbol] = true := by
  cases jump <;> rfl

def ValidTable (files : FileTable) : Prop :=
  ∀ id file, files.find? id = some file →
    isValid file.path = true ∧ isValid file.contents = true

theorem validTable_empty : ValidTable ∅ := by
  intro _ _ hfile
  cases hfile

theorem ValidTable.add {files : FileTable} (h : ValidTable files) {path contents : Bytes}
    (hpath : isValid path = true) (hcontents : isValid contents = true) (id : Int32) :
    ValidTable (files.add id path contents) := by
  intro id' file hfile
  rw [find?_add] at hfile
  split at hfile
  · cases hfile
    exact ⟨hpath, hcontents⟩
  · exact h id' file hfile

/-- A range is cut out of its file between characters, if it is one at all. What
lies behind the end of the file does not count. -/
def WholeRange (files : FileTable) (e : SourceMap.Element) : Prop :=
  ∀ file, files.find? e.fileIndex = some file →
    0 ≤ e.start → 0 < e.length → e.start.toInt.toNat < file.contents.length →
    AtBoundary file.contents e.start.toInt.toNat ∧
      AtBoundary file.contents (e.start.toInt.toNat + e.length.toInt.toNat)

theorem wholeRange_of_ascii {files : FileTable}
    (h : ∀ id file, files.find? id = some file → ∀ b ∈ file.contents, b < 0x80)
    (e : SourceMap.Element) : WholeRange files e := by
  intro file hfile _ _ _
  have hcut : ∀ offset, AtBoundary file.contents offset := fun offset =>
    isValid_of_ascii fun b hb => h _ file hfile b (List.mem_of_mem_take hb)
  exact ⟨hcut _, hcut _⟩

theorem isValid_snippet_rangeOf_iff {file : SourceFile} (hfile : isValid file.contents = true)
    {start length : Int32} (hlength : 0 < length)
    (hinside : start.toInt.toNat < file.contents.length) :
    isValid (rangeOf file start length).snippet = true ↔
      AtBoundary file.contents start.toInt.toNat ∧
        AtBoundary file.contents (start.toInt.toNat + length.toInt.toNat) := by
  have hpos : 0 < length.toInt := Int32.lt_iff_toInt_lt.mp hlength
  rw [rangeOf, isValid_trim_iff, isValid_cut_iff hfile (by omega) (by omega), atBoundary_min]

section

variable {files : FileTable} {e : PcEntry} (hfiles : ValidTable files)

include hfiles

theorem isValid_path {range : Location} (h : e.location? files = some range) :
    isValid range.path = true := by
  obtain ⟨file, hfile, -, rfl⟩ := resolve?_eq_some_iff.mp h
  exact (hfiles _ file hfile).1

theorem isValid_snippet_iff :
    (∀ range, e.location? files = some range → isValid range.snippet = true) ↔
      WholeRange files e.toElement := by
  simp only [PcEntry.location?, resolve?_eq_some_iff]
  constructor
  · intro h file hfile hstart hlength hinside
    have hsnippet := h _ ⟨file, hfile, ⟨hstart, hlength, hinside⟩, rfl⟩
    exact (isValid_snippet_rangeOf_iff (hfiles _ file hfile).2 hlength hinside).mp hsnippet
  · rintro h _ ⟨file, hfile, ⟨hstart, hlength, hinside⟩, rfl⟩
    apply (isValid_snippet_rangeOf_iff (hfiles _ file hfile).2 hlength hinside).mpr
    exact h file hfile hstart hlength hinside

theorem isWritable_sourceRecord_iff {range : Location} (h : e.location? files = some range) :
    (sourceRecord range e).isWritable = true ↔ isValid range.snippet = true := by
  constructor
  · intro hrecord
    have hsnippet := (isSourceRecord_sourceRecord range e).snippet
    exact isWritable_string.mp (isWritable_of_get? hrecord hsnippet)
  · intro hsnippet
    apply MembersWritable.isWritable_ofMembers
    have hpath := isWritable_string.mpr (isValid_path hfiles h)
    have hjump := isWritable_string.mpr (isValid_label e.jump)
    exact .cons rfl hpath <| .cons rfl rfl <| .cons rfl rfl <| .cons rfl rfl <| .cons rfl rfl <|
      .cons rfl (isWritable_string.mpr hsnippet) <| .cons rfl rfl <| .cons rfl rfl <|
      .cons rfl hjump membersWritable_nil

omit hfiles in
theorem membersWritable_instructionFields : MembersWritable e.instructionFields := by
  have hhex := isWritable_string.mpr (isValid_hex e.opcode)
  have hname := isWritable_string.mpr (isValid_name e.opcode)
  have hsymbol := isWritable_string.mpr (isValid_symbol e.jump)
  have hlabel := isWritable_string.mpr (isValid_label e.jump)
  exact .cons rfl rfl <| .cons rfl rfl <| .cons rfl hhex <| .cons rfl hname <|
    .cons rfl hsymbol <| .cons rfl hlabel <| .cons rfl rfl <| .cons rfl rfl <| .cons rfl rfl <|
    .cons rfl rfl membersWritable_nil

theorem membersWritable_fileFields : MembersWritable (e.fileFields files) := by
  rw [PcEntry.fileFields]
  split
  · rename_i file hfile
    have hpath := isWritable_string.mpr (hfiles _ file hfile).1
    exact .cons rfl hpath <| .cons rfl rfl membersWritable_nil
  · have hunknown : isValid ("unknown_file_" ++ Decimal.ofInt e.fileIndex.toInt) = true :=
      isValid_append rfl (isValid_ofInt _)
    exact .cons rfl (isWritable_string.mpr hunknown) <| .cons rfl rfl membersWritable_nil

omit hfiles in
theorem membersWritable_rangeMembers {range : Location} (h : isValid range.snippet = true) :
    MembersWritable (rangeMembers range) :=
  .cons rfl (isWritable_string.mpr h) <| .cons rfl rfl <| .cons rfl rfl <| .cons rfl rfl <|
    .cons rfl rfl membersWritable_nil

/-- A record can be written exactly if its snippet is cut out of its file between
characters. -/
theorem isWritable_record_iff :
    (e.record files).isWritable = true ↔ WholeRange files e.toElement := by
  rw [← isValid_snippet_iff hfiles]
  constructor
  · intro hrecord range hrange
    have hsnippet : (e.record files).get? "snippet" = some (.string range.snippet) := by
      rw [get?_record, rangeFields_of_location? hrange]
      rfl
    exact isWritable_string.mp (isWritable_of_get? hrecord hsnippet)
  · intro hsnippet
    refine MembersWritable.isWritable_ofMembers (.append (.append
      membersWritable_instructionFields (membersWritable_fileFields hfiles)) ?_)
    cases hrange : e.location? files with
    | some range =>
        rw [rangeFields_of_location? hrange]
        exact membersWritable_rangeMembers (hsnippet range hrange)
    | none =>
        rw [rangeFields_of_no_location? hrange]
        exact membersWritable_rangeMembers rfl

end

end EvmSourceMap.Proofs.RecordWritability
