import EvmSourceMap.Proofs.JsonReading
import EvmSourceMap.Proofs.MappingReport
import EvmSourceMap.Proofs.RecordWritability
import EvmSourceMap.Proofs.TraceChunks

namespace EvmSourceMap.Proofs.OutputWritability

open Json (Token)
open Trace
open JsonMembers
open JsonReading
open JsonWritability
open MappingReport
open RecordAgreement
open RecordWritability
open SortedMapLookup
open TraceAnnotation
open TraceChunks

section

variable {files : FileTable} (mapping : Mapping)

theorem isWritable_metadata : mapping.metadata.isWritable = true := by
  apply MembersWritable.isWritable_ofMembers
  exact .cons rfl rfl <| .cons rfl rfl <| .cons rfl rfl <| .cons rfl rfl <| .cons rfl rfl <|
    .cons rfl rfl <| .cons rfl rfl membersWritable_nil

variable (hfiles : ValidTable files)

include hfiles

omit mapping in
theorem isWritable_fileRecords : (Mapping.fileRecords files).isWritable = true := by
  apply MembersWritable.isWritable_ofMembers
  intro member hmember
  obtain ⟨⟨id, file⟩, hmem, rfl⟩ := List.mem_map.mp hmember
  have hpath := (hfiles id file (get?_of_mem files.ascending hmem)).1
  refine ⟨isValid_ofInt id.toInt, MembersWritable.isWritable_ofMembers ?_⟩
  exact .cons rfl rfl <| .cons rfl (isWritable_string.mpr hpath) membersWritable_nil

theorem isWritable_pcRecords_iff :
    (mapping.pcRecords files).isWritable = true ↔
      ∀ pc e, mapping.index.find? pc = some e → WholeRange files e.toElement := by
  constructor
  · intro h pc e hfind
    have hrecord : mapping.describe? files pc = some (e.record files) := by
      rw [Mapping.describe?, hfind, Option.map_some]
    rw [← get?_pcRecords] at hrecord
    exact (isWritable_record_iff hfiles).mp (isWritable_of_get? h hrecord)
  · intro h
    apply MembersWritable.isWritable_ofMembers
    intro member hmember
    obtain ⟨⟨pc, e⟩, hmem, rfl⟩ := List.mem_map.mp hmember
    have hfind : mapping.index.find? pc = some e := get?_of_mem mapping.index.ascending hmem
    exact ⟨isValid_ofNat pc.toNat, (isWritable_record_iff hfiles).mpr (h pc e hfind)⟩

theorem isWritable_report_iff :
    (mapping.report files).isWritable = true ↔
      ∀ pc e, mapping.index.find? pc = some e → WholeRange files e.toElement := by
  rw [← isWritable_pcRecords_iff mapping hfiles]
  constructor
  · intro h
    have hget : (mapping.report files).get? "pc_to_source" = some (mapping.pcRecords files) := rfl
    exact isWritable_of_get? h hget
  · intro h
    apply MembersWritable.isWritable_ofMembers
    exact .cons rfl (isWritable_metadata mapping) <|
      .cons rfl (isWritable_fileRecords hfiles) <| .cons rfl h membersWritable_nil

omit mapping in
theorem isWritable_annotated_iff {index : PcIndex} {entry : Json}
    (hentry : entry.isWritable = true) :
    (annotated index files entry).isWritable = true ↔
      ∀ pc e, RecordedAt entry pc → index.find? pc = some e → WholeRange files e.toElement := by
  constructor
  · intro h pc e hpc hfind
    rw [← isValid_snippet_iff hfiles]
    intro range hrange
    have hlocated : Located index files entry e range :=
      ⟨⟨pc, hpc, find?_eq_some_iff_mem.mp hfind⟩, hrange⟩
    rw [annotated, annotate?_eq_some_iff.mpr ⟨e, range, hlocated, rfl⟩] at h
    have hsource := isWritable_of_get? h (updated_set hpc.1 _ _).here
    exact (isWritable_sourceRecord_iff hfiles hrange).mp hsource
  · intro h
    rw [annotated]
    cases hannotate : annotate? index files entry with
    | none => exact hentry
    | some entry' =>
        obtain ⟨e, range, ⟨⟨pc, hpc, hmem⟩, hrange⟩, rfl⟩ := annotate?_eq_some_iff.mp hannotate
        have hwhole := h pc e hpc (find?_eq_some_iff_mem.mpr hmem)
        have hsnippet := (isValid_snippet_iff hfiles).mpr hwhole range hrange
        exact isWritable_set hentry rfl ((isWritable_sourceRecord_iff hfiles hrange).mpr hsnippet)

end

theorem read_entries : Json.read "[\x7b\"pc\":0\x7d]" = .ok (.array [bareEntry 0]) := by
  -- The recursion along a string is on its length, so that it does not reduce by itself.
  have hbody : Token.stringBody? [] [0x70, 0x63, 0x22, 0x3a, 0x30, 0x7d, 0x5d] =
      some ([0x70, 0x63], [0x3a, 0x30, 0x7d, 0x5d]) := by
    simp [Token.stringBody?]
  have hkey : Token.next? 0x22 [0x70, 0x63, 0x22, 0x3a, 0x30, 0x7d, 0x5d] =
      some (.scalar (.string "pc"), [0x3a, 0x30, 0x7d, 0x5d]) := by
    change (Token.stringBody? [] _).bind _ = _
    rw [hbody]
    rfl
  have htokens : Token.ofText "[\x7b\"pc\":0\x7d]" = [.openArray, .openObject,
      .scalar (.string "pc"), .colon, .scalar (.integer 0), .closeObject, .closeArray] := by
    change Token.ofText [0x5b, 0x7b, 0x22, 0x70, 0x63, 0x22, 0x3a, 0x30, 0x7d, 0x5d] = _
    rw [ofText_cons rfl rfl, ofText_cons rfl rfl, ofText_cons rfl hkey, ofText_cons rfl rfl,
      ofText_cons rfl rfl, ofText_cons rfl rfl, ofText_cons rfl rfl, Token.ofText]
    rfl
  change (Token.ofText "[\x7b\"pc\":0\x7d]").foldlM Json.ReadState.step (.value []) >>= _ = _
  rw [htokens]
  rfl

theorem exists_documents_iff_of_lawful {codec : Json.Codec} (hcodec : codec.Lawful)
    (mapping : Mapping) {files : FileTable} (hfiles : ValidTable files) (options : Options)
    {text : Bytes} {entries : List Json} (htrace : codec.read text = .ok (.array entries)) :
    ((∃ document, codec.document? (mapping.report files) = some document) ↔
        ∀ pc e, mapping.index.find? pc = some e → WholeRange files e.toElement) ∧
      ∃ result, annotate options mapping.index files (.array entries) = .ok result ∧
        ((∃ document, codec.document? (.array result.entries) = some document) ↔
          ∀ entry ∈ entries, ∀ pc e, RecordedAt entry pc → mapping.index.find? pc = some e →
            WholeRange files e.toElement) := by
  obtain ⟨result, hresult, hentries⟩ := entries_annotate options mapping.index files entries
  have hread := isWritable_array.mp (hcodec.isWritable_of_read text _ htrace)
  refine ⟨?_, result, hresult, ?_⟩
  · rw [hcodec.exists_document?_iff, isWritable_report_iff mapping hfiles]
  · rw [hcodec.exists_document?_iff, isWritable_array, hentries, List.forall_mem_map]
    exact forall₂_congr fun entry hmem => isWritable_annotated_iff hfiles (hread entry hmem)

/-- Files in plain ASCII leave nothing that cannot be written. -/
theorem exists_documents_of_ascii {codec : Json.Codec} (hcodec : codec.Lawful) (mapping : Mapping)
    {files : FileTable} (hfiles : ValidTable files)
    (hascii : ∀ id file, files.find? id = some file → ∀ b ∈ file.contents, b < 0x80)
    (options : Options) {text : Bytes} {entries : List Json}
    (htrace : codec.read text = .ok (.array entries)) :
    (∃ document, codec.document? (mapping.report files) = some document) ∧
      ∃ result, annotate options mapping.index files (.array entries) = .ok result ∧
        ∃ document, codec.document? (.array result.entries) = some document := by
  obtain ⟨hreport, result, hresult, hentries⟩ :=
    exists_documents_iff_of_lawful hcodec mapping hfiles options htrace
  refine ⟨hreport.mpr fun _ e _ => wholeRange_of_ascii hascii e.toElement, result, hresult, ?_⟩
  exact hentries.mpr fun _ _ _ e _ _ => wholeRange_of_ascii hascii e.toElement

/-- The report and an annotated trace can be written exactly if all the ranges in
them are cut out of their files between characters. -/
theorem exists_documents_iff (mapping : Mapping) {files : FileTable} (hfiles : ValidTable files)
    (options : Options) {text : Bytes} {entries : List Json}
    (htrace : Json.read text = .ok (.array entries)) :
    ((∃ document, (mapping.report files).document? = some document) ↔
        ∀ pc e, mapping.index.find? pc = some e → WholeRange files e.toElement) ∧
      ∃ result, annotate options mapping.index files (.array entries) = .ok result ∧
        ((∃ document, (Json.array result.entries).document? = some document) ↔
          ∀ entry ∈ entries, ∀ pc e, RecordedAt entry pc → mapping.index.find? pc = some e →
            WholeRange files e.toElement) :=
  exists_documents_iff_of_lawful lawful_strict mapping hfiles options htrace

/-- A range of a whole character of two bytes. -/
theorem exists_documents_wholeCharacter :
    let files := FileTable.add ∅ 0 "a.sol" "é!"
    let mapping := Mapping.ofParts [⟨⟨0, 2, 0, .regular, 0⟩, 0⟩] [0x00]
    ValidTable files ∧ Mapping.build "00" "0:2:0" = .ok mapping ∧
      Json.read "[\x7b\"pc\":0\x7d]" = .ok (.array [bareEntry 0]) ∧
      (∃ document, (mapping.report files).document? = some document) ∧
      ∃ result, annotate {} mapping.index files (.array [bareEntry 0]) = .ok result ∧
        ∃ document, (Json.array result.entries).document? = some document := by
  intro files mapping
  have hfiles : ValidTable files := validTable_empty.add rfl rfl 0
  have hindex : mapping.index.entries = [(0, ⟨⟨0, 2, 0, .regular, 0⟩, 0, 0, 0⟩)] := by
    decide +kernel
  have hwhole : ∀ pc e, mapping.index.find? pc = some e → WholeRange files e.toElement := by
    intro pc e hfind
    have hmem := mem_of_get? hfind
    rw [hindex] at hmem
    cases List.mem_singleton.mp hmem
    intro file hfile _ _ _
    cases hfile
    exact ⟨rfl, rfl⟩
  obtain ⟨hreport, result, hresult, hentries⟩ :=
    exists_documents_iff mapping hfiles {} read_entries
  exact ⟨hfiles, rfl, read_entries, hreport.mpr hwhole, result, hresult,
    hentries.mpr fun _ _ pc e _ => hwhole pc e⟩

/-- A range that ends inside a character leaves nothing to be written, although
its file is valid. -/
theorem document?_splitCharacter :
    let files := FileTable.add ∅ 0 "a.sol" "é!"
    let mapping := Mapping.ofParts [⟨⟨0, 1, 0, .regular, 0⟩, 0⟩] [0x00]
    ValidTable files ∧ Mapping.build "00" "0:1:0" = .ok mapping ∧
      Json.read "[\x7b\"pc\":0\x7d]" = .ok (.array [bareEntry 0]) ∧
      (mapping.report files).document? = none ∧
      ∃ result, annotate {} mapping.index files (.array [bareEntry 0]) = .ok result ∧
        (Json.array result.entries).document? = none := by
  intro files mapping
  obtain ⟨result, hresult, hentries⟩ := entries_annotate {} mapping.index files [bareEntry 0]
  refine ⟨validTable_empty.add rfl rfl 0, rfl, read_entries, document?_eq_none ?_,
    result, hresult, document?_eq_none ?_⟩
  · decide +kernel
  · rw [hentries]
    decide +kernel

end EvmSourceMap.Proofs.OutputWritability
