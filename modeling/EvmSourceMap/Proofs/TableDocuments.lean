import EvmSourceMap.Proofs.JsonMembers
import EvmSourceMap.Proofs.JsonWritability
import EvmSourceMap.Proofs.SourceIds
import Mathlib.Data.List.Nodup
import Mathlib.Data.List.Perm.Basic

/-!
The documents that list source files. A list of files in any order and an object with a member for
each file come to the same table.
-/

namespace EvmSourceMap.Proofs.TableDocuments

open CompilerOutput
open DecimalSpelling
open ExceptInversion
open JsonMembers
open JsonWritability
open ListReading
open SortedMapLookup
open SourceIds

/-! ### Tables of different files -/

theorem entries_tableOf (files : List SourceFile) :
    (tableOf files).entries = Entries.ofList (files.map fun file => (file.id, file)) := by
  have hfoldl : ∀ table : FileTable,
      (files.foldl (fun table file => table.add file.id file.path file.contents) table).entries =
        (files.map fun file => (file.id, file)).foldl
          (fun acc e => Entries.insert e.1 e.2 acc) table.entries := by
    induction files with
    | nil => exact fun _ => rfl
    | cons file files ih =>
        intro table
        obtain ⟨id, path, contents, lineStarts, rfl⟩ := file
        exact ih _
  exact hfoldl ∅

section

variable {files : List SourceFile} (hdistinct : (files.map (·.id)).Nodup)

include hdistinct

theorem nodup_keys_of_distinct : ((files.map fun file => (file.id, file)).map Prod.fst).Nodup := by
  rw [List.map_map]
  exact hdistinct

theorem tableOf_eq_of_perm {order : List SourceFile} (h : order.Perm files) :
    tableOf order = tableOf files := by
  apply eq_of_entries_eq
  rw [entries_tableOf, entries_tableOf]
  exact (ofList_eq_of_perm (h.symm.map _) (nodup_keys_of_distinct hdistinct)).symm

theorem find?_tableOf_iff_mem {id : Int32} {file : SourceFile} :
    (tableOf files).find? id = some file ↔ file ∈ files ∧ file.id = id := by
  have hperm := ofList_perm (nodup_keys_of_distinct hdistinct)
  calc
    (tableOf files).find? id = some file ↔ (id, file) ∈ (tableOf files).entries :=
      get?_eq_some_iff
    _ ↔ (id, file) ∈ files.map fun file => (file.id, file) := by
      rw [entries_tableOf, hperm.mem_iff]
    _ ↔ file ∈ files ∧ file.id = id := by simp [and_comm]

end

/-! ### Documents -/

/-- An id as a list gives it: the number, or its decimal digits. -/
inductive GivenAs (id : Int32) : Json → Prop
  | number : GivenAs id (.integer id.toInt)
  | digits : GivenAs id (.string (Decimal.ofInt id.toInt))

/-- The path and the contents of a file, as a document has them. -/
structure Presents (value : Json) (file : SourceFile) : Prop where
  path : value.get? "path" = some (.string file.path)
  contents : value.get? "content" = some (.string file.contents)

/-- An element of a list stands for a file. -/
structure Element (value : Json) (file : SourceFile) : Prop extends Presents value file where
  id : ∃ id, value.get? "id" = some id ∧ GivenAs file.id id

/-- A member of an object stands for a file. -/
structure Member (member : Bytes × Json) (file : SourceFile) : Prop
    extends Presents member.2 file where
  id : member.1 = Decimal.ofInt file.id.toInt

/-- The documents that stand for some files. The members of an object may have been written in any
order too. -/
inductive Lists (files : List SourceFile) : Json → Prop
  | array {elements : List Json} {order : List SourceFile} (horder : order.Perm files)
      (helements : List.Forall₂ Element elements order) : Lists files (.array elements)
  | object {members : List (Bytes × Json)} {order : List SourceFile} (horder : order.Perm files)
      (hmembers : List.Forall₂ Member members order) : Lists files (.ofMembers members)

theorem GivenAs.takenFor {id : Int32} {value : Json} (h : GivenAs id value) :
    TakenFor value id := by
  cases h with
  | number => exact .integer ⟨0, by simp⟩
  | digits => exact .text (spells_ofInt _)

theorem Element.listedAs {value : Json} {file : SourceFile} (h : Element value file) :
    ListedAs value file where
  id := by
    obtain ⟨id, hid, hgiven⟩ := h.id
    exact ⟨id, hid, hgiven.takenFor⟩
  path := h.path
  contents := h.contents

theorem Member.addKeyedFile {member : Bytes × Json} {file : SourceFile} (h : Member member file)
    (table : FileTable) :
    addKeyedFile table member.1 member.2 = .ok (table.add file.id file.path file.contents) := by
  have hobject : ¬ (!member.2.isObject) = true := by simp [isObject_of_get? h.path]
  have hid : readId "source file table" (.string member.1) = .ok file.id := by
    rw [h.id, readId_eq_ok_iff]
    exact .text (spells_ofInt _)
  have hcontents : readStringField member.1 member.2 "content" = .ok file.contents :=
    readStringField_eq_ok_iff.mpr h.contents
  have hpath : readStringField member.1 member.2 "path" = .ok file.path :=
    readStringField_eq_ok_iff.mpr h.path
  rw [CompilerOutput.addKeyedFile, if_neg hobject, hid]
  show addFile member.1 file.id member.2 table = _
  rw [addFile, hcontents, hpath]
  rfl

theorem readFileTable_of_members {members : List (Bytes × Json)} {order : List SourceFile}
    (h : List.Forall₂ Member members order) :
    readFileTable (.object members) = .ok (tableOf order) :=
  foldlM_eq_ok (h.imp fun _ _ hmember => hmember.addKeyedFile) ∅

theorem map_fst_of_members {members : List (Bytes × Json)} {order : List SourceFile}
    (h : List.Forall₂ Member members order) :
    members.map Prod.fst = (order.map (·.id)).map fun id => Decimal.ofInt id.toInt := by
  induction h with
  | nil => rfl
  | cons hmember _ ih => rw [List.map_cons, hmember.id, ih]; rfl

theorem readFileTable_of_lists {files : List SourceFile} (hdistinct : (files.map (·.id)).Nodup)
    {document : Json} (h : Lists files document) :
    readFileTable document = .ok (tableOf files) := by
  cases h with
  | array horder helements =>
      refine readFileTable_eq_ok_iff.mpr ⟨_, ?_, tableOf_eq_of_perm hdistinct horder⟩
      exact helements.imp fun _ _ helement => helement.listedAs
  | @object members order horder hmembers =>
      have hinjective : Function.Injective fun id : Int32 => Decimal.ofInt id.toInt :=
        fun _ _ hsame => Int32.toInt_inj.mp (ofInt_injective hsame)
      have hkeys : (members.map Prod.fst).Nodup := by
        rw [map_fst_of_members hmembers]
        exact List.Nodup.map hinjective ((horder.map _).nodup_iff.mpr hdistinct)
      -- In the object the members stand in the order of their keys.
      obtain ⟨order', hsorted, horder'⟩ := List.perm_comp_forall₂ (ofList_perm hkeys) hmembers
      show readFileTable (.object (Entries.ofList members)) = _
      rw [readFileTable_of_members hsorted, tableOf_eq_of_perm hdistinct (horder'.trans horder)]

/-! ### Ids that are refused -/

section

variable {place place' : Bytes} {value file : Json} {table : FileTable}

theorem readStringField_ne_invalidId {field : Bytes} :
    readStringField place file field ≠ .error (.invalidId place' value) := by
  intro h
  rw [readStringField] at h
  split at h <;> cases h

theorem addFile_ne_invalidId {id : Int32} :
    addFile place id file table ≠ .error (.invalidId place' value) := by
  intro h
  rcases bind_eq_error_iff.mp h with hcontents | ⟨_, -, hrest⟩
  · exact readStringField_ne_invalidId hcontents
  · rcases bind_eq_error_iff.mp hrest with hpath | ⟨_, -, hadd⟩
    · exact readStringField_ne_invalidId hpath
    · cases hadd

theorem isWritable_of_addKeyedFile {key : Bytes} (hkey : Utf8.isValid key = true)
    (h : addKeyedFile table key file = .error (.invalidId place value)) :
    value.isWritable = true := by
  rw [addKeyedFile] at h
  split at h
  · cases h
  · rcases bind_eq_error_iff.mp h with hid | ⟨_, -, hrest⟩
    · rw [eq_of_readId_eq_error hid]
      exact isWritable_string.mpr hkey
    · exact absurd hrest addFile_ne_invalidId

theorem isWritable_of_addListedFile {position : Nat} (hfile : file.isWritable = true)
    (h : addListedFile table position file = .error (.invalidId place value)) :
    value.isWritable = true := by
  rw [addListedFile] at h
  cases hmember : file.get? "id" with
  | none =>
      rw [hmember] at h
      cases h
  | some id =>
      rw [hmember] at h
      rcases bind_eq_error_iff.mp h with hid | ⟨_, -, hrest⟩
      · rw [eq_of_readId_eq_error hid]
        exact isWritable_of_get? hfile hmember
      · exact absurd hrest addFile_ne_invalidId

end

/-- The id that an error names has a text, as it comes from a document that was read. -/
theorem isWritable_of_readFileTable_eq_error {codec : Json.Codec} (hcodec : codec.Lawful)
    {text : Bytes} {document : Json} (hread : codec.read text = .ok document) {place : Bytes}
    {value : Json} (h : readFileTable document = .error (.invalidId place value)) :
    value.isWritable = true := by
  have hdocument := hcodec.isWritable_of_read text document hread
  cases document with
  | object members =>
      obtain ⟨member, hmem, _, hmember⟩ := exists_of_foldlM_eq_error h
      have hkey := (isWritable_object.mp hdocument member hmem).1
      exact isWritable_of_addKeyedFile hkey hmember
  | array files =>
      obtain ⟨⟨file, position⟩, hmem, _, hfile⟩ := exists_of_foldlM_eq_error h
      have hwritable := isWritable_array.mp hdocument file (List.fst_mem_of_mem_zipIdx hmem)
      exact isWritable_of_addListedFile hwritable hfile
  | _ => cases h

/-! ### Agreement -/

/-- All documents that stand for files with different ids come to one table, which holds these files
and no others. -/
theorem tableDocuments_agree {files : List SourceFile} (hdistinct : (files.map (·.id)).Nodup) :
    ∃ table : FileTable, (∀ id file, table.find? id = some file ↔ file ∈ files ∧ file.id = id) ∧
      ∀ document, Lists files document → readFileTable document = .ok table :=
  ⟨tableOf files, fun _ _ => find?_tableOf_iff_mem hdistinct,
    fun _ => readFileTable_of_lists hdistinct⟩

/-- The members of the object come in the order -1, 10, 2, and the elements of the list in the order
2, -1, 10. -/
theorem tableDocuments_agree_negative :
    let ten : SourceFile := { id := 10, path := "p", contents := "a" }
    let two : SourceFile := { id := 2, path := "q", contents := "" }
    let minusOne : SourceFile := { id := -1, path := "p", contents := "b" }
    let present (file : SourceFile) (rest : List (Bytes × Json)) : Json :=
      .ofMembers (("path", .string file.path) :: ("content", .string file.contents) :: rest)
    let list := .array [present two [("id", .string "2")], present minusOne [("id", .integer (-1))],
      present ten [("id", .string "10")]]
    let object := .ofMembers [("10", present ten []), ("2", present two []),
      ("-1", present minusOne [])]
    ([ten, two, minusOne].map (·.id)).Nodup ∧ Lists [ten, two, minusOne] list ∧
      Lists [ten, two, minusOne] object ∧ ∃ table, table.find? (-1) = some minusOne ∧
        readFileTable list = .ok table ∧ readFileTable object = .ok table := by
  intro ten two minusOne present list object
  have hdistinct : ([ten, two, minusOne].map (·.id)).Nodup := by decide
  have hlist : Lists [ten, two, minusOne] list := by
    have horder : [two, minusOne, ten].Perm [ten, two, minusOne] := by decide
    refine .array horder (.cons ?_ (.cons ?_ (.cons ?_ .nil)))
    · exact ⟨⟨rfl, rfl⟩, .string (Decimal.ofInt 2), by rfl, .digits⟩
    · exact ⟨⟨rfl, rfl⟩, .integer (-1), by rfl, .number⟩
    · exact ⟨⟨rfl, rfl⟩, .string (Decimal.ofInt 10), by rfl, .digits⟩
  have hobject : Lists [ten, two, minusOne] object := by
    refine .object (.refl _) (.cons ?_ (.cons ?_ (.cons ?_ .nil)))
    · exact ⟨⟨rfl, rfl⟩, (by decide : Bytes.ofString "10" = Decimal.ofInt 10)⟩
    · exact ⟨⟨rfl, rfl⟩, (by decide : Bytes.ofString "2" = Decimal.ofInt 2)⟩
    · exact ⟨⟨rfl, rfl⟩, (by decide : Bytes.ofString "-1" = Decimal.ofInt (-1))⟩
  obtain ⟨table, hfind, hread⟩ := tableDocuments_agree hdistinct
  exact ⟨hdistinct, hlist, hobject, table, (hfind (-1) minusOne).mpr ⟨by simp, rfl⟩,
    hread list hlist, hread object hobject⟩

end EvmSourceMap.Proofs.TableDocuments
