import EvmSourceMap.CompilerOutput.Sources
import EvmSourceMap.Proofs.DecimalSpelling
import EvmSourceMap.Proofs.ListReading
import EvmSourceMap.Proofs.SourceRanges

namespace EvmSourceMap.Proofs.SourceIds

open CompilerOutput
open DecimalSpelling
open ExceptInversion
open ListReading
open SourceRanges

/-! ### Ids -/

/-- An id in a document stands for a number of 32 bits. Of an integer only the
last 64 bits count. -/
inductive TakenFor : Json → Int32 → Prop
  | integer {n : Int} {id : Int32} (h : ∃ k : Int, n = id.toInt + 2 ^ 64 * k) :
      TakenFor (.integer n) id
  | text {text : Bytes} {id : Int32} (h : Spells text id.toInt) : TakenFor (.string text) id

/-- What is said about an id that stands for no such number. -/
def refusal (place : Bytes) : Json → Error
  | .integer n => .idOutOfRange place (.ofInt n)
  | value => .invalidId place value

theorem takenFor_integer_iff {n : Int} {id : Int32} :
    TakenFor (.integer n) id ↔ n.bmod (2 ^ 64) = id.toInt := by
  have hlow := id.le_toInt
  have hhigh := id.toInt_lt
  constructor
  · rintro ⟨k, rfl⟩
    rw [Int.bmod_def]
    omega
  · intro h
    refine .integer ⟨n.bdiv (2 ^ 64), ?_⟩
    rw [← h]
    exact (Int.bmod_add_bdiv n (2 ^ 64)).symm

/-- An integer of 64 bits, with or without a sign, is taken for itself or for
what is less by 2⁶⁴. -/
theorem takenFor_integer_iff_of_le {n : Int} {id : Int32} (hlow : -2 ^ 63 ≤ n)
    (hhigh : n < 2 ^ 64) :
    TakenFor (.integer n) id ↔ id.toInt = n ∨ id.toInt = n - 2 ^ 64 := by
  have hid := id.le_toInt
  have hid' := id.toInt_lt
  rw [takenFor_integer_iff, Int.bmod_def]
  omega

theorem takenFor_string_iff {text : Bytes} {id : Int32} :
    TakenFor (.string text) id ↔ Spells text id.toInt := by
  refine ⟨fun h => ?_, .text⟩
  cases h with
  | text h => exact h

theorem readId_integer (place : Bytes) (n : Int) :
    readId place (.integer n) =
      if -2 ^ 31 ≤ n.bmod (2 ^ 64) ∧ n.bmod (2 ^ 64) < 2 ^ 31 then
        .ok (.ofInt (n.bmod (2 ^ 64)))
      else .error (.idOutOfRange place (.ofInt n)) := by
  have hword : (Int64.ofInt n).toInt = n.bmod (2 ^ 64) := Int64.toInt_ofInt
  have hrange : Int32.minValue.toInt ≤ n.bmod (2 ^ 64) ∧
      n.bmod (2 ^ 64) ≤ Int32.maxValue.toInt ↔
      -2 ^ 31 ≤ n.bmod (2 ^ 64) ∧ n.bmod (2 ^ 64) < 2 ^ 31 :=
    and_congr_right fun _ => Int.lt_add_one_iff.symm
  simp only [readId, hword, hrange]

theorem readId_eq_ok_iff {place : Bytes} {value : Json} {id : Int32} :
    readId place value = .ok id ↔ TakenFor value id := by
  cases value with
  | integer n =>
      rw [readId_integer, takenFor_integer_iff]
      constructor
      · intro h
        split at h
        · rename_i hrange
          rw [← Except.ok.inj h, Int32.toInt_ofInt_of_le hrange.1 hrange.2]
        · cases h
      · intro h
        rw [h, if_pos ⟨id.le_toInt, id.toInt_lt⟩, Int32.ofInt_toInt]
  | string text =>
      rw [takenFor_string_iff, ← readInt32?_eq_some_iff, readId]
      cases Decimal.readInt32? text with
      | none => exact iff_of_false nofun nofun
      | some v => rw [Except.ok.injEq, Option.some.injEq]
  | _ => exact iff_of_false nofun nofun

theorem readId_eq_error {value : Json} (h : ∀ id, ¬ TakenFor value id) (place : Bytes) :
    readId place value = .error (refusal place value) := by
  replace h : ∀ id, readId place value ≠ .ok id := fun id => mt readId_eq_ok_iff.mp (h id)
  cases value with
  | integer n =>
      rw [readId_integer] at h ⊢
      split at h
      · exact absurd rfl (h _)
      · rename_i hrange
        rw [if_neg hrange]
        rfl
  | string text =>
      rw [readId] at h ⊢
      cases hread : Decimal.readInt32? text with
      | none => rfl
      | some v =>
          rw [hread] at h
          exact absurd rfl (h v)
  | _ => rfl

theorem eq_of_readId_eq_error {place place' : Bytes} {value value' : Json}
    (h : readId place value = .error (.invalidId place' value')) : value' = value := by
  cases value with
  | integer n =>
      rw [readId_integer] at h
      split at h <;> cases h
  | string text =>
      rw [readId] at h
      split at h
      · cases h
      · cases h
        rfl
  | _ =>
      cases h
      rfl

/-! ### Tables -/

/-- The table of a list of files. -/
def tableOf (files : List SourceFile) : FileTable :=
  files.foldl (fun table file => table.add file.id file.path file.contents) ∅

theorem find?_add_file (table : FileTable) (file : SourceFile) (id : Int32) :
    (table.add file.id file.path file.contents).find? id =
      ([file].find? (·.id = id)).or (table.find? id) := by
  obtain ⟨fileId, path, contents, lineStarts, rfl⟩ := file
  rw [find?_add, List.find?_singleton]
  by_cases h : id = fileId
  · simp [h]
  · simp [h, Ne.symm h]

theorem find?_tableOf (files : List SourceFile) (id : Int32) :
    (tableOf files).find? id = files.reverse.find? (·.id = id) := by
  have hfoldl : ∀ table : FileTable,
      (files.foldl (fun table file => table.add file.id file.path file.contents) table).find? id =
        (files.reverse.find? (·.id = id)).or (table.find? id) := by
    induction files with
    | nil => exact fun _ => rfl
    | cons file files ih =>
        intro table
        rw [List.foldl_cons, ih, find?_add_file, List.reverse_cons, List.find?_append,
          Option.or_assoc]
  rw [tableOf, hfoldl]
  exact Option.or_none

/-- A member of the sources of a compiler's output gives a file. -/
structure SourceAs (output : Json) (input : Option Json) (source : Bytes × Json)
    (file : SourceFile) : Prop where
  id : ∃ value, source.2.get? "id" = some value ∧ TakenFor value file.id
  path : file.path = source.1
  contents : file.contents =
    ((contents? output source.1).or (input.bind (contents? · source.1))).getD []

/-- An element of a list of files gives a file. -/
structure ListedAs (entry : Json) (file : SourceFile) : Prop where
  id : ∃ value, entry.get? "id" = some value ∧ TakenFor value file.id
  path : entry.get? "path" = some (.string file.path)
  contents : entry.get? "content" = some (.string file.contents)

def ListedSource.file (source : ListedSource) : SourceFile where
  id := source.id
  path := source.path
  contents := source.contents.getD []

def readListed (position : Nat) (entry : Json) : Except Error SourceFile := do
  let place := "source file #" ++ Decimal.ofNat position
  let value ← (entry.get? "id").elim (.error (.fileWithoutId place)) .ok
  let id ← readId place value
  let contents ← readStringField place entry "content"
  let path ← readStringField place entry "path"
  return ListedSource.file { id, path, contents := some contents }

theorem loadFileTable_eq (output : Json) (input : Option Json) :
    loadFileTable output input = (do
      let members ← readSection output "sources"
      let files ← members.mapM fun source =>
        (readSource output input source.1 source.2).map ListedSource.file
      return tableOf files) := by
  rw [loadFileTable]
  congr 1
  funext members
  rw [mapM_map]
  cases members.mapM fun source => readSource output input source.1 source.2 with
  | error e => rfl
  | ok sources =>
      change Except.ok (addSources sources ∅) = .ok (tableOf (sources.map ListedSource.file))
      rw [tableOf, List.foldl_map]
      rfl

theorem readListed_of_id {entry value : Json} (hid : entry.get? "id" = some value)
    (position : Nat) :
    readListed position entry = (do
      let place := "source file #" ++ Decimal.ofNat position
      let id ← readId place value
      let contents ← readStringField place entry "content"
      let path ← readStringField place entry "path"
      return ListedSource.file { id, path, contents := some contents }) := by
  rw [readListed, hid]
  rfl

theorem addListedFile_eq (table : FileTable) (position : Nat) (entry : Json) :
    addListedFile table position entry =
      (readListed position entry).map fun file => table.add file.id file.path file.contents := by
  rw [addListedFile]
  cases hid : entry.get? "id" with
  | none =>
      rw [readListed, hid]
      rfl
  | some value =>
      rw [readListed_of_id hid]
      dsimp only [addFile]
      generalize (Bytes.ofString "source file #" ++ Decimal.ofNat position : Bytes) = place
      cases readId place value with
      | error e => rfl
      | ok id =>
          change (readStringField place entry "content" >>= _) = Except.map _ (_ >>= _)
          cases readStringField place entry "content" with
          | error e => rfl
          | ok contents =>
              change (readStringField place entry "path" >>= _) = Except.map _ (_ >>= _)
              cases readStringField place entry "path" <;> rfl

theorem readFileTable_array_eq (entries : List Json) :
    readFileTable (.array entries) =
      (entries.zipIdx.mapM fun entry => readListed entry.2 entry.1).map tableOf := by
  rw [readFileTable]
  simp only [addListedFile_eq]
  exact foldlM_map

theorem readStringField_eq_ok_iff {place field text : Bytes} {value : Json} :
    readStringField place value field = .ok text ↔ value.get? field = some (.string text) := by
  rw [readStringField]
  cases value.get? field with
  | none => exact iff_of_false nofun nofun
  | some member =>
      cases member with
      | string text' => exact ⟨fun h => by cases h; rfl, fun h => by cases h; rfl⟩
      | _ => exact iff_of_false nofun nofun

theorem readSource_eq_ok_iff {output : Json} {input : Option Json} {source : Bytes × Json}
    {file : SourceFile} :
    (readSource output input source.1 source.2).map ListedSource.file = .ok file ↔
      SourceAs output input source file := by
  rw [readSource]
  cases hid : source.2.get? "id" with
  | none =>
      refine iff_of_false nofun ?_
      rintro ⟨⟨value, hvalue, -⟩, -, -⟩
      rw [hid] at hvalue
      cases hvalue
  | some value =>
      simp only [map_eq_ok_iff, bind_eq_ok_iff, readId_eq_ok_iff]
      constructor
      · rintro ⟨listed, ⟨id, htaken, hlisted⟩, rfl⟩
        cases hlisted
        exact ⟨⟨value, hid, htaken⟩, rfl, rfl⟩
      · obtain ⟨id, path, contents, lineStarts, rfl⟩ := file
        rintro ⟨⟨value', hvalue, htaken⟩, rfl, rfl⟩
        obtain rfl := Option.some.inj (hid.symm.trans hvalue)
        exact ⟨_, ⟨id, htaken, rfl⟩, rfl⟩

theorem readListed_eq_ok_iff {position : Nat} {entry : Json} {file : SourceFile} :
    readListed position entry = .ok file ↔ ListedAs entry file := by
  cases hid : entry.get? "id" with
  | none =>
      rw [readListed, hid]
      refine iff_of_false nofun ?_
      rintro ⟨⟨value, hvalue, -⟩, -, -⟩
      rw [hid] at hvalue
      cases hvalue
  | some value =>
      rw [readListed_of_id hid]
      simp only [bind_eq_ok_iff, readId_eq_ok_iff, readStringField_eq_ok_iff]
      constructor
      · rintro ⟨id, htaken, contents, hcontents, path, hpath, hfile⟩
        cases hfile
        exact ⟨⟨value, hid, htaken⟩, hpath, hcontents⟩
      · obtain ⟨id, path, contents, lineStarts, rfl⟩ := file
        rintro ⟨⟨value', hvalue, htaken⟩, hpath, hcontents⟩
        obtain rfl := Option.some.inj (hid.symm.trans hvalue)
        exact ⟨id, htaken, contents, hcontents, path, hpath, rfl⟩

theorem loadFileTable_eq_ok_iff {output : Json} {input : Option Json} {table : FileTable} :
    loadFileTable output input = .ok table ↔
      ∃ members files, readSection output "sources" = .ok members ∧
        List.Forall₂ (SourceAs output input) members files ∧ tableOf files = table := by
  rw [loadFileTable_eq]
  simp only [bind_eq_ok_iff, mapM_eq_ok_iff, readSource_eq_ok_iff]
  constructor
  · rintro ⟨members, hmembers, files, hfiles, htable⟩
    exact ⟨members, files, hmembers, hfiles, Except.ok.inj htable⟩
  · rintro ⟨members, files, hmembers, hfiles, rfl⟩
    exact ⟨members, hmembers, files, hfiles, rfl⟩

theorem readFileTable_eq_ok_iff {entries : List Json} {table : FileTable} :
    readFileTable (.array entries) = .ok table ↔
      ∃ files, List.Forall₂ ListedAs entries files ∧ tableOf files = table := by
  rw [readFileTable_array_eq, map_eq_ok_iff]
  simp only [mapM_eq_ok_iff, readListed_eq_ok_iff]
  simp only [← List.forall₂_map_left_iff (f := Prod.fst), List.zipIdx_map_fst]

section

variable {value : Json} (hvalue : ∀ id, ¬ TakenFor value id)

include hvalue

theorem loadFileTable_eq_error {output : Json} {input : Option Json}
    {front back : List (Bytes × Json)} {files : List SourceFile} {path : Bytes} {source : Json}
    (hmembers : readSection output "sources" = .ok (front ++ (path, source) :: back))
    (hfront : List.Forall₂ (SourceAs output input) front files)
    (hid : source.get? "id" = some value) :
    loadFileTable output input = .error (refusal path value) := by
  have hsource : (readSource output input path source).map ListedSource.file =
      .error (refusal path value) := by
    rw [readSource, hid]
    dsimp only
    rw [readId_eq_error hvalue]
    rfl
  have hread := hfront.imp fun _ _ => readSource_eq_ok_iff.mpr
  rw [loadFileTable_eq, hmembers]
  change ((front ++ (path, source) :: back).mapM (fun source =>
    (readSource output input source.1 source.2).map ListedSource.file) >>= _) = _
  rw [mapM_eq_error hread hsource]
  rfl

theorem readFileTable_eq_error {front back : List Json} {files : List SourceFile} {entry : Json}
    (hfront : List.Forall₂ ListedAs front files) (hid : entry.get? "id" = some value) :
    readFileTable (.array (front ++ entry :: back)) =
      .error (refusal ("source file #" ++ Decimal.ofNat front.length) value) := by
  have hentry : readListed front.length entry =
      .error (refusal ("source file #" ++ Decimal.ofNat front.length) value) := by
    rw [readListed_of_id hid]
    dsimp only
    rw [readId_eq_error hvalue]
    rfl
  have hread : List.Forall₂ (fun entry file => readListed entry.2 entry.1 = .ok file)
      front.zipIdx files := by
    rw [← List.zipIdx_map_fst 0 front, List.forall₂_map_left_iff] at hfront
    exact hfront.imp fun _ _ => readListed_eq_ok_iff.mpr
  rw [readFileTable_array_eq, List.zipIdx_append, List.zipIdx_cons, Nat.zero_add,
    mapM_eq_error hread hentry]
  rfl

end

/-- A table is loaded exactly if every file in the document has an id that stands
for a number of 32 bits, and holds each file under that number. Any other id is
refused. An integer stands for itself, unless it is one of the last 2³¹ below
2⁶⁴, which stand for negative numbers. -/
theorem fileTables_of_ids (output : Json) (input : Option Json) (entries : List Json) :
    (∀ table, loadFileTable output input = .ok table ↔
      ∃ members files, readSection output "sources" = .ok members ∧
        List.Forall₂ (SourceAs output input) members files ∧ tableOf files = table) ∧
    (∀ table, readFileTable (.array entries) = .ok table ↔
      ∃ files, List.Forall₂ ListedAs entries files ∧ tableOf files = table) ∧
    (∀ files id, (tableOf files).find? id = files.reverse.find? (·.id = id)) ∧
    (∀ front path source back files value,
      readSection output "sources" = .ok (front ++ (path, source) :: back) →
      List.Forall₂ (SourceAs output input) front files → source.get? "id" = some value →
      (∀ id, ¬ TakenFor value id) → loadFileTable output input = .error (refusal path value)) ∧
    (∀ front entry back files value, entries = front ++ entry :: back →
      List.Forall₂ ListedAs front files → entry.get? "id" = some value →
      (∀ id, ¬ TakenFor value id) → readFileTable (.array entries) =
        .error (refusal ("source file #" ++ Decimal.ofNat front.length) value)) ∧
    (∀ n id, -2 ^ 63 ≤ n → n < 2 ^ 64 - 2 ^ 31 → (TakenFor (.integer n) id ↔ id.toInt = n)) ∧
    (∀ n id, 2 ^ 64 - 2 ^ 31 ≤ n → n < 2 ^ 64 →
      (TakenFor (.integer n) id ↔ id.toInt = n - 2 ^ 64)) ∧
    ∀ text id, TakenFor (.string text) id ↔ Spells text id.toInt := by
  refine ⟨fun _ => loadFileTable_eq_ok_iff, fun _ => readFileTable_eq_ok_iff, find?_tableOf,
    ?_, ?_, ?_, ?_, fun _ _ => takenFor_string_iff⟩
  · intro front path source back files value hmembers hfront hid hvalue
    exact loadFileTable_eq_error hvalue hmembers hfront hid
  · rintro front entry back files value rfl hfront hid hvalue
    exact readFileTable_eq_error hvalue hfront hid
  · intro n id hlow hhigh
    have hid := id.le_toInt
    rw [takenFor_integer_iff_of_le hlow (by omega)]
    omega
  · intro n id hlow hhigh
    have hid := id.toInt_lt
    rw [takenFor_integer_iff_of_le (by omega) hhigh]
    omega

/-- The largest integer of 64 bits is no number of 32 bits, but a file with it
for an id gets the id -1. -/
theorem fileTables_wrappedId :
    let file : Json := .ofMembers [("id", .integer 18446744073709551615), ("path", .string "p"),
      ("content", .string "c")]
    ¬ (18446744073709551615 : Int) ≤ 2 ^ 31 - 1 ∧
      (∃ table, readFileTable (.array [file]) = .ok table ∧
        table.find? (-1) = some { id := -1, path := "p", contents := "c" }) ∧
      ∃ table, loadFileTable (.ofMembers [("sources", .ofMembers [("p", file)])]) none = .ok table ∧
        table.find? (-1) = some { id := -1, path := "p", contents := "c" } := by
  exact ⟨by decide, ⟨_, rfl, rfl⟩, ⟨_, rfl, rfl⟩⟩

end EvmSourceMap.Proofs.SourceIds
