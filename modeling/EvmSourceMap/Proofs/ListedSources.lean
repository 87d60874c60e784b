import EvmSourceMap.Proofs.AddedFiles
import EvmSourceMap.Proofs.JsonMembers
import EvmSourceMap.Proofs.JsonWritability

/-!
The table of the sources that a compiler's output lists, and what is wrong with an output that
gives none.
-/

namespace EvmSourceMap.Proofs.ListedSources

open AddedFiles
open CompilerOutput
open ExceptInversion
open JsonMembers
open JsonWritability
open ListReading
open SourceIds

/-- A source is an object with an id. -/
def HasId (source : Bytes × Json) (id : Int32) : Prop :=
  ∃ value, source.2.get? "id" = some value ∧ readId source.1 value = .ok id

/-- There is an object of sources, each of which has an id. -/
def Complete (output : Json) : Prop :=
  ∃ sources, output.get? "sources" = some (.object sources) ∧
    ∀ source ∈ sources, ∃ id, HasId source id

def Listed (output : Json) (path : Bytes) (id : Int32) : Prop :=
  ∃ sources source, output.get? "sources" = some (.object sources) ∧ (path, source) ∈ sources ∧
    HasId (path, source) id

/-- A document has a text for the source with a path. -/
def HasContent (document : Json) (path text : Bytes) : Prop :=
  ∃ sources source, document.get? "sources" = some sources ∧ sources.get? path = some source ∧
    source.get? "content" = some (.string text)

/-- The text of a source is looked for in the output before the input. -/
inductive ContentsOf (output : Json) (input : Option Json) (path : Bytes) : Bytes → Prop
  | output {text : Bytes} (h : HasContent output path text) : ContentsOf output input path text
  | input {document : Json} {text : Bytes} (houtput : ∀ text, ¬ HasContent output path text)
      (hinput : input = some document) (h : HasContent document path text) :
      ContentsOf output input path text
  | neither (houtput : ∀ text, ¬ HasContent output path text)
      (hinput : ∀ document text, input = some document → ¬ HasContent document path text) :
      ContentsOf output input path []

/-- The file that an id stands for. Of the paths that are listed with it the greatest one counts. -/
structure StandsFor (output : Json) (input : Option Json) (id : Int32) (file : SourceFile) :
    Prop where
  id_eq : file.id = id
  listed : Listed output file.path id
  greatest : ∀ path, Listed output path id → (compare path file.path).isLE = true
  contents : ContentsOf output input file.path file.contents

/-- What is wrong with the id of a source. -/
inductive WrongId (source : Bytes × Json) : Error → Prop
  | absent (h : source.2.get? "id" = none) : WrongId source (.sourceWithoutId source.1)
  | refused {value : Json} {e : Error} (hvalue : source.2.get? "id" = some value)
      (h : readId source.1 value = .error e) : WrongId source e

/-- What is wrong with an output. Of several sources with a wrong id the first one counts. -/
inductive Wrong (output : Json) : Error → Prop
  | notAnObject (h : output.isObject = false) : Wrong output .notAnObject
  | noSources (hobject : output.isObject = true)
      (h : ∀ sources, output.get? "sources" ≠ some (.object sources)) :
      Wrong output (.missingSection "sources")
  | source {front back : List (Bytes × Json)} {source : Bytes × Json} {e : Error}
      (hsources : output.get? "sources" = some (.object (front ++ source :: back)))
      (hfront : ∀ other ∈ front, ∃ id, HasId other id) (h : WrongId source e) : Wrong output e

/-! ### Reading -/

theorem readSection_eq_ok_iff {output : Json} {key : Bytes} {members : List (Bytes × Json)} :
    readSection output key = .ok members ↔ output.get? key = some (.object members) := by
  rw [readSection]
  cases hobject : output.members? with
  | none => simp [Json.get?, hobject]
  | some outer =>
      cases hget : output.get? key with
      | none => exact iff_of_false nofun nofun
      | some value =>
          rw [Option.bind_some, Option.some.injEq, ← members?_eq_some_iff]
          cases value.members? <;> simp

theorem readSection_eq_error_iff {output : Json} {key : Bytes} {e : Error} :
    readSection output key = .error e ↔
      output.isObject = false ∧ e = .notAnObject ∨
      output.isObject = true ∧ (∀ members, output.get? key ≠ some (.object members)) ∧
        e = .missingSection key := by
  simp only [Ne, ← readSection_eq_ok_iff]
  rw [readSection, Json.isObject]
  cases output.members? with
  | none => simp [eq_comm]
  | some outer =>
      dsimp only
      cases (output.get? key).bind Json.members? <;> simp [eq_comm]

theorem hasId_iff {source : Bytes × Json} {id : Int32} :
    HasId source id ↔ ∃ value, source.2.get? "id" = some value ∧ TakenFor value id := by
  simp only [HasId, readId_eq_ok_iff]

theorem HasId.unique {source : Bytes × Json} {id id' : Int32} (h : HasId source id)
    (h' : HasId source id') : id = id' := by
  obtain ⟨value, hvalue, hid⟩ := h
  obtain ⟨value', hvalue', hid'⟩ := h'
  obtain rfl := Option.some.inj (hvalue.symm.trans hvalue')
  exact Except.ok.inj (hid.symm.trans hid')

theorem exists_sourceAs_iff (output : Json) (input : Option Json) {source : Bytes × Json} :
    (∃ file, SourceAs output input source file) ↔ ∃ id, HasId source id := by
  constructor
  · rintro ⟨file, h⟩
    exact ⟨file.id, hasId_iff.mpr h.id⟩
  · rintro ⟨id, h⟩
    exact ⟨{ id, path := source.1, contents := _ }, hasId_iff.mp h, rfl, rfl⟩

theorem readSource_eq_error_iff {output : Json} {input : Option Json} {source : Bytes × Json}
    {e : Error} :
    readSource output input source.1 source.2 = .error e ↔ WrongId source e := by
  rw [readSource]
  constructor
  · intro h
    cases hid : source.2.get? "id" with
    | none =>
        rw [hid] at h
        cases h
        exact .absent hid
    | some value =>
        rw [hid] at h
        rcases bind_eq_error_iff.mp h with hvalue | ⟨_, -, hpure⟩
        · exact .refused hid hvalue
        · cases hpure
  · rintro (hid | ⟨hid, hvalue⟩)
    · rw [hid]
    · rw [hid]
      exact bind_eq_error_iff.mpr (.inl hvalue)

theorem contents?_eq_some_iff {document : Json} {path text : Bytes} :
    contents? document path = some text ↔ HasContent document path text := by
  simp only [contents?, Option.bind_eq_bind, Option.bind_eq_some_iff, string?_eq_some_iff,
    HasContent]
  constructor
  · rintro ⟨source, ⟨sources, hsources, hsource⟩, _, hcontent, rfl⟩
    exact ⟨sources, source, hsources, hsource, hcontent⟩
  · rintro ⟨sources, source, hsources, hsource, hcontent⟩
    exact ⟨source, ⟨sources, hsources, hsource⟩, _, hcontent, rfl⟩

theorem contents?_eq_none_iff {document : Json} {path : Bytes} :
    contents? document path = none ↔ ∀ text, ¬ HasContent document path text := by
  simp only [Option.eq_none_iff_forall_ne_some, Ne, contents?_eq_some_iff]

theorem contentsOf (output : Json) (input : Option Json) (path : Bytes) :
    ContentsOf output input path
      (((contents? output path).or (input.bind (contents? · path))).getD []) := by
  cases houtput : contents? output path with
  | some text => exact .output (contents?_eq_some_iff.mp houtput)
  | none =>
      rw [contents?_eq_none_iff] at houtput
      cases hinput : input.bind (contents? · path) with
      | some text =>
          obtain ⟨document, hdocument, htext⟩ := Option.bind_eq_some_iff.mp hinput
          exact .input houtput hdocument (contents?_eq_some_iff.mp htext)
      | none =>
          refine .neither houtput fun document text hdocument => ?_
          rw [hdocument, Option.bind_some, contents?_eq_none_iff] at hinput
          exact hinput text

/-! ### Loading -/

theorem exists_loadFileTable_iff {output : Json} {input : Option Json} :
    (∃ table, loadFileTable output input = .ok table) ↔ Complete output := by
  simp only [loadFileTable_eq_ok_iff, readSection_eq_ok_iff, Complete,
    ← exists_sourceAs_iff output input, ← exists_forall₂_iff]
  constructor
  · rintro ⟨_, sources, files, hsources, hfiles, -⟩
    exact ⟨sources, hsources, files, hfiles⟩
  · rintro ⟨sources, hsources, files, hfiles⟩
    exact ⟨_, sources, files, hsources, hfiles, rfl⟩

theorem loadFileTable_eq_error_iff {output : Json} {input : Option Json} {e : Error} :
    loadFileTable output input = .error e ↔ Wrong output e := by
  rw [loadFileTable_eq, bind_eq_error_iff, readSection_eq_error_iff]
  constructor
  · rintro ((⟨hobject, rfl⟩ | ⟨hobject, hsources, rfl⟩) | ⟨sources, hsources, h⟩)
    · exact .notAnObject hobject
    · exact .noSources hobject hsources
    · rcases bind_eq_error_iff.mp h with hsource | ⟨_, -, hpure⟩
      · obtain ⟨front, source, back, rfl, hfront, hsource⟩ := mapM_eq_error_iff.mp hsource
        simp only [readSource_eq_ok_iff, exists_sourceAs_iff] at hfront
        rw [map_eq_error_iff, readSource_eq_error_iff] at hsource
        exact .source (readSection_eq_ok_iff.mp hsources) hfront hsource
      · cases hpure
  · rintro (hobject | ⟨hobject, hsources⟩ | ⟨hsources, hfront, hsource⟩)
    · exact .inl (.inl ⟨hobject, rfl⟩)
    · exact .inl (.inr ⟨hobject, hsources, rfl⟩)
    · refine .inr ⟨_, readSection_eq_ok_iff.mpr hsources, bind_eq_error_iff.mpr (.inl ?_)⟩
      refine mapM_eq_error_iff.mpr ⟨_, _, _, rfl, ?_, ?_⟩
      · simpa only [readSource_eq_ok_iff, exists_sourceAs_iff] using hfront
      · rwa [map_eq_error_iff, readSource_eq_error_iff]

/-- The id that an error names has a text, as it comes from a document that was read. -/
theorem isWritable_of_loadFileTable_eq_error {codec : Json.Codec} (hcodec : codec.Lawful)
    {text : Bytes} {output : Json} (hread : codec.read text = .ok output) {input : Option Json}
    {place : Bytes} {value : Json} (h : loadFileTable output input = .error (.invalidId place value)) :
    value.isWritable = true := by
  have houtput := hcodec.isWritable_of_read text output hread
  cases loadFileTable_eq_error_iff.mp h with
  | source hsources _ hwrong =>
      have hmembers := isWritable_object.mp (isWritable_of_get? houtput hsources)
      have hsource := (hmembers _ (List.mem_append_right _ List.mem_cons_self)).2
      cases hwrong with
      | refused hvalue hid =>
          rw [eq_of_readId_eq_error hid]
          exact isWritable_of_get? hsource hvalue

section

variable {output : Json} {input : Option Json} {sources : List (Bytes × Json)}
  {files : List SourceFile} (hfiles : List.Forall₂ (SourceAs output input) sources files)

include hfiles

theorem map_path_eq : files.map (·.path) = sources.map Prod.fst := by
  induction hfiles with
  | nil => rfl
  | cons hsource _ ih => rw [List.map_cons, List.map_cons, hsource.path, ih]

theorem pairwise_path (h : Entries.Ascending sources) :
    files.Pairwise fun a b => compare a.path b.path = .lt := by
  have hkeys : (sources.map Prod.fst).Pairwise fun a b => compare a b = .lt :=
    List.pairwise_map.mpr h
  rw [← map_path_eq hfiles] at hkeys
  exact List.pairwise_map.mp hkeys

variable (hsources : output.get? "sources" = some (.object sources))

include hsources

theorem listed_iff_exists_file {path : Bytes} {id : Int32} :
    Listed output path id ↔ ∃ file ∈ files, file.path = path ∧ file.id = id := by
  constructor
  · rintro ⟨sources', source, hsources', hmem, hid⟩
    rw [hsources] at hsources'
    cases hsources'
    obtain ⟨file, hfile, hsource⟩ := exists_mem_right hfiles hmem
    exact ⟨file, hfile, hsource.path, (hasId_iff.mpr hsource.id).unique hid⟩
  · rintro ⟨file, hfile, rfl, rfl⟩
    obtain ⟨⟨path, source⟩, hmem, hsource⟩ := exists_mem_left hfiles hfile
    obtain rfl : file.path = path := hsource.path
    exact ⟨sources, source, hsources, hmem, hasId_iff.mpr hsource.id⟩

theorem mem_keys_iff_listed {id : Int32} :
    id ∈ (tableOf files).keys ↔ ∃ path, Listed output path id := by
  rw [mem_keys_tableOf_iff]
  constructor
  · rintro ⟨file, hfile, hid⟩
    exact ⟨file.path, (listed_iff_exists_file hfiles hsources).mpr ⟨file, hfile, rfl, hid⟩⟩
  · rintro ⟨path, hlisted⟩
    obtain ⟨file, hfile, -, hid⟩ := (listed_iff_exists_file hfiles hsources).mp hlisted
    exact ⟨file, hfile, hid⟩

theorem standsFor_of_addedLast (hascending : Entries.Ascending sources) {id : Int32}
    {file : SourceFile} (h : AddedLast files id file) : StandsFor output input id file where
  id_eq := h.id_eq
  listed := (listed_iff_exists_file hfiles hsources).mpr ⟨file, h.mem, rfl, h.id_eq⟩
  greatest path hpath := by
    obtain ⟨other, hother, rfl, hid⟩ := (listed_iff_exists_file hfiles hsources).mp hpath
    rcases h.eq_or_of_pairwise (pairwise_path hfiles hascending) hother hid with rfl | hlt
    · exact Std.ReflCmp.isLE_rfl
    · rw [hlt]
      rfl
  contents := by
    obtain ⟨source, -, hsource⟩ := exists_mem_left hfiles h.mem
    rw [hsource.contents, hsource.path]
    exact contentsOf output input source.1

end

/-- A table comes from an output exactly if all its sources have ids. It then has a file for each of
these ids and for no others. -/
theorem loadFileTable_listed {output : Json} (h : Ordered output) (input : Option Json) :
    ((∃ table, loadFileTable output input = .ok table) ↔ Complete output) ∧
    (¬ Complete output → ∃ e, loadFileTable output input = .error e ∧ Wrong output e) ∧
    ∀ table, loadFileTable output input = .ok table →
      (∀ id, id ∈ table.keys ↔ ∃ path, Listed output path id) ∧
      ∀ id file, table.find? id = some file → StandsFor output input id file := by
  refine ⟨exists_loadFileTable_iff, fun hincomplete => ?_, fun table hload => ?_⟩
  · cases hload : loadFileTable output input with
    | error e => exact ⟨e, rfl, loadFileTable_eq_error_iff.mp hload⟩
    | ok table => exact absurd (exists_loadFileTable_iff.mp ⟨table, hload⟩) hincomplete
  · obtain ⟨sources, files, hsources, hfiles, rfl⟩ := loadFileTable_eq_ok_iff.mp hload
    rw [readSection_eq_ok_iff] at hsources
    have hascending : Entries.Ascending sources := (h.of_get? hsources).membersAscend _ rfl
    refine ⟨fun id => mem_keys_iff_listed hfiles hsources, fun id file hfind => ?_⟩
    apply standsFor_of_addedLast hfiles hsources hascending
    exact find?_tableOf_eq_some_iff.mp hfind

/-- The id 1 is listed with two paths, once as a number and once as a text. The file has the second
path, and its contents come from the input, since in the output they are no text. -/
theorem loadFileTable_listed_twice :
    let first : Json := .ofMembers [("id", .integer 1), ("content", .string "in the output")]
    let second : Json := .ofMembers [("id", .string "1"), ("content", .null)]
    let output : Json := .ofMembers [("sources", .ofMembers [("b", second), ("a", first)])]
    let input : Json := .ofMembers [("sources", .ofMembers [
      ("b", .ofMembers [("content", .string "in the input")])])]
    let file : SourceFile := { id := 1, path := "b", contents := "in the input" }
    Ordered output ∧ ∃ table, loadFileTable output (some input) = .ok table ∧
      table.keys = [1] ∧ table.find? 1 = some file ∧ StandsFor output (some input) 1 file := by
  intro first second output input file
  have hfirst : Ordered first := ordered_ofMembers (by simp [Ordered.integer, Ordered.string])
  have hsecond : Ordered second := ordered_ofMembers (by simp [Ordered.string, Ordered.null])
  have hsources : Ordered (.ofMembers [("b", second), ("a", first)]) :=
    ordered_ofMembers (by simp [hfirst, hsecond])
  have houtput : Ordered output := ordered_ofMembers (by simp [hsources])
  obtain ⟨-, -, htable⟩ := loadFileTable_listed houtput (some input)
  have hload : loadFileTable output (some input) =
      .ok (tableOf [{ id := 1, path := "a", contents := "in the output" }, file]) := rfl
  exact ⟨houtput, _, hload, rfl, rfl, (htable _ hload).2 1 file rfl⟩

end EvmSourceMap.Proofs.ListedSources
