import EvmSourceMap.Proofs.DeskRuns
import EvmSourceMap.Proofs.TraceChunks
import EvmSourceMap.Proofs.Trimming

namespace EvmSourceMap.Proofs.RunEffects

open CommandLine
open DeskRuns
open SortedMapLookup
open Trimming

variable {α β ε : Type}

/-- However an activity ends, the files afterwards are related to those before. -/
def Keeps (R : FileStore → FileStore → Prop) (x : Run (StateM Desk) α) : Prop :=
  ∀ desk, R desk.store (outcome x desk).2.store

/-- Whatever is written to a file, the files afterwards are related to those before. -/
def Allows (R : FileStore → FileStore → Prop) (path : Bytes) : Prop :=
  ∀ before contents after, before.write? path contents = some after → R before after

/-- A path leads to a file that lies beside another one and has its name, with a
mark in front. Slashes between a directory and a name count as one. -/
def Beside (original path : Bytes) : Prop :=
  ∃ directory slashes name, original = directory ++ slashes ++ name ∧ separator ∉ name ∧
    (∀ b ∈ slashes, b = separator) ∧ directory.getLast? ≠ some separator ∧
      (slashes = [] → directory = []) ∧
        path = directory ++ slashes.take 1 ++ Bytes.ofString "enhanced_" ++ name

/-- Where a run puts an annotated trace: where it is told to, or else beside the
trace. -/
inductive TraceOutput (i : Invocation) : Bytes → Prop
  | told {trace path : Bytes} (htrace : i.arguments.text? "-trace" = .ok (some trace))
      (h : i.arguments.text? "-o" = .ok (some path)) : TraceOutput i path
  | beside {trace path : Bytes} (htrace : i.arguments.text? "-trace" = .ok (some trace))
      (h : i.arguments.text? "-o" = .ok none) (hpath : Beside trace path) : TraceOutput i path

/-- The paths that a run may write to. -/
inductive Output (i : Invocation) : Bytes → Prop
  | report {path : Bytes} (h : i.arguments.text? "-report" = .ok (some path)) : Output i path
  | trace {path : Bytes} (h : TraceOutput i path) : Output i path

theorem take_sub_length_rtakeWhile (p : UInt8 → Bool) (s : Bytes) :
    s.take (s.length - (s.rtakeWhile p).length) = s.rdropWhile p := by
  have h := List.rdropWhile_append_rtakeWhile (p := p) (l := s)
  calc s.take (s.length - (s.rtakeWhile p).length)
    _ = (s.rdropWhile p ++ s.rtakeWhile p).take
        ((s.rdropWhile p ++ s.rtakeWhile p).length - (s.rtakeWhile p).length) := by rw [h]
    _ = s.rdropWhile p := by rw [List.length_append, Nat.add_sub_cancel, List.take_left]

theorem take_one_of_forall_eq {b : UInt8} {s : Bytes} (h : ∀ c ∈ s, c = b) :
    s.take 1 = if s.isEmpty then [] else [b] := by
  cases s with
  | nil => rfl
  | cons c s => rw [h c List.mem_cons_self]; rfl

theorem beside_besidePath (trace : Bytes) : Beside trace (besidePath trace) := by
  generalize hname : trace.rtakeWhile (· != separator) = name
  generalize hfolder : trace.rdropWhile (· != separator) = folder
  generalize hslashes : folder.rtakeWhile (· == separator) = slashes
  generalize hdirectory : folder.rdropWhile (· == separator) = directory
  have htrace : folder ++ name = trace := by
    rw [← hfolder, ← hname, List.rdropWhile_append_rtakeWhile]
  have hsplit : directory ++ slashes = folder := by
    rw [← hdirectory, ← hslashes, List.rdropWhile_append_rtakeWhile]
  have hall : ∀ b ∈ slashes, b = separator := by
    intro b hb
    rw [← hslashes] at hb
    simpa using List.mem_rtakeWhile_imp hb
  have hempty : slashes = [] → folder = [] := by
    intro hnil
    by_contra hne
    have hlast := List.rtakeWhile_eq_nil_iff.mp (hslashes.trans hnil) hne
    subst hfolder
    have hlast' := List.rdropWhile_last_not (· != separator) trace hne
    simp only [bne_iff_ne, beq_iff_eq, ne_eq, not_not] at hlast hlast'
    exact hlast hlast'
  refine ⟨directory, slashes, name, ?_, ?_, hall, ?_, ?_, ?_⟩
  · rw [hsplit, htrace]
  · intro hmem
    rw [← hname] at hmem
    simpa using List.mem_rtakeWhile_imp hmem
  · rw [← hdirectory]
    exact getLast?_rdropWhile_ne (p := (· == separator)) (beq_self_eq_true separator) folder
  · intro hnil
    have h := hempty hnil
    rw [← hsplit] at h
    exact (List.append_eq_nil_iff.mp h).1
  · have hbeside : besidePath trace =
        (if !directory.isEmpty then directory ++ [separator]
          else if folder.isEmpty then [] else [separator]) ++
          Bytes.ofString "enhanced_" ++ name := by
      have htake : trace.take (trace.length - name.length) = folder := by
        rw [← hname, ← hfolder, take_sub_length_rtakeWhile]
      rw [← hname, ← hdirectory, ← htake, ← hname]
      rfl
    rw [hbeside, take_one_of_forall_eq hall]
    congr 2
    cases slashes with
    | nil =>
        rw [hempty rfl] at hsplit ⊢
        rw [(List.append_eq_nil_iff.mp hsplit).1]
        rfl
    | cons b slashes =>
        rw [← hsplit]
        cases directory <;> rfl

section

variable {R : FileStore → FileStore → Prop} [Std.Refl R]

theorem keeps_of_store {x : Run (StateM Desk) α}
    (h : ∀ desk, (outcome x desk).2.store = desk.store) : Keeps R x := by
  intro desk
  rw [h]
  exact Std.Refl.refl desk.store

theorem keeps_pure (a : α) : Keeps R (pure a) := keeps_of_store fun _ => rfl

theorem keeps_throw (e : Failure) : Keeps R (throw e : Run (StateM Desk) α) :=
  keeps_of_store fun _ => rfl

theorem keeps_orFail (failure : ε → Failure) (result : Except ε α) :
    Keeps R (orFail failure result) := keeps_of_store fun _ => rfl

theorem keeps_operand? (i : Invocation) (switch : Bytes) : Keeps R (operand? i switch) :=
  keeps_orFail _ _

theorem keeps_report (text : Bytes) : Keeps R (Host.report text : Run (StateM Desk) Unit) :=
  keeps_of_store fun _ => rfl

theorem keeps_tell (i : Invocation) (entries : List Log.Entry) : Keeps R (tell i entries) :=
  keeps_report _

theorem keeps_say (text : Bytes) : Keeps R (say text) := keeps_of_store fun _ => rfl

theorem keeps_readFile (path : Bytes) : Keeps R (readFile path) := keeps_of_store fun _ => rfl

theorem keeps_readJson (i : Invocation) (path : Bytes) : Keeps R (readJson i path) :=
  keeps_of_store fun desk => by
    rw [outcome_readJson]
    cases desk.store.read path <;> rfl

theorem keeps_documentOf (i : Invocation) (value : Json) : Keeps R (documentOf i value) := by
  apply keeps_of_store
  intro desk
  cases h : i.json.document? value with
  | some text => rw [outcome_documentOf_of_some h]
  | none => rw [outcome_documentOf_of_none h]

theorem keeps_writeFile {path : Bytes} (h : Allows R path) (i : Invocation) (contents : Bytes) :
    Keeps R (writeFile i path contents) := by
  intro desk
  rw [outcome_writeFile]
  cases hwrite : desk.store.write? path contents with
  | some store => exact h _ _ _ hwrite
  | none => exact Std.Refl.refl desk.store

theorem keeps_operand?_bind {i : Invocation} {switch : Bytes}
    {f : Option Bytes → Run (StateM Desk) β}
    (hf : ∀ operand, i.arguments.text? switch = .ok operand → Keeps R (f operand)) :
    Keeps R (operand? i switch >>= f) := by
  intro desk
  cases h : i.arguments.text? switch with
  | error e =>
      rw [outcome_bind_of_error (outcome_operand?_of_error h desk)]
      exact Std.Refl.refl desk.store
  | ok operand =>
      rw [outcome_bind_of_ok (outcome_operand?_of_ok h desk)]
      exact hf operand h desk

variable [Trans R R R]

omit [Std.Refl R] in
theorem keeps_bind {x : Run (StateM Desk) α} {f : α → Run (StateM Desk) β} (hx : Keeps R x)
    (hf : ∀ a, Keeps R (f a)) : Keeps R (x >>= f) := by
  intro desk
  have hfirst := hx desk
  rcases h : outcome x desk with ⟨e | a, after⟩
  · rw [h] at hfirst
    rw [outcome_bind_of_error h]
    exact hfirst
  · rw [h] at hfirst
    rw [outcome_bind_of_ok h]
    exact Trans.trans hfirst (hf a after)

theorem keeps_mapM {f : α → Run (StateM Desk) β} (hf : ∀ a, Keeps R (f a)) (a : Option α) :
    Keeps R (a.mapM f) := by
  cases a with
  | none => exact keeps_pure none
  | some a => exact keeps_bind (hf a) fun b => keeps_pure (some b)

theorem keeps_readCompilerOutput (i : Invocation) (path : Bytes) :
    Keeps R (readCompilerOutput i path) := by
  refine keeps_bind (keeps_readJson i path) fun output => ?_
  refine keeps_bind (keeps_operand? i _) fun inputPath => ?_
  refine keeps_bind (keeps_mapM (keeps_readJson i) inputPath) fun input => ?_
  refine keeps_bind (keeps_operand? i _) fun contract => ?_
  refine keeps_bind (keeps_orFail _ _) fun artifacts => ?_
  refine keeps_bind (keeps_tell i _) fun _ => ?_
  refine keeps_bind (keeps_tell i _) fun _ => ?_
  refine keeps_bind (keeps_tell i _) fun _ => ?_
  exact keeps_bind (keeps_orFail _ _) fun files => keeps_pure _

theorem keeps_readSeparateFiles (i : Invocation) (bytecode sourceMap sources : Bytes) :
    Keeps R (readSeparateFiles i bytecode sourceMap sources) := by
  refine keeps_bind (keeps_readFile bytecode) fun _ => ?_
  refine keeps_bind (keeps_readFile sourceMap) fun _ => ?_
  refine keeps_bind (keeps_readJson i sources) fun _ => ?_
  exact keeps_bind (keeps_orFail _ _) fun files => keeps_pure _

theorem keeps_readInputs (i : Invocation) : Keeps R (readInputs i) := by
  refine keeps_bind (keeps_operand? i _) fun output => ?_
  cases output with
  | some path => exact keeps_readCompilerOutput i path
  | none =>
      refine keeps_bind (keeps_operand? i _) fun bytecode => ?_
      refine keeps_bind (keeps_operand? i _) fun sourceMap => ?_
      refine keeps_bind (keeps_operand? i _) fun sources => ?_
      split
      · exact keeps_readSeparateFiles i _ _ _
      · exact keeps_throw _

theorem keeps_readMapping (i : Invocation) (pool : TaskPool) : Keeps R (readMapping i pool) := by
  refine keeps_bind (keeps_readInputs i) fun inputs => ?_
  refine keeps_bind (keeps_orFail _ _) fun mapping => ?_
  refine keeps_bind (keeps_tell i _) fun _ => ?_
  exact keeps_bind (keeps_tell i _) fun _ => keeps_pure _

theorem keeps_showRecord (i : Invocation) (mapping : Mapping) (files : FileTable) (pc : Int) :
    Keeps R (showRecord i mapping files pc) := by
  rw [showRecord]
  split
  · exact keeps_bind (keeps_tell i _) fun _ => keeps_pure _
  · refine keeps_bind (keeps_documentOf i _) fun text => ?_
    exact keeps_bind (keeps_say _) fun _ => keeps_pure _

theorem keeps_runLookup (i : Invocation) (mapping : Mapping) (files : FileTable) :
    Keeps R (runLookup i mapping files) := by
  rw [runLookup_eq]
  refine keeps_bind (keeps_orFail _ _) fun pc => ?_
  cases pc with
  | none => exact keeps_pure _
  | some pc =>
      dsimp only
      split
      · exact keeps_throw _
      · exact keeps_showRecord i mapping files pc

theorem keeps_runReport {i : Invocation}
    (h : ∀ path, i.arguments.text? "-report" = .ok (some path) → Allows R path)
    (mapping : Mapping) (files : FileTable) : Keeps R (runReport i mapping files) := by
  refine keeps_operand?_bind fun path hpath => ?_
  cases path with
  | none => exact keeps_pure _
  | some path =>
      refine keeps_bind (keeps_documentOf i _) fun text => ?_
      exact keeps_bind (keeps_writeFile (h path hpath) i text) fun _ => keeps_pure _

omit [Std.Refl R] [Trans R R R] in
theorem traceOutput_getD {i : Invocation} {trace : Bytes} {target : Option Bytes}
    (htrace : i.arguments.text? "-trace" = .ok (some trace))
    (htarget : i.arguments.text? "-o" = .ok target) :
    TraceOutput i (target.getD (besidePath trace)) := by
  cases target with
  | some path => exact .told htrace htarget
  | none => exact .beside htrace htarget (beside_besidePath trace)

theorem keeps_runTrace {i : Invocation} (h : ∀ path, TraceOutput i path → Allows R path)
    (pool : TaskPool) (mapping : Mapping) (files : FileTable) :
    Keeps R (runTrace i pool mapping files) := by
  refine keeps_operand?_bind fun trace htrace => ?_
  cases trace with
  | none => exact keeps_pure _
  | some trace =>
      refine keeps_operand?_bind fun target htarget => ?_
      refine keeps_bind (keeps_readJson i trace) fun document => ?_
      refine keeps_bind (keeps_orFail _ _) fun annotated => ?_
      refine keeps_bind (keeps_tell i _) fun _ => ?_
      refine keeps_bind (keeps_documentOf i _) fun text => ?_
      refine keeps_bind (keeps_writeFile (h _ (traceOutput_getD htrace htarget)) i text)
        fun _ => ?_
      refine keeps_bind (keeps_say _) fun _ => ?_
      exact keeps_bind (keeps_say _) fun _ => keeps_pure _

theorem keeps_runActions {i : Invocation} (h : ∀ path, Output i path → Allows R path)
    (pool : TaskPool) : Keeps R (runActions i pool) := by
  refine keeps_bind (keeps_readMapping i pool) fun read => ?_
  refine keeps_bind (keeps_runReport (fun path hpath => h path (.report hpath)) _ _)
    fun reported => ?_
  refine keeps_bind (keeps_runLookup i _ _) fun lookedUp => ?_
  cases lookedUp with
  | none => exact keeps_pure _
  | some lookedUp =>
      refine keeps_bind (keeps_runTrace (fun path hpath => h path (.trace hpath)) pool _ _)
        fun traced => ?_
      split
      · exact keeps_bind (keeps_say _) fun _ => keeps_pure _
      · exact keeps_pure _

theorem keeps_runOrFail {i : Invocation} (h : ∀ path, Output i path → Allows R path) :
    Keeps R (runOrFail i) := by
  refine keeps_bind (keeps_report _) fun _ => ?_
  split
  · exact keeps_bind (keeps_say _) fun _ => keeps_pure _
  · split
    · exact keeps_bind (keeps_say _) fun _ => keeps_pure _
    · refine keeps_bind (keeps_orFail _ _) fun pool => ?_
      exact keeps_bind (keeps_tell i _) fun _ => keeps_runActions h pool

theorem store_ending (i : Invocation) (desk : Desk) :
    (ending i desk).2.store = (outcome (runOrFail i) desk).2.store := by
  rw [ending_eq]
  rcases outcome (runOrFail i) desk with ⟨_ | code, after⟩ <;> rfl

end

/-! ### Files -/

/-- Nothing but the files at the given paths has changed. -/
structure ChangesOnly (paths : Bytes → Prop) (before after : FileStore) : Prop where
  working : after.working = before.working
  directories : after.directories = before.directories
  sinks : after.sinks = before.sinks
  files : ∀ place, after.files.get? place = before.files.get? place ∨
    ∃ path, paths path ∧ before.locate? path = some place

theorem follow_congr {before after : FileStore} (hworking : after.working = before.working)
    (hdirectories : after.directories = before.directories) (place : Place) (names : List Bytes) :
    after.follow place names = before.follow place names := by
  induction names generalizing place with
  | nil => rfl
  | cons name rest ih =>
      have hplace : after.isDirectory place = before.isDirectory place := by
        rw [FileStore.isDirectory, FileStore.isDirectory, hworking, hdirectories]
      rw [FileStore.follow, FileStore.follow, hplace]
      simp only [ih]

theorem ChangesOnly.locate?_eq {paths : Bytes → Prop} {before after : FileStore}
    (h : ChangesOnly paths before after) (path : Bytes) :
    after.locate? path = before.locate? path := by
  simp only [FileStore.locate?, h.working, follow_congr h.working h.directories]

instance (paths : Bytes → Prop) : Std.Refl (ChangesOnly paths) where
  refl _ := ⟨rfl, rfl, rfl, fun _ => .inl rfl⟩

theorem ChangesOnly.trans {paths : Bytes → Prop} {before between after : FileStore}
    (h : ChangesOnly paths before between) (h' : ChangesOnly paths between after) :
    ChangesOnly paths before after where
  working := h'.working.trans h.working
  directories := h'.directories.trans h.directories
  sinks := h'.sinks.trans h.sinks
  files := by
    intro place
    rcases h'.files place with hsame | ⟨path, hpath, hplace⟩
    · rw [hsame]
      exact h.files place
    · exact .inr ⟨path, hpath, h.locate?_eq path ▸ hplace⟩

instance (paths : Bytes → Prop) :
    Trans (ChangesOnly paths) (ChangesOnly paths) (ChangesOnly paths) where
  trans := ChangesOnly.trans

theorem get?_insert_file (files : SortedMap Place Bytes) (place other : Place) (contents : Bytes) :
    (files.insert place contents).get? other =
      if other = place then some contents else files.get? other := by
  refine (get?_insert other place contents files.entries).trans ?_
  simp only [Std.LawfulEqCmp.compare_eq_iff_eq]
  rfl

theorem allows_changesOnly {paths : Bytes → Prop} {path : Bytes} (h : paths path) :
    Allows (ChangesOnly paths) path := by
  intro before contents after hwrite
  obtain ⟨place, hplace, hwrite⟩ := Option.bind_eq_some_iff.mp hwrite
  split at hwrite
  · cases hwrite
  · split at hwrite
    · cases hwrite
      exact Std.Refl.refl before
    · cases hwrite
      refine ⟨rfl, rfl, rfl, fun other => ?_⟩
      by_cases hother : other = place
      · exact .inr ⟨path, h, hother ▸ hplace⟩
      · left
        rw [get?_insert_file, if_neg hother]

/-- After a file has been written, any path leads to what it led to before or to
the new contents. -/
theorem read_of_write? {before after : FileStore} {target contents : Bytes}
    (h : before.write? target contents = some after) (path : Bytes) :
    after.read path = before.read path ∨ after.read path = .ok contents := by
  have hchanges : ChangesOnly (target = ·) before after :=
    allows_changesOnly rfl before contents after h
  obtain ⟨place, hplace, hwrite⟩ := Option.bind_eq_some_iff.mp h
  split at hwrite
  · cases hwrite
  · rename_i hdirectory
    split at hwrite
    · cases hwrite
      exact .inl rfl
    · rename_i hsink
      cases hwrite
      simp only [FileStore.read, hchanges.locate?_eq path, get?_insert_file]
      cases hpath : before.locate? path with
      | none => exact .inl rfl
      | some other =>
          by_cases hother : other = place
          · subst hother
            right
            simp only [reduceIte]
            exact (if_neg hdirectory).trans (if_neg hsink)
          · left
            simp only [if_neg hother]
            rfl

end EvmSourceMap.Proofs.RunEffects
