import EvmSourceMap.Proofs.DeskRuns
import EvmSourceMap.Proofs.MappingBuild
import EvmSourceMap.Proofs.TraceChunks

namespace EvmSourceMap.Proofs.RunAgreement

open CommandLine
open DeskRuns
open MappingBuild
open TraceChunks

variable {α β ε : Type}

/-- Two desks with the same files on which the same has been printed. The log
lines may differ. -/
structure SameButLog (d d' : Desk) : Prop where
  store : d.store = d'.store
  printed : d.printed = d'.printed

/-- Two activities come to the same on desks that differ in their log lines. -/
def Alike (x y : Run (StateM Desk) α) : Prop :=
  ∀ d d', SameButLog d d' → (outcome x d).1 = (outcome y d').1 ∧
    SameButLog (outcome x d).2 (outcome y d').2

theorem alike_pure (a : α) : Alike (pure a) (pure a) := fun _ _ h => ⟨rfl, h⟩

theorem alike_throw (e : Failure) :
    Alike (throw e : Run (StateM Desk) α) (throw e) := fun _ _ h => ⟨rfl, h⟩

theorem alike_orFail (failure : ε → Failure) {result result' : Except ε α} (h : result = result') :
    Alike (orFail failure result) (orFail failure result') := by
  subst h
  exact fun _ _ h => ⟨rfl, h⟩

theorem alike_report (text text' : Bytes) :
    Alike (Host.report text) (Host.report text') := fun _ _ h => ⟨rfl, h.store, h.printed⟩

theorem alike_tell (i j : Invocation) (entries entries' : List Log.Entry) :
    Alike (tell i entries) (tell j entries') := alike_report _ _

theorem alike_say (text : Bytes) : Alike (say text) (say text) := fun _ _ h =>
  ⟨rfl, h.store, congrArg (· ++ text) h.printed⟩

theorem alike_bind {x y : Run (StateM Desk) α} {f g : α → Run (StateM Desk) β} (hx : Alike x y)
    (hf : ∀ a, Alike (f a) (g a)) : Alike (x >>= f) (y >>= g) := by
  intro d d' hdesk
  obtain ⟨hresult, hafter⟩ := hx d d' hdesk
  rcases hxd : outcome x d with ⟨e | a, after⟩ <;> rcases hyd : outcome y d' with ⟨e' | a', after'⟩
  all_goals
    rw [hxd, hyd] at hresult hafter
    cases hresult
  · rw [outcome_bind_of_error hxd, outcome_bind_of_error hyd]
    exact ⟨rfl, hafter⟩
  · rw [outcome_bind_of_ok hxd, outcome_bind_of_ok hyd]
    exact hf a after after' hafter

theorem alike_readFile (path : Bytes) : Alike (readFile path) (readFile path) := by
  intro d d' h
  refine ⟨?_, h⟩
  change (d.store.read path).mapError _ = (d'.store.read path).mapError _
  rw [h.store]

theorem alike_writeFile (i j : Invocation) (path contents : Bytes) :
    Alike (writeFile i path contents) (writeFile j path contents) := by
  intro d d' h
  rw [outcome_writeFile, outcome_writeFile, h.store]
  cases d'.store.write? path contents with
  | some store => exact ⟨rfl, rfl, h.printed⟩
  | none => exact ⟨rfl, h⟩

theorem alike_mapM {f g : α → Run (StateM Desk) β} (hf : ∀ a, Alike (f a) (g a)) (a : Option α) :
    Alike (a.mapM f) (a.mapM g) := by
  cases a with
  | none => exact alike_pure none
  | some a => exact alike_bind (hf a) fun b => alike_pure (some b)

/-- A text that can be a switch but not the one for the number of workers. -/
abbrev OtherSwitch (switch : Bytes) : Prop :=
  switch.head? = some '-'.toUInt8 ∧ Bytes.equalsIgnoringCase "-threads" switch = false

/-- Two runs are asked for the same, apart from the number of workers. -/
structure SameRequest (i j : Invocation) : Prop where
  text : ∀ switch, OtherSwitch switch → i.arguments.text? switch = j.arguments.text? switch
  has : ∀ switch, OtherSwitch switch → i.arguments.has switch = j.arguments.has switch
  length : i.arguments.length = j.arguments.length
  json : i.json = j.json
  pools : (∃ pool pool', i.pool = .ok pool ∧ j.pool = .ok pool') ∨
    ∃ e, i.pool = .error e ∧ j.pool = .error e

theorem annotate_congr (pool pool' : TaskPool) (index : PcIndex) (files : FileTable)
    (trace : Json) :
    Trace.annotate { pool := some pool } index files trace =
      Trace.annotate { pool := some pool' } index files trace := by
  cases trace with
  | array entries =>
      rw [annotate_eq_annotateAll (suits_default pool _),
        annotate_eq_annotateAll (suits_default pool' _)]
  | _ => rfl

section

variable {i j : Invocation} (h : SameRequest i j)

include h

theorem alike_operand? {switch : Bytes} (hswitch : OtherSwitch switch) :
    Alike (operand? i switch) (operand? j switch) :=
  alike_orFail _ (h.text switch hswitch)

theorem alike_readJson (path : Bytes) : Alike (readJson i path) (readJson j path) :=
  alike_bind (alike_readFile path) fun _ => alike_orFail _ (by rw [h.json])

theorem alike_documentOf (value : Json) : Alike (documentOf i value) (documentOf j value) := by
  rw [documentOf, documentOf, h.json]
  split
  · exact alike_pure _
  · exact alike_throw _

theorem codeKind_eq : i.codeKind = j.codeKind := by
  have hsetting : i.arguments.setting? "-creation" = j.arguments.setting? "-creation" := by
    rw [Arguments.setting?, Arguments.setting?, h.has "-creation" (by decide),
      h.has ("-no" ++ "-creation") (by decide)]
  rw [Invocation.codeKind, Invocation.codeKind, hsetting]

theorem alike_readCompilerOutput (path : Bytes) :
    Alike (readCompilerOutput i path) (readCompilerOutput j path) := by
  refine alike_bind (alike_readJson h path) fun output => ?_
  refine alike_bind (alike_operand? h (by decide)) fun inputPath => ?_
  refine alike_bind (alike_mapM (alike_readJson h) inputPath) fun input => ?_
  refine alike_bind (alike_operand? h (by decide)) fun contract => ?_
  refine alike_bind (alike_orFail _ (by rw [codeKind_eq h])) fun artifacts => ?_
  refine alike_bind (alike_tell i j _ _) fun _ => ?_
  refine alike_bind (alike_tell i j _ _) fun _ => ?_
  refine alike_bind (alike_tell i j _ _) fun _ => ?_
  exact alike_bind (alike_orFail _ rfl) fun files => alike_pure _

theorem alike_readSeparateFiles (bytecode sourceMap sources : Bytes) :
    Alike (readSeparateFiles i bytecode sourceMap sources)
      (readSeparateFiles j bytecode sourceMap sources) := by
  refine alike_bind (alike_readFile bytecode) fun _ => ?_
  refine alike_bind (alike_readFile sourceMap) fun _ => ?_
  refine alike_bind (alike_readJson h sources) fun _ => ?_
  exact alike_bind (alike_orFail _ rfl) fun files => alike_pure _

theorem alike_readInputs : Alike (readInputs i) (readInputs j) := by
  refine alike_bind (alike_operand? h (by decide)) fun output => ?_
  cases output with
  | some path => exact alike_readCompilerOutput h path
  | none =>
      refine alike_bind (alike_operand? h (by decide)) fun bytecode => ?_
      refine alike_bind (alike_operand? h (by decide)) fun sourceMap => ?_
      refine alike_bind (alike_operand? h (by decide)) fun sources => ?_
      split
      · exact alike_readSeparateFiles h _ _ _
      · exact alike_throw _

theorem alike_readMapping (pool pool' : TaskPool) :
    Alike (readMapping i pool) (readMapping j pool') := by
  refine alike_bind (alike_readInputs h) fun inputs => ?_
  refine alike_bind (alike_orFail _ ?_) fun mapping => ?_
  · rw [buildWith_eq_build, buildWith_eq_build]
  refine alike_bind (alike_tell i j _ _) fun _ => ?_
  exact alike_bind (alike_tell i j _ _) fun _ => alike_pure _

theorem alike_runReport (mapping : Mapping) (files : FileTable) :
    Alike (runReport i mapping files) (runReport j mapping files) := by
  refine alike_bind (alike_operand? h (by decide)) fun path => ?_
  cases path with
  | none => exact alike_pure _
  | some path =>
      refine alike_bind (alike_documentOf h _) fun text => ?_
      exact alike_bind (alike_writeFile i j path text) fun _ => alike_pure _

theorem alike_showRecord (mapping : Mapping) (files : FileTable) (pc : Int) :
    Alike (showRecord i mapping files pc) (showRecord j mapping files pc) := by
  rw [showRecord, showRecord]
  split
  · exact alike_bind (alike_tell i j _ _) fun _ => alike_pure _
  · refine alike_bind (alike_documentOf h _) fun text => ?_
    exact alike_bind (alike_say _) fun _ => alike_pure _

theorem alike_runLookup (mapping : Mapping) (files : FileTable) :
    Alike (runLookup i mapping files) (runLookup j mapping files) := by
  rw [runLookup_eq, runLookup_eq]
  refine alike_bind (alike_orFail _ ?_) fun pc => ?_
  · rw [Arguments.integer?, Arguments.integer?, h.text _ (by decide)]
  · cases pc with
    | none => exact alike_pure _
    | some pc =>
        dsimp only
        split
        · exact alike_throw _
        · exact alike_showRecord h mapping files pc

theorem alike_runTrace (pool pool' : TaskPool) (mapping : Mapping) (files : FileTable) :
    Alike (runTrace i pool mapping files) (runTrace j pool' mapping files) := by
  refine alike_bind (alike_operand? h (by decide)) fun path => ?_
  cases path with
  | none => exact alike_pure _
  | some path =>
      refine alike_bind (alike_operand? h (by decide)) fun target => ?_
      refine alike_bind (alike_readJson h path) fun trace => ?_
      refine alike_bind (alike_orFail _ (annotate_congr pool pool' _ _ trace)) fun annotated => ?_
      refine alike_bind (alike_tell i j _ _) fun _ => ?_
      refine alike_bind (alike_documentOf h _) fun text => ?_
      refine alike_bind (alike_writeFile i j _ text) fun _ => ?_
      refine alike_bind (alike_say _) fun _ => ?_
      rw [h.json]
      exact alike_bind (alike_say _) fun _ => alike_pure _

theorem alike_runActions (pool pool' : TaskPool) :
    Alike (runActions i pool) (runActions j pool') := by
  refine alike_bind (alike_readMapping h pool pool') fun read => ?_
  refine alike_bind (alike_runReport h _ _) fun reported => ?_
  refine alike_bind (alike_runLookup h _ _) fun lookedUp => ?_
  cases lookedUp with
  | none => exact alike_pure _
  | some lookedUp =>
      refine alike_bind (alike_runTrace h pool pool' _ _) fun traced => ?_
      split
      · exact alike_bind (alike_say _) fun _ => alike_pure _
      · exact alike_pure _

theorem alike_runOrFail : Alike (runOrFail i) (runOrFail j) := by
  refine alike_bind (alike_report _ _) fun _ => ?_
  rw [h.has "-version" (by decide), h.has "-help" (by decide), h.has "-h" (by decide), h.length]
  split
  · exact alike_bind (alike_say _) fun _ => alike_pure _
  · split
    · exact alike_bind (alike_say _) fun _ => alike_pure _
    -- The pools differ, so the rest is compared without the step that makes them.
    · rcases h.pools with ⟨pool, pool', hi, hj⟩ | ⟨e, hi, hj⟩
      · rw [hi, hj]
        change Alike (tell i _ >>= fun _ => runActions i pool)
          (tell j _ >>= fun _ => runActions j pool')
        exact alike_bind (alike_tell i j _ _) fun _ => alike_runActions h pool pool'
      · rw [hi, hj]
        exact alike_throw _

/-- Runs that are asked for the same end with the same code, having printed and
written the same. -/
theorem ending_eq_of_sameRequest (desk : Desk) :
    (ending i desk).1 = (ending j desk).1 ∧ SameButLog (ending i desk).2 (ending j desk).2 := by
  obtain ⟨hresult, hafter⟩ := alike_runOrFail h desk desk ⟨rfl, rfl⟩
  rw [ending_eq, ending_eq]
  rcases hi : outcome (runOrFail i) desk with ⟨e | code, after⟩ <;>
    rcases hj : outcome (runOrFail j) desk with ⟨e' | code', after'⟩
  all_goals
    rw [hi, hj] at hresult hafter
    cases hresult
  · exact ⟨rfl, hafter.store, hafter.printed⟩
  · exact ⟨rfl, hafter⟩

end

end EvmSourceMap.Proofs.RunAgreement
