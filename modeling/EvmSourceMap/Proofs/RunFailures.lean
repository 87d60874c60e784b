import EvmSourceMap.Proofs.JsonWritability
import EvmSourceMap.Proofs.MappingBuild
import EvmSourceMap.Proofs.RunEffects

namespace EvmSourceMap.Proofs.RunFailures

open CommandLine
open DeskRuns
open JsonReading
open JsonWritability
open MappingBuild
open RunEffects
open TraceAnnotation
open TraceChunks

variable {α β : Type}

/-- The arguments ask for the version or the usage, or there are none. -/
def AsksForText (i : Invocation) : Prop :=
  i.arguments.has "-version" ∨ i.arguments.has "-help" ∨ i.arguments.has "-h" ∨
    i.arguments.length ≤ 1

/-- The desk when a run with a pool begins to read its inputs. -/
def begun (i : Invocation) (pool : TaskPool) (desk : Desk) : Desk :=
  { desk with
    reported := desk.reported ++ Log.lines .info i.environmentLevel.2 ++ Log.lines i.level
      [Log.debug ("using " ++ Decimal.ofNat pool.size ++ " worker threads")] }

/-- There is nothing to work on: no arguments at all, no pool, an input that
cannot be read, or a code and a source map that do not give a mapping. -/
inductive Refused (i : Invocation) (desk : Desk) : Prop
  | arguments (h : i.arguments.length ≤ 1)
  | threads {e : UsageError} (hworks : ¬ AsksForText i) (h : i.pool = .error e)
  | inputs {pool : TaskPool} {e : Failure} {after : Desk} (hworks : ¬ AsksForText i)
      (hpool : i.pool = .ok pool)
      (h : outcome (readInputs i) (begun i pool desk) = (.error e, after))
  | mapping {pool : TaskPool} {inputs : Inputs} {e : Mapping.Error} {after : Desk}
      (hworks : ¬ AsksForText i) (hpool : i.pool = .ok pool)
      (hinputs : outcome (readInputs i) (begun i pool desk) = (.ok inputs, after))
      (h : Mapping.build inputs.bytecode inputs.sourceMap = .error e)

/-- A run gets as far as its trace, if there is one to annotate. -/
structure ReachesTrace (i : Invocation) (desk : Desk) (pool : TaskPool) (mapping : Mapping)
    (files : FileTable) (before : Desk) : Prop where
  works : ¬ AsksForText i
  pool_eq : i.pool = .ok pool
  stages : ∃ read written reported lookedUp,
    outcome (readMapping i pool) (begun i pool desk) = (.ok (mapping, files), read) ∧
      outcome (runReport i mapping files) read = (.ok reported, written) ∧
        outcome (runLookup i mapping files) written = (.ok (some lookedUp), before)

/-- What is read from the file of a trace is nothing to annotate: the file is
missing, or the library refuses its text as JSON, or the text is no array, or the
library has no document for the array with its sources. -/
inductive Unusable (codec : Json.Codec) (index : PcIndex) (files : FileTable) :
    Except ReadFault Bytes → Prop
  | unreadable {fault : ReadFault} : Unusable codec index files (.error fault)
  | malformed {text : Bytes} {e : Json.ReadError} (h : codec.read text = .error e) :
      Unusable codec index files (.ok text)
  | notAnArray {text : Bytes} {trace : Json} (hjson : codec.read text = .ok trace)
      (h : ∀ entries, trace ≠ .array entries) : Unusable codec index files (.ok text)
  | unwritable {text : Bytes} {entries : List Json}
      (hjson : codec.read text = .ok (.array entries))
      (h : codec.document? (.array (entries.map (annotated index files))) = none) :
      Unusable codec index files (.ok text)

/-- Behind a zero byte a trace may go on as it likes, if that byte ends it. -/
theorem unusable_zeroEnded_iff {index : PcIndex} {files : FileTable} {text : Bytes} :
    Unusable .zeroEnded index files (.ok text) ↔
      Unusable .strict index files (.ok (Bytes.beforeNul text)) := by
  constructor
  · intro h
    cases h with
    | malformed h => exact .malformed h
    | notAnArray hjson h => exact .notAnArray hjson h
    | unwritable hjson h => exact .unwritable hjson h
  · intro h
    cases h with
    | malformed h => exact .malformed h
    | notAnArray hjson h => exact .notAnArray hjson h
    | unwritable hjson h => exact .unwritable hjson h

/-- Between two states of the files, nothing has been written but a report if it
is asked for. -/
inductive Written (i : Invocation) (mapping : Mapping) (files : FileTable)
    (before after : FileStore) : Prop
  | nothing (h : after = before)
  | report {target text : Bytes} (htarget : i.arguments.text? "-report" = .ok (some target))
      (htext : i.json.document? (mapping.report files) = some text)
      (hwrite : before.write? target text = some after)

/-- The activity fails, and all files stay as they were. -/
def GivesUp (x : Run (StateM Desk) α) (desk : Desk) : Prop :=
  ∃ e after, outcome x desk = (.error e, after) ∧ after.store = desk.store

section

variable {x : Run (StateM Desk) α} {f : α → Run (StateM Desk) β} {desk : Desk}

theorem GivesUp.bind (h : GivesUp x desk) : GivesUp (x >>= f) desk := by
  obtain ⟨e, after, hx, hstore⟩ := h
  exact ⟨e, after, outcome_bind_of_error hx, hstore⟩

theorem givesUp_bind {a : α} {after : Desk} (hx : outcome x desk = (.ok a, after))
    (hstore : after.store = desk.store) (hf : GivesUp (f a) after) : GivesUp (x >>= f) desk := by
  obtain ⟨e, last, hfa, hlast⟩ := hf
  exact ⟨e, last, (outcome_bind_of_ok hx).trans hfa, hlast.trans hstore⟩

theorem store_eq_of_keeps {result : Except Failure α} {after : Desk}
    (hx : outcome x desk = (result, after)) (hkeeps : Keeps Eq x) : after.store = desk.store := by
  have hstore := hkeeps desk
  rw [hx] at hstore
  exact hstore.symm

theorem givesUp_of_keeps {e : Failure} {after : Desk} (hx : outcome x desk = (.error e, after))
    (hkeeps : Keeps Eq x) : GivesUp x desk :=
  ⟨e, after, hx, store_eq_of_keeps hx hkeeps⟩

theorem givesUp_of_eq {e : Failure} (hx : outcome x desk = (.error e, desk)) : GivesUp x desk :=
  ⟨e, desk, hx, rfl⟩

theorem ending_of_givesUp {i : Invocation} (h : GivesUp (runOrFail i) desk) :
    (ending i desk).1 = 1 ∧ (ending i desk).2.store = desk.store := by
  obtain ⟨e, after, hrun, hstore⟩ := h
  rw [ending_eq, hrun]
  exact ⟨rfl, hstore⟩

end

theorem outcome_runOrFail {i : Invocation} (hworks : ¬ AsksForText i) (desk : Desk) :
    outcome (runOrFail i) desk =
      match i.pool with
      | .ok pool => outcome (runActions i pool) (begun i pool desk)
      | .error e => (.error (.usage e), { desk with
          reported := desk.reported ++ Log.lines .info i.environmentLevel.2 }) := by
  simp only [AsksForText, not_or] at hworks
  obtain ⟨hversion, hhelp, hh, hlength⟩ := hworks
  rw [runOrFail, outcome_bind_of_ok (outcome_report _ desk), if_neg hversion,
    if_neg (by simp [hhelp, hh, hlength])]
  cases hpool : i.pool with
  | error e => rfl
  | ok pool => rfl

theorem givesUp_runOrFail {i : Invocation} {pool : TaskPool} {desk : Desk}
    (hworks : ¬ AsksForText i) (hpool : i.pool = .ok pool)
    (h : GivesUp (runActions i pool) (begun i pool desk)) : GivesUp (runOrFail i) desk := by
  rw [GivesUp, outcome_runOrFail hworks, hpool]
  exact h

theorem not_has_of_length_le_one {arguments : Arguments} (h : arguments.length ≤ 1)
    (switch : Bytes) : arguments.has switch = false := by
  rw [Arguments.has, Arguments.position?, List.drop_eq_nil_of_le h]
  rfl

theorem outcome_runOrFail_of_length_le_one {i : Invocation} (h : i.arguments.length ≤ 1)
    (desk : Desk) :
    outcome (runOrFail i) desk =
      (.ok 1, { desk with
        printed := desk.printed ++ usageText
        reported := desk.reported ++ Log.lines .info i.environmentLevel.2 }) := by
  have hversion : ¬ i.arguments.has "-version" = true := by
    rw [not_has_of_length_le_one h]
    decide
  rw [runOrFail, outcome_bind_of_ok (outcome_report _ desk), if_neg hversion,
    if_pos (by simp [h]), if_pos h]
  rfl

theorem ending_of_refused {i : Invocation} {desk : Desk} (h : Refused i desk) :
    (ending i desk).1 = 1 ∧ (ending i desk).2.store = desk.store := by
  cases h with
  | arguments h =>
      rw [ending_eq, outcome_runOrFail_of_length_le_one h]
      exact ⟨rfl, rfl⟩
  | threads hworks h =>
      apply ending_of_givesUp
      rw [GivesUp, outcome_runOrFail hworks, h]
      exact ⟨_, _, rfl, rfl⟩
  | @inputs pool e after hworks hpool h =>
      apply ending_of_givesUp
      apply givesUp_runOrFail hworks hpool
      exact (givesUp_of_keeps h (keeps_readInputs i)).bind.bind
  | @mapping pool inputs e after hworks hpool hinputs h =>
      apply ending_of_givesUp
      apply givesUp_runOrFail hworks hpool
      apply GivesUp.bind
      refine givesUp_bind hinputs (store_eq_of_keeps hinputs (keeps_readInputs i)) ?_
      rw [buildWith_eq_build]
      exact (givesUp_of_eq (outcome_orFail_of_error h after)).bind

theorem givesUp_runTrace {i : Invocation} {pool : TaskPool} {mapping : Mapping}
    {files : FileTable} {desk : Desk} {path : Bytes}
    (hpath : i.arguments.text? "-trace" = .ok (some path))
    (h : Unusable i.json mapping.index files (desk.store.read path)) :
    GivesUp (runTrace i pool mapping files) desk := by
  refine givesUp_bind (outcome_operand?_of_ok hpath desk) rfl ?_
  cases htarget : i.arguments.text? "-o" with
  | error e => exact (givesUp_of_eq (outcome_operand?_of_error htarget desk)).bind
  | ok target =>
      refine givesUp_bind (outcome_operand?_of_ok htarget desk) rfl ?_
      generalize hread : desk.store.read path = contents at h
      cases h with
      | unreadable => exact (givesUp_of_eq (outcome_readJson_of_unreadable hread)).bind
      | malformed h => exact (givesUp_of_eq (outcome_readJson_of_malformed hread h)).bind
      | @notAnArray text trace hjson h =>
          refine givesUp_bind (outcome_readJson_of_ok hread hjson) rfl ?_
          have hannotate : Trace.annotate { pool := some pool } mapping.index files trace =
              .error .notAnArray := by
            cases trace with
            | array entries => exact absurd rfl (h entries)
            | _ => rfl
          exact (givesUp_of_eq (outcome_orFail_of_error hannotate desk)).bind
      | @unwritable text entries hjson h =>
          refine givesUp_bind (outcome_readJson_of_ok hread hjson) rfl ?_
          have hannotate := annotate_eq_annotateAll (suits_default pool entries.length)
            mapping.index files
          refine givesUp_bind (outcome_orFail_of_ok hannotate desk) rfl ?_
          refine givesUp_bind (outcome_tell _ _ _) rfl ?_
          rw [entries_annotateAll]
          exact (givesUp_of_eq (outcome_documentOf_of_none h _)).bind

theorem unusable_report {codec : Json.Codec} (hcodec : codec.Lawful) {mapping : Mapping}
    {table : FileTable} {text : Bytes} (htext : codec.document? (mapping.report table) = some text)
    (index : PcIndex) (files : FileTable) : Unusable codec index files (.ok text) := by
  cases hjson : codec.read text with
  | error e => exact .malformed hjson
  | ok value =>
      have hobject := hcodec.isObject_of_document? text _ value htext hjson rfl
      refine .notAnArray hjson ?_
      rintro entries rfl
      cases hobject

theorem written_of_runReport {i : Invocation} {mapping : Mapping} {files : FileTable}
    {desk after : Desk} {reported : Bool}
    (h : outcome (runReport i mapping files) desk = (.ok reported, after)) :
    Written i mapping files desk.store after.store := by
  obtain ⟨target, between, hoperand, hrest⟩ := outcome_bind_eq_ok_iff.mp h
  obtain ⟨htarget, rfl⟩ := outcome_orFail_eq_ok_iff.mp hoperand
  cases target with
  | none =>
      cases hrest
      exact .nothing rfl
  | some target =>
      obtain ⟨text, between', hdocument, hwriting⟩ := outcome_bind_eq_ok_iff.mp hrest
      obtain ⟨htext, rfl⟩ := outcome_documentOf_eq_ok_iff.mp hdocument
      obtain ⟨⟨⟩, last, hwrite, hlast⟩ := outcome_bind_eq_ok_iff.mp hwriting
      cases hlast
      exact .report htarget htext (write?_of_writeFile hwrite)

namespace ReachesTrace

variable {i : Invocation} {desk before : Desk} {pool : TaskPool} {mapping : Mapping}
    {files : FileTable} (h : ReachesTrace i desk pool mapping files before)

include h

theorem written : Written i mapping files desk.store before.store := by
  obtain ⟨read, written, reported, lookedUp, hread, hreport, hlookup⟩ := h.stages
  have hwritten := written_of_runReport hreport
  rw [← store_eq_of_keeps hlookup (keeps_runLookup i mapping files),
    store_eq_of_keeps hread (keeps_readMapping i pool)] at hwritten
  exact hwritten

theorem unusable_before (hjson : i.json.Lawful) {path : Bytes}
    (hpath : Unusable i.json mapping.index files (desk.store.read path)) :
    Unusable i.json mapping.index files (before.store.read path) := by
  -- Only a report can have been written over the trace in the meantime.
  cases h.written with
  | nothing hsame => rwa [hsame]
  | report htarget htext hwrite =>
      rcases read_of_write? hwrite path with hread | hread
      · rwa [hread]
      · rw [hread]
        exact unusable_report hjson htext _ _

theorem ending_of_givesUp_runTrace (htrace : GivesUp (runTrace i pool mapping files) before) :
    (ending i desk).1 = 1 ∧ (ending i desk).2.store = before.store := by
  obtain ⟨read, written, reported, lookedUp, hread, hwritten, hbefore⟩ := h.stages
  obtain ⟨e, after, htrace, hstore⟩ := htrace
  have hactions : outcome (runActions i pool) (begun i pool desk) = (.error e, after) := by
    rw [runActions, outcome_bind_of_ok hread]
    dsimp only
    rw [outcome_bind_of_ok hwritten, outcome_bind_of_ok hbefore]
    exact outcome_bind_of_error htrace
  rw [ending_eq, outcome_runOrFail h.works, h.pool_eq]
  simp only [hactions]
  exact ⟨trivial, hstore⟩

end ReachesTrace

theorem exists_outcome_of_ending_ne_one {i : Invocation} {desk : Desk}
    (h : (ending i desk).1 ≠ 1) :
    ∃ code after, outcome (runOrFail i) desk = (.ok code, after) ∧ code ≠ 1 := by
  rw [ending_eq] at h
  rcases hrun : outcome (runOrFail i) desk with ⟨e | code, after⟩
  · rw [hrun] at h
    exact absurd rfl h
  · rw [hrun] at h
    exact ⟨code, after, rfl, h⟩

/-- A run that works on something and does not end with 1 reaches its trace and
is through with it. -/
theorem exists_reachesTrace {i : Invocation} {desk : Desk} (hworks : ¬ AsksForText i)
    (hending : (ending i desk).1 ≠ 1) :
    ∃ pool mapping files before, ReachesTrace i desk pool mapping files before ∧
      ∃ traced after, outcome (runTrace i pool mapping files) before = (.ok traced, after) := by
  obtain ⟨code, last, hrun, hcode⟩ := exists_outcome_of_ending_ne_one hending
  rw [outcome_runOrFail hworks] at hrun
  cases hpool : i.pool with
  | error e =>
      rw [hpool] at hrun
      cases hrun
  | ok pool =>
      simp only [hpool, runActions] at hrun
      obtain ⟨⟨mapping, files⟩, read, hread, hreport⟩ := outcome_bind_eq_ok_iff.mp hrun
      obtain ⟨reported, written, hwritten, hlookup⟩ := outcome_bind_eq_ok_iff.mp hreport
      obtain ⟨lookedUp, before, hbefore, htrace⟩ := outcome_bind_eq_ok_iff.mp hlookup
      cases lookedUp with
      | none =>
          cases htrace
          exact absurd rfl hcode
      | some lookedUp =>
          obtain ⟨traced, after, htraced, -⟩ := outcome_bind_eq_ok_iff.mp htrace
          exact ⟨pool, mapping, files, before, ⟨hworks, hpool, read, written, reported, lookedUp,
            hread, hwritten, hbefore⟩, traced, after, htraced⟩

/-- A run changes no file but its outputs. If there is nothing it can work on, it
fails and changes none at all, and if its trace cannot be annotated, it fails and
leaves the files as they were when it came to the trace. What counts as JSON is up
to the library of the run. -/
theorem ending_effects (i : Invocation) (desk : Desk) :
    ChangesOnly (Output i) desk.store (ending i desk).2.store ∧
      (Refused i desk → (ending i desk).1 = 1 ∧ (ending i desk).2.store = desk.store) ∧
      ∀ path, i.arguments.text? "-trace" = .ok (some path) →
        (∀ pool mapping files before, ReachesTrace i desk pool mapping files before →
          Written i mapping files desk.store before.store ∧
            (Unusable i.json mapping.index files (before.store.read path) →
              (ending i desk).1 = 1 ∧ (ending i desk).2.store = before.store) ∧
            (i.json.Lawful → Unusable i.json mapping.index files (desk.store.read path) →
              Unusable i.json mapping.index files (before.store.read path))) ∧
        (¬ AsksForText i → (ending i desk).1 = 1 ∨
          ∃ pool mapping files before, ReachesTrace i desk pool mapping files before ∧
            ¬ Unusable i.json mapping.index files (before.store.read path)) := by
  refine ⟨?_, ending_of_refused, fun path hpath => ⟨?_, ?_⟩⟩
  · rw [store_ending]
    exact keeps_runOrFail (fun _ => allows_changesOnly) desk
  · intro pool mapping files before h
    refine ⟨h.written, fun hunusable => ?_, fun hjson => h.unusable_before hjson⟩
    exact h.ending_of_givesUp_runTrace (givesUp_runTrace hpath hunusable)
  · intro hworks
    by_cases hcode : (ending i desk).1 = 1
    · exact .inl hcode
    · obtain ⟨pool, mapping, files, before, h, traced, after, htraced⟩ :=
        exists_reachesTrace hworks hcode
      refine .inr ⟨pool, mapping, files, before, h, fun hunusable => ?_⟩
      have hfails : GivesUp (runTrace i pool mapping files) before :=
        givesUp_runTrace hpath hunusable
      obtain ⟨e, last, hfails, -⟩ := hfails
      rw [htraced] at hfails
      cases hfails

/-- The trace of a run with a code of one byte is not there. -/
theorem ending_effects_missingTrace :
    let i : Invocation := { arguments :=
      ["pcmap", "-bytecode", "c", "-source-map", "m", "-sources", "s", "-trace", "t"] }
    let desk : Desk := { store :=
      ((({} : FileStore).create ["c"] "00").create ["m"] "0:1:0").create ["s"] "[]" }
    ¬ AsksForText i ∧ i.arguments.text? "-trace" = .ok (some "t") ∧
      (∃ pool mapping files before, ReachesTrace i desk pool mapping files before ∧
        Unusable i.json mapping.index files (before.store.read "t")) ∧
      (ending i desk).1 = 1 ∧ (ending i desk).2.store = desk.store := by
  intro i desk
  have hworks : ¬ AsksForText i := by
    unfold AsksForText
    decide +kernel
  have hpath : i.arguments.text? "-trace" = .ok (some "t") := by decide +kernel
  have hpool : i.pool = .ok ⟨1, .inTurn⟩ := rfl
  let pool : TaskPool := ⟨1, .inTurn⟩
  let start := begun i pool desk
  have hcode : outcome (readFile "c") start = (.ok "00", start) := rfl
  have hsourceMap : outcome (readFile "m") start = (.ok "0:1:0", start) := rfl
  have hsources : outcome (readJson i "s") start = (.ok (.array []), start) :=
    outcome_readJson_of_ok rfl read_brackets
  have hinputs : outcome (readInputs i) start = (.ok ⟨"00", "0:1:0", ∅⟩, start) := by
    change outcome (readSeparateFiles i "c" "m" "s") start = _
    refine (outcome_bind_of_ok hcode).trans ?_
    refine (outcome_bind_of_ok hsourceMap).trans ?_
    exact outcome_bind_of_ok hsources
  let mapping := Mapping.ofParts [⟨⟨0, 1, 0, .regular, 0⟩, 0⟩] [0x00]
  have hread : ∃ read, outcome (readMapping i pool) start = (.ok (mapping, ∅), read) :=
    ⟨_, outcome_bind_of_ok hinputs⟩
  obtain ⟨read, hread⟩ := hread
  have hreaches : ReachesTrace i desk pool mapping ∅ read :=
    ⟨hworks, hpool, read, read, false, false, hread, rfl, rfl⟩
  have hstore : read.store = desk.store := store_eq_of_keeps hread (keeps_readMapping i pool)
  have hmissing : Unusable i.json mapping.index ∅ (desk.store.read "t") := .unreadable
  obtain ⟨-, -, htrace⟩ := ending_effects i desk
  obtain ⟨-, hending, hbefore⟩ := (htrace "t" hpath).1 pool mapping ∅ read hreaches
  have hmissing' := hbefore lawful_strict hmissing
  refine ⟨hworks, hpath, ⟨pool, mapping, ∅, read, hreaches, hmissing'⟩, ?_⟩
  rw [← hstore]
  exact hending hmissing'

end EvmSourceMap.Proofs.RunFailures
