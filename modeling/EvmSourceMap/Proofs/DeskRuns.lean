import EvmSourceMap.CommandLine.Run

/-!
Runs on a machine of plain values: what an activity comes to on a desk, step by
step, and how the files afterwards are related to the files before.
-/

namespace EvmSourceMap.Proofs.DeskRuns

open CommandLine

variable {α β ε : Type}

/-- The result of an activity on a desk, and the desk that it leaves. -/
def outcome (x : Run (StateM Desk) α) (desk : Desk) : Except Failure α × Desk :=
  (StateT.run x.run desk).run

/-- The exit code of a run on a desk, and the desk that it leaves. -/
def ending (i : Invocation) (desk : Desk) : UInt32 × Desk :=
  (StateT.run (run i : StateM Desk UInt32) desk).run

section

variable {x : Run (StateM Desk) α} {f : α → Run (StateM Desk) β} {desk after : Desk}

theorem outcome_bind :
    outcome (x >>= f) desk =
      match outcome x desk with
      | (.ok a, after) => outcome (f a) after
      | (.error e, after) => (.error e, after) := by
  change outcome (ExceptT.mk (ExceptT.bindCont f (outcome x desk).1)) (outcome x desk).2 = _
  rcases outcome x desk with ⟨_ | a, after⟩ <;> rfl

theorem outcome_bind_of_ok {a : α} (h : outcome x desk = (.ok a, after)) :
    outcome (x >>= f) desk = outcome (f a) after := by
  rw [outcome_bind, h]

theorem outcome_bind_of_error {e : Failure} (h : outcome x desk = (.error e, after)) :
    outcome (x >>= f) desk = (.error e, after) := by
  rw [outcome_bind, h]

theorem outcome_bind_eq_ok_iff {b : β} :
    outcome (x >>= f) desk = (.ok b, after) ↔
      ∃ a between, outcome x desk = (.ok a, between) ∧ outcome (f a) between = (.ok b, after) := by
  constructor
  · intro h
    rcases hx : outcome x desk with ⟨e | a, between⟩
    · rw [outcome_bind_of_error hx] at h
      cases h
    · rw [outcome_bind_of_ok hx] at h
      exact ⟨a, between, rfl, h⟩
  · rintro ⟨a, between, hx, hf⟩
    rw [outcome_bind_of_ok hx, hf]

end

theorem outcome_report (text : Bytes) (desk : Desk) :
    outcome (Host.report text) desk =
      (.ok (), { desk with reported := desk.reported ++ text }) := rfl

theorem outcome_tell (i : Invocation) (entries : List Log.Entry) (desk : Desk) :
    outcome (tell i entries) desk =
      (.ok (), { desk with reported := desk.reported ++ Log.lines i.level entries }) := rfl

theorem outcome_orFail_of_ok {failure : ε → Failure} {result : Except ε α} {a : α}
    (h : result = .ok a) (desk : Desk) : outcome (orFail failure result) desk = (.ok a, desk) := by
  rw [h]
  rfl

theorem outcome_orFail_of_error {failure : ε → Failure} {result : Except ε α} {e : ε}
    (h : result = .error e) (desk : Desk) :
    outcome (orFail failure result) desk = (.error (failure e), desk) := by
  rw [h]
  rfl

theorem outcome_orFail_eq_ok_iff {failure : ε → Failure} {result : Except ε α} {a : α}
    {desk after : Desk} :
    outcome (orFail failure result) desk = (.ok a, after) ↔ result = .ok a ∧ after = desk := by
  cases result with
  | error e =>
      refine iff_of_false ?_ (fun h => nomatch h.1)
      rw [outcome_orFail_of_error rfl]
      rintro ⟨⟩
  | ok b =>
      rw [outcome_orFail_of_ok rfl, Prod.mk.injEq, Except.ok.injEq, Except.ok.injEq,
        eq_comm (a := desk)]

theorem outcome_operand?_of_ok {i : Invocation} {switch : Bytes} {operand : Option Bytes}
    (h : i.arguments.text? switch = .ok operand) (desk : Desk) :
    outcome (operand? i switch) desk = (.ok operand, desk) :=
  outcome_orFail_of_ok h desk

theorem outcome_operand?_of_error {i : Invocation} {switch : Bytes} {e : UsageError}
    (h : i.arguments.text? switch = .error e) (desk : Desk) :
    outcome (operand? i switch) desk = (.error (.usage e), desk) :=
  outcome_orFail_of_error h desk

theorem outcome_readJson (i : Invocation) (path : Bytes) (desk : Desk) :
    outcome (readJson i path) desk =
      match desk.store.read path with
      | .ok text => ((i.json.read text).mapError (.json path), desk)
      | .error fault => (.error (.file (.unreadable path fault)), desk) := by
  have hread : outcome (readFile path) desk =
      ((desk.store.read path).mapError fun fault => .file (.unreadable path fault), desk) := rfl
  rw [readJson, outcome_bind, hread]
  cases desk.store.read path <;> rfl

theorem outcome_readJson_of_unreadable {i : Invocation} {path : Bytes} {fault : ReadFault} {desk : Desk}
    (h : desk.store.read path = .error fault) :
    outcome (readJson i path) desk = (.error (.file (.unreadable path fault)), desk) := by
  rw [outcome_readJson, h]

theorem outcome_readJson_of_malformed {i : Invocation} {path text : Bytes} {e : Json.ReadError}
    {desk : Desk} (hread : desk.store.read path = .ok text) (h : i.json.read text = .error e) :
    outcome (readJson i path) desk = (.error (.json path e), desk) := by
  simp only [outcome_readJson, hread, h]
  rfl

theorem outcome_readJson_of_ok {i : Invocation} {path text : Bytes} {value : Json} {desk : Desk}
    (hread : desk.store.read path = .ok text) (h : i.json.read text = .ok value) :
    outcome (readJson i path) desk = (.ok value, desk) := by
  simp only [outcome_readJson, hread, h]
  rfl

theorem outcome_documentOf_of_some {i : Invocation} {value : Json} {text : Bytes}
    (h : i.json.document? value = some text) (desk : Desk) :
    outcome (documentOf i value) desk = (.ok text, desk) := by
  rw [documentOf, h]
  rfl

theorem outcome_documentOf_of_none {i : Invocation} {value : Json}
    (h : i.json.document? value = none) (desk : Desk) :
    outcome (documentOf i value) desk = (.error .unwritable, desk) := by
  rw [documentOf, h]
  rfl

theorem outcome_documentOf_eq_ok_iff {i : Invocation} {value : Json} {text : Bytes}
    {desk after : Desk} :
    outcome (documentOf i value) desk = (.ok text, after) ↔
      i.json.document? value = some text ∧ after = desk := by
  cases h : i.json.document? value with
  | none =>
      refine iff_of_false ?_ (fun h => nomatch h.1)
      rw [outcome_documentOf_of_none h]
      rintro ⟨⟩
  | some document =>
      rw [outcome_documentOf_of_some h, Prod.mk.injEq, Except.ok.injEq, Option.some.injEq,
        eq_comm (a := desk)]

theorem outcome_writeFile (i : Invocation) (path contents : Bytes) (desk : Desk) :
    outcome (writeFile i path contents) desk =
      match desk.store.write? path contents with
      | some store =>
        (.ok (), { desk with
          store, reported := desk.reported ++ Log.lines i.level [Log.info ("wrote " ++ path)] })
      | none => (.error (.file (.unwritable path)), desk) := by
  have hwrite : outcome (Host.writeFile path contents) desk =
      match desk.store.write? path contents with
      | some store => (.ok true, { desk with store })
      | none => (.ok false, desk) := by
    change (fun result : Bool × Desk => (Except.ok result.1, result.2))
      (StateT.run (match desk.store.write? path contents with
        | some store => do
          set { desk with store }
          return true
        | none => return false : StateM Desk Bool) desk).run = _
    cases desk.store.write? path contents <;> rfl
  rw [writeFile, outcome_bind, hwrite]
  cases desk.store.write? path contents <;> rfl

theorem write?_of_writeFile {i : Invocation} {path contents : Bytes} {desk after : Desk}
    (h : outcome (writeFile i path contents) desk = (.ok (), after)) :
    desk.store.write? path contents = some after.store := by
  rw [outcome_writeFile] at h
  cases hwrite : desk.store.write? path contents with
  | some store =>
      rw [hwrite] at h
      cases h
      rfl
  | none =>
      rw [hwrite] at h
      cases h

/-- Shows the record of a pc that fits into 32 bits. -/
def showRecord (i : Invocation) (mapping : Mapping) (files : FileTable) (pc : Int) :
    Run (StateM Desk) (Option Bool) :=
  match mapping.describe? files (.ofNat pc.toNat) with
  | none => do
    tell i [Log.error ("pc " ++ Decimal.ofInt pc ++ " does not start a mapped instruction")]
    return none
  | some record => do
    say ((← documentOf i record) ++ "\n")
    return some true

theorem runLookup_eq (i : Invocation) (mapping : Mapping) (files : FileTable) :
    runLookup i mapping files = (do
      match ← orFail .usage (i.arguments.integer? "-lookup") with
      | none => return some false
      | some pc =>
        if pc < 0 ∨ UInt32.size ≤ pc then throw (.usage (.pcOutOfRange pc))
        else showRecord i mapping files pc) := rfl

theorem ending_eq (i : Invocation) (desk : Desk) :
    ending i desk =
      match outcome (runOrFail i) desk with
      | (.ok code, after) => (code, after)
      | (.error failure, after) =>
        (1, { after with
          reported := after.reported ++ Log.lines i.level [Log.error (failure.message i.json.text)] }) := by
  have hrun : StateT.run (runOrFail i : Run (StateM Desk) UInt32).run desk =
      outcome (runOrFail i) desk := rfl
  rw [ending, run, StateT.run_bind, hrun]
  rcases outcome (runOrFail i) desk with ⟨_ | code, after⟩ <;> rfl

end EvmSourceMap.Proofs.DeskRuns
