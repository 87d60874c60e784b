import EvmSourceMap.TaskPool.Machine
import Mathlib.Data.List.Perm.Basic

namespace EvmSourceMap.Proofs.PoolHistory

open TaskPool
open scoped List

variable {τ : Type}

def task? : Worker τ → Option τ
  | .running task => some task
  | _ => none

/-- The tasks that are running. -/
def underWay (workers : List (Worker τ)) : List τ :=
  workers.filterMap task?

def added? : Action τ → Option τ
  | .add task => some task
  | _ => none

def outcome? : Action τ → Option Outcome
  | .finish _ outcome => some outcome
  | _ => none

/-- All workers have left. -/
def isOver (m : Machine τ) : Bool :=
  m.workers.all fun worker => worker matches .exited

/-- The tasks that are added when all workers have left already. The pool is gone by
then, so an owner that uses it only as long as it exists adds none. -/
def addedLate (m : Machine τ) : List (Action τ) → List τ
  | [] => []
  | action :: actions =>
    (if isOver m then (added? action).toList else []) ++ addedLate (m.advance action) actions

/-- The rules of a pool, one for each kind of action. -/
inductive Step (m : Machine τ) : Action τ → Machine τ → Prop
  | add {task : τ} :
      Step m (.add task) { m with queue := m.queue ++ [task], added := m.added ++ [task] }
  | take {worker : Nat} {task : τ} {rest : List τ} (hidle : m.workers[worker]? = some .idle)
      (hqueue : m.queue = task :: rest) :
      Step m (.take worker)
        { m with
          workers := m.workers.set worker (.running task)
          queue := rest
          running := m.running + 1
          taken := m.taken ++ [task] }
  | finish {worker : Nat} {task : τ} {outcome : Outcome}
      (hrunning : m.workers[worker]? = some (.running task)) :
      Step m (.finish worker outcome)
        { m with
          workers := m.workers.set worker .idle
          running := m.running - 1
          finished := m.finished ++ [(task, outcome)] }
  | wait (hqueue : m.queue = []) (hrunning : m.running = 0) : Step m .wait m
  | stop : Step m .stop { m with stopping := true }
  | exit {worker : Nat} (hidle : m.workers[worker]? = some .idle) (hstopping : m.stopping = true)
      (hqueue : m.queue = []) :
      Step m (.exit worker) { m with workers := m.workers.set worker .exited }

theorem step?_eq_some_iff {m m' : Machine τ} {action : Action τ} :
    m.step? action = some m' ↔ Step m action m' := by
  constructor
  · intro h
    cases action with
    | add task =>
        cases h
        exact .add
    | take worker =>
        simp only [Machine.step?] at h
        split at h
        · rename_i hidle hqueue
          cases h
          exact .take hidle hqueue
        · cases h
    | finish worker outcome =>
        simp only [Machine.step?] at h
        split at h
        · rename_i hrunning
          cases h
          exact .finish hrunning
        · cases h
    | wait =>
        simp only [Machine.step?, Option.ite_none_right_eq_some, Bool.and_eq_true,
          List.isEmpty_iff, beq_iff_eq, Option.some.injEq] at h
        obtain ⟨⟨hqueue, hrunning⟩, rfl⟩ := h
        exact .wait hqueue hrunning
    | stop =>
        cases h
        exact .stop
    | exit worker =>
        simp only [Machine.step?] at h
        split at h
        · rename_i hidle
          simp only [Option.ite_none_right_eq_some, Bool.and_eq_true, List.isEmpty_iff,
            Option.some.injEq] at h
          obtain ⟨⟨hstopping, hqueue⟩, rfl⟩ := h
          exact .exit hidle hstopping hqueue
        · cases h
  · intro h
    cases h with
    | add => rfl
    | take hidle hqueue => simp only [Machine.step?, hidle, hqueue]
    | finish hrunning => simp only [Machine.step?, hrunning]
    | wait hqueue hrunning => simp [Machine.step?, hqueue, hrunning]
    | stop => rfl
    | exit hidle hstopping hqueue => simp [Machine.step?, hidle, hstopping, hqueue]

theorem filterMap_cons_eq_append {α β : Type} (f : α → Option β) (a : α) (l : List α) :
    (a :: l).filterMap f = (f a).toList ++ l.filterMap f := by
  rw [List.filterMap_cons]
  cases f a <;> rfl

/-- What a worker does next changes only its own part in what is under way. -/
theorem exists_underWay_set {workers : List (Worker τ)} {i : Nat} {worker : Worker τ}
    (h : workers[i]? = some worker) :
    ∃ others : List τ, underWay workers ~ (task? worker).toList ++ others ∧
      ∀ next, underWay (workers.set i next) ~ (task? next).toList ++ others := by
  obtain ⟨hi, rfl⟩ := List.getElem?_eq_some_iff.mp h
  refine ⟨(workers.eraseIdx i).filterMap task?, ?_, fun next => ?_⟩
  · rw [← filterMap_cons_eq_append]
    exact (List.getElem_cons_eraseIdx_perm hi).symm.filterMap task?
  · rw [← filterMap_cons_eq_append]
    exact (List.set_perm_cons_eraseIdx hi next).filterMap task?

/-- Nothing that was added has got lost or come twice. -/
structure Conserved (m : Machine τ) : Prop where
  added : m.added = m.taken ++ m.queue
  taken : m.taken ~ m.finished.map Prod.fst ++ underWay m.workers
  running : m.running = (underWay m.workers).length

theorem underWay_start (size : Nat) : underWay (Machine.start size : Machine τ).workers = [] :=
  List.filterMap_replicate_of_none rfl

theorem conserved_start (size : Nat) : Conserved (Machine.start size : Machine τ) where
  added := rfl
  taken := by
    rw [underWay_start]
    exact List.Perm.nil
  running := by
    rw [underWay_start]
    rfl

theorem Conserved.step {m m' : Machine τ} {action : Action τ} (hm : Conserved m)
    (h : Step m action m') : Conserved m' := by
  cases h with
  | @add task =>
      refine ⟨?_, hm.taken, hm.running⟩
      simp only [hm.added, List.append_assoc]
  | @take worker task rest hidle hqueue =>
      obtain ⟨others, hbefore, hset⟩ := exists_underWay_set hidle
      have hafter := hset (.running task)
      refine ⟨?_, ?_, ?_⟩
      · rw [hm.added, hqueue, List.append_cons]
      · calc
          m.taken ++ [task] ~ m.finished.map Prod.fst ++ underWay m.workers ++ [task] :=
            hm.taken.append_right [task]
          _ = m.finished.map Prod.fst ++ (underWay m.workers ++ [task]) := List.append_assoc ..
          _ ~ m.finished.map Prod.fst ++ (task :: others) :=
            ((hbefore.append_right [task]).trans List.perm_append_comm).append_left _
          _ ~ _ := hafter.symm.append_left _
      · rw [hafter.length_eq, hm.running, hbefore.length_eq]
        rfl
  | @finish worker task outcome hrunning =>
      obtain ⟨others, hbefore, hset⟩ := exists_underWay_set hrunning
      have hafter := hset .idle
      refine ⟨hm.added, ?_, ?_⟩
      · calc
          m.taken ~ m.finished.map Prod.fst ++ underWay m.workers := hm.taken
          _ ~ m.finished.map Prod.fst ++ (task :: others) := hbefore.append_left _
          _ = (m.finished ++ [(task, outcome)]).map Prod.fst ++ others := by simp
          _ ~ _ := hafter.symm.append_left _
      · rw [hm.running, hbefore.length_eq, hafter.length_eq]
        rfl
  | wait => exact hm
  | stop => exact ⟨hm.added, hm.taken, hm.running⟩
  | exit hidle =>
      obtain ⟨others, hbefore, hset⟩ := exists_underWay_set hidle
      have hsame := (hset .exited).trans hbefore.symm
      exact ⟨hm.added, hm.taken.trans (hsame.symm.append_left _),
        hm.running.trans hsame.length_eq.symm⟩

theorem exists_step_of_run? {m m' : Machine τ} {action : Action τ} {actions : List (Action τ)}
    (h : m.run? (action :: actions) = some m') :
    ∃ next, Step m action next ∧ next.run? actions = some m' := by
  rw [Machine.run?, List.foldlM_cons] at h
  obtain ⟨next, hnext, hrest⟩ := Option.bind_eq_some_iff.mp h
  exact ⟨next, step?_eq_some_iff.mp hnext, hrest⟩

theorem advance_eq {m m' : Machine τ} {action : Action τ} (h : Step m action m') :
    m.advance action = m' := by
  rw [Machine.advance, step?_eq_some_iff.mpr h, Option.getD_some]

theorem Conserved.run {m m' : Machine τ} {actions : List (Action τ)} (hm : Conserved m)
    (h : m.run? actions = some m') : Conserved m' := by
  induction actions generalizing m with
  | nil =>
      cases h
      exact hm
  | cons action actions ih =>
      obtain ⟨next, hnext, hrest⟩ := exists_step_of_run? h
      exact ih (hm.step hnext) hrest

/-- A history to which every step appends what its action tells is the list of
what the actions of a run tell. -/
theorem history_run {α : Type} {history : Machine τ → List α} {event? : Action τ → Option α}
    (hstep : ∀ {m m' action}, Step m action m' → history m' = history m ++ (event? action).toList)
    {m m' : Machine τ} {actions : List (Action τ)} (h : m.run? actions = some m') :
    history m' = history m ++ actions.filterMap event? := by
  induction actions generalizing m with
  | nil =>
      cases h
      exact (List.append_nil _).symm
  | cons action actions ih =>
      obtain ⟨next, hnext, hrest⟩ := exists_step_of_run? h
      rw [ih hrest, hstep hnext, List.append_assoc, filterMap_cons_eq_append]

theorem added_step {m m' : Machine τ} {action : Action τ} (h : Step m action m') :
    m'.added = m.added ++ (added? action).toList := by
  cases h with
  | add => rfl
  | _ => exact (List.append_nil _).symm

theorem outcomes_step {m m' : Machine τ} {action : Action τ} (h : Step m action m') :
    m'.finished.map Prod.snd = m.finished.map Prod.snd ++ (outcome? action).toList := by
  cases h with
  | finish => exact List.map_append
  | _ => exact (List.append_nil _).symm

/-! ### The end of a pool -/

theorem isOver_eq_true_iff {m : Machine τ} :
    isOver m = true ↔ ∀ worker ∈ m.workers, worker = .exited := by
  rw [isOver, List.all_eq_true]
  refine forall₂_congr fun worker _ => ?_
  cases worker <;> simp

theorem isOver_eq_false {m : Machine τ} {i : Nat} {worker : Worker τ}
    (h : m.workers[i]? = some worker) (hworker : worker ≠ .exited) : isOver m = false := by
  rw [← Bool.not_eq_true, isOver_eq_true_iff]
  exact fun hexited => hworker (hexited worker (List.mem_of_getElem? h))

theorem isOver_set_eq_false {m : Machine τ} {i : Nat} {worker next : Worker τ}
    (h : m.workers[i]? = some worker) (hnext : next ≠ .exited) :
    isOver { m with workers := m.workers.set i next } = false :=
  isOver_eq_false (List.getElem?_set_self (List.getElem?_eq_some_iff.mp h).1) hnext

theorem step_of_isOver {m m' : Machine τ} {action : Action τ} (h : Step m action m')
    (hover : isOver m = true) :
    isOver m' = true ∧ m'.queue = m.queue ++ (added? action).toList := by
  cases h with
  | add => exact ⟨hover, rfl⟩
  | take hidle | exit hidle => cases hover.symm.trans (isOver_eq_false hidle nofun)
  | finish hrunning => cases hover.symm.trans (isOver_eq_false hrunning nofun)
  | wait | stop => exact ⟨hover, (List.append_nil m.queue).symm⟩

theorem queue_eq_nil_of_step {m m' : Machine τ} {action : Action τ} (h : Step m action m')
    (hover : isOver m = false) (hover' : isOver m' = true) : m'.queue = [] := by
  cases h with
  | add | wait | stop => cases hover.symm.trans hover'
  | take hidle => cases hover'.symm.trans (isOver_set_eq_false hidle nofun)
  | finish hrunning => cases hover'.symm.trans (isOver_set_eq_false hrunning nofun)
  | exit _ _ hqueue => exact hqueue

/-- What waits when all workers have left has come too late. -/
theorem queue_run {m m' : Machine τ} {actions : List (Action τ)} (h : m.run? actions = some m')
    (hover : isOver m' = true) :
    m'.queue = (if isOver m then m.queue else []) ++ addedLate m actions := by
  induction actions generalizing m with
  | nil =>
      cases h
      rw [if_pos hover, addedLate, List.append_nil]
  | cons action actions ih =>
      obtain ⟨next, hnext, hrest⟩ := exists_step_of_run? h
      rw [ih hrest, addedLate, advance_eq hnext, ← List.append_assoc]
      congr 1
      cases hm : isOver m with
      | true =>
          obtain ⟨hover, hqueue⟩ := step_of_isOver hnext hm
          rw [hover, hqueue]
          rfl
      | false =>
          cases hover : isOver next with
          | true => exact queue_eq_nil_of_step hnext hm hover
          | false => rfl

theorem Conserved.finished_append_queue {m : Machine τ} (hm : Conserved m)
    (hidle : underWay m.workers = []) : m.finished.map Prod.fst ++ m.queue ~ m.added := by
  have htaken := hm.taken
  rw [hidle, List.append_nil] at htaken
  rw [hm.added]
  exact htaken.symm.append_right m.queue

theorem Conserved.finished_perm_added {m : Machine τ} (hm : Conserved m) (hqueue : m.queue = [])
    (hidle : underWay m.workers = []) : m.finished.map Prod.fst ~ m.added := by
  have h := hm.finished_append_queue hidle
  rwa [hqueue, List.append_nil] at h

theorem underWay_eq_nil {workers : List (Worker τ)} (h : ∀ worker ∈ workers, worker = .exited) :
    underWay workers = [] := by
  rw [underWay, List.filterMap_eq_nil_iff]
  intro worker hmem
  rw [h worker hmem]
  rfl

/-- However the workers and the owner interleave, and however the tasks end, every
task that is added is taken in its turn and ends once. When the last worker leaves,
all tasks have ended. Only a task that is added still later is never taken, so none
is lost if nothing is added to a pool that is gone. -/
theorem tasks_of_run {size : Nat} {actions : List (Action τ)} {m : Machine τ}
    (hrun : (Machine.start size).run? actions = some m) :
    m.added = actions.filterMap added? ∧
      m.finished.map Prod.snd = actions.filterMap outcome? ∧
      m.added = m.taken ++ m.queue ∧
      m.taken ~ m.finished.map Prod.fst ++ underWay m.workers ∧
      m.running = (underWay m.workers).length ∧
      (∀ m', m.step? .wait = some m' → m'.finished.map Prod.fst ~ m'.added) ∧
      (∀ worker m', m.step? (.exit worker) = some m' →
        (∀ other ∈ m'.workers, other = .exited) → m'.finished.map Prod.fst ~ m'.added) ∧
      ((∀ worker ∈ m.workers, worker = .exited) →
        m.queue = addedLate (Machine.start size) actions ∧
          m.finished.map Prod.fst ++ addedLate (Machine.start size) actions ~ m.added) := by
  have hm := (conserved_start size).run hrun
  refine ⟨history_run added_step hrun, history_run outcomes_step hrun, hm.added, hm.taken,
    hm.running, fun m' hwait => ?_, fun worker m' hexit hexited => ?_, fun hexited => ?_⟩
  · cases step?_eq_some_iff.mp hwait with
    | wait hqueue hrunning =>
        apply hm.finished_perm_added hqueue
        exact List.eq_nil_of_length_eq_zero (hm.running.symm.trans hrunning)
  · have hstep := step?_eq_some_iff.mp hexit
    apply (hm.step hstep).finished_perm_added ?_ (underWay_eq_nil hexited)
    cases hstep with
    | exit _ _ hqueue => exact hqueue
  · have hqueue := queue_run hrun (isOver_eq_true_iff.mpr hexited)
    have hstart : (if isOver (Machine.start size : Machine τ) then (Machine.start size).queue else [])
        = ([] : List τ) := ite_self _
    rw [hstart, List.nil_append] at hqueue
    refine ⟨hqueue, ?_⟩
    rw [← hqueue]
    exact hm.finished_append_queue (underWay_eq_nil hexited)

/-- Two workers, two tasks that fail, one that is added while the pool is already
stopping, and one that is added when it is too late. -/
theorem tasks_of_run_stopping :
    let actions : List (Action Nat) := [.add 1, .add 2, .take 1, .stop, .take 0, .add 3,
      .finish 0 (.failed none), .take 0, .finish 1 (.failed (some "boom")), .exit 1,
      .finish 0 .returned, .wait, .exit 0, .add 4]
    ∃ m : Machine Nat, (Machine.start 2).run? actions = some m ∧
      (∀ worker ∈ m.workers, worker = .exited) ∧ addedLate (Machine.start 2) actions = [4] ∧
      m.finished.map Prod.fst ++ [4] ~ actions.filterMap added? ∧
      m.finished = [(2, .failed none), (1, .failed (some "boom")), (3, .returned)] := by
  intro actions
  obtain ⟨m, hrun, hworkers, hfinished⟩ : ∃ m : Machine Nat,
      (Machine.start 2).run? actions = some m ∧ m.workers = [.exited, .exited] ∧
        m.finished = [(2, .failed none), (1, .failed (some "boom")), (3, .returned)] :=
    ⟨_, rfl, rfl, rfl⟩
  obtain ⟨hadded, -, -, -, -, -, -, hover⟩ := tasks_of_run hrun
  have hexited : ∀ worker ∈ m.workers, worker = .exited := by
    rw [hworkers]
    decide
  have hlate : addedLate (Machine.start 2) actions = [4] := rfl
  have hperm := (hover hexited).2
  rw [hadded, hlate] at hperm
  exact ⟨m, hrun, hexited, hlate, hperm, hfinished⟩

end EvmSourceMap.Proofs.PoolHistory
