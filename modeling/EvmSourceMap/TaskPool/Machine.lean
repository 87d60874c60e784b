import EvmSourceMap.Log

/-!
A pool of workers as a machine: a queue of tasks, workers that take its first task and run it, and an
owner that adds tasks, waits for all of them and stops the pool. One action is what happens between
taking and giving back the lock of the pool, so the runs of the machine are all ways in which the
workers and the owner can interleave.
-/

namespace EvmSourceMap.TaskPool

/-- How a task ends. A failed task may give a reason. -/
inductive Outcome
  | returned
  | failed (reason : Option Bytes)
  deriving DecidableEq, Repr

/-- What a worker reports when a task has ended. A failure goes no further than the log. -/
def Outcome.log : Outcome → List Log.Entry
  | returned => []
  | failed (some reason) => [Log.error ("worker task failed: " ++ Bytes.beforeNul reason)]
  | failed none => [Log.error "worker task failed with a non-standard exception"]

/-- What a worker is doing. -/
inductive Worker (τ : Type)
  | idle
  | running (task : τ)
  | exited
  deriving DecidableEq

/-- A pool and what has happened in it. -/
structure Machine (τ : Type) where
  workers : List (Worker τ)
  queue : List τ := []
  /-- The number of tasks that are running. -/
  running : Nat := 0
  stopping : Bool := false
  /-- All tasks ever added, in order. -/
  added : List τ := []
  /-- All tasks ever taken by a worker, in order. -/
  taken : List τ := []
  /-- All tasks that have ended, in the order in which they did, and how they ended. -/
  finished : List (τ × Outcome) := []

/-- What can happen in a pool. Workers are known by their numbers. -/
inductive Action (τ : Type)
  /-- A task is added. This is always possible, even if no worker is left to run it. -/
  | add (task : τ)
  /-- An idle worker takes the first task of the queue. -/
  | take (worker : Nat)
  /-- The task of a worker ends. -/
  | finish (worker : Nat) (outcome : Outcome)
  /-- The owner returns from waiting for all tasks. -/
  | wait
  /-- The owner asks the pool to stop. -/
  | stop
  /-- An idle worker leaves. -/
  | exit (worker : Nat)

namespace Machine

variable {τ : Type}

/-- A new pool. -/
def start (size : Nat) : Machine τ where
  workers := List.replicate size .idle

/-- The pool after an action, if the action is possible. -/
def step? (m : Machine τ) : Action τ → Option (Machine τ)
  | .add task => some { m with queue := m.queue ++ [task], added := m.added ++ [task] }
  | .take worker =>
    match m.workers[worker]?, m.queue with
    | some .idle, task :: rest =>
      some { m with
        workers := m.workers.set worker (.running task)
        queue := rest
        running := m.running + 1
        taken := m.taken ++ [task] }
    | _, _ => none
  | .finish worker outcome =>
    match m.workers[worker]? with
    | some (.running task) =>
      some { m with
        workers := m.workers.set worker .idle
        running := m.running - 1
        finished := m.finished ++ [(task, outcome)] }
    | _ => none
  | .wait => if m.queue.isEmpty && m.running == 0 then some m else none
  | .stop => some { m with stopping := true }
  | .exit worker =>
    match m.workers[worker]? with
    | some .idle =>
      if m.stopping && m.queue.isEmpty then
        some { m with workers := m.workers.set worker .exited }
      else none
    | _ => none

/-- The pool after a sequence of actions, if each of them is possible in its turn. -/
def run? (m : Machine τ) (actions : List (Action τ)) : Option (Machine τ) :=
  actions.foldlM step? m

/-- Takes an action if it is possible. -/
def advance (m : Machine τ) (action : Action τ) : Machine τ :=
  (m.step? action).getD m

/-- Lets the first worker run everything in the queue. -/
def runQueue (outcome : τ → Outcome) (m : Machine τ) : Machine τ :=
  m.queue.foldl (fun m task => (m.advance (.take 0)).advance (.finish 0 (outcome task))) m

end Machine

/-- What an owner asks of a pool. -/
inductive Request (τ : Type)
  | add (task : τ)
  | wait

/-- Serves requests and stops. The result tells what had ended at each wait, and what has ended
after all; the tasks run in the order in which they were added. -/
def serve {τ : Type} (size : Nat) (outcome : τ → Outcome) (requests : List (Request τ)) :
    List (List (τ × Outcome)) × List (τ × Outcome) :=
  let (m, waits) := requests.foldl (fun (m, waits) request =>
    match request with
    | .add task => (m.advance (.add task), waits)
    | .wait =>
      let m := (m.runQueue outcome).advance .wait
      (m, waits ++ [m.finished])) ((Machine.start size : Machine τ), [])
  (waits, ((m.advance .stop).runQueue outcome).finished)

end EvmSourceMap.TaskPool
