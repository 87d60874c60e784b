/-!
The order in which the tasks of a batch take effect. A pool may run the tasks of a batch in any
order, so what a batch computes is stated for every order of its tasks.
-/

namespace EvmSourceMap.TaskPool

/-- An order of the tasks of a batch, which are known by their numbers. -/
structure Order (size : Nat) where
  tasks : List Nat
  perm : tasks.Perm (List.range size)

/-- The order in which the tasks were handed in. -/
def Order.first (size : Nat) : Order size :=
  ⟨List.range size, List.Perm.refl _⟩

/-- The orders in which a pool runs its batches, by the number of the batch. -/
abbrev Schedule :=
  (batch size : Nat) → Order size

/-- The schedule that keeps to the order in which tasks were handed in. -/
def Schedule.inTurn : Schedule :=
  fun _ size => Order.first size

/-- Lets the tasks of a batch change a state one after the other. -/
def runBatch {σ : Type} {size : Nat} (order : Order size) (tasks : Nat → σ → σ) (state : σ) : σ :=
  order.tasks.foldl (fun s i => tasks i s) state

end EvmSourceMap.TaskPool

namespace EvmSourceMap

/-- A pool of workers, as far as the work that is given to it can tell: how many workers there are
and in which orders they run the batches. -/
structure TaskPool where
  size : Nat
  schedule : TaskPool.Schedule

namespace TaskPool

/-- The size of a pool that is asked for a number of workers: at least one. -/
def sizeFor (workers : UInt32) : Nat :=
  max workers.toNat 1

/-- Whether batches are worth splitting. -/
def isParallel (pool : TaskPool) : Bool :=
  1 < pool.size

end TaskPool

end EvmSourceMap
