import EvmSourceMap.TaskPool

namespace EvmSourceMap.Proofs.TaskBatch

open TaskPool

/-- Tasks that commute leave the same state in every order. -/
theorem runBatch_eq_first {σ : Type} {size : Nat} {tasks : Nat → σ → σ}
    (hcomm : ∀ i j s, tasks i (tasks j s) = tasks j (tasks i s)) (order : Order size)
    (state : σ) :
    runBatch order tasks state = runBatch (Order.first size) tasks state :=
  order.perm.foldl_eq' (fun i _ j _ s => hcomm j i s) state

end EvmSourceMap.Proofs.TaskBatch
