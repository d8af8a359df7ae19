import Coco.Executor.Partition

/-!
The retry loops of `Executor::start` and of the per-query `do ... while`
loop in `RStoreExecutor::run_transaction`. Both save `last_seed` at the top of
every iteration, after `process_request()`; a fresh attempt then draws its
partition (only `Executor::start` does) and calls `next_transaction`, a retry
calls `reset()` instead; a failed commit restores `last_seed`.

So a re-execution after a failed commit starts from the RNG state saved
before the failed attempt generated its transaction, not from the state at
which that attempt's `execute()` began. The RNG, the workload and the
transaction are parameters: draws are functions of the RNG state, as the spec
requires. Which of `committed`, `commitFailed` and `executeAborted` an
iteration ends with is the environment's choice (the database, the other
workers).
-/

namespace Coco.Worker

/-- How one loop iteration ends: `execute()` returned `READY_TO_COMMIT` and
`commit` returned true or false, or `execute()` returned an abort. -/
inductive Outcome where
  | committed
  | commitFailed
  | executeAborted
  deriving DecidableEq, Repr

/-- The RNG and workload hooks the loops call, over RNG states `σ` and
transactions `Txn`. -/
structure Workload (σ Txn : Type) where
  /-- `random.uniform_dist(a, b)`: the draw and the RNG state after it. -/
  uniformDist : σ → Nat → Nat → Nat × σ
  /-- `next_transaction` for a partition, and the RNG state after its draws. -/
  nextTransaction : σ → Nat → Txn × σ
  /-- The RNG state after the draws `execute()` makes. -/
  execute : Txn → σ → σ
  reset : Txn → Txn

/-- The loop variables: `random`'s state, `last_seed`, `retry_transaction` and
the `transaction` pointer (empty before the first iteration). -/
structure LoopState (σ Txn : Type) where
  random : σ
  lastSeed : σ
  retryTransaction : Bool
  transaction : Option Txn

/-- What one iteration did: the seed it saved, whether it generated a fresh
transaction, the transaction it executed, the RNG state `execute()` began in,
and how it ended. -/
structure Attempt (σ Txn : Type) where
  lastSeed : σ
  generated : Bool
  transaction : Txn
  executeSeed : σ
  outcome : Outcome

variable {σ Txn : Type}

/-- One iteration of either loop. `generate` is what the fresh branch does:
`Executor::start` draws a partition first, `run_transaction` uses its phase's
partition. -/
def iteration (w : Workload σ Txn) (generate : σ → Txn × σ) (s : LoopState σ Txn)
    (o : Outcome) : LoopState σ Txn × Attempt σ Txn :=
  let lastSeed := s.random
  let start : Txn × σ × Bool := match s.retryTransaction, s.transaction with
    | true, some t => (w.reset t, s.random, false)
    | _, _ => ((generate s.random).1, (generate s.random).2, true)
  let after := w.execute start.1 start.2.1
  let s' : LoopState σ Txn := match o with
    | .committed => ⟨after, lastSeed, false, some start.1⟩
    | .commitFailed => ⟨lastSeed, lastSeed, true, some start.1⟩
    | .executeAborted => ⟨after, lastSeed, s.retryTransaction, some start.1⟩
  (s', ⟨lastSeed, start.2.2, start.1, start.2.1, o⟩)

/-- The fresh branch of `Executor::start`: draw the partition, then
`next_transaction`. -/
def Executor.generate (ctx : Context) (coordinatorId : Nat) (w : Workload σ Txn)
    (seed : σ) : Txn × σ :=
  let d := w.uniformDist seed 0 (drawBound ctx)
  w.nextTransaction d.2 (partitionId ctx coordinatorId d.1)

/-- `Executor::start` until `stopFlag`: one iteration per outcome. -/
def Executor.start (ctx : Context) (coordinatorId : Nat) (w : Workload σ Txn) :
    LoopState σ Txn → List Outcome → List (Attempt σ Txn)
  | _, [] => []
  | s, o :: os =>
    let r := iteration w (Executor.generate ctx coordinatorId w) s o
    r.2 :: Executor.start ctx coordinatorId w r.1 os

/-- The `do ... while (retry_transaction)` loop of one query. It returns the
final state, its attempts and the outcomes it did not use. A committed
transaction is moved to `q` in the source; the model keeps the pointer, which
no later iteration reads before the next `next_transaction`. -/
def RStore.queryLoop (w : Workload σ Txn) (generate : σ → Txn × σ) :
    List Outcome → LoopState σ Txn → LoopState σ Txn × List (Attempt σ Txn) × List Outcome
  | [], s => (s, [], [])
  | o :: os, s =>
    let r := iteration w generate s o
    if r.1.retryTransaction then
      let q := RStore.queryLoop w generate os r.1
      (q.1, r.2 :: q.2.1, q.2.2)
    else (r.1, [r.2], os)

/-- The query loop of `run_transaction` for the phase's partition. -/
def RStore.runTransaction (w : Workload σ Txn) (partitionId : Nat) :
    Nat → List Outcome → LoopState σ Txn → List (Attempt σ Txn)
  | 0, _, _ => []
  | n + 1, os, s =>
    let q := RStore.queryLoop w (fun seed => w.nextTransaction seed partitionId) os
      { s with retryTransaction := false }
    q.2.1 ++ RStore.runTransaction w partitionId n q.2.2 q.1

/-- After a failed commit the next attempt re-executes the reset transaction,
from the RNG state the failed attempt saved. -/
def RestartsFromSavedSeed (w : Workload σ Txn) (a b : Attempt σ Txn) : Prop :=
  a.outcome = .commitFailed →
    b.generated = false ∧ b.transaction = w.reset a.transaction ∧ b.executeSeed = a.lastSeed

/-- A fresh attempt's transaction and `execute()` state are what `generate`
gives from the seed the attempt saved. -/
def GeneratedFrom (generate : σ → Txn × σ) (a : Attempt σ Txn) : Prop :=
  a.generated = true → (a.transaction, a.executeSeed) = generate a.lastSeed

/-- The retry property as the spec states it, for `Executor::start`: the
first re-execution after a failed commit starts in the RNG state the first
`execute()` began in. -/
def ReplayFromExecuteStateClaim : Prop :=
  ∀ (σ Txn : Type) (w : Workload σ Txn) (ctx : Context) (coordinatorId : Nat)
    (s : LoopState σ Txn) (os : List Outcome),
    (Executor.start ctx coordinatorId w s os).Chain' fun a b =>
      a.outcome = .commitFailed → a.generated = true → b.executeSeed = a.executeSeed

@[simp] theorem iteration_lastSeed (w : Workload σ Txn) (g : σ → Txn × σ) (s : LoopState σ Txn)
    (o : Outcome) : (iteration w g s o).2.lastSeed = s.random := rfl

@[simp] theorem iteration_outcome (w : Workload σ Txn) (g : σ → Txn × σ) (s : LoopState σ Txn)
    (o : Outcome) : (iteration w g s o).2.outcome = o := rfl

/-- A failed commit restores the saved seed and sets `retry_transaction`. -/
theorem iteration_commitFailed (w : Workload σ Txn) (g : σ → Txn × σ) (s : LoopState σ Txn) :
    (iteration w g s .commitFailed).1 =
      ⟨s.random, s.random, true, some (iteration w g s .commitFailed).2.transaction⟩ := rfl

/-- The step lemma: whatever either loop's next iteration generates, after a
failed commit it re-executes the reset transaction from the saved seed. -/
theorem restartsFromSavedSeed_iteration (w : Workload σ Txn) (g g' : σ → Txn × σ)
    (s : LoopState σ Txn) (o o' : Outcome) :
    RestartsFromSavedSeed w (iteration w g s o).2 (iteration w g' (iteration w g s o).1 o').2 := by
  intro h
  simp only [iteration_outcome] at h
  subst h
  rw [iteration_commitFailed]
  exact ⟨rfl, rfl, rfl⟩

theorem generatedFrom_iteration (w : Workload σ Txn) (g : σ → Txn × σ) (s : LoopState σ Txn)
    (o : Outcome) : GeneratedFrom g (iteration w g s o).2 := by
  unfold GeneratedFrom iteration
  split <;> simp

theorem executor_start_spec (ctx : Context) (coordinatorId : Nat) (w : Workload σ Txn) :
    ∀ (os : List Outcome) (s : LoopState σ Txn),
      (Executor.start ctx coordinatorId w s os).Chain' (RestartsFromSavedSeed w) ∧
        ∀ a ∈ Executor.start ctx coordinatorId w s os,
          GeneratedFrom (Executor.generate ctx coordinatorId w) a
  | [], _ => ⟨List.chain'_nil, by simp [Executor.start]⟩
  | o :: os, s => by
    obtain ⟨hchain, hgen⟩ := executor_start_spec ctx coordinatorId w os
      (iteration w (Executor.generate ctx coordinatorId w) s o).1
    refine ⟨List.chain'_cons'.mpr ⟨?_, hchain⟩, ?_⟩
    · cases os with
      | nil => simp [Executor.start]
      | cons o' os =>
        simp only [Executor.start, List.head?_cons, Option.mem_def, Option.some.injEq,
          forall_eq']
        exact restartsFromSavedSeed_iteration w _ _ s o o'
    · simp only [Executor.start, List.mem_cons, forall_eq_or_imp]
      exact ⟨generatedFrom_iteration w _ s o, hgen⟩

theorem queryLoop_nil (w : Workload σ Txn) (g : σ → Txn × σ) (s : LoopState σ Txn) :
    RStore.queryLoop w g [] s = (s, [], []) := rfl

theorem runTransaction_nil (w : Workload σ Txn) (p : Nat) :
    ∀ (n : Nat) (s : LoopState σ Txn), RStore.runTransaction w p n [] s = []
  | 0, _ => rfl
  | n + 1, s => by simp [RStore.runTransaction, queryLoop_nil, runTransaction_nil w p n]

theorem queryLoop_head (w : Workload σ Txn) (g : σ → Txn × σ) (o : Outcome)
    (os : List Outcome) (s : LoopState σ Txn) :
    (RStore.queryLoop w g (o :: os) s).2.1.head? = some (iteration w g s o).2 := by
  simp only [RStore.queryLoop]
  split <;> rfl

/-- One query's attempts: consecutive iterations, and a query whose last
attempt failed its commit has used up the outcomes. -/
theorem queryLoop_spec (w : Workload σ Txn) (g : σ → Txn × σ) :
    ∀ (os : List Outcome) (s : LoopState σ Txn),
      (RStore.queryLoop w g os s).2.1.Chain' (RestartsFromSavedSeed w) ∧
        (∀ a ∈ (RStore.queryLoop w g os s).2.1, GeneratedFrom g a) ∧
        ∀ a ∈ (RStore.queryLoop w g os s).2.1.getLast?,
          a.outcome = .commitFailed → (RStore.queryLoop w g os s).2.2 = []
  | [], _ => by simp [queryLoop_nil]
  | o :: os, s => by
    by_cases hr : (iteration w g s o).1.retryTransaction = true
    · obtain ⟨hchain, hgen, hlast⟩ := queryLoop_spec w g os (iteration w g s o).1
      simp only [RStore.queryLoop, hr, ite_true]
      refine ⟨List.chain'_cons'.mpr ⟨?_, hchain⟩, ?_, ?_⟩
      · cases os with
        | nil => simp [queryLoop_nil]
        | cons o' os =>
          rw [queryLoop_head]
          simp only [Option.mem_def, Option.some.injEq, forall_eq']
          exact restartsFromSavedSeed_iteration w g g s o o'
      · simp only [List.mem_cons, forall_eq_or_imp]
        exact ⟨generatedFrom_iteration w g s o, hgen⟩
      · cases os with
        | nil => simp [queryLoop_nil]
        | cons o' os =>
          have hne : (RStore.queryLoop w g (o' :: os) (iteration w g s o).1).2.1 ≠ [] := by
            intro h; simpa [h] using queryLoop_head w g o' os (iteration w g s o).1
          rw [List.getLast?_cons, List.getLast?_eq_getLast _ hne]
          simpa [List.getLast?_eq_getLast _ hne] using hlast
    · simp only [RStore.queryLoop, hr, Bool.false_eq_true, ite_false]
      refine ⟨List.chain'_singleton _, by simpa using generatedFrom_iteration w g s o, ?_⟩
      simp only [List.getLast?_singleton, Option.mem_def, Option.some.injEq, forall_eq',
        iteration_outcome]
      intro ho
      subst ho
      exact absurd (by rw [iteration_commitFailed]) hr

theorem runTransaction_spec (w : Workload σ Txn) (p : Nat) :
    ∀ (n : Nat) (os : List Outcome) (s : LoopState σ Txn),
      (RStore.runTransaction w p n os s).Chain' (RestartsFromSavedSeed w) ∧
        ∀ a ∈ RStore.runTransaction w p n os s,
          GeneratedFrom (fun seed => w.nextTransaction seed p) a
  | 0, _, _ => by simp [RStore.runTransaction]
  | n + 1, os, s => by
    let g := fun seed => w.nextTransaction seed p
    let q := RStore.queryLoop w g os { s with retryTransaction := false }
    obtain ⟨hchain, hgen, hlast⟩ := queryLoop_spec w g os { s with retryTransaction := false }
    obtain ⟨hchain', hgen'⟩ := runTransaction_spec w p n q.2.2 q.1
    simp only [RStore.runTransaction]
    refine ⟨List.chain'_append.mpr ⟨hchain, hchain', fun a ha b hb hfail => ?_⟩, ?_⟩
    · have hnil : RStore.runTransaction w p n q.2.2 q.1 = [] := by
        rw [hlast a ha hfail]; exact runTransaction_nil w p n q.1
      change (RStore.runTransaction w p n q.2.2 q.1).head? = some b at hb
      simp [hnil] at hb
    · simp only [List.mem_append]
      rintro a (ha | ha)
      exacts [hgen a ha, hgen' a ha]

/-- After a failed commit, both loops re-execute the reset transaction (they
generate no new one) from the RNG state saved at the top of the failed
iteration; for a transaction's first attempt that is the state before its
partition draw and `next_transaction`. -/
theorem retry_restarts_from_saved_seed (w : Workload σ Txn) (ctx : Context)
    (coordinatorId : Nat) (s : LoopState σ Txn) (os : List Outcome) :
    ((Executor.start ctx coordinatorId w s os).Chain' (RestartsFromSavedSeed w) ∧
      ∀ a ∈ Executor.start ctx coordinatorId w s os,
        GeneratedFrom (Executor.generate ctx coordinatorId w) a) ∧
    ∀ (p n : Nat), (RStore.runTransaction w p n os s).Chain' (RestartsFromSavedSeed w) ∧
      ∀ a ∈ RStore.runTransaction w p n os s,
        GeneratedFrom (fun seed => w.nextTransaction seed p) a :=
  ⟨executor_start_spec ctx coordinatorId w os s, fun p n => runTransaction_spec w p n os s⟩

/-- A counting RNG where every draw and `next_transaction` advance the state
by one and `execute()` draws nothing. -/
def countingWorkload : Workload Nat Nat where
  uniformDist s a _ := (a, s + 1)
  nextTransaction s p := (p, s + 1)
  execute _ s := s
  reset t := t

/-- The first `execute()` begins in state 2, after the partition draw and
`next_transaction`; the re-execution after the failed commit begins in state 0,
the state the attempt saved. -/
theorem replay_starts_before_generation : ¬ ReplayFromExecuteStateClaim := by
  intro h
  have := h Nat Nat countingWorkload ⟨1, 1, 1⟩ 0 ⟨0, 0, false, none⟩
    [.commitFailed, .committed]
  simp [Executor.start, iteration, Executor.generate, countingWorkload] at this

end Coco.Worker
