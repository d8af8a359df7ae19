import Mathlib.Tactic

/-!
The R-Store phase barrier of one node: the workers' loop
`RStoreExecutor::start` (`RStoreExecutor.h`) and the phase controller that
stores `worker_status`. The controller is not in the source; it is modelled as
the claim describes it: it stores `C_PHASE, STOP, S_PHASE, STOP, ...` (or
`EXIT` at any point), resets `n_complete_workers` right before storing
`C_PHASE`, `S_PHASE` and the `STOP` that ends an S-phase, and does each of these
three stores only after `n_complete_workers` has reached the number of workers
since the previous reset. The `STOP` that ends a C-phase has no condition.

Every atomic access to the three shared words is one step; `run_transaction`,
`process_request` and `commit_transactions` touch none of them and are one
local step each. The ghost counters `cycle` (per worker) and `resets` (for
the controller) give each worker's increments of `n_complete_workers` a number
and each window between resets the number of the increment it collects. The
invariant `BarrierInv` says every worker is at most one increment behind the
window, and a worker past a load has the window's number minus one; the phases
are then told apart by that number modulo three.
-/

namespace Coco.RStore

/-- The values the phase word takes here. -/
inductive ExecutorStatus where
  | cPhase
  | stop
  | sPhase
  | exit
  deriving DecidableEq, Repr

/-- Where a worker is in `RStoreExecutor::start`: before each shared access
of the loop, or inside a local block. -/
inductive WorkerPc where
  /-- The `do ... while (status != C_PHASE)` load, which also returns on `EXIT`. -/
  | waitC
  | commitC
  | startC
  /-- Inside `run_transaction(C_PHASE)` (coordinator 0). -/
  | runC
  /-- The `while (status != STOP) process_request()` loop (other coordinators). -/
  | loopC
  | drainC
  | completeC
  | waitS
  | commitS
  | startS
  /-- Inside `run_transaction(S_PHASE)`. -/
  | runS
  | completeS
  | waitStop
  | drainStop
  | completeStop
  | exited
  deriving DecidableEq, Repr

/-- What a step of the worker does to the counters. -/
inductive Effect where
  | none
  | started
  | completed
  deriving DecidableEq, Repr

/-- One step of a worker on a node with the given `coordinator_id`, having
loaded `status`; `none` when the load does not let it leave a wait. -/
def workerNext (coordinatorId : Nat) (status : ExecutorStatus) :
    WorkerPc → Option (WorkerPc × Effect)
  | .waitC =>
    if status = .exit then some (.exited, .none)
    else if status = .cPhase then some (.commitC, .none) else none
  | .commitC => some (.startC, .none)
  | .startC => some (if coordinatorId = 0 then .runC else .loopC, .started)
  | .runC => some (.completeC, .none)
  | .loopC => if status = .stop then some (.drainC, .none) else none
  | .drainC => some (.completeC, .none)
  | .completeC => some (.waitS, .completed)
  | .waitS => if status = .sPhase then some (.commitS, .none) else none
  | .commitS => some (.startS, .none)
  | .startS => some (.runS, .started)
  | .runS => some (.completeS, .none)
  | .completeS => some (.waitStop, .completed)
  | .waitStop => if status = .stop then some (.drainStop, .none) else none
  | .drainStop => some (.completeStop, .none)
  | .completeStop => some (.waitC, .completed)
  | .exited => none

/-- The phase controller, before each of its actions. -/
inductive ControllerPc where
  | awaitC
  | resetC
  | storeC
  | storeStopC
  | awaitS
  | resetS
  | storeS
  | awaitStop
  | resetStop
  | storeStop
  | exited
  deriving DecidableEq, Repr

/-- What a step of the controller does to the shared words. -/
inductive ControllerEffect where
  | none
  | reset
  | store (status : ExecutorStatus)
  deriving DecidableEq, Repr

/-- One step of the controller of `n` workers, having loaded
`n_complete_workers`; the waits are guarded by it reaching `n`. -/
def controllerNext (n nComplete : Nat) : ControllerPc → Option (ControllerPc × ControllerEffect)
  | .awaitC => if nComplete = n then some (.resetC, .none) else none
  | .resetC => some (.storeC, .reset)
  | .storeC => some (.storeStopC, .store .cPhase)
  | .storeStopC => some (.awaitS, .store .stop)
  | .awaitS => if nComplete = n then some (.resetS, .none) else none
  | .resetS => some (.storeS, .reset)
  | .storeS => some (.awaitStop, .store .sPhase)
  | .awaitStop => if nComplete = n then some (.resetStop, .none) else none
  | .resetStop => some (.storeStop, .reset)
  | .storeStop => some (.awaitC, .store .stop)
  | .exited => none

structure Worker where
  pc : WorkerPc
  /-- Ghost: the C/S/STOP cycles this worker has completed. -/
  cycle : Nat
  deriving DecidableEq, Repr

structure Controller where
  pc : ControllerPc
  /-- Ghost: the resets of `n_complete_workers` so far. -/
  resets : Nat
  deriving DecidableEq, Repr

/-- The node: the three shared words, the workers and the controller. -/
structure State (n : Nat) where
  workerStatus : ExecutorStatus
  nCompleteWorkers : Nat
  nStartedWorkers : Nat
  workers : Fin n → Worker
  controller : Controller

/-- Every worker waits for `C_PHASE`; the controller is about to reset and
store the first `C_PHASE`. -/
def State.init (n : Nat) : State n :=
  ⟨.stop, 0, 0, fun _ => ⟨.waitC, 0⟩, ⟨.resetC, 0⟩⟩

namespace State

variable {n : Nat}

/-- Worker `w` moves to `pc` with the effect `e`; `cycle` counts the
increments after a `STOP`. -/
def moveWorker (s : State n) (w : Fin n) (pc : WorkerPc) (e : Effect) : State n :=
  { s with
    workers := Function.update s.workers w
      ⟨pc, if (s.workers w).pc = .completeStop then (s.workers w).cycle + 1
        else (s.workers w).cycle⟩
    nCompleteWorkers := if e = .completed then s.nCompleteWorkers + 1 else s.nCompleteWorkers
    nStartedWorkers := if e = .started then s.nStartedWorkers + 1 else s.nStartedWorkers }

def moveController (s : State n) (pc : ControllerPc) : ControllerEffect → State n
  | .none => { s with controller := { s.controller with pc } }
  | .reset => { s with nCompleteWorkers := 0, controller := ⟨pc, s.controller.resets + 1⟩ }
  | .store status => { s with workerStatus := status, controller := { s.controller with pc } }

end State

/-- The steps of the node whose coordinator id is `coordinatorId`. -/
inductive Step (coordinatorId : Nat) {n : Nat} : State n → State n → Prop
  | worker {s : State n} (w : Fin n) {pc : WorkerPc} {e : Effect} :
      workerNext coordinatorId s.workerStatus (s.workers w).pc = some (pc, e) →
      Step coordinatorId s (s.moveWorker w pc e)
  | controller {s : State n} {pc : ControllerPc} {e : ControllerEffect} :
      controllerNext n s.nCompleteWorkers s.controller.pc = some (pc, e) →
      Step coordinatorId s (s.moveController pc e)
  | exit {s : State n} :
      s.controller.pc ≠ .exited →
      Step coordinatorId s (s.moveController .exited (.store .exit))

inductive Reachable (coordinatorId n : Nat) : State n → Prop
  | init : Reachable coordinatorId n (State.init n)
  | step {s s' : State n} : Reachable coordinatorId n s → Step coordinatorId s s' →
      Reachable coordinatorId n s'

/-- Inside `run_transaction(C_PHASE)` or the C-phase `process_request` loop,
including its last `process_request()` after `STOP`. -/
def InCPhase : WorkerPc → Prop
  | .runC | .loopC | .drainC => True
  | _ => False

/-! ## The barrier invariant -/

/-- The place in a cycle of the next increment of `n_complete_workers`: after
the C-phase, after the S-phase, after the `STOP` that ends it. -/
def WorkerPc.offset : WorkerPc → Nat
  | .waitC | .commitC | .startC | .runC | .loopC | .drainC | .completeC | .exited => 0
  | .waitS | .commitS | .startS | .runS | .completeS => 1
  | .waitStop | .drainStop | .completeStop => 2

/-- The increments of `n_complete_workers` this worker has made. -/
def Worker.done (w : Worker) : Nat := 3 * w.cycle + w.pc.offset

/-- Past a load of `worker_status` and before the increment that follows it. -/
def WorkerPc.Active : WorkerPc → Prop
  | .commitC | .startC | .runC | .loopC | .drainC | .completeC
  | .commitS | .startS | .runS | .completeS | .drainStop | .completeStop => True
  | _ => False

/-- The value of `worker_status` while the controller is at `pc`. -/
def ControllerPc.status : ControllerPc → ExecutorStatus
  | .awaitC | .resetC | .storeC | .awaitS | .resetS | .storeS => .stop
  | .storeStopC => .cPhase
  | .awaitStop | .resetStop | .storeStop => .sPhase
  | .exited => .exit

/-- The number of resets modulo three at `pc`. -/
def ControllerPc.residue : ControllerPc → Nat
  | .awaitC | .resetC | .storeStop | .exited => 0
  | .storeC | .storeStopC | .awaitS | .resetS => 1
  | .storeS | .awaitStop | .resetStop => 2

/-- The controller has done the store of the current window (or is waiting
for the first reset, with `worker_status` still at its initial `STOP`). -/
def ControllerPc.AfterStore : ControllerPc → Prop
  | .storeC | .storeS | .storeStop => False
  | _ => True

/-- Between a successful wait for `n_complete_workers` and the reset. -/
def ControllerPc.Settled : ControllerPc → Prop
  | .resetC | .resetS | .resetStop => True
  | _ => False

variable {n : Nat}

/-- The workers whose last increment is the `k`-th. -/
def counted (workers : Fin n → Worker) (k : Nat) : Finset (Fin n) :=
  Finset.univ.filter fun w => (workers w).done = k

/-- The barrier invariant. `resets` numbers the window between two resets of
`n_complete_workers`; the window `k` collects every worker's `k`-th increment. -/
structure BarrierInv (s : State n) : Prop where
  status : s.workerStatus = s.controller.pc.status
  residue : s.controller.pc ≠ .exited → s.controller.resets % 3 = s.controller.pc.residue
  initial : s.controller.resets = 0 → s.controller.pc = .resetC ∨ s.controller.pc = .exited
  behind : ∀ w, (s.workers w).done ≤ s.controller.resets ∧
    s.controller.resets ≤ (s.workers w).done + 1
  count : 0 < s.controller.resets →
    s.nCompleteWorkers = (counted s.workers s.controller.resets).card
  count_zero : s.controller.resets = 0 → s.nCompleteWorkers = 0
  active : ∀ w, (s.workers w).pc.Active →
    s.controller.resets = (s.workers w).done + 1 ∧ s.controller.pc.AfterStore
  ahead : ∀ w, (s.workers w).done = s.controller.resets → s.controller.pc.AfterStore
  settled : s.controller.pc.Settled → ∀ w, (s.workers w).done = s.controller.resets

theorem barrierInv_init (n : Nat) : BarrierInv (State.init n) where
  status := rfl
  residue _ := rfl
  initial _ := .inl rfl
  behind _ := ⟨le_rfl, Nat.le_succ 0⟩
  count h := absurd h (lt_irrefl 0)
  count_zero _ := rfl
  active _ h := h.elim
  ahead _ _ := trivial
  settled _ _ := rfl

/-- A step that leaves the phase word and the controller alone keeps the
invariant when the worker conditions hold of the new workers. -/
theorem BarrierInv.of_workers {s s' : State n} (hinv : BarrierInv s)
    (hstatus : s'.workerStatus = s.workerStatus) (hctrl : s'.controller = s.controller)
    (hbehind : ∀ w, (s'.workers w).done ≤ s.controller.resets ∧
      s.controller.resets ≤ (s'.workers w).done + 1)
    (hcount : 0 < s.controller.resets →
      s'.nCompleteWorkers = (counted s'.workers s.controller.resets).card)
    (hzero : s.controller.resets = 0 → s'.nCompleteWorkers = 0)
    (hactive : ∀ w, (s'.workers w).pc.Active →
      s.controller.resets = (s'.workers w).done + 1 ∧ s.controller.pc.AfterStore)
    (hahead : ∀ w, (s'.workers w).done = s.controller.resets → s.controller.pc.AfterStore)
    (hsettled : s.controller.pc.Settled → ∀ w, (s'.workers w).done = s.controller.resets) :
    BarrierInv s' := by
  obtain ⟨st, nc, ns, ws, ctrl⟩ := s'
  simp only at hstatus hctrl
  subst hstatus hctrl
  exact ⟨hinv.status, hinv.residue, hinv.initial, hbehind, hcount, hzero, hactive,
    hahead, hsettled⟩

/-! ### Worker steps -/

/-- A worker step adds one to `done` exactly when it increments
`n_complete_workers`, from an active position and into a wait. -/
theorem workerNext_done {c : Nat} {st : ExecutorStatus} {w : Worker} {pc : WorkerPc}
    {e : Effect} (h : workerNext c st w.pc = some (pc, e)) :
    (⟨pc, if w.pc = .completeStop then w.cycle + 1 else w.cycle⟩ : Worker).done =
      w.done + (if e = .completed then 1 else 0) ∧
      (e = .completed → w.pc.Active ∧ ¬ pc.Active) := by
  obtain ⟨wpc, cycle⟩ := w
  cases wpc <;> simp only [workerNext] at h <;>
    (try split at h) <;> (try split at h) <;> cases h <;>
    simp [Worker.done, WorkerPc.offset, WorkerPc.Active]; omega

/-- A worker becomes active only from an active position or by a load that
returns what its wait is waiting for. -/
theorem workerNext_active {c : Nat} {st : ExecutorStatus} {pc₀ pc : WorkerPc} {e : Effect}
    (h : workerNext c st pc₀ = some (pc, e)) (hpc : pc.Active) :
    pc₀.Active ∨ (pc₀ = .waitC ∧ st = .cPhase) ∨ (pc₀ = .waitS ∧ st = .sPhase) ∨
      (pc₀ = .waitStop ∧ st = .stop) := by
  cases pc₀ <;> simp only [workerNext] at h <;>
    (try split at h) <;> (try split at h) <;> cases h <;>
    simp_all [WorkerPc.Active]

theorem Worker.done_mod (w : Worker) : w.done % 3 = w.pc.offset := by
  have : w.pc.offset < 3 := by cases w.pc <;> simp [WorkerPc.offset]
  simp only [Worker.done]; omega

/-- The load that ends a wait happens in the window that collects the
worker's next increment, after that window's store: the phase word fixes the
controller's position, and so the window modulo three. -/
theorem BarrierInv.observe {s : State n} (hinv : BarrierInv s) {w : Fin n}
    (hload : ((s.workers w).pc = .waitC ∧ s.workerStatus = .cPhase) ∨
      ((s.workers w).pc = .waitS ∧ s.workerStatus = .sPhase) ∨
      ((s.workers w).pc = .waitStop ∧ s.workerStatus = .stop)) :
    s.controller.resets = (s.workers w).done + 1 ∧ s.controller.pc.AfterStore := by
  have hb := hinv.behind w
  have hahead := hinv.ahead w
  have hres := hinv.residue
  have hmod := (s.workers w).done_mod
  rw [hinv.status] at hload
  rcases hload with ⟨hpc, hst⟩ | ⟨hpc, hst⟩ | ⟨hpc, hst⟩ <;>
    rw [hpc, WorkerPc.offset] at hmod <;>
    cases hc : s.controller.pc <;> rw [hc] at hst hahead hres <;>
    simp only [ControllerPc.status, reduceCtorEq] at hst <;>
    simp only [ne_eq, reduceCtorEq, not_false_eq_true, ControllerPc.residue,
      forall_const] at hres <;>
    simp only [ControllerPc.AfterStore, and_true, imp_false] at hahead ⊢ <;>
    omega

theorem State.moveWorker_workers (s : State n) (w : Fin n) (pc : WorkerPc) (e : Effect)
    (u : Fin n) : (s.moveWorker w pc e).workers u =
      if u = w then ⟨pc, if (s.workers w).pc = .completeStop then (s.workers w).cycle + 1
        else (s.workers w).cycle⟩ else s.workers u := by
  simp [State.moveWorker, Function.update_apply]

theorem barrierInv_worker {c : Nat} {s : State n} (hinv : BarrierInv s) {w : Fin n}
    {pc : WorkerPc} {e : Effect} (h : workerNext c s.workerStatus (s.workers w).pc = some (pc, e)) :
    BarrierInv (s.moveWorker w pc e) := by
  obtain ⟨hdone, hcompleted⟩ := workerNext_done h
  have hother : ∀ u, u ≠ w → (s.moveWorker w pc e).workers u = s.workers u := fun u hu => by
    simp [State.moveWorker_workers, hu]
  have hself : ((s.moveWorker w pc e).workers w).done =
      (s.workers w).done + (if e = .completed then 1 else 0) := by
    simpa [State.moveWorker_workers] using hdone
  have hpcw : ((s.moveWorker w pc e).workers w).pc = pc := by simp [State.moveWorker_workers]
  -- the new position of `w` is active only where the invariant allows it
  have hnew : pc.Active →
      s.controller.resets = (s.workers w).done + 1 ∧ s.controller.pc.AfterStore := by
    intro hpc
    rcases workerNext_active h hpc with hact | hload
    · exact hinv.active w hact
    · exact hinv.observe (by rcases hload with ⟨h1, h2⟩ | ⟨h1, h2⟩ | ⟨h1, h2⟩ <;> simp_all)
  by_cases he : e = .completed
  · -- an increment: `w` joins the workers the window has counted
    have hact := hinv.active w (hcompleted he).1
    have hw' : ((s.moveWorker w pc e).workers w).done = s.controller.resets := by
      rw [hself, if_pos he]; omega
    have hcounted : counted (s.moveWorker w pc e).workers s.controller.resets =
        insert w (counted s.workers s.controller.resets) := by
      ext u
      by_cases hu : u = w
      · subst hu; simp [counted, hw']
      · simp [counted, hother u hu, hu]
    have hnotin : w ∉ counted s.workers s.controller.resets := by simp [counted]; omega
    have hcount : (s.moveWorker w pc e).nCompleteWorkers = s.nCompleteWorkers + 1 := by
      simp [State.moveWorker, he]
    refine hinv.of_workers rfl rfl (fun u => ?_) (fun hpos => ?_) (fun h0 => ?_)
      (fun u hu => ?_) (fun u hu => ?_) (fun hs u => ?_)
    · by_cases hu : u = w
      · subst hu; omega
      · rw [hother u hu]; exact hinv.behind u
    · rw [hcount, hcounted, Finset.card_insert_of_not_mem hnotin, ← hinv.count hpos]
    · have := hact.1; omega
    · by_cases huw : u = w
      · subst huw; rw [hpcw] at hu; exact absurd hu (hcompleted he).2
      · rw [hother u huw] at hu ⊢; exact hinv.active u hu
    · by_cases huw : u = w
      · exact hact.2
      · rw [hother u huw] at hu; exact hinv.ahead u hu
    · have := hinv.settled hs w; omega
  · -- no increment: `done` and the counter stay, `w` may become active
    have hdone_eq : ∀ u, ((s.moveWorker w pc e).workers u).done = (s.workers u).done := by
      intro u
      by_cases hu : u = w
      · subst hu; rw [hself, if_neg he]; rfl
      · rw [hother u hu]
    have hcounted : counted (s.moveWorker w pc e).workers s.controller.resets =
        counted s.workers s.controller.resets := by
      ext u; simp [counted, hdone_eq]
    have hcount : (s.moveWorker w pc e).nCompleteWorkers = s.nCompleteWorkers := by
      simp [State.moveWorker, he]
    refine hinv.of_workers rfl rfl (fun u => ?_) (fun h0 => ?_) (fun h0 => ?_)
      (fun u hu => ?_) (fun u hu => ?_) (fun hs u => ?_)
    · rw [hdone_eq]; exact hinv.behind u
    · rw [hcounted, hcount]; exact hinv.count h0
    · rw [hcount]; exact hinv.count_zero h0
    · by_cases huw : u = w
      · subst huw; rw [hpcw] at hu; rw [hdone_eq]; exact hnew hu
      · rw [hother u huw] at hu ⊢; exact hinv.active u hu
    · rw [hdone_eq] at hu; exact hinv.ahead u hu
    · rw [hdone_eq]; exact hinv.settled hs u

/-! ### Controller steps -/

/-- What a controller step can do: leave a wait once `n_complete_workers` has
reached `n`, reset the counter from a settled position, or store the status
of its next position. -/
theorem controllerNext_cases {k : Nat} {pc₀ pc : ControllerPc} {e : ControllerEffect}
    (h : controllerNext n k pc₀ = some (pc, e)) :
    pc₀ ≠ .exited ∧ pc ≠ .exited ∧
    ((e = .none ∧ k = n ∧ pc₀ ≠ .resetC ∧ pc.Settled ∧ pc.AfterStore ∧
        pc.status = pc₀.status ∧ pc.residue = pc₀.residue) ∨
      (e = .reset ∧ pc₀.Settled ∧ ¬ pc.Settled ∧ pc.status = pc₀.status ∧
        pc.residue = (pc₀.residue + 1) % 3) ∨
      (e = .store pc.status ∧ pc₀ ≠ .resetC ∧ ¬ pc.Settled ∧ pc.AfterStore ∧
        pc.residue = pc₀.residue)) := by
  cases pc₀ <;> simp only [controllerNext] at h <;> (try split at h) <;> cases h <;>
    simp_all [ControllerPc.Settled, ControllerPc.AfterStore, ControllerPc.status,
      ControllerPc.residue]

/-- Once `n_complete_workers` reaches `n` in a window, every worker has made
the window's increment. -/
theorem BarrierInv.all_done {s : State n} (hinv : BarrierInv s) (hpos : 0 < s.controller.resets)
    (hn : s.nCompleteWorkers = n) (w : Fin n) : (s.workers w).done = s.controller.resets := by
  have hcard : (counted s.workers s.controller.resets).card = (Finset.univ : Finset (Fin n)).card := by
    rw [← hinv.count hpos, hn, Finset.card_univ, Fintype.card_fin]
  exact Finset.filter_card_eq hcard w (Finset.mem_univ w)

/-- A controller move that keeps the workers, the counter and the window. -/
theorem BarrierInv.move {s s' : State n} (hinv : BarrierInv s)
    (hstatus : s'.workerStatus = s'.controller.pc.status)
    (hcount : s'.nCompleteWorkers = s.nCompleteWorkers) (hworkers : s'.workers = s.workers)
    (hresets : s'.controller.resets = s.controller.resets)
    (hresidue : s'.controller.pc ≠ .exited → s.controller.resets % 3 = s'.controller.pc.residue)
    (hinitial : s.controller.resets = 0 → s'.controller.pc = .resetC ∨ s'.controller.pc = .exited)
    (hafter : s'.controller.pc.AfterStore)
    (hsettled : s'.controller.pc.Settled → ∀ w, (s.workers w).done = s.controller.resets) :
    BarrierInv s' := by
  obtain ⟨st, nc, ns, ws, ⟨pc, r⟩⟩ := s'
  simp only at hcount hworkers hresets
  subst hcount hworkers hresets
  exact ⟨hstatus, hresidue, hinitial, hinv.behind, hinv.count, hinv.count_zero,
    fun w hw => ⟨(hinv.active w hw).1, hafter⟩, fun _ _ => hafter, hsettled⟩

theorem barrierInv_controller {s : State n} (hinv : BarrierInv s) {pc : ControllerPc}
    {e : ControllerEffect}
    (h : controllerNext n s.nCompleteWorkers s.controller.pc = some (pc, e)) :
    BarrierInv (s.moveController pc e) := by
  obtain ⟨hne₀, hne, hcases⟩ := controllerNext_cases h
  have hres := hinv.residue hne₀
  rcases hcases with ⟨rfl, hn, hreset, hset, hafter, hst, hr⟩ |
    ⟨rfl, hset₀, hnset, hst, hr⟩ | ⟨rfl, hreset, hnset, hafter, hr⟩
  · -- a wait ends: every worker has made the window's increment
    have hpos : 0 < s.controller.resets := Nat.pos_of_ne_zero fun h0 =>
      (hinv.initial h0).elim hreset hne₀
    exact hinv.move (hinv.status.trans hst.symm) rfl rfl rfl (fun _ => hres.trans hr.symm)
      (fun h0 => absurd h0 hpos.ne') hafter fun _ => hinv.all_done hpos hn
  · -- the reset opens the next window, which no worker has reached yet
    have hall := hinv.settled hset₀
    refine ⟨hinv.status.trans hst.symm, fun _ => ?_, fun h0 => absurd h0 (Nat.succ_ne_zero _),
      fun w => ?_, fun _ => ?_, fun h0 => absurd h0 (Nat.succ_ne_zero _), fun w hw => ?_,
      fun w hw => ?_, fun hs => absurd hs hnset⟩
    · simp only [State.moveController]; omega
    · simp only [State.moveController, hall w]; omega
    · simp only [State.moveController]
      symm
      simp [counted, hall]
    · have := (hinv.active w hw).1; have := hall w; omega
    · have := hall w; simp only [State.moveController] at hw; omega
  · -- a store publishes the status of the next position
    exact hinv.move rfl rfl rfl rfl (fun _ => hres.trans hr.symm)
      (fun h0 => (hinv.initial h0).elim (absurd · hreset) (absurd · hne₀)) hafter
      (absurd · hnset)

theorem barrierInv_exit {s : State n} (hinv : BarrierInv s) :
    BarrierInv (s.moveController .exited (.store .exit)) :=
  hinv.move rfl rfl rfl rfl (absurd rfl) (fun _ => .inr rfl) trivial False.elim

theorem reachable_barrierInv {c : Nat} {s : State n} (h : Reachable c n s) : BarrierInv s := by
  induction h with
  | init => exact barrierInv_init n
  | step _ hstep ih =>
    cases hstep with
    | worker w h => exact barrierInv_worker ih h
    | controller h => exact barrierInv_controller ih h
    | exit _ => exact barrierInv_exit ih

/-! ## Phase exclusion -/

/-! ## The barrier -/

/-- The barrier the controller waits on is sound: in every reachable state where
`n_complete_workers` has reached the number of workers, every worker is parked at
one of its waits for `worker_status` (or has exited), none inside a phase. -/
theorem barrier_complete_all_waiting {c : Nat} {s : State n} (h : Reachable c n s)
    (hn : s.nCompleteWorkers = n) (w : Fin n) :
    (s.workers w).pc = .waitC ∨ (s.workers w).pc = .waitS ∨ (s.workers w).pc = .waitStop ∨
      (s.workers w).pc = .exited := by
  have hinv := reachable_barrierInv h
  rcases Nat.eq_zero_or_pos s.controller.resets with h0 | hpos
  · have hw := w.isLt
    have := hn.symm.trans (hinv.count_zero h0)
    omega
  · have hdone := hinv.all_done hpos hn w
    have hidle : ¬ (s.workers w).pc.Active := fun ha => by have := (hinv.active w ha).1; omega
    revert hidle
    cases (s.workers w).pc <;> simp [WorkerPc.Active]

/-- One worker on coordinator 0 runs a C-phase: after the controller's reset and
`C_PHASE`, it runs and completes, and `n_complete_workers` reaches 1 with the
worker waiting for `S_PHASE`. -/
theorem barrier_complete_all_waiting_one_worker :
    ∃ s, Reachable 0 1 s ∧ s.nCompleteWorkers = 1 ∧ (s.workers 0).pc = .waitS := by
  have h₁ := (Reachable.init : Reachable 0 1 _).step (@Step.controller 0 1 _ .storeC .reset rfl)
  have h₂ := h₁.step (@Step.controller 0 1 _ .storeStopC (.store .cPhase) rfl)
  have h₃ := h₂.step (@Step.worker 0 1 _ 0 .commitC .none rfl)
  have h₄ := h₃.step (@Step.worker 0 1 _ 0 .startC .none rfl)
  have h₅ := h₄.step (@Step.worker 0 1 _ 0 .runC .started rfl)
  have h₆ := h₅.step (@Step.worker 0 1 _ 0 .completeC .none rfl)
  have h₇ := h₆.step (@Step.worker 0 1 _ 0 .waitS .completed rfl)
  refine ⟨_, h₇, rfl, ?_⟩
  rcases barrier_complete_all_waiting h₇ rfl 0 with h | h | h | h <;> first | exact h | cases h

end Coco.RStore
