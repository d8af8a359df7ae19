import Coco.Scar.Abort

/-!
The assertions around `Scar::commit` hold in every reachable state of any
interleaving of commits, aborts and the handlers of their pieces.

`Executor::start` and `RStoreExecutor::run_transaction` count a failed commit as
a lock abort when `abort_lock` is set and otherwise `DCHECK` that
`abort_read_validation` is: `commit` returns false only with one of the two
flags set, and returns true with neither (`commit_result_flags`).
`validate_read_set` `DCHECK`s that the TID word a read key carries is unlocked
before it validates the key on the local master (`validated_read_unlocked`).

`ChecksOk` is the invariant of one transaction behind both: the flags on the
abort and commit paths, and the words execution stored in the read keys.
When `commit` returns, `sync_messages(txn, false)` has left no response pending,
and the pieces of the transaction still in flight are the `RELEASE_LOCK` pieces
of its write keys after `return true`, or their `ABORT` pieces after
`return false` (`commit_returns_with_unlocks_in_flight`); this one reads the
`TxnOk` part of the lock invariant.
-/

namespace Coco.Scar

namespace Pc

/-- In the loop of `abort`, or returned false from `commit`. -/
def Aborting : Pc → Prop
  | .abort _ | .returned false => True
  | _ => False

/-- Execution has filled read key `i`. -/
def ReadPast (i : Nat) : Pc → Prop
  | .execute j => i < j
  | _ => True

theorem Deciding.not_aborting {pc : Pc} (h : pc.Deciding) : ¬ pc.Aborting := by
  cases pc <;> simp_all [Deciding, Aborting]

end Pc

variable {P : Placement}

/-- What the assertions around `commit` read of a transaction: on the abort path
`abort_lock` or `abort_read_validation` is set, past validation
`abort_read_validation` is clear, and every read key execution has filled
carries an unlocked word. -/
structure ChecksOk (x : TxnState) : Prop where
  aborting : x.pc.Aborting → x.txn.abortLock = true ∨ x.txn.abortReadValidation = true
  validated : x.pc.Writing → x.txn.abortReadValidation = false
  readUnlocked : ∀ i e, x.txn.readSet[i]? = some e → x.pc.ReadPast i → e.tid.locked = false

namespace ChecksOk

variable {x x' : TxnState}

/-- The read keys keep their words and execution does not go back. -/
theorem reads (h : ChecksOk x)
    (hts : ∀ i : Nat, (x'.txn.readSet[i]?).map ScarRWKey.tid = (x.txn.readSet[i]?).map ScarRWKey.tid)
    (hpast : ∀ (i : Nat) e, x.txn.readSet[i]? = some e → x'.pc.ReadPast i → x.pc.ReadPast i) (i : Nat)
    (e : ScarRWKey) (he : x'.txn.readSet[i]? = some e) (hp : x'.pc.ReadPast i) :
    e.tid.locked = false := by
  obtain ⟨f, hf, hft⟩ := Option.map_eq_some'.mp ((hts i).symm.trans (by rw [he]; rfl))
  rw [← hft]; exact h.readUnlocked i f hf (hpast i f hf hp)

/-- A move into execution, locking or validation, where the flags are not read. -/
theorem deciding (h : ChecksOk x) (hpc : x'.pc.Deciding)
    (hts : ∀ i : Nat, (x'.txn.readSet[i]?).map ScarRWKey.tid = (x.txn.readSet[i]?).map ScarRWKey.tid)
    (hpast : ∀ (i : Nat) e, x.txn.readSet[i]? = some e → x'.pc.ReadPast i → x.pc.ReadPast i) :
    ChecksOk x' :=
  ⟨fun ha => absurd ha hpc.not_aborting, fun hw => absurd hw hpc.not_writing, h.reads hts hpast⟩

/-- A step that keeps both flags and the read set and enters neither the abort
path nor the commit path. -/
theorem move (h : ChecksOk x) (hlock : x'.txn.abortLock = x.txn.abortLock)
    (hval : x'.txn.abortReadValidation = x.txn.abortReadValidation)
    (hrs : x'.txn.readSet = x.txn.readSet) (haborting : x'.pc.Aborting → x.pc.Aborting)
    (hwriting : x'.pc.Writing → x.pc.Writing) (hpast : ∀ i, x'.pc.ReadPast i → x.pc.ReadPast i) :
    ChecksOk x' := by
  refine ⟨fun ha => ?_, fun hw => hval.trans (h.validated (hwriting hw)), fun i e he hp => ?_⟩
  · rw [hlock, hval]; exact h.aborting (haborting ha)
  · rw [hrs] at he; exact h.readUnlocked i e he (hpast i hp)

end ChecksOk

theorem checksOk_init (db : Loc → Row) (txns : Nat → ScarTransaction) (t : Nat) :
    ChecksOk ((System.init db txns).txns t) :=
  ⟨nofun, nofun, fun _ _ _ hp => absurd hp (Nat.not_lt_zero _)⟩

open ScarTransaction in
/-- Every step keeps `ChecksOk` for every transaction: the flags change only while
locking and validating, and the read keys' words only when execution reads an
unlocked row. -/
theorem checksOk_step {s s' : System} {u : Nat} (hl : LockInv P s) (h : Step P s u s') (t : Nat)
    (hc : ChecksOk (s.txns t)) : ChecksOk (s'.txns t) := by
  by_cases htu : t = u
  swap
  · rw [(h.frame htu).1]; exact hc
  subst htu
  have ht := hl.txn t
  cases h with
  | @read _ _ i e hx hpc he hunlocked =>
    subst hx; rw [System.setTxn_txns, if_pos rfl]
    refine ⟨nofun, nofun, fun j f hf hj => ?_⟩
    by_cases hji : j = i
    · subst hji
      rw [readFilled, List.getElem?_set_self (List.getElem?_eq_some_iff.mp he).1] at hf
      cases hf; exact hunlocked
    · rw [readFilled, List.getElem?_set_ne (Ne.symm hji)] at hf
      have : j < i + 1 := hj
      exact hc.readUnlocked j f hf (by rw [hpc]; show j < i; omega)
  | executeDone hx hpc hi =>
    subst hx; rw [System.setTxn_txns, if_pos rfl]
    exact hc.deciding trivial (fun _ => rfl) fun j f hf _ => by
      rw [hpc]; exact (List.getElem?_eq_some_iff.mp hf).1.trans_le hi
  | lockLocal hx hpc =>
    subst hx; rw [System.setTxn_txns, if_pos rfl]
    exact hc.deciding (by dsimp only; split <;> trivial) (fun _ => rfl) fun _ _ _ _ => by
      rw [hpc]; trivial
  | lockLocalFail hx hpc | lockRemote hx hpc | lockDone hx hpc | syncLockCommit hx hpc
  | validateSkip hx hpc | validateLocalFail hx hpc | validateRemote hx hpc | validateDone hx hpc =>
    subst hx; rw [System.setTxn_txns, if_pos rfl]
    exact hc.deciding trivial (fun _ => rfl) fun _ _ _ _ => by rw [hpc]; trivial
  | validateLocal hx hpc he _ _ _ hvalid =>
    subst hx; rw [System.setTxn_txns, if_pos rfl]
    have hw := ScarHelper.validateReadKey_eq_some hvalid
    exact hc.deciding trivial (validationPassed_readSet_tid _ he (hw.2.1.trans hw.1))
      fun _ _ _ _ => by rw [hpc]; trivial
  | syncLockAbort hx hpc _ habort =>
    subst hx; rw [System.setTxn_txns, if_pos rfl]
    exact ⟨fun _ => .inl habort, nofun, fun j f hf _ => hc.readUnlocked j f hf (by rw [hpc]; trivial)⟩
  | syncValidationAbort hx hpc _ habort =>
    subst hx; rw [System.setTxn_txns, if_pos rfl]
    exact ⟨fun _ => .inr habort, nofun, fun j f hf _ => hc.readUnlocked j f hf (by rw [hpc]; trivial)⟩
  | syncValidationCommit hx hpc _ habort =>
    subst hx; rw [System.setTxn_txns, if_pos rfl]
    exact ⟨nofun, fun _ => habort, fun j f hf _ => hc.readUnlocked j f hf (by rw [hpc]; trivial)⟩
  | writeLocal hx hpc | writeRemote hx hpc | writeDone hx hpc | replicateSkip hx hpc
  | replicateLock hx hpc | replicaUnlock hx hpc | replicateRemote hx hpc | replicateDone hx hpc
  | syncWriteDone hx hpc | releaseLocal hx hpc | releaseRemote hx hpc | releaseDone hx hpc =>
    subst hx; rw [System.setTxn_txns, if_pos rfl]
    exact hc.move rfl rfl rfl nofun (fun _ => hpc ▸ trivial) fun _ _ => hpc ▸ trivial
  | abortSkip hx hpc | abortLocal hx hpc | abortRemote hx hpc | abortDone hx hpc =>
    subst hx; rw [System.setTxn_txns, if_pos rfl]
    exact hc.move rfl rfl rfl (fun _ => hpc ▸ trivial) nofun fun _ _ => hpc ▸ trivial
  | serveLock hr hx | serveValidationFail hr hx =>
    subst hx; rw [System.setTxn_txns, if_pos rfl]
    obtain ⟨hpos, -⟩ := ht.requests _ hr rfl
    exact hc.deciding (by rcases hpos with hp | ⟨j, hp, -⟩ <;> rw [hp] <;> trivial) (fun _ => rfl)
      fun _ _ _ => id
  | serveLockFail hr hx =>
    subst hx; rw [System.setTxn_txns, if_pos rfl]
    exact ⟨fun _ => .inl rfl, hc.validated, hc.readUnlocked⟩
  | serveValidation hr hx he hvalid =>
    subst hx; rw [System.setTxn_txns, if_pos rfl]
    obtain ⟨-, e', he', -, rfl, -⟩ := ht.requests _ hr rfl
    rw [he'] at he; cases he
    have hw := ScarHelper.validateReadKey_eq_some hvalid
    exact ⟨hc.aborting, hc.validated,
      hc.reads (validationPassed_readSet_tid _ he' (hw.2.1.trans hw.1)) fun _ _ _ => id⟩
  | serveWrite hr hx | serveReplication hr hx =>
    subst hx; rw [System.setTxn_txns, if_pos rfl]
    exact hc.move rfl rfl rfl id id fun _ => id
  | serveRelease hr | serveAbort hr => exact hc

theorem reachable_checksOk {s : System} (hs : Reachable P s) (t : Nat) : ChecksOk (s.txns t) := by
  induction hs generalizing t with
  | init => exact checksOk_init _ _ t
  | step hs h ih => exact checksOk_step (reachable_lockInv hs) h t (ih t)

/-! ### What the callers of `commit` see -/

/-- A failed commit is a lock abort or a validation abort, so the executors'
`DCHECK(abort_read_validation)` holds whenever `abort_lock` is clear; a
successful commit has neither flag set. -/
theorem commit_result_flags {s : System} (hs : Reachable P s) (t : Nat) :
    ((s.txns t).pc = .returned false →
      (s.txns t).txn.abortLock = true ∨ (s.txns t).txn.abortReadValidation = true) ∧
    ((s.txns t).pc = .returned true →
      (s.txns t).txn.abortLock = false ∧ (s.txns t).txn.abortReadValidation = false) := by
  have hc := reachable_checksOk hs t
  refine ⟨fun hpc => hc.aborting (hpc ▸ trivial), fun hpc => ⟨?_, hc.validated (hpc ▸ trivial)⟩⟩
  exact (((reachable_lockInv hs).txn t).committing (hpc ▸ trivial)).1

theorem commit_result_flags_both_paths :
    (∃ s, Reachable Placement.pair s ∧ (s.txns 0).pc = .returned false ∧
      ((s.txns 0).txn.abortLock = true ∨ (s.txns 0).txn.abortReadValidation = true)) ∧
    ∃ s, Reachable Placement.solo s ∧ (s.txns 0).pc = .returned true ∧
      (s.txns 0).txn.abortLock = false ∧ (s.txns 0).txn.abortReadValidation = false := by
  obtain ⟨s, hs, hpc, -⟩ := abortStart_run
  obtain ⟨s', hs', hpc', -⟩ := writersStart_reachable.readModifyWrite_commit (t := 0) rfl
    (writersStart_row 0)
  exact ⟨⟨s, hs, hpc, (commit_result_flags hs 0).1 hpc⟩, s', hs', hpc', (commit_result_flags hs' 0).2 hpc'⟩

/-- When `commit` returns, no response is pending, and every piece of the
transaction still in flight is the unlock of a locked write key that the last
loop sent without waiting: `RELEASE_LOCK` with `commit_wts` after `return true`,
`ABORT` after `return false`. -/
theorem commit_returns_with_unlocks_in_flight {s : System} (hs : Reachable P s) {t : Nat} {b : Bool}
    (hpc : (s.txns t).pc = .returned b) :
    (s.txns t).txn.pendingResponses = 0 ∧ ∀ r ∈ s.network, r.txn = t →
      ∃ i e, (s.txns t).txn.writeSet[i]? = some e ∧ e.writeLockBit = true ∧
        r = if b then .releaseLock (P.masterLoc e) (s.txns t).txn.commitWts t i
          else .abort (P.masterLoc e) t i := by
  have ht := (reachable_lockInv hs).txn t
  have hin : ∀ r ∈ s.network, r.txn = t → ∃ i e, (s.txns t).txn.writeSet[i]? = some e ∧
      e.writeLockBit = true ∧ r = if b then .releaseLock (P.masterLoc e) (s.txns t).txn.commitWts t i
        else .abort (P.masterLoc e) t i := fun r hr hrt => by
    have hok := ht.requests r hr hrt
    cases r with
    | releaseLock l c u i =>
      obtain ⟨hp, e, he, rfl, hb, rfl⟩ := hok
      obtain rfl : u = t := hrt
      obtain rfl : b = true := by rcases hp with hp | ⟨j, hp, -⟩ <;> rw [hpc] at hp <;> cases hp; rfl
      exact ⟨i, e, he, hb, rfl⟩
    | abort l u i =>
      obtain ⟨hp, e, he, rfl, hb⟩ := hok
      obtain rfl : u = t := hrt
      obtain rfl : b = false := by rcases hp with hp | ⟨j, hp, -⟩ <;> rw [hpc] at hp <;> cases hp; rfl
      exact ⟨i, e, he, hb, rfl⟩
    | _ =>
      obtain ⟨hp, -⟩ := hok
      rw [hpc] at hp
      simp [Pc.WrotePast, Pc.ReplicatedPast] at hp
  refine ⟨?_, hin⟩
  rw [ht.pending]
  simp only [waitedOf, List.countP_eq_zero, decide_eq_true_eq, not_and]
  intro r hr hrt hw
  obtain ⟨i, e, -, -, rfl⟩ := hin r hr hrt
  cases b <;> exact hw

theorem commit_returns_with_unlocks_in_flight_after_abort :
    ∃ s, Reachable Placement.pair s ∧ (s.txns 0).pc = .returned false ∧
      Request.abort ⟨1, 1, 1⟩ 0 0 ∈ s.network ∧ (s.txns 0).txn.pendingResponses = 0 ∧
      ∀ r ∈ s.network, r.txn = 0 → ∃ i e, (s.txns 0).txn.writeSet[i]? = some e ∧
        e.writeLockBit = true ∧ r = .abort (Placement.pair.masterLoc e) 0 i := by
  obtain ⟨s, hs, hpc, -, -, -, hr⟩ := abortStart_run
  exact ⟨s, hs, hpc, hr, commit_returns_with_unlocks_in_flight hs hpc⟩

end Coco.Scar
