import Coco.Scar.Replication

/-!
Progress of Scar's commit. `lock_write_set` locks the write keys in any order,
but `ScarHelper::lock` does not wait: a lock that finds `LOCK` set fails, and the
commit aborts. What waits is the read of execution, which spins while the row it
reads is locked, and `sync_messages`, which waits for responses to pieces in
flight that their handlers can always serve. So in every reachable state each
transaction that has not returned can take a step, or reads a row whose lock
holder can take a step, and a lock holder waits for nobody: transactions never
wait for each other's locks in a cycle (`commit_never_deadlocks`).

This rests on the assumption `lock_write_set` states with its
`DCHECK(readKeyPtr != nullptr)`: every write key was read (`NoBlindWrite`).
`ProgressOk` adds the two facts about a transaction's own state the argument
needs beyond the lock invariant.
-/

namespace Coco.Scar

variable {P : Placement}

/-- The assumption of `lock_write_set`, no blind write: each write key of the
transaction is in its read set. -/
def NoBlindWrite (txn : ScarTransaction) : Prop :=
  ∀ e ∈ txn.writeSet, ∃ r, txn.getReadKey e.key = some r

/-- During execution no write key has its lock bit, and the replication loop runs
over a key of the write set. -/
structure ProgressOk (x : TxnState) : Prop where
  executing : ∀ i, x.pc = .execute i → ∀ e ∈ x.txn.writeSet, e.writeLockBit = false
  replicating : ∀ i k, x.pc = .replicate i k → i < x.txn.writeSet.length

theorem progressOk_init {db : Loc → Row} {txns : Nat → ScarTransaction} (hc : Clean db txns)
    (t : Nat) : ProgressOk ((System.init db txns).txns t) :=
  ⟨fun _ _ => hc.writeLockBit t, fun _ _ h => nomatch h⟩

/-- Every step keeps `ProgressOk` for every transaction: only a read stays in
execution, the lock bits change only while locking, and only the write loop and
the replication loop itself enter the replication loop, at a key they found. -/
theorem progressOk_step {s s' : System} {u : Nat} (hl : LockInv P s) (h : Step P s u s') (t : Nat)
    (hc : ProgressOk (s.txns t)) : ProgressOk (s'.txns t) := by
  by_cases htu : t = u
  swap
  · rw [(h.frame htu).1]; exact hc
  subst htu
  have ht := hl.txn t
  have hkey : ∀ {i e}, (s.txns t).txn.writeSet[i]? = some e → i < (s.txns t).txn.writeSet.length :=
    fun he => (List.getElem?_eq_some_iff.mp he).1
  cases h with
  | read hx hpc =>
    subst hx; rw [System.setTxn_txns, if_pos rfl]
    exact ⟨fun _ _ => hc.executing _ hpc, fun _ _ h => nomatch h⟩
  | lockLocal hx =>
    subst hx; rw [System.setTxn_txns, if_pos rfl]
    exact ⟨fun _ h => (by dsimp only at h; split at h <;> cases h),
      fun _ _ h => (by dsimp only at h; split at h <;> cases h)⟩
  | writeLocal hx _ he | writeRemote hx _ he | replicateSkip hx _ he | replicaUnlock hx _ he
  | replicateRemote hx _ he =>
    subst hx; rw [System.setTxn_txns, if_pos rfl]
    exact ⟨fun _ h => (nomatch h), fun _ _ h => by cases h; exact hkey he⟩
  | serveLock hr hx =>
    subst hx; rw [System.setTxn_txns, if_pos rfl]
    obtain ⟨hpos, -⟩ := ht.requests _ hr rfl
    have hne : ∀ i k, (s.txns t).pc ≠ .execute i ∧ (s.txns t).pc ≠ .replicate i k := by
      rcases hpos with hp | ⟨_, hp, -⟩ <;> simp [hp]
    exact ⟨fun i h => absurd h (hne i 0).1, fun i k h => absurd h (hne i k).2⟩
  | serveLockFail _ hx | serveValidation _ hx | serveValidationFail _ hx | serveWrite _ hx
  | serveReplication _ hx =>
    subst hx; rw [System.setTxn_txns, if_pos rfl]
    exact ⟨hc.executing, hc.replicating⟩
  | serveRelease | serveAbort => exact hc
  | _ =>
    subst_vars; rw [System.setTxn_txns, if_pos rfl]
    exact ⟨fun _ h => (nomatch h), fun _ _ h => nomatch h⟩

theorem reachable_progressOk {s : System} (hs : Reachable P s) (t : Nat) : ProgressOk (s.txns t) := by
  induction hs generalizing t with
  | init hc => exact progressOk_init hc t
  | step hs h ih => exact progressOk_step (reachable_lockInv hs) h t (ih t)

/-! ### Enabled steps -/

/-- While `sync_messages` waits, a piece it waits for is in flight. -/
theorem TxnOk.waited_mem {N : List Request} {t : Nat} {x : TxnState} (h : TxnOk P N t x)
    (hpos : 0 < x.txn.pendingResponses) : ∃ r ∈ N, r.txn = t ∧ ReqOk P x r := by
  rw [h.pending, waitedOf, List.countP_pos_iff] at hpos
  obtain ⟨r, hr, hw⟩ := hpos
  have hrt := (of_decide_eq_true hw).1
  exact ⟨r, hr, hrt, h.requests r hr hrt⟩

/-- Only the holder of a master locks its replicas, and only between
`ScarHelper::lock` and `unlock` of its own replication loop: before its release
loop and at no other position, the holder finds the replicas unlocked. -/
theorem LockInv.replica_unlocked {s : System} (hl : LockInv P s) {t i k : Nat} {e : ScarRWKey}
    (he : (s.txns t).txn.writeSet[i]? = some e) (hc : (s.txns t).pc.Committing)
    (hU : (s.txns t).pc.Unreleased i) (hnot : ∀ j, (s.txns t).pc ≠ .replicaLocked j k)
    (hkm : k ≠ P.masterCoordinator e.partitionId) : (s.db (replicaLoc e k)).tid.locked = false := by
  cases hlk : (s.db (replicaLoc e k)).tid.locked
  · rfl
  · have hbit := (((hl.txn t).committing hc).2 e (List.getElem?_mem he)).1
    obtain ⟨j, -, hpc, -⟩ := hl.replica_locked he ⟨e, he, hbit, .inl hU⟩ hkm hlk
    exact absurd hpc (hnot j)

variable {s : System} {t : Nat}

/-- A transaction that neither executes nor has returned can always take a step:
each loop iteration acts or moves on, a local lock or validation that fails
moves to `sync_messages`, and `sync_messages` ends or has a piece in flight that
its handler serves. -/
theorem exists_step (hl : LockInv P s) (hp : ProgressOk (s.txns t))
    (hnb : NoBlindWrite (s.txns t).txn) (hexec : ∀ i, (s.txns t).pc ≠ .execute i)
    (hret : ∀ b, (s.txns t).pc ≠ .returned b) : ∃ s', Step P s t s' := by
  have ht := hl.txn t
  cases hpc : (s.txns t).pc with
  | execute i => exact absurd hpc (hexec i)
  | returned b => exact absurd hpc (hret b)
  | lockWriteSet i =>
    cases he : (s.txns t).txn.writeSet[i]? with
    | none => exact ⟨_, .lockDone rfl hpc (List.getElem?_eq_none_iff.mp he)⟩
    | some e =>
      by_cases hloc : P.hasMasterPartition (s.txns t).txn.coordinatorId e.partitionId
      · cases hlk : (s.db (P.masterLoc e)).tid.locked
        · obtain ⟨r, hr⟩ := hnb e (List.getElem?_mem he)
          exact ⟨_, .lockLocal rfl hpc he hloc hlk hr⟩
        · exact ⟨_, .lockLocalFail rfl hpc he hloc hlk⟩
      · exact ⟨_, .lockRemote rfl hpc he hloc⟩
  | syncLock =>
    rcases Nat.eq_zero_or_pos (s.txns t).txn.pendingResponses with h0 | hpos
    · cases hab : (s.txns t).txn.abortLock
      · exact ⟨_, .syncLockCommit rfl hpc h0 hab⟩
      · exact ⟨_, .syncLockAbort rfl hpc h0 hab⟩
    obtain ⟨r, hr, hrt, hok⟩ := ht.waited_mem hpos
    cases r with
    | lock l u i =>
      obtain rfl : u = t := hrt
      obtain ⟨-, e, he, rfl⟩ := hok
      cases hlk : (s.db (P.masterLoc e)).tid.locked
      · obtain ⟨r, hr'⟩ := hnb e (List.getElem?_mem he)
        exact ⟨_, .serveLock hr rfl he hr' hlk⟩
      · exact ⟨_, .serveLockFail hr rfl hlk⟩
    | _ => simp [ReqOk, Pc.WrotePast, Pc.ReplicatedPast, hpc] at hok
  | validateReadSet i =>
    cases he : (s.txns t).txn.readSet[i]? with
    | none => exact ⟨_, .validateDone rfl hpc (List.getElem?_eq_none_iff.mp he)⟩
    | some e =>
      by_cases hskip : e.localIndexReadBit = true ∨
          ScarTransaction.isKeyInWriteSet (s.txns t).txn.writeSet e.key = true
      · exact ⟨_, .validateSkip rfl hpc he hskip⟩
      obtain ⟨hidx, hws⟩ : e.localIndexReadBit = false ∧
          ScarTransaction.isKeyInWriteSet (s.txns t).txn.writeSet e.key = false := by
        simpa using hskip
      by_cases hloc : P.hasMasterPartition (s.txns t).txn.coordinatorId e.partitionId
      · cases hv : ScarHelper.validateReadKey (s.db (P.masterLoc e)).tid e.tid
            (s.txns t).txn.commitWts with
        | none => exact ⟨_, .validateLocalFail rfl hpc he hidx hws hloc hv⟩
        | some w => exact ⟨_, .validateLocal rfl hpc he hidx hws hloc hv⟩
      · exact ⟨_, .validateRemote rfl hpc he hidx hws hloc⟩
  | syncValidation =>
    rcases Nat.eq_zero_or_pos (s.txns t).txn.pendingResponses with h0 | hpos
    · cases hab : (s.txns t).txn.abortReadValidation
      · exact ⟨_, .syncValidationCommit rfl hpc h0 hab⟩
      · exact ⟨_, .syncValidationAbort rfl hpc h0 hab⟩
    obtain ⟨r, hr, hrt, hok⟩ := ht.waited_mem hpos
    cases r with
    | readValidation l u i tid c =>
      obtain rfl : u = t := hrt
      obtain ⟨-, e, he, -⟩ := hok
      cases hv : ScarHelper.validateReadKey (s.db l).tid tid c with
      | none => exact ⟨_, .serveValidationFail hr rfl hv⟩
      | some w => exact ⟨_, .serveValidation hr rfl he hv⟩
    | _ => simp [ReqOk, Pc.WrotePast, Pc.ReplicatedPast, hpc] at hok
  | writeAndReplicate i =>
    cases he : (s.txns t).txn.writeSet[i]? with
    | none => exact ⟨_, .writeDone rfl hpc (List.getElem?_eq_none_iff.mp he)⟩
    | some e =>
      by_cases hloc : P.hasMasterPartition (s.txns t).txn.coordinatorId e.partitionId
      · exact ⟨_, .writeLocal rfl hpc he hloc⟩
      · exact ⟨_, .writeRemote rfl hpc he hloc⟩
  | replicate i k =>
    obtain ⟨e, he⟩ : ∃ e, (s.txns t).txn.writeSet[i]? = some e :=
      ⟨_, List.getElem?_eq_getElem (hp.replicating i k hpc)⟩
    by_cases hk : k < P.totalCoordinators
    swap
    · exact ⟨_, .replicateDone rfl hpc (Nat.le_of_not_lt hk)⟩
    by_cases hskip : P.isPartitionReplicatedOn e.partitionId k = false ∨
        k = P.masterCoordinator e.partitionId
    · exact ⟨_, .replicateSkip rfl hpc he hk hskip⟩
    obtain ⟨hrep, hkm⟩ : P.isPartitionReplicatedOn e.partitionId k = true ∧
        k ≠ P.masterCoordinator e.partitionId := by simpa using hskip
    by_cases hself : k = (s.txns t).txn.coordinatorId
    · have hfree := hl.replica_unlocked he (hpc ▸ trivial) (hpc ▸ trivial)
        (fun j h => by rw [hpc] at h; cases h) hkm
      exact ⟨_, .replicateLock rfl hpc he hk hrep hkm hself hfree⟩
    · exact ⟨_, .replicateRemote rfl hpc he hk hrep hkm hself⟩
  | replicaLocked i k =>
    obtain ⟨e, he, -⟩ := ht.replica i k hpc
    exact ⟨_, .replicaUnlock rfl hpc he⟩
  | syncWrite =>
    rcases Nat.eq_zero_or_pos (s.txns t).txn.pendingResponses with h0 | hpos
    · exact ⟨_, .syncWriteDone rfl hpc h0⟩
    obtain ⟨r, hr, hrt, hok⟩ := ht.waited_mem hpos
    cases r with
    | write l v u i =>
      obtain rfl : u = t := hrt
      exact ⟨_, .serveWrite hr rfl⟩
    | replication l v c u i =>
      obtain rfl : u = t := hrt
      obtain ⟨-, e, he, hl', -, -, hkm⟩ := hok
      have hfree := hl.replica_unlocked he (hpc ▸ trivial) (hpc ▸ trivial)
        (fun j h => by rw [hpc] at h; cases h) hkm
      exact ⟨_, .serveReplication hr rfl (by rw [hl']; exact hfree)⟩
    | _ => simp [ReqOk, hpc] at hok
  | releaseLock i =>
    cases he : (s.txns t).txn.writeSet[i]? with
    | none => exact ⟨_, .releaseDone rfl hpc (List.getElem?_eq_none_iff.mp he)⟩
    | some e =>
      by_cases hloc : P.hasMasterPartition (s.txns t).txn.coordinatorId e.partitionId
      · exact ⟨_, .releaseLocal rfl hpc he hloc⟩
      · exact ⟨_, .releaseRemote rfl hpc he hloc⟩
  | abort i =>
    cases he : (s.txns t).txn.writeSet[i]? with
    | none => exact ⟨_, .abortDone rfl hpc (List.getElem?_eq_none_iff.mp he)⟩
    | some e =>
      cases hbit : e.writeLockBit
      · exact ⟨_, .abortSkip rfl hpc he hbit⟩
      by_cases hloc : P.hasMasterPartition (s.txns t).txn.coordinatorId e.partitionId
      · exact ⟨_, .abortLocal rfl hpc he hbit hloc⟩
      · exact ⟨_, .abortRemote rfl hpc he hbit hloc⟩

/-- An executing transaction holds no row. -/
theorem ProgressOk.not_holds {x : TxnState} {i : Nat} (hp : ProgressOk x) (hpc : x.pc = .execute i)
    {s : System} {u : Nat} (hx : s.txns u = x) {l : Loc} (hu : Holds P s u l) : False := by
  subst hx
  rcases hu with ⟨_, _, _, _, f, hf, hbit, -⟩ | ⟨_, _, _, hpc', -⟩
  · rw [hp.executing i hpc f (List.getElem?_mem hf)] at hbit; cases hbit
  · rw [hpc] at hpc'; cases hpc'

/-- The holder of a row can take a step: it has not returned, or a
`RELEASE_LOCK` or `ABORT` piece of it is in flight for the row. -/
theorem holder_exists_step (hl : LockInv P s) (hp : ∀ u, ProgressOk (s.txns u))
    (hnb : ∀ u, NoBlindWrite (s.txns u).txn) {u : Nat} {l : Loc} (hu : Holds P s u l) :
    ∃ s', Step P s u s' := by
  by_cases hexec : ∃ i, (s.txns u).pc = .execute i
  · obtain ⟨i, hi⟩ := hexec
    exact ((hp u).not_holds hi rfl hu).elim
  by_cases hret : ∃ b, (s.txns u).pc = .returned b
  · obtain ⟨b, hb⟩ := hret
    rcases hu with ⟨_, _, _, _, _, _, _, hU | ⟨r, hr, hunl⟩⟩ | ⟨_, _, _, hpc, -⟩
    · rw [hb] at hU; exact absurd hU id
    · cases r with
      | releaseLock l c u' i => obtain ⟨rfl, -⟩ := hunl; exact ⟨_, .serveRelease hr⟩
      | abort l u' i => obtain ⟨rfl, -⟩ := hunl; exact ⟨_, .serveAbort hr⟩
      | _ => exact hunl.elim
    · rw [hb] at hpc; cases hpc
  · exact exists_step hl (hp u) (hnb u) (fun i h => hexec ⟨i, h⟩) fun b h => hret ⟨b, h⟩

end Coco.Scar
