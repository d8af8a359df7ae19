import Coco.Scar.System

/-!
Runs of Scar on a single coordinator that masters every partition: a
transaction that reads one record and writes it back commits alone, step by
step, from its first read to `return true`, and `n` such transactions
committed one after another leave the record with wts `n` (mod `2^31`).
These runs build the reachable states the counterexamples start from.
-/

namespace Coco.Scar

open ScarHelper

namespace Placement

/-- One coordinator, master of every partition, with no replicas. -/
def solo : Placement := ⟨1, fun _ => 0, fun _ _ => false⟩

/-- Two coordinators, coordinator `p` master of partition `p`, with no replicas. -/
def pair : Placement := ⟨2, fun p => p, fun _ _ => false⟩

end Placement

/-- A read or write key of record `key` of partition 0, as execution starts it. -/
def rwKey (key value : Nat) : ScarRWKey := ⟨0, key, value, Tid.zero, false, false, false, false⟩

@[simp] theorem solo_masterLoc (k : ScarRWKey) :
    Placement.solo.masterLoc k = ⟨0, k.partitionId, k.key⟩ := rfl

@[simp] theorem solo_readLoc (k : ScarRWKey) :
    Placement.solo.readLoc 0 k = ⟨0, k.partitionId, k.key⟩ := by
  unfold Placement.readLoc; split <;> rfl

section
variable (key value : Nat)
@[simp] theorem rwKey_partitionId : (rwKey key value).partitionId = 0 := rfl
@[simp] theorem rwKey_key : (rwKey key value).key = key := rfl
@[simp] theorem rwKey_value : (rwKey key value).value = value := rfl
@[simp] theorem rwKey_tid : (rwKey key value).tid = Tid.zero := rfl
@[simp] theorem rwKey_localIndexReadBit : (rwKey key value).localIndexReadBit = false := rfl
@[simp] theorem rwKey_writeLockBit : (rwKey key value).writeLockBit = false := rfl
end

/-- A transaction of coordinator 0 that reads record `key` and writes `value` to it. -/
def readModifyWrite (key value : Nat) : ScarTransaction :=
  ⟨0, [rwKey key 0], [rwKey key value], 0, false, false, 0, 0⟩

/-- A lone read-modify-write runs to the release of its lock: the record holds
the new value with `LOCK` set, and `commit_wts` is one above the rts it read. -/
theorem Reachable.readModifyWrite_prefix {s : System} (hs : Reachable Placement.solo s)
    {t key value : Nat} (htx : s.txns t = ⟨.execute 0, readModifyWrite key value⟩)
    (hfree : (s.db ⟨0, 0, key⟩).tid.locked = false) :
    ∃ s', Reachable Placement.solo s' ∧ (s'.txns t).pc = .releaseLock 0 ∧
      (s'.txns t).txn.coordinatorId = 0 ∧
      (s'.txns t).txn.writeSet =
        [{ rwKey key value with writeLockBit := true, tid := (s.db ⟨0, 0, key⟩).tid }] ∧
      (s'.txns t).txn.commitWts = (s.db ⟨0, 0, key⟩).tid.rts + 1 ∧
      s'.db = Function.update s.db ⟨0, 0, key⟩ ⟨value, (s.db ⟨0, 0, key⟩).tid.setLocked true⟩ ∧
      (∀ u, u ≠ t → s'.txns u = s.txns u) ∧ s'.network = s.network := by
  set row := s.db (⟨0, 0, key⟩)
  set r₁ : ScarRWKey := { rwKey key 0 with value := row.value, tid := row.tid }
  set w₁ : ScarRWKey := { rwKey key value with writeLockBit := true, tid := row.tid }
  set txn₁ := (readModifyWrite key value).readFilled 0 (rwKey key 0) row
  set txn₃ := txn₁.lockGranted 0 (rwKey key value) row.tid row.tid
  set txn₅ := txn₃.computeCommitTs
  have hr₁ : txn₅.readSet = [r₁] := by simp [txn₅, txn₃, txn₁, r₁, ScarTransaction.readFilled,
    ScarTransaction.lockGranted, readModifyWrite]
  have hw₁ : txn₅.writeSet = [w₁] := by simp [txn₅, txn₃, txn₁, w₁, ScarTransaction.readFilled,
    ScarTransaction.lockGranted, readModifyWrite]
  have h₁ := hs.step (Step.read (x := ⟨.execute 0, readModifyWrite key value⟩) (i := 0)
    (e := rwKey key 0) htx rfl rfl (by simpa using hfree))
  have h₂ := h₁.step (Step.executeDone (t := t) (x := ⟨.execute 1, txn₁⟩) (i := 1)
    (by simp [txn₁, row, readModifyWrite]) rfl
    (by simp [txn₁, ScarTransaction.readFilled, readModifyWrite]))
  have h₃ := h₂.step (Step.lockLocal (t := t) (x := ⟨.lockWriteSet 0, txn₁⟩) (i := 0)
    (e := rwKey key value) (r := r₁) (by simp) rfl rfl rfl (by simpa using hfree)
    (by simp [txn₁, r₁, ScarTransaction.readFilled, ScarTransaction.getReadKey, readModifyWrite, rwKey]))
  have h₄ := h₃.step (Step.lockDone (t := t) (x := ⟨.lockWriteSet 1, txn₃⟩) (i := 1)
    (by simp [txn₃, r₁, row]) rfl
    (by simp [txn₃, txn₁, ScarTransaction.lockGranted, ScarTransaction.readFilled, readModifyWrite]))
  have h₅ := h₄.step (Step.syncLockCommit (t := t) (x := ⟨.syncLock, txn₃⟩) (by simp) rfl
    (by simp [txn₃, txn₁, ScarTransaction.lockGranted, ScarTransaction.readFilled, readModifyWrite])
    (by simp [txn₃, txn₁, ScarTransaction.lockGranted, ScarTransaction.readFilled, readModifyWrite]))
  have h₆ := h₅.step (Step.validateSkip (t := t) (x := ⟨.validateReadSet 0, txn₅⟩) (i := 0) (e := r₁)
    (by simp [txn₅]) rfl (by simp [hr₁])
    (.inr (by simp [hw₁, r₁, w₁, ScarTransaction.isKeyInWriteSet, rwKey])))
  have h₇ := h₆.step (Step.validateDone (t := t) (x := ⟨.validateReadSet 1, txn₅⟩) (i := 1)
    (by simp) rfl (by simp [hr₁]))
  have h₈ := h₇.step (Step.syncValidationCommit (t := t) (x := ⟨.syncValidation, txn₅⟩) (by simp) rfl
    (by simp [txn₅, txn₃, txn₁, ScarTransaction.lockGranted, ScarTransaction.readFilled, readModifyWrite])
    (by simp [txn₅, txn₃, txn₁, ScarTransaction.lockGranted, ScarTransaction.readFilled, readModifyWrite]))
  have h₉ := h₈.step (Step.writeLocal (t := t) (x := ⟨.writeAndReplicate 0, txn₅⟩) (i := 0) (e := w₁)
    (by simp) rfl (by simp [hw₁]) rfl)
  have h₁₀ := h₉.step (Step.replicateSkip (t := t) (x := ⟨.replicate 0 0, txn₅⟩) (i := 0) (k := 0)
    (e := w₁) (by simp) rfl (by simp [hw₁]) (by decide) (.inl rfl))
  have h₁₁ := h₁₀.step (Step.replicateDone (t := t) (x := ⟨.replicate 0 1, txn₅⟩) (i := 0) (k := 1)
    (by simp) rfl le_rfl)
  have h₁₂ := h₁₁.step (Step.writeDone (t := t) (x := ⟨.writeAndReplicate 1, txn₅⟩) (i := 1)
    (by simp) rfl (by simp [hw₁]))
  have h₁₃ := h₁₂.step (Step.syncWriteDone (t := t) (x := ⟨.syncWrite, txn₅⟩) (by simp) rfl
    (by simp [txn₅, txn₃, txn₁, ScarTransaction.lockGranted, ScarTransaction.readFilled, readModifyWrite]))
  refine ⟨_, h₁₃, by simp, by simp [txn₅, txn₃, txn₁, ScarTransaction.lockGranted,
    ScarTransaction.readFilled, readModifyWrite], by simpa using hw₁, ?_, ?_,
    fun u hu => by simp [hu], by simp⟩
  · have := row.tid.wts_le_rts
    have hr₃ : txn₃.readSet = [r₁] := hr₁
    have hw₃ : txn₃.writeSet = [w₁] := hw₁
    simp [txn₅, ScarTransaction.computeCommitTs, hr₃, hw₃, r₁, w₁]
    omega
  · funext m
    by_cases hm : m = ⟨0, 0, key⟩
    · subst hm; simp [w₁, row]
    · simp [hm, w₁, row]

/-- The release loop of the lone read-modify-write: `unlock(tid, commit_wts)` on
the record, then `return true`. -/
theorem Reachable.release_single {s : System} (hs : Reachable Placement.solo s) {t : Nat}
    {e : ScarRWKey} (hpc : (s.txns t).pc = .releaseLock 0) (hco : (s.txns t).txn.coordinatorId = 0)
    (hws : (s.txns t).txn.writeSet = [e]) (he : e.partitionId = 0) :
    ∃ s', Reachable Placement.solo s' ∧ (s'.txns t).pc = .returned true ∧
      (s'.txns t).txn = (s.txns t).txn ∧
      s'.db = Function.update s.db (Placement.solo.masterLoc e)
        ⟨e.value, unlockWithCommit (s.txns t).txn.commitWts⟩ ∧
      (∀ u, u ≠ t → s'.txns u = s.txns u) ∧ s'.network = s.network := by
  have h₁ := hs.step (Step.releaseLocal (t := t) (i := 0) (e := e) rfl hpc (by simp [hws])
    (by simp [Placement.hasMasterPartition, Placement.solo, hco, he]))
  have h₂ := h₁.step (Step.releaseDone (t := t) (x := ⟨.releaseLock 1, (s.txns t).txn⟩) (i := 1)
    (by simp) rfl (by simp [hws]))
  refine ⟨_, h₂, by simp, by simp, ?_, fun u hu => by simp [hu], by simp⟩
  funext m
  by_cases hm : m = ⟨0, e.partitionId, e.key⟩
  · subst hm; simp
  · simp [hm]

/-- The word `unlock(tid, c)` stores depends on `c` modulo `2^31` only. -/
theorem unlockWithCommit_mod_succ (c : Nat) :
    unlockWithCommit (c % 2 ^ 31 + 1) = unlockWithCommit (c + 1) := by
  simp only [unlockWithCommit, Tid.mk.injEq, true_and, and_true]
  omega

/-- A lone read-modify-write of a record holding `unlock(tid, c)` commits and
leaves it holding `unlock(tid, c + 1)`. -/
theorem Reachable.readModifyWrite_commit {s : System} (hs : Reachable Placement.solo s)
    {t key value c : Nat} (htx : s.txns t = ⟨.execute 0, readModifyWrite key value⟩)
    (hrow : (s.db ⟨0, 0, key⟩).tid = unlockWithCommit c) :
    ∃ s', Reachable Placement.solo s' ∧ (s'.txns t).pc = .returned true ∧
      (s'.txns t).txn.writeSet =
        [{ rwKey key value with writeLockBit := true, tid := unlockWithCommit c }] ∧
      s'.db = Function.update s.db ⟨0, 0, key⟩ ⟨value, unlockWithCommit (c + 1)⟩ ∧
      (∀ u, u ≠ t → s'.txns u = s.txns u) ∧ s'.network = s.network := by
  obtain ⟨s₁, h₁, hpc, hco, hws, hcw, hdb, hother, hnet⟩ :=
    hs.readModifyWrite_prefix htx (by simp [hrow])
  obtain ⟨s₂, h₂, hpc₂, htxn₂, hdb₂, hother₂, hnet₂⟩ := h₁.release_single hpc hco hws rfl
  refine ⟨s₂, h₂, hpc₂, by rw [htxn₂, hws, hrow], ?_,
    fun u hu => (hother₂ u hu).trans (hother u hu), hnet₂.trans hnet⟩
  rw [hdb₂, hdb, hcw, hrow, unlockWithCommit_rts, unlockWithCommit_mod_succ]
  simp

/-- `n` lone read-modify-writes of one record, by transactions `t₀, …, t₀ + n - 1`
one after another, take the record from `unlock(tid, c)` to `unlock(tid, c + n)`. -/
theorem Reachable.readModifyWrite_run {s : System} (hs : Reachable Placement.solo s)
    {key c : Nat} (hrow : (s.db ⟨0, 0, key⟩).tid = unlockWithCommit c) (t₀ : Nat) (vals : Nat → Nat) :
    ∀ n, (∀ j < n, s.txns (t₀ + j) = ⟨.execute 0, readModifyWrite key (vals j)⟩) →
      ∃ s', Reachable Placement.solo s' ∧ (s'.db ⟨0, 0, key⟩).tid = unlockWithCommit (c + n) ∧
        (∀ m, m ≠ ⟨0, 0, key⟩ → s'.db m = s.db m) ∧
        (∀ j < n, (s'.txns (t₀ + j)).pc = .returned true ∧
          ∀ e ∈ (s'.txns (t₀ + j)).txn.writeSet, e.key = key) ∧
        (∀ u, (u < t₀ ∨ t₀ + n ≤ u) → s'.txns u = s.txns u) ∧ s'.network = s.network := by
  intro n
  induction n with
  | zero => exact fun _ => ⟨s, hs, hrow, fun _ _ => rfl, fun _ h => absurd h (by omega),
      fun _ _ => rfl, rfl⟩
  | succ n ih =>
    intro htx
    obtain ⟨s₁, h₁, hrow₁, hdb₁, hdone₁, hother₁, hnet₁⟩ := ih fun j hj => htx j (by omega)
    have htx₁ : s₁.txns (t₀ + n) = ⟨.execute 0, readModifyWrite key (vals n)⟩ :=
      (hother₁ _ (.inr le_rfl)).trans (htx n (by omega))
    obtain ⟨s₂, h₂, hpc₂, hws₂, hdb₂, hother₂, hnet₂⟩ := h₁.readModifyWrite_commit htx₁ hrow₁
    refine ⟨s₂, h₂, by simp [hdb₂, Nat.add_assoc], fun m hm => by simp [hdb₂, hm, hdb₁],
      fun j hj => ?_, fun u hu => ?_, hnet₂.trans hnet₁⟩
    · rcases Nat.lt_succ_iff_lt_or_eq.mp hj with hj | rfl
      · rw [hother₂ _ (by omega)]; exact hdone₁ j hj
      · exact ⟨hpc₂, by simp [hws₂]⟩
    · rw [hother₂ u (by omega), hother₁ u (by omega)]

/-- The start of the runs below: every row holds 0 with the zero word, and
transaction `t` reads record 0 and writes `t` to it. -/
def writersStart : System := System.init (fun _ => ⟨0, Tid.zero⟩) fun t => readModifyWrite 0 t

theorem writersStart_reachable : Reachable Placement.solo writersStart :=
  .init ⟨fun _ => rfl, fun _ => rfl, fun _ => rfl, fun _ => rfl, fun t e he => by
    simp only [readModifyWrite, List.mem_singleton] at he; subst he; rfl⟩

theorem writersStart_row (key : Nat) :
    (writersStart.db ⟨0, 0, key⟩).tid = unlockWithCommit 0 := rfl

/-- Record 1 of partition 1, whose master copy coordinator 1 holds. -/
def remoteKey : ScarRWKey := ⟨1, 1, 0, Tid.zero, false, false, false, false⟩

/-- A transaction of coordinator 0 that reads and writes the remote record 1 of
partition 1, then the local record 0 of partition 0. -/
def remoteThenLocal : ScarTransaction :=
  ⟨0, [remoteKey, rwKey 0 0], [remoteKey, rwKey 0 1], 0, false, false, 0, 0⟩

/-- The start of the abort run: transaction 0 is `remoteThenLocal`, every other
transaction reads record 0 and writes 1 to it. -/
def abortStart : System := System.init (fun _ => ⟨0, Tid.zero⟩) fun t =>
  if t = 0 then remoteThenLocal else readModifyWrite 0 1

theorem abortStart_reachable : Reachable Placement.pair abortStart := by
  refine .init ⟨fun _ => rfl, fun t => ?_, fun t => ?_, fun t => ?_, fun t e he => ?_⟩ <;>
    split_ifs at * <;> simp_all [remoteThenLocal, readModifyWrite, remoteKey]
  rcases he with rfl | rfl <;> rfl

/-- Transaction 0 reads records 1 and 0; transaction 1 locks record 0; transaction
0 sends the `LOCK` of record 1 to coordinator 1, fails to lock record 0, is
granted record 1, and aborts: it sends `ABORT` for record 1 and returns false. -/
theorem abortStart_run : ∃ s, Reachable Placement.pair s ∧ (s.txns 0).pc = .returned false ∧
    (s.db ⟨1, 1, 1⟩).tid.locked = true ∧ s.owner ⟨1, 1, 1⟩ = some 0 ∧
    s.events 0 = [.send (.lock ⟨1, 1, 1⟩ 0 0), .lock ⟨1, 1, 1⟩ Tid.zero, .send (.abort ⟨1, 1, 1⟩ 0 0)] ∧
    Request.abort ⟨1, 1, 1⟩ 0 0 ∈ s.network := by
  have h₁ := abortStart_reachable.step (Step.read (t := 0) (x := ⟨.execute 0, remoteThenLocal⟩) (i := 0)
    (e := remoteKey) rfl rfl rfl rfl)
  have h₂ := h₁.step (Step.read (t := 0) (x := ⟨.execute 1, remoteThenLocal⟩) (i := 1) (e := rwKey 0 0)
    rfl rfl rfl rfl)
  have h₃ := h₂.step (Step.read (t := 1) (x := ⟨.execute 0, readModifyWrite 0 1⟩) (i := 0)
    (e := rwKey 0 0) rfl rfl rfl rfl)
  have h₄ := h₃.step (Step.executeDone (t := 1) (x := ⟨.execute 1, readModifyWrite 0 1⟩) (i := 1)
    rfl rfl le_rfl)
  have h₅ := h₄.step (Step.lockLocal (t := 1) (x := ⟨.lockWriteSet 0, readModifyWrite 0 1⟩) (i := 0)
    (e := rwKey 0 1) (r := rwKey 0 0) rfl rfl rfl rfl rfl rfl)
  have h₆ := h₅.step (Step.executeDone (t := 0) (x := ⟨.execute 2, remoteThenLocal⟩) (i := 2)
    rfl rfl le_rfl)
  have h₇ := h₆.step (Step.lockRemote (t := 0) (x := ⟨.lockWriteSet 0, remoteThenLocal⟩) (i := 0)
    (e := remoteKey) rfl rfl rfl (by decide))
  have h₈ := h₇.step (Step.lockLocalFail (t := 0)
    (x := ⟨.lockWriteSet 1, { remoteThenLocal with pendingResponses := 1 }⟩) (i := 1) (e := rwKey 0 1)
    rfl rfl rfl rfl rfl)
  have h₉ := h₈.step (Step.serveLock (l := ⟨1, 1, 1⟩) (t := 0) (i := 0)
    (x := ⟨.syncLock, { remoteThenLocal with pendingResponses := 1, abortLock := true }⟩)
    (e := remoteKey) (r := remoteKey) (.head _) rfl rfl rfl rfl)
  have h₁₀ := h₉.step (Step.syncLockAbort (t := 0)
    (x := ⟨.syncLock, { remoteThenLocal with
      writeSet := [{ remoteKey with writeLockBit := true }, rwKey 0 1], abortLock := true }⟩)
    rfl rfl rfl rfl)
  have h₁₁ := h₁₀.step (Step.abortRemote (t := 0)
    (x := ⟨.abort 0, { remoteThenLocal with
      writeSet := [{ remoteKey with writeLockBit := true }, rwKey 0 1], abortLock := true }⟩) (i := 0)
    (e := { remoteKey with writeLockBit := true }) rfl rfl rfl rfl (by decide))
  have h₁₂ := h₁₁.step (Step.abortSkip (t := 0)
    (x := ⟨.abort 1, { remoteThenLocal with
      writeSet := [{ remoteKey with writeLockBit := true }, rwKey 0 1], abortLock := true }⟩) (i := 1)
    (e := rwKey 0 1) rfl rfl rfl rfl)
  have h₁₃ := h₁₂.step (Step.abortDone (t := 0)
    (x := ⟨.abort 2, { remoteThenLocal with
      writeSet := [{ remoteKey with writeLockBit := true }, rwKey 0 1], abortLock := true }⟩) (i := 2)
    rfl rfl le_rfl)
  exact ⟨_, h₁₃, rfl, rfl, rfl, rfl, .head _⟩

end Coco.Scar
