import Coco.Scar.Locking
import Coco.Scar.Runs

/-!
Timestamps of master records under Scar. `compute_commit_ts` puts `commit_wts`
above the rts of every word `lock` returned, and a record stays at that word
while its lock is held; `release_lock` then stores `commit_wts` as the new wts.
So the wts of a master record never decreases, and each release stores a wts
above the wts and the rts the record had when it was locked, as long as
`commit_wts` fits the 31 bits of the wts field.
-/

namespace Coco.Scar

variable {P : Placement}

open ScarHelper

/-- The word a committing transaction releases the master copy of key `i` with:
the record still holds the word `lock` returned, whose rts is below `commit_wts`. -/
theorem LockInv.release_word {s : System} (hinv : LockInv P s) {t i : Nat} {e : ScarRWKey}
    (he : (s.txns t).txn.writeSet[i]? = some e) (hk : HoldsKey s t i)
    (hc : (s.txns t).pc.Committing) :
    (s.db (P.masterLoc e)).tid = e.tid.setLocked true ∧ e.tid.wts ≤ e.tid.rts ∧
      e.tid.rts < (s.txns t).txn.commitWts :=
  ⟨hinv.heldWord t i e he hk, e.tid.wts_le_rts,
    (((hinv.txn t).committing hc).2 e (List.getElem?_mem he)).2⟩

/-- A replica row is no master copy. -/
theorem replicaLoc_not_master {e : ScarRWKey} {k : Nat} (hk : k ≠ P.masterCoordinator e.partitionId) :
    ¬ P.IsMaster (replicaLoc e k) := fun h => hk h.symm

/-- One step never lowers the wts of a master record, provided the stepping
transaction's `commit_wts` fits the wts field once it is on the commit path. -/
theorem master_wts_step {s s' : System} {t : Nat} (hinv : LockInv P s) (h : Step P s t s')
    (hc : (s.txns t).pc.Committing → (s.txns t).txn.commitWts < 2 ^ 31) {l : Loc}
    (hl : P.IsMaster l) : (s.db l).tid.wts ≤ (s'.db l).tid.wts := by
  have ht := hinv.txn t
  cases h with
  | @releaseLocal _ _ i e hx hpc he _ =>
    subst hx
    have hcom : (s.txns t).pc.Committing := by simp [hpc, Pc.Committing]
    have hbit := ((ht.committing hcom).2 e (List.getElem?_mem he)).1
    obtain ⟨hw, hle, hlt⟩ :=
      hinv.release_word he ⟨e, he, hbit, .inl (by simp [hpc, Pc.Unreleased])⟩ hcom
    have := hc hcom
    by_cases hm : l = P.masterLoc e
    · subst hm; simp [hw, Nat.mod_eq_of_lt this]; omega
    · simp [hm]
  | @serveRelease _ _ _ i hr =>
    obtain ⟨hpos, e, he, rfl, hbit, rfl⟩ := ht.requests _ hr rfl
    have hcom : (s.txns t).pc.Committing := by rcases hpos with hp | ⟨j, hp, -⟩ <;> simp [hp, Pc.Committing]
    obtain ⟨hw, hle, hlt⟩ := hinv.release_word he ⟨e, he, hbit, .inr ⟨_, hr, rfl, rfl⟩⟩ hcom
    have := hc hcom
    by_cases hm : l = P.masterLoc e
    · subst hm; simp [hw, Nat.mod_eq_of_lt this]; omega
    · simp [hm]
  | @replicaUnlock _ _ i k e hx hpc he =>
    subst hx
    obtain ⟨e', he', hne⟩ := ht.replica i k hpc
    rw [he] at he'; cases he'
    have hm : l ≠ replicaLoc e k := fun h => replicaLoc_not_master hne (h ▸ hl)
    simp [hm]
  | @serveReplication l' _ _ _ _ _ hr _ _ =>
    obtain ⟨-, e, -, hl', -, -, hne⟩ := ht.requests _ hr rfl
    have hm : l ≠ l' := fun h => replicaLoc_not_master hne (hl' ▸ h ▸ hl)
    simp [hm]
  | @abortLocal _ _ i e _ _ _ _ _ | @serveAbort _ _ _ _ | @lockLocal _ _ i e _ _ _ _ _ _ _ |
    @replicateLock _ _ _ _ _ _ _ _ _ _ _ _ _ | @serveLock _ _ _ _ _ _ _ _ _ _ _ |
    @writeLocal _ _ _ _ _ _ _ _ | @serveWrite _ _ _ _ _ _ _ =>
    simp only [System.setTxn_db, System.unlockRow_db, System.lockRow_db, System.writeRow_db,
      System.receive_db]
    split <;> simp_all
  | @validateLocal _ _ _ _ _ _ _ _ _ _ _ hvalid | @serveValidation _ _ _ _ _ _ _ _ _ _ _ hvalid =>
    simp only [System.setTxn_db, System.setTid_db, System.receive_db]
    split
    · subst_vars; rw [(validateReadKey_eq_some hvalid).2.1]
    · exact le_rfl
  | _ => exact le_rfl

/-- A step on the commit path that unlocks a locked master record is the release of
one of the transaction's write keys: the record still held the word `lock` returned,
and the step stores `commit_wts`, above that word's rts. -/
theorem commit_unlock_word {s s' : System} {t : Nat} (hinv : LockInv P s) (h : Step P s t s')
    (hc : (s.txns t).pc.Committing) {l : Loc} (hl : P.IsMaster l)
    (hlocked : (s.db l).tid.locked = true) (hun : (s'.db l).tid.locked = false) :
    ∃ (i : Nat) (e : ScarRWKey), (s.txns t).txn.writeSet[i]? = some e ∧ P.masterLoc e = l ∧
      (s.db l).tid = e.tid.setLocked true ∧ (s'.db l).tid = unlockWithCommit (s.txns t).txn.commitWts ∧
      e.tid.wts ≤ e.tid.rts ∧ e.tid.rts < (s.txns t).txn.commitWts := by
  have ht := hinv.txn t
  cases h with
  | @releaseLocal _ _ i e hx hpc he _ =>
    subst hx
    have hbit := ((ht.committing hc).2 e (List.getElem?_mem he)).1
    obtain ⟨hw, hle, hlt⟩ :=
      hinv.release_word he ⟨e, he, hbit, .inl (by simp [hpc, Pc.Unreleased])⟩ hc
    by_cases hm : l = P.masterLoc e
    · subst hm; exact ⟨i, e, he, rfl, hw, by simp, hle, by simpa using hlt⟩
    · simp [hm, hlocked] at hun
  | @serveRelease _ _ _ i hr =>
    obtain ⟨-, e, he, rfl, hbit, rfl⟩ := ht.requests _ hr rfl
    obtain ⟨hw, hle, hlt⟩ := hinv.release_word he ⟨e, he, hbit, .inr ⟨_, hr, rfl, rfl⟩⟩ hc
    by_cases hm : l = P.masterLoc e
    · subst hm; exact ⟨i, e, he, rfl, hw, by simp, hle, hlt⟩
    · simp [hm, hlocked] at hun
  | @abortLocal _ _ i e hx hpc _ _ _ =>
    subst hx; simp [hpc, Pc.Committing] at hc
  | @serveAbort _ _ i hr =>
    obtain ⟨hpos, -⟩ := ht.requests _ hr rfl
    rcases hpos with hp | ⟨j, hp, -⟩ <;> simp [hp, Pc.Committing] at hc
  | @replicaUnlock _ _ i k e hx hpc he =>
    subst hx
    obtain ⟨e', he', hne⟩ := ht.replica i k hpc
    rw [he] at he'; cases he'
    have hm : l ≠ replicaLoc e k := fun h => replicaLoc_not_master hne (h ▸ hl)
    simp [hm, hlocked] at hun
  | @lockLocal _ _ _ _ _ _ _ _ _ _ _ | @replicateLock _ _ _ _ _ _ _ _ _ _ _ _ _ |
    @serveLock _ _ _ _ _ _ _ _ _ _ _ | @writeLocal _ _ _ _ _ _ _ _ | @serveWrite _ _ _ _ _ _ _ |
    @serveReplication _ _ _ _ _ _ _ _ _ =>
    simp only [System.setTxn_db, System.lockRow_db, System.writeRow_db, System.setTid_db,
      System.receive_db] at hun
    split at hun <;> simp_all
  | @validateLocal _ _ _ _ _ _ _ _ _ _ _ hvalid | @serveValidation _ _ _ _ _ _ _ _ _ _ _ hvalid =>
    simp only [System.setTxn_db, System.setTid_db, System.receive_db] at hun
    split at hun
    · subst_vars; simp [validateReadKey_locked hvalid hlocked, hlocked] at hun
    · simp [hlocked] at hun
  | _ => simp [hlocked] at hun

end Coco.Scar
