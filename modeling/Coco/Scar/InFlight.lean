import Coco.Scar.System

/-!
What a Scar transaction keeps consistent with its pieces in flight. `TxnOk` ties
each transaction's pieces, its pending responses and its write lock bits to
where it is in `Scar::commit`: a piece in flight was sent by a loop iteration the
transaction has passed and carries what that iteration put in it, the pending
count is the number of waited pieces, and past `sync_messages` of
`lock_write_set` on the commit path every write key holds its lock bit.

Each step of a transaction, and each handler serving one of its pieces, keeps
`TxnOk` of that transaction (one lemma per step).
-/

namespace Coco.Scar

/-- The release or abort loop has not passed write key `i`. -/
def Pc.Unreleased (i : Nat) : Pc → Prop
  | .releaseLock j | .abort j => j ≤ i
  | .returned _ => False
  | _ => True

/-- Past `sync_messages` of `lock_write_set`, on the way to `return true`. -/
def Pc.Committing : Pc → Prop
  | .validateReadSet _ | .syncValidation | .writeAndReplicate _ | .replicate .. | .replicaLocked ..
  | .syncWrite | .releaseLock _ | .returned true => True
  | _ => False

/-- The write loop has passed the write of key `i`. -/
def Pc.WrotePast (i : Nat) : Pc → Prop
  | .syncWrite => True
  | .writeAndReplicate j => i < j
  | .replicate j _ | .replicaLocked j _ => i ≤ j
  | _ => False

/-- The replication loop has passed coordinator `k` of key `i`. -/
def Pc.ReplicatedPast (i k : Nat) : Pc → Prop
  | .syncWrite => True
  | .writeAndReplicate j => i < j
  | .replicate j k' | .replicaLocked j k' => i < j ∨ i = j ∧ k < k'
  | _ => False

theorem Pc.WrotePast.committing {pc : Pc} {i : Nat} (h : pc.WrotePast i) : pc.Committing := by
  cases pc <;> trivial

theorem Pc.WrotePast.unreleased {pc : Pc} {i : Nat} (h : pc.WrotePast i) (j : Nat) :
    pc.Unreleased j := by
  cases pc <;> trivial

namespace Request

/-- The `RELEASE_LOCK` or `ABORT` piece of write key `i` of transaction `t`. -/
def Unlocks (t i : Nat) : Request → Prop
  | releaseLock _ _ t' i' | abort _ t' i' => t' = t ∧ i' = i
  | _ => False

theorem Unlocks.txn_eq {r : Request} {t i : Nat} (h : r.Unlocks t i) : r.txn = t := by
  cases r <;> simp only [Unlocks] at h <;> first | exact h.elim | exact h.1

theorem Unlocks.index_eq {r : Request} {t t' i j : Nat} (h : r.Unlocks t i) (h' : r.Unlocks t' j) :
    i = j := by
  cases r <;> simp only [Unlocks] at h h' <;> first | exact h.elim | exact h.2.symm.trans h'.2

end Request

/-- The pieces of `t` in flight that `sync_messages` waits for. -/
def waitedOf (network : List Request) (t : Nat) : Nat :=
  network.countP fun r => decide (r.txn = t ∧ r.Waited)

/-- A piece in flight fits where its transaction `x` is: it was sent by a loop
iteration `x` has passed, and it carries what that iteration put in it. -/
def ReqOk (P : Placement) (x : TxnState) : Request → Prop
  | .lock l _ i => (x.pc = .syncLock ∨ ∃ j, x.pc = .lockWriteSet j ∧ i < j) ∧
      ∃ e, x.txn.writeSet[i]? = some e ∧ l = P.masterLoc e
  | .readValidation l _ i tid c =>
      (x.pc = .syncValidation ∨ ∃ j, x.pc = .validateReadSet j ∧ i < j) ∧
      ∃ e, x.txn.readSet[i]? = some e ∧ l = P.masterLoc e ∧ tid = e.tid ∧ c = x.txn.commitWts
  | .write l v _ i => x.pc.WrotePast i ∧
      ∃ e, x.txn.writeSet[i]? = some e ∧ l = P.masterLoc e ∧ v = e.value
  | .replication l v c _ i => x.pc.ReplicatedPast i l.coordinator ∧
      ∃ e, x.txn.writeSet[i]? = some e ∧ l = replicaLoc e l.coordinator ∧ v = e.value ∧
        c = x.txn.commitWts ∧ l.coordinator ≠ P.masterCoordinator e.partitionId
  | .releaseLock l c _ i => (x.pc = .returned true ∨ ∃ j, x.pc = .releaseLock j ∧ i < j) ∧
      ∃ e, x.txn.writeSet[i]? = some e ∧ l = P.masterLoc e ∧ e.writeLockBit = true ∧
        c = x.txn.commitWts
  | .abort l _ i => (x.pc = .returned false ∨ ∃ j, x.pc = .abort j ∧ i < j) ∧
      ∃ e, x.txn.writeSet[i]? = some e ∧ l = P.masterLoc e ∧ e.writeLockBit = true

/-- Write keys whose lock was granted name different rows. -/
def KeysUnique (P : Placement) (writeSet : List ScarRWKey) : Prop :=
  ∀ (i j : Nat) (e f : ScarRWKey), writeSet[i]? = some e → writeSet[j]? = some f →
    e.writeLockBit = true → f.writeLockBit = true → P.masterLoc e = P.masterLoc f → i = j

/-- What a transaction in state `x` keeps consistent with its pieces in flight. -/
structure TxnOk (P : Placement) (network : List Request) (t : Nat) (x : TxnState) : Prop where
  pending : x.txn.pendingResponses = waitedOf network t
  requests : ∀ r ∈ network, r.txn = t → ReqOk P x r
  /-- Every write key is locked, or its `LOCK` piece is in flight, or `abort_lock` is set. -/
  lockSent : ∀ j, (x.pc = .syncLock ∧ j = x.txn.writeSet.length ∨ x.pc = .lockWriteSet j) →
    x.txn.abortLock = true ∨ ∀ i e, i < j → x.txn.writeSet[i]? = some e →
      e.writeLockBit = true ∨ Request.lock (P.masterLoc e) t i ∈ network
  /-- On the commit path every write key holds its lock, and `commit_wts` is above
  the rts of the word each lock returned. -/
  committing : x.pc.Committing → x.txn.abortLock = false ∧
    ∀ e ∈ x.txn.writeSet, e.writeLockBit = true ∧ e.tid.rts < x.txn.commitWts
  keyUnique : KeysUnique P x.txn.writeSet
  replica : ∀ i k, x.pc = .replicaLocked i k → ∃ e : ScarRWKey,
    x.txn.writeSet[i]? = some e ∧ k ≠ P.masterCoordinator e.partitionId


/-! ### Pieces in flight -/

theorem countP_eq_countP_erase_add {α : Type} [DecidableEq α] (p : α → Bool) {l : List α} {a : α}
    (h : a ∈ l) : l.countP p = (l.erase a).countP p + if p a then 1 else 0 := by
  rw [(List.perm_cons_erase h).countP_eq, List.countP_cons]

theorem waitedOf_cons (N : List Request) (r : Request) (u : Nat) :
    waitedOf (r :: N) u = waitedOf N u + if r.txn = u ∧ r.Waited then 1 else 0 := by
  simp only [waitedOf, List.countP_cons, decide_eq_true_eq]

theorem waitedOf_erase {N : List Request} {r : Request} (hr : r ∈ N) (u : Nat) :
    waitedOf N u = waitedOf (N.erase r) u + if r.txn = u ∧ r.Waited then 1 else 0 := by
  simp only [waitedOf, countP_eq_countP_erase_add _ hr, decide_eq_true_eq]

theorem waitedOf_erase_waited {N : List Request} {r : Request} {t : Nat} (hr : r ∈ N)
    (hrt : r.txn = t) (hw : r.Waited) : waitedOf (N.erase r) t = waitedOf N t - 1 := by
  rw [waitedOf_erase hr t, if_pos ⟨hrt, hw⟩]; rfl

theorem waitedOf_erase_unwaited {N : List Request} {r : Request} (hr : r ∈ N) (hw : ¬ r.Waited)
    (t : Nat) : waitedOf (N.erase r) t = waitedOf N t := by
  rw [waitedOf_erase hr t, if_neg (fun h => hw h.2)]; rfl

theorem mem_erase_of_nodup {l : List Request} (hl : l.Nodup) {a b : Request} :
    a ∈ l.erase b ↔ a ≠ b ∧ a ∈ l :=
  List.Nodup.mem_erase_iff hl

variable {P : Placement}

theorem TxnOk.congr {N N' : List Request} {t : Nat} {x : TxnState} (h : TxnOk P N t x)
    (hnet : ∀ r, r.txn = t → (r ∈ N' ↔ r ∈ N)) (hwaited : waitedOf N' t = waitedOf N t) :
    TxnOk P N' t x where
  pending := hwaited ▸ h.pending
  requests r hr hrt := h.requests r ((hnet r hrt).mp hr) hrt
  lockSent j hj := (h.lockSent j hj).imp_right fun hall i e hi he =>
    (hall i e hi he).imp_right fun hm => (hnet (.lock _ t i) rfl).mpr hm
  committing := h.committing
  keyUnique := h.keyUnique
  replica := h.replica

/-! ### A transaction's own steps -/

namespace ScarTransaction

variable (txn : ScarTransaction)

theorem lockGranted_writeSet {i : Nat} {e : ScarRWKey} (he : txn.writeSet[i]? = some e)
    (w r : Tid) (j : Nat) : (txn.lockGranted i e w r).writeSet[j]? =
      if j = i then some { e with writeLockBit := true, tid := w } else txn.writeSet[j]? := by
  have hi : i < txn.writeSet.length := (List.getElem?_eq_some_iff.mp he).1
  simp only [lockGranted, List.getElem?_set, hi, if_true]
  by_cases hj : j = i
  · simp [hj]
  · simp [hj, Ne.symm hj]

theorem validationPassed_readSet_ne (e : ScarRWKey) {i j : Nat} (hj : j ≠ i) (w : Tid) :
    (txn.validationPassed i e w).readSet[j]? = txn.readSet[j]? := by
  simp [validationPassed, List.getElem?_set, Ne.symm hj]

theorem validationPassed_readSet_tid {i : Nat} {e : ScarRWKey} {w : Tid}
    (he : txn.readSet[i]? = some e) (hw : w.wts = e.tid.wts) (j : Nat) :
    ((txn.validationPassed i e w).readSet[j]?).map ScarRWKey.tid = (txn.readSet[j]?).map ScarRWKey.tid := by
  have hi : i < txn.readSet.length := (List.getElem?_eq_some_iff.mp he).1
  simp only [validationPassed, List.getElem?_set, hi, if_true, ScarHelper.getWts_eq, hw, ne_eq,
    not_true_eq_false, decide_False, Bool.or_false, if_false]
  by_cases hj : i = j
  · subst hj; simp [he]
  · simp [hj]

end ScarTransaction

variable {N : List Request} {t : Nat} {x : TxnState}

theorem not_reqOk_of_start (hpc : (∃ i, x.pc = .execute i) ∨ x.pc = .lockWriteSet 0 ∨
    x.pc = .validateReadSet 0 ∨ x.pc = .writeAndReplicate 0 ∨ x.pc = .releaseLock 0 ∨
    x.pc = .abort 0) (r : Request) : ¬ ReqOk P x r := fun hok => by
  cases r <;> obtain ⟨hpos, -⟩ := hok <;> rcases hpc with ⟨i, h⟩ | h | h | h | h | h <;>
    simp [h, Pc.WrotePast, Pc.ReplicatedPast] at hpos

/-- Before the first iteration of a loop no piece of the transaction is in flight. -/
theorem TxnOk.quiet (h : TxnOk P N t x) (hpc : (∃ i, x.pc = .execute i) ∨ x.pc = .lockWriteSet 0 ∨
    x.pc = .validateReadSet 0 ∨ x.pc = .writeAndReplicate 0 ∨ x.pc = .releaseLock 0 ∨
    x.pc = .abort 0) : ∀ r ∈ N, r.txn ≠ t :=
  fun r hr hrt => not_reqOk_of_start hpc r (h.requests r hr hrt)

theorem waited_not_mem (h0 : waitedOf N t = 0) {r : Request} (hr : r ∈ N) (hrt : r.txn = t) :
    ¬ r.Waited := fun hw => by
  simp only [waitedOf, List.countP_eq_zero, decide_eq_true_eq, not_and] at h0
  exact h0 r hr hrt hw

/-- At a `sync_messages` with no response pending, nothing of the transaction is
in flight. -/
theorem TxnOk.drained (h : TxnOk P N t x)
    (hpc : x.pc = .syncLock ∨ x.pc = .syncValidation ∨ x.pc = .syncWrite)
    (h0 : x.txn.pendingResponses = 0) : ∀ r ∈ N, r.txn ≠ t := by
  intro r hr hrt
  have hw := waited_not_mem (h.pending ▸ h0) hr hrt
  have hok := h.requests r hr hrt
  cases r <;> simp only [Request.Waited, not_true_eq_false] at hw <;> obtain ⟨hpos, -⟩ := hok <;>
    rcases hpc with hpc | hpc | hpc <;> simp [hpc] at hpos

/-- Moving to `pc` with the pieces and the data unchanged, where no piece of the
transaction is in flight and `pc` is no lock loop, commit path or replica lock. -/
theorem TxnOk.of_quiet (h : TxnOk P N t x) {x' : TxnState} (hq : ∀ r ∈ N, r.txn ≠ t)
    (hws : x'.txn.writeSet = x.txn.writeSet)
    (hpend : x'.txn.pendingResponses = x.txn.pendingResponses)
    (hlock : ∀ j, ¬ (x'.pc = .syncLock ∧ j = x'.txn.writeSet.length ∨ x'.pc = .lockWriteSet j) ∨
      x'.txn.abortLock = true ∨ j = 0)
    (hcommit : ¬ x'.pc.Committing) (hrep : ∀ i k, x'.pc ≠ .replicaLocked i k) :
    TxnOk P N t x' where
  pending := hpend.trans h.pending
  requests r hr hrt := absurd hrt (hq r hr)
  lockSent j hj := by
    rcases hlock j with hn | ha | rfl
    · exact absurd hj hn
    · exact .inl ha
    · exact .inr fun i _ hi => absurd hi (Nat.not_lt_zero i)
  committing hc := absurd hc hcommit
  keyUnique := hws ▸ h.keyUnique
  replica i k hk := absurd hk (hrep i k)

/-- In the lock loop and its `sync_messages` only `LOCK` pieces of keys the loop
has passed are in flight. -/
theorem TxnOk.lockReq (h : TxnOk P N t x) {q : Request} (hq : q ∈ N) (hqt : q.txn = t)
    (hpc : x.pc = .syncLock ∨ ∃ i, x.pc = .lockWriteSet i) :
    ∃ l k f, q = .lock l t k ∧ x.txn.writeSet[k]? = some f ∧ l = P.masterLoc f ∧
      ∀ i, x.pc = .lockWriteSet i → k < i := by
  have hok := h.requests q hq hqt
  cases q with
  | lock l t' k =>
    obtain ⟨hpos, f, hf, hl⟩ := hok
    refine ⟨l, k, f, by rw [← hqt]; rfl, hf, hl, fun i hi => ?_⟩
    rcases hpos with hp | ⟨j, hp, hk⟩ <;> rw [hi] at hp <;> cases hp; exact hk
  | _ => obtain ⟨hpos, -⟩ := hok; rcases hpc with hpc | ⟨i, hpc⟩ <;>
      simp [hpc, Pc.WrotePast, Pc.ReplicatedPast] at hpos

theorem TxnOk.read (h : TxnOk P N t x) {i : Nat} {e : ScarRWKey} {row : Row}
    (hpc : x.pc = .execute i) :
    TxnOk P N t ⟨.execute (i + 1), x.txn.readFilled i e row⟩ :=
  h.of_quiet (h.quiet (.inl ⟨i, hpc⟩)) rfl rfl (fun _ => .inl (by simp)) nofun nofun

theorem TxnOk.executeDone (h : TxnOk P N t x) {i : Nat} (hpc : x.pc = .execute i) :
    TxnOk P N t ⟨.lockWriteSet 0, x.txn⟩ :=
  h.of_quiet (h.quiet (.inl ⟨i, hpc⟩)) rfl rfl
    (fun j => by
      rcases Nat.eq_zero_or_pos j with rfl | hj
      · exact .inr (.inr rfl)
      · left; simp only [reduceCtorEq, false_and, Pc.lockWriteSet.injEq, false_or]; omega)
    (by simp [Pc.Committing]) (by simp)

/-- Granting the lock of key `i` keeps the granted keys apart when no other
granted key names its row. -/
theorem KeysUnique.lockGranted {txn : ScarTransaction} {i : Nat} {e : ScarRWKey}
    (hku : KeysUnique P txn.writeSet) (he : txn.writeSet[i]? = some e) (w r : Tid)
    (hfree : ∀ (j : Nat) (f : ScarRWKey), txn.writeSet[j]? = some f → f.writeLockBit = true →
      P.masterLoc f ≠ P.masterLoc e) :
    KeysUnique P (txn.lockGranted i e w r).writeSet := by
  intro a b f g ha hb hfa hgb hl
  rw [txn.lockGranted_writeSet he] at ha hb
  by_cases hai : a = i <;> by_cases hbi : b = i
  · rw [hai, hbi]
  · rw [if_pos hai] at ha; rw [if_neg hbi] at hb; cases ha
    exact absurd hl.symm (hfree b g hb hgb)
  · rw [if_neg hai] at ha; rw [if_pos hbi] at hb; cases hb
    exact absurd hl (hfree a f ha hfa)
  · rw [if_neg hai] at ha; rw [if_neg hbi] at hb
    exact hku a b f g ha hb hfa hgb hl

/-- `lock` granted on a local write key whose row no other granted key names. -/
theorem TxnOk.lockLocal (h : TxnOk P N t x) {i : Nat} {e : ScarRWKey} {w r : Tid}
    (hpc : x.pc = .lockWriteSet i) (he : x.txn.writeSet[i]? = some e)
    (hfree : ∀ (j : Nat) (f : ScarRWKey), x.txn.writeSet[j]? = some f → f.writeLockBit = true →
      P.masterLoc f ≠ P.masterLoc e) :
    TxnOk P N t ⟨if ScarHelper.getWts w ≠ ScarHelper.getWts r then .syncLock else .lockWriteSet (i + 1),
      x.txn.lockGranted i e w r⟩ := by
  have hws := x.txn.lockGranted_writeSet he w r
  have hlen : i < x.txn.writeSet.length := (List.getElem?_eq_some_iff.mp he).1
  refine ⟨h.pending, fun q hq hqt => ?_, fun j hj => ?_, fun hc => ?_,
    h.keyUnique.lockGranted he w r hfree, fun a k hk => ?_⟩
  · obtain ⟨l, k, f, rfl, hf, hl, hk⟩ := h.lockReq hq hqt (.inr ⟨i, hpc⟩)
    have hk := hk i hpc
    refine ⟨?_, f, by rw [hws, if_neg (by omega)]; exact hf, hl⟩
    split
    · exact .inl rfl
    · exact .inr ⟨i + 1, rfl, by omega⟩
  · split at hj
    · left; simp [ScarTransaction.lockGranted]; simp_all
    · simp only [reduceCtorEq, false_and, false_or, Pc.lockWriteSet.injEq] at hj
      subst hj
      rcases h.lockSent i (.inr hpc) with ha | hall
      · left; simp [ScarTransaction.lockGranted, ha]
      · right; intro a f ha hf
        rw [hws] at hf
        by_cases hai : a = i
        · subst hai; simp at hf; subst hf; simp
        · rw [if_neg hai] at hf; exact hall a f (by omega) hf
  · split at hc <;> simp [Pc.Committing] at hc
  · split at hk <;> simp at hk

theorem TxnOk.lockLocalFail (h : TxnOk P N t x) {i : Nat} (hpc : x.pc = .lockWriteSet i) :
    TxnOk P N t ⟨.syncLock, { x.txn with abortLock := true }⟩ := by
  refine ⟨h.pending, fun q hq hqt => ?_, fun _ _ => .inl rfl, nofun,
    h.keyUnique, nofun⟩
  obtain ⟨l, k, f, rfl, hf, hl, -⟩ := h.lockReq hq hqt (.inr ⟨i, hpc⟩)
  exact ⟨.inl rfl, f, hf, hl⟩

theorem TxnOk.lockRemote (h : TxnOk P N t x) {i : Nat} {e : ScarRWKey}
    (hpc : x.pc = .lockWriteSet i) (he : x.txn.writeSet[i]? = some e) :
    TxnOk P (.lock (P.masterLoc e) t i :: N) t
      ⟨.lockWriteSet (i + 1), { x.txn with pendingResponses := x.txn.pendingResponses + 1 }⟩ := by
  refine ⟨?_, fun q hq hqt => ?_, fun j hj => ?_, nofun,
    h.keyUnique, nofun⟩
  · simp [waitedOf_cons, h.pending, Request.txn, Request.Waited]
  · rcases List.mem_cons.mp hq with rfl | hq
    · exact ⟨.inr ⟨i + 1, rfl, by omega⟩, e, he, rfl⟩
    · obtain ⟨l, k, f, rfl, hf, hl, hk⟩ := h.lockReq hq hqt (.inr ⟨i, hpc⟩)
      exact ⟨.inr ⟨i + 1, rfl, by have := hk i hpc; omega⟩, f, hf, hl⟩
  · simp only [reduceCtorEq, false_and, Pc.lockWriteSet.injEq, false_or] at hj
    subst hj
    refine (h.lockSent i (.inr hpc)).imp id fun hall a f ha hf => ?_
    by_cases hai : a = i
    · subst hai; rw [he] at hf; cases hf; exact .inr (List.mem_cons_self _ _)
    · exact (hall a f (by omega) hf).imp_right (List.mem_cons_of_mem _)

theorem TxnOk.lockDone (h : TxnOk P N t x) {i : Nat} (hpc : x.pc = .lockWriteSet i)
    (hi : x.txn.writeSet.length ≤ i) : TxnOk P N t ⟨.syncLock, x.txn⟩ := by
  refine ⟨h.pending, fun q hq hqt => ?_, fun j hj => ?_, nofun,
    h.keyUnique, nofun⟩
  · obtain ⟨l, k, f, rfl, hf, hl, -⟩ := h.lockReq hq hqt (.inr ⟨i, hpc⟩)
    exact ⟨.inl rfl, f, hf, hl⟩
  · simp only [true_and, reduceCtorEq, or_false] at hj
    subst hj
    exact (h.lockSent i (.inr hpc)).imp id fun hall a f ha hf => hall a f (by omega) hf

theorem TxnOk.syncLockAbort (h : TxnOk P N t x) (hpc : x.pc = .syncLock)
    (h0 : x.txn.pendingResponses = 0) : TxnOk P N t ⟨.abort 0, x.txn⟩ :=
  h.of_quiet (h.drained (.inl hpc) h0) rfl rfl (fun _ => .inl (by simp)) nofun nofun

/-- Past the lock loop with nothing pending and `abort_lock` clear, every write
key holds its lock. -/
theorem TxnOk.syncLockCommit (h : TxnOk P N t x) (hpc : x.pc = .syncLock)
    (h0 : x.txn.pendingResponses = 0) (habort : x.txn.abortLock = false) :
    TxnOk P N t ⟨.validateReadSet 0, x.txn.computeCommitTs⟩ := by
  have hq := h.drained (.inl hpc) h0
  have hbits : ∀ e ∈ x.txn.writeSet, e.writeLockBit = true := by
    intro e he
    obtain ⟨a, ha, hae⟩ := List.getElem_of_mem he
    rcases h.lockSent _ (.inl ⟨hpc, rfl⟩) with hab | hall
    · simp [habort] at hab
    · exact (hall a e ha (by simp [← hae])).resolve_right fun hm => hq _ hm rfl
  refine ⟨h.pending, fun q hq' hqt => absurd hqt (hq q hq'), fun j hj => by simp at hj,
    fun _ => ⟨habort, fun e he => ⟨hbits e he, x.txn.rts_lt_commitWts he⟩⟩, h.keyUnique,
    nofun⟩

theorem TxnOk.serveLock (h : TxnOk P N t x) (hnodup : N.Nodup) {l : Loc} {i : Nat}
    {e : ScarRWKey} {w r : Tid} (hr : Request.lock l t i ∈ N) (he : x.txn.writeSet[i]? = some e)
    (hfree : ∀ (j : Nat) (f : ScarRWKey), x.txn.writeSet[j]? = some f → f.writeLockBit = true →
      P.masterLoc f ≠ P.masterLoc e) :
    TxnOk P (N.erase (.lock l t i)) t ⟨x.pc,
      { x.txn.lockGranted i e w r with pendingResponses := x.txn.pendingResponses - 1 }⟩ := by
  obtain ⟨hpos, e', he', hl⟩ := h.requests _ hr rfl
  rw [he] at he'; cases he'
  have hphase : x.pc = .syncLock ∨ ∃ j, x.pc = .lockWriteSet j := hpos.imp id fun ⟨j, hj, _⟩ => ⟨j, hj⟩
  have hws := x.txn.lockGranted_writeSet he w r
  refine ⟨?_, fun q hq hqt => ?_, fun j hj => ?_, fun hc => ?_,
    h.keyUnique.lockGranted he w r hfree, fun a k hk => ?_⟩
  · have := waitedOf_erase hr t
    simp only [Request.txn, Request.Waited, and_self, if_true] at this
    simp only [h.pending, this]; rfl
  · obtain ⟨hne, hq⟩ := (mem_erase_of_nodup hnodup).mp hq
    obtain ⟨l', k, f, rfl, hf, hl', hk⟩ := h.lockReq hq hqt hphase
    have hki : k ≠ i := fun hki => by subst hki; rw [he] at hf; cases hf; exact hne (by rw [hl, hl'])
    exact ⟨hpos.imp id fun ⟨j, hj, _⟩ => ⟨j, hj, hk j hj⟩, f, by rw [hws, if_neg hki]; exact hf, hl'⟩
  · have hj : x.pc = .syncLock ∧ j = x.txn.writeSet.length ∨ x.pc = .lockWriteSet j := by
      simpa [ScarTransaction.lockGranted] using hj
    rcases h.lockSent j hj with ha | hall
    · left; simp [ScarTransaction.lockGranted, ha]
    · by_cases hab : x.txn.abortLock = true
      · left; simp [ScarTransaction.lockGranted, hab]
      right; intro a f ha hf
      rw [hws] at hf
      by_cases hai : a = i
      · subst hai; simp at hf; subst hf; simp
      · rw [if_neg hai] at hf
        exact (hall a f ha hf).imp_right fun hm =>
          (mem_erase_of_nodup hnodup).mpr ⟨fun heq => by cases heq; exact hai rfl, hm⟩
  · rcases hphase with hp | ⟨j, hp⟩ <;> simp [hp, Pc.Committing] at hc
  · rcases hphase with hp | ⟨j, hp⟩ <;> simp [hp] at hk

theorem TxnOk.serveLockFail (h : TxnOk P N t x) (hnodup : N.Nodup) {l : Loc} {i : Nat}
    (hr : Request.lock l t i ∈ N) :
    TxnOk P (N.erase (.lock l t i)) t ⟨x.pc,
      { x.txn with abortLock := true, pendingResponses := x.txn.pendingResponses - 1 }⟩ := by
  obtain ⟨hpos, -⟩ := h.requests _ hr rfl
  have hphase : x.pc = .syncLock ∨ ∃ j, x.pc = .lockWriteSet j := hpos.imp id fun ⟨j, hj, _⟩ => ⟨j, hj⟩
  refine ⟨?_, fun q hq hqt => ?_, fun _ _ => .inl rfl, fun hc => ?_, h.keyUnique, fun a k hk => ?_⟩
  · have := waitedOf_erase hr t
    simp only [Request.txn, Request.Waited, and_self, if_true] at this
    simp only [h.pending, this]; rfl
  · obtain ⟨-, hq⟩ := (mem_erase_of_nodup hnodup).mp hq
    obtain ⟨l', k, f, rfl, hf, hl', hk⟩ := h.lockReq hq hqt hphase
    exact ⟨hpos.imp id fun ⟨j, hj, _⟩ => ⟨j, hj, hk j hj⟩, f, hf, hl'⟩
  · rcases hphase with hp | ⟨j, hp⟩ <;> simp [hp, Pc.Committing] at hc
  · rcases hphase with hp | ⟨j, hp⟩ <;> simp [hp] at hk

/-- In the validation loop and its `sync_messages` only `READ_VALIDATION` pieces
of read keys the loop has passed are in flight. -/
theorem TxnOk.validationReq (h : TxnOk P N t x) {q : Request} (hq : q ∈ N) (hqt : q.txn = t)
    (hpc : x.pc = .syncValidation ∨ ∃ i, x.pc = .validateReadSet i) :
    ∃ l k tid c f, q = .readValidation l t k tid c ∧ x.txn.readSet[k]? = some f ∧
      l = P.masterLoc f ∧ tid = f.tid ∧ c = x.txn.commitWts ∧
      ∀ i, x.pc = .validateReadSet i → k < i := by
  have hok := h.requests q hq hqt
  cases q with
  | readValidation l t' k tid c =>
    obtain ⟨hpos, f, hf, hl, htid, hc⟩ := hok
    refine ⟨l, k, tid, c, f, by rw [← hqt]; rfl, hf, hl, htid, hc, fun i hi => ?_⟩
    rcases hpos with hp | ⟨j, hp, hk⟩ <;> rw [hi] at hp <;> cases hp; exact hk
  | _ => obtain ⟨hpos, -⟩ := hok; rcases hpc with hpc | ⟨i, hpc⟩ <;>
      simp [hpc, Pc.WrotePast, Pc.ReplicatedPast] at hpos

/-- A move on the commit path that keeps the write set and the abort flag, and
keeps every piece in flight fitting. -/
theorem TxnOk.commitMove (h : TxnOk P N t x) {N' : List Request} {x' : TxnState}
    (hpc : x.pc.Committing) (hpc' : x'.pc.Committing)
    (hrep : ∀ i k, x'.pc = .replicaLocked i k → ∃ e : ScarRWKey,
      x.txn.writeSet[i]? = some e ∧ k ≠ P.masterCoordinator e.partitionId)
    (hws : x'.txn.writeSet = x.txn.writeSet) (habort : x'.txn.abortLock = x.txn.abortLock)
    (hcw : x'.txn.commitWts = x.txn.commitWts) (hpend : x'.txn.pendingResponses = waitedOf N' t)
    (hreq : ∀ q ∈ N', q.txn = t → ReqOk P x' q) : TxnOk P N' t x' where
  pending := hpend
  requests := hreq
  lockSent j hj := by rcases hj with ⟨hj, -⟩ | hj <;> rw [hj] at hpc' <;> simp [Pc.Committing] at hpc'
  committing _ := by rw [hws, habort, hcw]; exact h.committing hpc
  keyUnique := hws ▸ h.keyUnique
  replica i k hk := hws ▸ hrep i k hk

theorem TxnOk.validateSkip (h : TxnOk P N t x) {i : Nat} (hpc : x.pc = .validateReadSet i) :
    TxnOk P N t ⟨.validateReadSet (i + 1), x.txn⟩ := by
  refine h.commitMove (hpc ▸ trivial) trivial nofun rfl rfl rfl
    h.pending fun q hq hqt => ?_
  obtain ⟨l, k, tid, c, f, rfl, hf, hl, htid, hc, hk⟩ := h.validationReq hq hqt (.inr ⟨i, hpc⟩)
  exact ⟨.inr ⟨i + 1, rfl, by have := hk i hpc; omega⟩, f, hf, hl, htid, hc⟩

theorem TxnOk.validateLocal (h : TxnOk P N t x) {i : Nat} {e : ScarRWKey} {w : Tid}
    (hpc : x.pc = .validateReadSet i) :
    TxnOk P N t ⟨.validateReadSet (i + 1), x.txn.validationPassed i e w⟩ := by
  refine h.commitMove (hpc ▸ trivial) trivial nofun rfl rfl rfl
    h.pending fun q hq hqt => ?_
  obtain ⟨l, k, tid, c, f, rfl, hf, hl, htid, hc, hk⟩ := h.validationReq hq hqt (.inr ⟨i, hpc⟩)
  have hk := hk i hpc
  exact ⟨.inr ⟨i + 1, rfl, by omega⟩, f,
    by rw [ScarTransaction.validationPassed_readSet_ne _ _ (by omega)]; exact hf, hl, htid, hc⟩

theorem TxnOk.validateLocalFail (h : TxnOk P N t x) {i : Nat} (hpc : x.pc = .validateReadSet i) :
    TxnOk P N t ⟨.syncValidation, { x.txn with abortReadValidation := true }⟩ := by
  refine h.commitMove (hpc ▸ trivial) trivial nofun rfl rfl rfl
    h.pending fun q hq hqt => ?_
  obtain ⟨l, k, tid, c, f, rfl, hf, hl, htid, hc, -⟩ := h.validationReq hq hqt (.inr ⟨i, hpc⟩)
  exact ⟨.inl rfl, f, hf, hl, htid, hc⟩

theorem TxnOk.validateRemote (h : TxnOk P N t x) {i : Nat} {e : ScarRWKey}
    (hpc : x.pc = .validateReadSet i) (he : x.txn.readSet[i]? = some e) :
    TxnOk P (.readValidation (P.masterLoc e) t i e.tid x.txn.commitWts :: N) t
      ⟨.validateReadSet (i + 1), { x.txn with pendingResponses := x.txn.pendingResponses + 1 }⟩ := by
  refine h.commitMove (hpc ▸ trivial) trivial nofun rfl rfl rfl
    (by simp [waitedOf_cons, h.pending, Request.txn, Request.Waited]) fun q hq hqt => ?_
  rcases List.mem_cons.mp hq with rfl | hq
  · exact ⟨.inr ⟨i + 1, rfl, by omega⟩, e, he, rfl, rfl, rfl⟩
  · obtain ⟨l, k, tid, c, f, rfl, hf, hl, htid, hc, hk⟩ := h.validationReq hq hqt (.inr ⟨i, hpc⟩)
    exact ⟨.inr ⟨i + 1, rfl, by have := hk i hpc; omega⟩, f, hf, hl, htid, hc⟩

theorem TxnOk.validateDone (h : TxnOk P N t x) {i : Nat} (hpc : x.pc = .validateReadSet i) :
    TxnOk P N t ⟨.syncValidation, x.txn⟩ := by
  refine h.commitMove (hpc ▸ trivial) trivial nofun rfl rfl rfl
    h.pending fun q hq hqt => ?_
  obtain ⟨l, k, tid, c, f, rfl, hf, hl, htid, hc, -⟩ := h.validationReq hq hqt (.inr ⟨i, hpc⟩)
  exact ⟨.inl rfl, f, hf, hl, htid, hc⟩

theorem TxnOk.syncValidationAbort (h : TxnOk P N t x) (hpc : x.pc = .syncValidation)
    (h0 : x.txn.pendingResponses = 0) : TxnOk P N t ⟨.abort 0, x.txn⟩ :=
  h.of_quiet (h.drained (.inr (.inl hpc)) h0) rfl rfl (fun _ => .inl (by simp)) nofun nofun

theorem TxnOk.syncValidationCommit (h : TxnOk P N t x) (hpc : x.pc = .syncValidation)
    (h0 : x.txn.pendingResponses = 0) : TxnOk P N t ⟨.writeAndReplicate 0, x.txn⟩ :=
  h.commitMove (hpc ▸ trivial) trivial nofun rfl rfl rfl
    h.pending fun q hq hqt => absurd hqt (h.drained (.inr (.inl hpc)) h0 q hq)

theorem TxnOk.serveValidation (h : TxnOk P N t x) (hnodup : N.Nodup) {l : Loc} {i : Nat}
    {tid : Tid} {c : Nat} {e : ScarRWKey} {w : Tid} (hr : Request.readValidation l t i tid c ∈ N)
    (he : x.txn.readSet[i]? = some e) :
    TxnOk P (N.erase (.readValidation l t i tid c)) t ⟨x.pc,
      { x.txn.validationPassed i e w with pendingResponses := x.txn.pendingResponses - 1 }⟩ := by
  obtain ⟨hpos, e', he', hl, htid, hc⟩ := h.requests _ hr rfl
  rw [he] at he'; cases he'
  have hphase : x.pc = .syncValidation ∨ ∃ j, x.pc = .validateReadSet j :=
    hpos.imp id fun ⟨j, hj, _⟩ => ⟨j, hj⟩
  have hcom : x.pc.Committing := by rcases hphase with hp | ⟨j, hp⟩ <;> simp [hp, Pc.Committing]
  refine h.commitMove hcom hcom (fun a k hk => by rcases hphase with hp | ⟨j, hp⟩ <;> simp [hp] at hk)
    rfl rfl rfl ?_ fun q hq hqt => ?_
  · have := waitedOf_erase hr t
    simp only [Request.txn, Request.Waited, and_self, if_true] at this
    simp only [h.pending, this]; rfl
  · obtain ⟨hne, hq⟩ := (mem_erase_of_nodup hnodup).mp hq
    obtain ⟨l', k, tid', c', f, rfl, hf, hl', htid', hc', hk⟩ := h.validationReq hq hqt hphase
    have hki : k ≠ i := fun hki => by
      subst hki; rw [he] at hf; cases hf; exact hne (by rw [hl, hl', htid, htid', hc, hc'])
    exact ⟨hpos.imp id fun ⟨j, hj, _⟩ => ⟨j, hj, hk j hj⟩, f,
      by rw [ScarTransaction.validationPassed_readSet_ne _ _ hki]; exact hf, hl', htid', hc'⟩

theorem TxnOk.serveValidationFail (h : TxnOk P N t x) (hnodup : N.Nodup) {l : Loc} {i : Nat}
    {tid : Tid} {c : Nat} (hr : Request.readValidation l t i tid c ∈ N) :
    TxnOk P (N.erase (.readValidation l t i tid c)) t ⟨x.pc,
      { x.txn with
        abortReadValidation := true
        pendingResponses := x.txn.pendingResponses - 1 }⟩ := by
  obtain ⟨hpos, -⟩ := h.requests _ hr rfl
  have hphase : x.pc = .syncValidation ∨ ∃ j, x.pc = .validateReadSet j :=
    hpos.imp id fun ⟨j, hj, _⟩ => ⟨j, hj⟩
  have hcom : x.pc.Committing := by rcases hphase with hp | ⟨j, hp⟩ <;> simp [hp, Pc.Committing]
  refine h.commitMove hcom hcom (fun a k hk => by rcases hphase with hp | ⟨j, hp⟩ <;> simp [hp] at hk)
    rfl rfl rfl ?_ fun q hq hqt => ?_
  · have := waitedOf_erase hr t
    simp only [Request.txn, Request.Waited, and_self, if_true] at this
    simp only [h.pending, this]; rfl
  · obtain ⟨-, hq⟩ := (mem_erase_of_nodup hnodup).mp hq
    obtain ⟨l', k, tid', c', f, rfl, hf, hl', htid', hc', hk⟩ := h.validationReq hq hqt hphase
    exact ⟨hpos.imp id fun ⟨j, hj, _⟩ => ⟨j, hj, hk j hj⟩, f, hf, hl', htid', hc'⟩

/-- In the write loop and its `sync_messages` only `WRITE` and `REPLICATION`
pieces the loop has passed are in flight. -/
theorem TxnOk.writeReq (h : TxnOk P N t x) {q : Request} (hq : q ∈ N) (hqt : q.txn = t)
    (hpc : x.pc = .syncWrite ∨ (∃ i, x.pc = .writeAndReplicate i) ∨ (∃ i k, x.pc = .replicate i k) ∨
      ∃ i k, x.pc = .replicaLocked i k) :
    (∃ l v i e, q = .write l v t i ∧ x.pc.WrotePast i ∧ x.txn.writeSet[i]? = some e ∧
      l = P.masterLoc e ∧ v = e.value) ∨
    ∃ l v c i e, q = .replication l v c t i ∧ x.pc.ReplicatedPast i l.coordinator ∧
      x.txn.writeSet[i]? = some e ∧ l = replicaLoc e l.coordinator ∧ v = e.value ∧
        c = x.txn.commitWts ∧ l.coordinator ≠ P.masterCoordinator e.partitionId := by
  have hok := h.requests q hq hqt
  cases q with
  | write l v t' i => exact .inl ⟨l, v, i, _, by rw [← hqt]; rfl, hok.1, hok.2.choose_spec⟩
  | replication l v c t' i => exact .inr ⟨l, v, c, i, _, by rw [← hqt]; rfl, hok.1, hok.2.choose_spec⟩
  | _ => obtain ⟨hpos, -⟩ := hok; rcases hpc with hpc | ⟨i, hpc⟩ | ⟨i, k, hpc⟩ | ⟨i, k, hpc⟩ <;>
      simp [hpc] at hpos

/-- A move forward in the write loop keeps every piece in flight fitting. -/
theorem TxnOk.writeMove (h : TxnOk P N t x) {N' : List Request} {pc' : Pc} {n : Nat}
    (hpc : x.pc = .syncWrite ∨ (∃ i, x.pc = .writeAndReplicate i) ∨ (∃ i k, x.pc = .replicate i k) ∨
      ∃ i k, x.pc = .replicaLocked i k)
    (hpc' : pc'.Committing)
    (hrep : ∀ i k, pc' = .replicaLocked i k → ∃ e : ScarRWKey,
      x.txn.writeSet[i]? = some e ∧ k ≠ P.masterCoordinator e.partitionId)
    (hpend : n = waitedOf N' t)
    (hwrote : ∀ i, x.pc.WrotePast i → pc'.WrotePast i)
    (hrepl : ∀ i k, x.pc.ReplicatedPast i k → pc'.ReplicatedPast i k)
    (hnew : ∀ q ∈ N', q.txn = t → q ∉ N → ReqOk P ⟨pc', { x.txn with pendingResponses := n }⟩ q) :
    TxnOk P N' t ⟨pc', { x.txn with pendingResponses := n }⟩ := by
  have hcom : x.pc.Committing := by
    rcases hpc with hp | ⟨i, hp⟩ | ⟨i, k, hp⟩ | ⟨i, k, hp⟩ <;> simp [hp, Pc.Committing]
  refine h.commitMove hcom hpc' hrep rfl rfl rfl hpend fun q hq hqt => ?_
  by_cases hqN : q ∈ N
  · rcases h.writeReq hqN hqt hpc with ⟨l, v, i, e, rfl, hw, he, hl, hv⟩ |
      ⟨l, v, c, i, e, rfl, hw, he, hl, hv, hc, hm⟩
    · exact ⟨hwrote i hw, e, he, hl, hv⟩
    · exact ⟨hrepl i _ hw, e, he, hl, hv, hc, hm⟩
  · exact hnew q hq hqt hqN

theorem TxnOk.writeLocal (h : TxnOk P N t x) {i : Nat} (hpc : x.pc = .writeAndReplicate i) :
    TxnOk P N t ⟨.replicate i 0, x.txn⟩ :=
  h.writeMove (n := x.txn.pendingResponses) (.inr (.inl ⟨i, hpc⟩)) trivial nofun h.pending
    (fun j hj => by simp [hpc, Pc.WrotePast] at hj ⊢; omega)
    (fun j k hj => by simp [hpc, Pc.ReplicatedPast] at hj ⊢; omega) fun _ _ _ hq => absurd ‹_› hq

theorem TxnOk.writeRemote (h : TxnOk P N t x) {i : Nat} {e : ScarRWKey}
    (hpc : x.pc = .writeAndReplicate i) (he : x.txn.writeSet[i]? = some e) :
    TxnOk P (.write (P.masterLoc e) e.value t i :: N) t
      ⟨.replicate i 0, { x.txn with pendingResponses := x.txn.pendingResponses + 1 }⟩ :=
  h.writeMove (.inr (.inl ⟨i, hpc⟩)) trivial nofun
    (by simp [waitedOf_cons, h.pending, Request.txn, Request.Waited])
    (fun j hj => by simp [hpc, Pc.WrotePast] at hj ⊢; omega)
    (fun j k hj => by simp [hpc, Pc.ReplicatedPast] at hj ⊢; omega) fun q hq _ hqN => by
      rcases List.mem_cons.mp hq with rfl | hq
      · exact ⟨le_refl i, e, he, rfl, rfl⟩
      · exact absurd hq hqN

theorem TxnOk.writeDone (h : TxnOk P N t x) {i : Nat} (hpc : x.pc = .writeAndReplicate i) :
    TxnOk P N t ⟨.syncWrite, x.txn⟩ :=
  h.writeMove (n := x.txn.pendingResponses) (.inr (.inl ⟨i, hpc⟩)) trivial nofun h.pending
    (fun _ _ => trivial) (fun _ _ _ => trivial) fun _ _ _ hq => absurd ‹_› hq

/-- One more coordinator of the replication loop of key `i`. -/
theorem TxnOk.replicateNext (h : TxnOk P N t x) {i k : Nat}
    (hpc : x.pc = .replicate i k ∨ x.pc = .replicaLocked i k) :
    TxnOk P N t ⟨.replicate i (k + 1), x.txn⟩ := by
  have hpc' : x.pc = .syncWrite ∨ (∃ i, x.pc = .writeAndReplicate i) ∨
      (∃ i k, x.pc = .replicate i k) ∨ ∃ i k, x.pc = .replicaLocked i k := by
    rcases hpc with hp | hp
    · exact .inr (.inr (.inl ⟨i, k, hp⟩))
    · exact .inr (.inr (.inr ⟨i, k, hp⟩))
  refine h.writeMove (n := x.txn.pendingResponses) hpc' trivial nofun h.pending
    (fun j hj => ?_) (fun j c hj => ?_) fun _ _ _ hq => absurd ‹_› hq
  · rcases hpc with hp | hp <;> simp [hp, Pc.WrotePast] at hj ⊢ <;> omega
  · rcases hpc with hp | hp <;> simp [hp, Pc.ReplicatedPast] at hj ⊢ <;> omega

theorem TxnOk.replicateLock (h : TxnOk P N t x) {i k : Nat} {e : ScarRWKey}
    (hpc : x.pc = .replicate i k) (he : x.txn.writeSet[i]? = some e)
    (hmaster : k ≠ P.masterCoordinator e.partitionId) :
    TxnOk P N t ⟨.replicaLocked i k, x.txn⟩ :=
  h.writeMove (n := x.txn.pendingResponses) (.inr (.inr (.inl ⟨i, k, hpc⟩))) trivial
    (fun a b hab => by cases hab; exact ⟨e, he, hmaster⟩) h.pending
    (fun j hj => by simpa [hpc, Pc.WrotePast] using hj)
    (fun j c hj => by simpa [hpc, Pc.ReplicatedPast] using hj) fun _ _ _ hq => absurd ‹_› hq

theorem TxnOk.replicateRemote (h : TxnOk P N t x) {i k : Nat} {e : ScarRWKey}
    (hpc : x.pc = .replicate i k) (he : x.txn.writeSet[i]? = some e)
    (hmaster : k ≠ P.masterCoordinator e.partitionId) :
    TxnOk P (.replication (replicaLoc e k) e.value x.txn.commitWts t i :: N) t
      ⟨.replicate i (k + 1), { x.txn with pendingResponses := x.txn.pendingResponses + 1 }⟩ :=
  h.writeMove (.inr (.inr (.inl ⟨i, k, hpc⟩))) trivial nofun
    (by simp [waitedOf_cons, h.pending, Request.txn, Request.Waited])
    (fun j hj => by simpa [hpc, Pc.WrotePast] using hj)
    (fun j c hj => by simp [hpc, Pc.ReplicatedPast] at hj ⊢; omega) fun q hq _ hqN => by
      rcases List.mem_cons.mp hq with rfl | hq
      · exact ⟨.inr ⟨rfl, by simp [replicaLoc]⟩, e, he, rfl, rfl, rfl, hmaster⟩
      · exact absurd hq hqN

theorem TxnOk.replicateDone (h : TxnOk P N t x) {i k : Nat} (hpc : x.pc = .replicate i k) :
    TxnOk P N t ⟨.writeAndReplicate (i + 1), x.txn⟩ :=
  h.writeMove (n := x.txn.pendingResponses) (.inr (.inr (.inl ⟨i, k, hpc⟩))) trivial nofun
    h.pending (fun j hj => by simp [hpc, Pc.WrotePast] at hj ⊢; omega)
    (fun j c hj => by simp [hpc, Pc.ReplicatedPast] at hj ⊢; omega) fun _ _ _ hq => absurd ‹_› hq

theorem TxnOk.syncWriteDone (h : TxnOk P N t x) (hpc : x.pc = .syncWrite)
    (h0 : x.txn.pendingResponses = 0) : TxnOk P N t ⟨.releaseLock 0, x.txn⟩ :=
  h.commitMove (hpc ▸ trivial) trivial nofun rfl rfl rfl h.pending
    fun q hq hqt => absurd hqt (h.drained (.inr (.inr hpc)) h0 q hq)

/-- A served `WRITE` or `REPLICATION` piece: one response less to wait for. -/
theorem TxnOk.serveWritten (h : TxnOk P N t x) (hnodup : N.Nodup) {r : Request} (hr : r ∈ N)
    (hrt : r.txn = t) (hw : r.Waited)
    (hkind : (∃ l v i, r = .write l v t i) ∨ ∃ l v c i, r = .replication l v c t i) :
    TxnOk P (N.erase r) t ⟨x.pc, { x.txn with pendingResponses := x.txn.pendingResponses - 1 }⟩ := by
  have hpc : x.pc = .syncWrite ∨ (∃ i, x.pc = .writeAndReplicate i) ∨
      (∃ i k, x.pc = .replicate i k) ∨ ∃ i k, x.pc = .replicaLocked i k := by
    have hok := h.requests r hr hrt
    rcases hkind with ⟨l, v, i, rfl⟩ | ⟨l, v, c, i, rfl⟩ <;>
      obtain ⟨hp, -⟩ := hok <;> generalize x.pc = pc at hp <;> cases pc <;>
      simp_all [Pc.WrotePast, Pc.ReplicatedPast]
  have hcom : x.pc.Committing := by
    rcases hpc with hp | ⟨i, hp⟩ | ⟨i, k, hp⟩ | ⟨i, k, hp⟩ <;> simp [hp, Pc.Committing]
  refine h.writeMove hpc hcom (fun i k hk => h.replica i k hk)
    (by rw [waitedOf_erase_waited hr hrt hw, h.pending]) (fun _ => id) (fun _ _ => id)
    fun q hq _ hqN => absurd ((mem_erase_of_nodup hnodup).mp hq).2 hqN

/-- In the release loop and after it only `RELEASE_LOCK` pieces of keys the loop
has passed are in flight, in the abort loop and after it only `ABORT` pieces. -/
theorem TxnOk.unlockReq (h : TxnOk P N t x) {q : Request} (hq : q ∈ N) (hqt : q.txn = t)
    {b : Bool} (hpc : x.pc = .returned b ∨ ∃ i, x.pc = (if b then .releaseLock i else .abort i)) :
    ∃ k e, q.Unlocks t k ∧ x.txn.writeSet[k]? = some e ∧ e.writeLockBit = true ∧
      (q = if b then .releaseLock (P.masterLoc e) x.txn.commitWts t k else .abort (P.masterLoc e) t k) ∧
      ∀ i, x.pc = (if b then .releaseLock i else .abort i) → k < i := by
  have hok := h.requests q hq hqt
  cases q with
  | releaseLock l c t' k =>
    obtain ⟨hpos, e, he, hl, hbit, hc⟩ := hok
    cases b
    · rcases hpc with hp | ⟨i, hp⟩ <;> simp [hp] at hpos
    · refine ⟨k, e, ⟨hqt, rfl⟩, he, hbit, by simp [hl, hc, ← hqt, Request.txn], fun i hi => ?_⟩
      rcases hpos with hp | ⟨j, hp, hk⟩ <;> simp only [if_true] at hi <;> rw [hi] at hp <;>
        cases hp; exact hk
  | abort l t' k =>
    obtain ⟨hpos, e, he, hl, hbit⟩ := hok
    cases b
    · refine ⟨k, e, ⟨hqt, rfl⟩, he, hbit, by simp [hl, ← hqt, Request.txn], fun i hi => ?_⟩
      rcases hpos with hp | ⟨j, hp, hk⟩ <;> simp only [Bool.false_eq_true, if_false] at hi <;>
        rw [hi] at hp <;> cases hp; exact hk
    · rcases hpc with hp | ⟨i, hp⟩ <;> simp [hp] at hpos
  | _ => obtain ⟨hpos, -⟩ := hok; rcases hpc with hp | ⟨i, hp⟩ <;> cases b <;>
      simp [hp, Pc.WrotePast, Pc.ReplicatedPast] at hpos

/-- A move forward in the release or the abort loop. -/
theorem TxnOk.unlockMove (h : TxnOk P N t x) {N' : List Request} {b : Bool} {pc' : Pc}
    (hpc : x.pc = .returned b ∨ ∃ i, x.pc = (if b then .releaseLock i else .abort i))
    (hpc' : pc' = .returned b ∨ ∃ i, pc' = (if b then .releaseLock i else .abort i))
    (hpend : x.txn.pendingResponses = waitedOf N' t)
    (hpast : ∀ k, (∀ i, x.pc = (if b then .releaseLock i else .abort i) → k < i) →
      ∀ i, pc' = (if b then .releaseLock i else .abort i) → k < i)
    (hnew : ∀ q ∈ N', q.txn = t → q ∉ N → ReqOk P ⟨pc', x.txn⟩ q) :
    TxnOk P N' t ⟨pc', x.txn⟩ := by
  refine ⟨hpend, fun q hq hqt => ?_, fun j hj => ?_, fun hc => ?_, h.keyUnique, fun i k hk => ?_⟩
  · by_cases hqN : q ∈ N
    · obtain ⟨k, e, -, he, hbit, rfl, hk⟩ := h.unlockReq hqN hqt hpc
      have hk := hpast k hk
      cases b
      · exact ⟨hpc'.imp id fun ⟨i, hi⟩ => ⟨i, hi, hk i hi⟩, e, he, rfl, hbit⟩
      · exact ⟨hpc'.imp id fun ⟨i, hi⟩ => ⟨i, hi, hk i hi⟩, e, he, rfl, hbit, rfl⟩
    · exact hnew q hq hqt hqN
  · rcases hpc' with hp | ⟨i, hp⟩ <;> cases b <;> simp [hp] at hj
  · cases b
    · rcases hpc' with hp | ⟨i, hp⟩ <;> simp [hp, Pc.Committing] at hc
    · have hcom : x.pc.Committing := by rcases hpc with hp | ⟨i, hp⟩ <;> simp [hp, Pc.Committing]
      exact h.committing hcom
  · rcases hpc' with hp | ⟨i, hp⟩ <;> cases b <;> simp [hp] at hk

theorem TxnOk.releaseNext (h : TxnOk P N t x) {i : Nat} (hpc : x.pc = .releaseLock i) :
    TxnOk P N t ⟨.releaseLock (i + 1), x.txn⟩ :=
  h.unlockMove (b := true) (.inr ⟨i, hpc⟩) (.inr ⟨i + 1, rfl⟩) h.pending
    (fun k hk j hj => by cases hj; have := hk i hpc; omega) fun _ _ _ hq => absurd ‹_› hq

theorem TxnOk.releaseRemote (h : TxnOk P N t x) {i : Nat} {e : ScarRWKey}
    (hpc : x.pc = .releaseLock i) (he : x.txn.writeSet[i]? = some e) :
    TxnOk P (.releaseLock (P.masterLoc e) x.txn.commitWts t i :: N) t
      ⟨.releaseLock (i + 1), x.txn⟩ := by
  have hbit := ((h.committing (by simp [hpc, Pc.Committing])).2 e (List.getElem?_mem he)).1
  refine h.unlockMove (b := true) (.inr ⟨i, hpc⟩) (.inr ⟨i + 1, rfl⟩)
    (by simp [waitedOf_cons, h.pending, Request.txn, Request.Waited])
    (fun k hk j hj => by cases hj; have := hk i hpc; omega) fun q hq _ hqN => ?_
  rcases List.mem_cons.mp hq with rfl | hq
  · exact ⟨.inr ⟨i + 1, rfl, by omega⟩, e, he, rfl, hbit, rfl⟩
  · exact absurd hq hqN

theorem TxnOk.releaseDone (h : TxnOk P N t x) {i : Nat} (hpc : x.pc = .releaseLock i) :
    TxnOk P N t ⟨.returned true, x.txn⟩ :=
  h.unlockMove (b := true) (.inr ⟨i, hpc⟩) (.inl rfl) h.pending (fun _ _ _ hj => by cases hj)
    fun _ _ _ hq => absurd ‹_› hq

theorem TxnOk.abortNext (h : TxnOk P N t x) {i : Nat} (hpc : x.pc = .abort i) :
    TxnOk P N t ⟨.abort (i + 1), x.txn⟩ :=
  h.unlockMove (b := false) (.inr ⟨i, hpc⟩) (.inr ⟨i + 1, rfl⟩) h.pending
    (fun k hk j hj => by cases hj; have := hk i hpc; omega) fun _ _ _ hq => absurd ‹_› hq

theorem TxnOk.abortRemote (h : TxnOk P N t x) {i : Nat} {e : ScarRWKey}
    (hpc : x.pc = .abort i) (he : x.txn.writeSet[i]? = some e) (hbit : e.writeLockBit = true) :
    TxnOk P (.abort (P.masterLoc e) t i :: N) t ⟨.abort (i + 1), x.txn⟩ := by
  refine h.unlockMove (b := false) (.inr ⟨i, hpc⟩) (.inr ⟨i + 1, rfl⟩)
    (by simp [waitedOf_cons, h.pending, Request.txn, Request.Waited])
    (fun k hk j hj => by cases hj; have := hk i hpc; omega) fun q hq _ hqN => ?_
  rcases List.mem_cons.mp hq with rfl | hq
  · exact ⟨.inr ⟨i + 1, rfl, by omega⟩, e, he, rfl, hbit⟩
  · exact absurd hq hqN

theorem TxnOk.abortDone (h : TxnOk P N t x) {i : Nat} (hpc : x.pc = .abort i) :
    TxnOk P N t ⟨.returned false, x.txn⟩ :=
  h.unlockMove (b := false) (.inr ⟨i, hpc⟩) (.inl rfl) h.pending (fun _ _ _ hj => by cases hj)
    fun _ _ _ hq => absurd ‹_› hq

/-- A served `RELEASE_LOCK` or `ABORT` piece changes nothing the transaction keeps. -/
theorem TxnOk.serveUnlock (h : TxnOk P N t x) (hnodup : N.Nodup) {r : Request} (hr : r ∈ N)
    {i : Nat} (hu : r.Unlocks t i) : TxnOk P (N.erase r) t x := by
  have hw : ¬ r.Waited := by cases r <;> simp_all [Request.Unlocks, Request.Waited]
  refine ⟨by rw [waitedOf_erase_unwaited hr hw]; exact h.pending,
    fun q hq hqt => h.requests q ((mem_erase_of_nodup hnodup).mp hq).2 hqt,
    fun j hj => (h.lockSent j hj).imp_right fun hall a f ha hf => (hall a f ha hf).imp_right
      fun hm => (mem_erase_of_nodup hnodup).mpr ⟨fun heq => by simp [← heq, Request.Unlocks] at hu, hm⟩,
    h.committing, h.keyUnique, h.replica⟩

end Coco.Scar
