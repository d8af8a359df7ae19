import Coco.Scar.Locking
import Coco.Scar.Runs

/-!
What `Scar::commit` has done to shared state when it returns. `abort` unlocks
the local write keys whose `write_lock_bit` is set and sends `ABORT` for the
remote ones with `sync_messages(txn, false)`, so `commit` returns false without
waiting for the remote unlocks; `release_lock` does the same with
`RELEASE_LOCK` on the commit path.

`EffectsOk` ties the ghost log of a transaction's effects to where it is in
`commit`, and every step keeps it. From it, when `commit` has returned false:
no table was written and no `WRITE`, `REPLICATION` or `RELEASE_LOCK` piece
sent; each local row it locked was unlocked once, back to the word its lock
replaced; and one `ABORT` piece went out for each remote row it locked. On
every path a row is locked at most once, and unlocked once unless the
transaction still holds it, which after `commit` returns means that the row's
unlock piece is still in flight.
-/

namespace Coco.Scar

namespace Pc

/-- Executing, locking or validating: before the abort, write and release loops. -/
def Deciding : Pc → Prop
  | .execute _ | .lockWriteSet _ | .syncLock | .validateReadSet _ | .syncValidation => True
  | _ => False

/-- Past validation, on the way to `return true`. -/
def Writing : Pc → Prop
  | .writeAndReplicate _ | .replicate .. | .replicaLocked .. | .syncWrite | .releaseLock _
  | .returned true => True
  | _ => False

/-- Before the release and abort loops. -/
def BeforeRelease : Pc → Prop
  | .releaseLock _ | .abort _ | .returned _ => False
  | _ => True

/-- The abort loop has passed write key `i`. -/
def AbortedPast (i : Nat) : Pc → Prop
  | .abort j => i < j
  | .returned false => True
  | _ => False

theorem Deciding.beforeRelease {pc : Pc} (h : pc.Deciding) : pc.BeforeRelease := by
  cases pc <;> trivial

theorem Deciding.not_writing {pc : Pc} (h : pc.Deciding) : ¬ pc.Writing := by
  cases pc <;> simp_all [Deciding, Writing]

theorem Deciding.not_replicatedPast {pc : Pc} (h : pc.Deciding) (i k : Nat) :
    ¬ pc.ReplicatedPast i k := by
  cases pc <;> simp_all [Deciding, ReplicatedPast]

theorem Deciding.not_abortedPast {pc : Pc} (h : pc.Deciding) (i : Nat) : ¬ pc.AbortedPast i := by
  cases pc <;> simp_all [Deciding, AbortedPast]

theorem WrotePast.writing {pc : Pc} {i : Nat} (h : pc.WrotePast i) : pc.Writing := by
  cases pc <;> trivial

theorem ReplicatedPast.writing {pc : Pc} {i k : Nat} (h : pc.ReplicatedPast i k) : pc.Writing := by
  cases pc <;> trivial

theorem Writing.not_abortedPast {pc : Pc} (h : pc.Writing) (i : Nat) : ¬ pc.AbortedPast i := by
  cases pc with
  | returned b => cases b <;> simp_all [Writing, AbortedPast]
  | _ => simp_all [Writing, AbortedPast]

end Pc

namespace Effect

/-- An effect of the write and release loops: a table write, or a `WRITE`,
`REPLICATION` or `RELEASE_LOCK` piece. -/
def CommitOnly : Effect → Prop
  | write .. | send (.write ..) | send (.replication ..) | send (.releaseLock ..) => True
  | _ => False

/-- The effect sets `LOCK` on row `l`. -/
def locks (l : Loc) : Effect → Bool
  | lock m _ => decide (m = l)
  | _ => false

/-- The effect clears `LOCK` on row `l`. -/
def unlocks (l : Loc) : Effect → Bool
  | unlock m _ => decide (m = l)
  | _ => false

variable (l m : Loc) (w : Tid) (v : Nat) (r : Request)

@[simp] theorem locks_lock : (lock m w).locks l = decide (m = l) := rfl
@[simp] theorem locks_unlock : (unlock m w).locks l = false := rfl
@[simp] theorem locks_write : (write m v).locks l = false := rfl
@[simp] theorem locks_send : (send r).locks l = false := rfl
@[simp] theorem unlocks_lock : (lock m w).unlocks l = false := rfl
@[simp] theorem unlocks_unlock : (unlock m w).unlocks l = decide (m = l) := rfl
@[simp] theorem unlocks_write : (write m v).unlocks l = false := rfl
@[simp] theorem unlocks_send : (send r).unlocks l = false := rfl

end Effect

variable {P : Placement}

/-- Write key `i` of the write set holds its lock bit. -/
def HasLockBit (writeSet : List ScarRWKey) (i : Nat) : Prop :=
  ∃ e : ScarRWKey, writeSet[i]? = some e ∧ e.writeLockBit = true

/-- What the effect log of transaction `t` says about where it is in `commit`. -/
structure EffectsOk (P : Placement) (s : System) (t : Nat) : Prop where
  /-- A piece of `t` in flight was sent by `t`. -/
  sent : ∀ r ∈ s.network, r.txn = t → Effect.send r ∈ s.events t
  /-- Writes and the pieces of the write and release loops come after validation. -/
  commitOnly : ∀ ev ∈ s.events t, ev.CommitOnly → (s.txns t).pc.Writing
  /-- A key with its lock bit was locked by `t` on the unlocked word the key keeps. -/
  locked : ∀ (i : Nat) (e : ScarRWKey), (s.txns t).txn.writeSet[i]? = some e → e.writeLockBit = true →
    e.tid.locked = false ∧ Effect.lock (P.masterLoc e) e.tid ∈ s.events t
  /-- A row `t` locked has been unlocked as often, but once while `t` owns it. -/
  balanced : ∀ l, (s.events t).countP (Effect.locks l) =
    (s.events t).countP (Effect.unlocks l) + if s.owner l = some t then 1 else 0
  lockedOnce : ∀ l, (s.events t).countP (Effect.locks l) ≤ 1
  /-- Before the release and abort loops, the rows `t` unlocked are the local
  replicas the replication loop has passed. -/
  unlocked : (s.txns t).pc.BeforeRelease → ∀ l w, Effect.unlock l w ∈ s.events t →
    ∃ (i k : Nat) (e : ScarRWKey), (s.txns t).txn.writeSet[i]? = some e ∧ l = replicaLoc e k ∧
      (s.txns t).pc.ReplicatedPast i k
  /-- The `ABORT` pieces `t` sent are for remote keys with the lock bit that the
  abort loop has passed. -/
  abortSent : ∀ (l : Loc) (u i : Nat), Effect.send (.abort l u i) ∈ s.events t → u = t ∧
    (s.txns t).pc.AbortedPast i ∧ ∃ e, (s.txns t).txn.writeSet[i]? = some e ∧
      e.writeLockBit = true ∧ ¬ P.hasMasterPartition (s.txns t).txn.coordinatorId e.partitionId ∧
      l = P.masterLoc e
  /-- The abort loop unlocked each local key with the lock bit it passed, storing
  the word the key's lock replaced. -/
  abortedLocal : ∀ (i : Nat) (e : ScarRWKey), (s.txns t).txn.writeSet[i]? = some e → e.writeLockBit = true →
    (s.txns t).pc.AbortedPast i → P.hasMasterPartition (s.txns t).txn.coordinatorId e.partitionId →
    Effect.unlock (P.masterLoc e) e.tid ∈ s.events t
  /-- The abort loop sent one `ABORT` for each remote key with the lock bit it passed. -/
  abortedRemote : ∀ (i : Nat) (e : ScarRWKey), (s.txns t).txn.writeSet[i]? = some e → e.writeLockBit = true →
    (s.txns t).pc.AbortedPast i → ¬ P.hasMasterPartition (s.txns t).txn.coordinatorId e.partitionId →
    (s.events t).count (Effect.send (.abort (P.masterLoc e) t i)) = 1

/-! ### Steps of other transactions -/

/-- A step of `u` leaves another transaction's state, log and pieces alone. -/
theorem Step.frame {s s' : System} {u t : Nat} (h : Step P s u s') (ht : t ≠ u) :
    s'.txns t = s.txns t ∧ s'.events t = s.events t ∧
      ∀ r, r.txn = t → (r ∈ s'.network ↔ r ∈ s.network) := by
  have hnet : s'.network = s.network ∨ ∃ r : Request,
      (s'.network = r :: s.network ∨ s'.network = s.network.erase r) ∧ r.txn = u := by
    cases h <;> first | exact .inl rfl | exact .inr ⟨_, .inl rfl, rfl⟩ | exact .inr ⟨_, .inr rfl, rfl⟩
  refine ⟨?_, ?_, fun r hr => ?_⟩
  · cases h <;> simp [ht]
  · cases h <;> simp [ht]
  · have hne : ∀ q : Request, q.txn = u → r ≠ q := fun q hq hrq => ht (hr ▸ hrq ▸ hq)
    rcases hnet with hn | ⟨q, hn | hn, hq⟩ <;> rw [hn]
    · simp [hne q hq]
    · exact List.mem_erase_of_ne (hne q hq)

theorem EffectsOk.frame {s s' : System} {u t : Nat} (hinv : LockInv P s) (hinv' : LockInv P s')
    (h : Step P s u s') (ht : t ≠ u) (hok : EffectsOk P s t) : EffectsOk P s' t := by
  obtain ⟨htx, hev, hnet⟩ := h.frame ht
  have howner : ∀ l, s'.owner l = some t ↔ s.owner l = some t := fun l => by
    rw [hinv'.owner, hinv.owner, holds_congr htx hnet]
  refine ⟨fun r hr hrt => ?_, ?_, ?_, fun l => ?_, ?_, ?_, ?_, ?_, ?_⟩ <;> simp only [htx, hev]
  · exact hok.sent r ((hnet r hrt).mp hr) hrt
  · exact hok.commitOnly
  · exact hok.locked
  · simp only [howner]; exact hok.balanced l
  · exact hok.lockedOnce
  · exact hok.unlocked
  · exact hok.abortSent
  · exact hok.abortedLocal
  · exact hok.abortedRemote

/-! ### Steps with no effect -/

/-- A move of `commit`'s position that the log need not record: it does not
leave the write path, enter an earlier loop or undo a replication, and it passes
no key with the lock bit in the abort loop. -/
structure Pc.Forward (bit : Nat → Prop) (pc pc' : Pc) : Prop where
  writing : pc.Writing → pc'.Writing
  beforeRelease : pc'.BeforeRelease → pc.BeforeRelease
  replicated : pc'.BeforeRelease → ∀ i k, pc.ReplicatedPast i k → pc'.ReplicatedPast i k
  aborted : ∀ i, pc.AbortedPast i → pc'.AbortedPast i
  abortedBit : ∀ i, bit i → pc'.AbortedPast i → pc.AbortedPast i

namespace Pc.Forward

variable {bit : Nat → Prop} {pc pc' : Pc} {i k : Nat}

theorem refl (bit : Nat → Prop) (pc : Pc) : Pc.Forward bit pc pc :=
  ⟨id, id, fun _ _ _ => id, fun _ => id, fun _ _ => id⟩

/-- Moves along the write path. -/
theorem of_writing (h : pc.Writing) (h' : pc'.Writing)
    (hrep : pc'.BeforeRelease → pc.BeforeRelease ∧
      ∀ j k, pc.ReplicatedPast j k → pc'.ReplicatedPast j k) : Pc.Forward bit pc pc' where
  writing _ := h'
  beforeRelease hr := (hrep hr).1
  replicated hr := (hrep hr).2
  aborted j ha := absurd ha (h.not_abortedPast j)
  abortedBit j _ ha := absurd ha (h'.not_abortedPast j)

theorem write_next (hpc : pc = .writeAndReplicate i) : Pc.Forward bit pc (.replicate i 0) :=
  hpc ▸ of_writing trivial trivial fun _ => ⟨trivial, fun _ _ h => .inl h⟩

theorem write_done (hpc : pc = .writeAndReplicate i) : Pc.Forward bit pc .syncWrite :=
  hpc ▸ of_writing trivial trivial fun _ => ⟨trivial, fun _ _ _ => trivial⟩

theorem replicate_lock (hpc : pc = .replicate i k) : Pc.Forward bit pc (.replicaLocked i k) :=
  hpc ▸ of_writing trivial trivial fun _ => ⟨trivial, fun _ _ => id⟩

theorem replicate_next (hpc : pc = .replicate i k ∨ pc = .replicaLocked i k) :
    Pc.Forward bit pc (.replicate i (k + 1)) := by
  refine of_writing (by rcases hpc with rfl | rfl <;> trivial) trivial fun _ =>
    ⟨by rcases hpc with rfl | rfl <;> trivial, fun j k' hp => ?_⟩
  rcases hpc with rfl | rfl <;> simp only [ReplicatedPast] at hp ⊢ <;> omega

theorem replicate_done (hpc : pc = .replicate i k) : Pc.Forward bit pc (.writeAndReplicate (i + 1)) :=
  hpc ▸ of_writing trivial trivial fun _ =>
    ⟨trivial, fun j k' hp => by simp only [ReplicatedPast] at hp ⊢; omega⟩

/-- Into and along the release loop, and out of it to `return true`. -/
theorem release (hpc : pc = .syncWrite ∨ ∃ j, pc = .releaseLock j)
    (hpc' : (∃ j, pc' = .releaseLock j) ∨ pc' = .returned true) : Pc.Forward bit pc pc' := by
  have hw : pc.Writing := by rcases hpc with rfl | ⟨j, rfl⟩ <;> trivial
  have hw' : pc'.Writing := by rcases hpc' with ⟨j, rfl⟩ | rfl <;> trivial
  refine of_writing hw hw' fun hr => absurd hr ?_
  rcases hpc' with ⟨j, rfl⟩ | rfl <;> exact id

/-- The abort loop passes a key without the lock bit. -/
theorem abort_next (hpc : pc = .abort i) (hbit : ¬ bit i) : Pc.Forward bit pc (.abort (i + 1)) := by
  subst hpc
  refine ⟨fun h => h.elim, fun h => h.elim, fun h => h.elim, fun j (hj : j < i) => ?_,
    fun j hb (hj : j < i + 1) => ?_⟩
  · exact (by omega : j < i + 1)
  · by_cases hji : j = i
    · exact absurd (hji ▸ hb) hbit
    · exact (by omega : j < i)

/-- The abort loop ends, past every key with the lock bit. -/
theorem abort_done (hpc : pc = .abort i) (hbit : ∀ j, bit j → j < i) :
    Pc.Forward bit pc (.returned false) := by
  subst hpc
  exact ⟨fun h => h.elim, fun h => h.elim, fun h => h.elim, fun _ _ => trivial,
    fun j hb _ => hbit j hb⟩

end Pc.Forward

/-- Moves among execution, locking and validation, or from there to the abort
loop or the write loop. -/
theorem Pc.Forward.of_deciding {bit : Nat → Prop} {pc pc' : Pc} (h : pc.Deciding)
    (h' : pc'.Deciding ∨ pc' = .abort 0 ∨ pc' = .writeAndReplicate 0) : Pc.Forward bit pc pc' where
  writing hw := absurd hw h.not_writing
  beforeRelease _ := h.beforeRelease
  replicated _ i k hr := absurd hr (h.not_replicatedPast i k)
  aborted i ha := absurd ha (h.not_abortedPast i)
  abortedBit i _ ha := by
    rcases h' with h' | rfl | rfl
    · exact absurd ha (h'.not_abortedPast i)
    · exact absurd ha (Nat.not_lt_zero i)
    · exact ha.elim

/-- A step of `t` with no effect on shared state that moves it forward and keeps
its write set. -/
theorem EffectsOk.quiet {s s' : System} {t : Nat} (h : EffectsOk P s t)
    (hev : s'.events t = s.events t) (hnet : ∀ r ∈ s'.network, r.txn = t → r ∈ s.network)
    (howner : s'.owner = s.owner) (hws : (s'.txns t).txn.writeSet = (s.txns t).txn.writeSet)
    (hco : (s'.txns t).txn.coordinatorId = (s.txns t).txn.coordinatorId)
    (hpc : Pc.Forward (HasLockBit (s.txns t).txn.writeSet) (s.txns t).pc (s'.txns t).pc) :
    EffectsOk P s' t := by
  refine ⟨fun r hr hrt => hev ▸ h.sent r (hnet r hr hrt) hrt,
    fun ev hev' hc => hpc.writing (h.commitOnly ev (hev ▸ hev') hc),
    fun i e he hb => hev ▸ h.locked i e (hws ▸ he) hb, fun l => by rw [hev, howner]; exact h.balanced l,
    fun l => hev ▸ h.lockedOnce l, fun hr l w hl => ?_, fun l u i hs => ?_,
    fun i e he hb ha hloc => ?_, fun i e he hb ha hloc => ?_⟩
  · obtain ⟨i, k, e, he, rfl, hp⟩ := h.unlocked (hpc.beforeRelease hr) l w (hev ▸ hl)
    exact ⟨i, k, e, hws ▸ he, rfl, hpc.replicated hr i k hp⟩
  · obtain ⟨rfl, hp, e, he, hb, hr, rfl⟩ := h.abortSent l u i (hev ▸ hs)
    exact ⟨rfl, hpc.aborted i hp, e, hws ▸ he, hb, hco ▸ hr, rfl⟩
  · rw [hws] at he; rw [hco] at hloc
    exact hev ▸ h.abortedLocal i e he hb (hpc.abortedBit i ⟨e, he, hb⟩ ha) hloc
  · rw [hws] at he; rw [hco] at hloc
    exact hev ▸ h.abortedRemote i e he hb (hpc.abortedBit i ⟨e, he, hb⟩ ha) hloc

/-- `EffectsOk` reads the pieces in flight, the logs, the transactions and the
owners, not the tables. -/
theorem EffectsOk.congr {s s' : System} {t : Nat} (h : EffectsOk P s t)
    (hnet : s'.network = s.network) (hev : s'.events t = s.events t) (htx : s'.txns t = s.txns t)
    (howner : s'.owner = s.owner) : EffectsOk P s' t :=
  h.quiet hev (fun r hr _ => hnet ▸ hr) howner (by rw [htx]) (by rw [htx]) (htx ▸ .refl _ _)

/-- A step that only moves `t`. -/
theorem EffectsOk.setTxn {s : System} {t : Nat} {x : TxnState} (h : EffectsOk P s t)
    (hws : x.txn.writeSet = (s.txns t).txn.writeSet)
    (hco : x.txn.coordinatorId = (s.txns t).txn.coordinatorId)
    (hpc : Pc.Forward (HasLockBit (s.txns t).txn.writeSet) (s.txns t).pc x.pc) :
    EffectsOk P (s.setTxn t x) t :=
  h.quiet rfl (fun _ hr _ => hr) rfl (by simpa using hws) (by simpa using hco) (by simpa using hpc)

/-- A handler serving a piece of `t` that records nothing, `t` staying where it is. -/
theorem EffectsOk.receive {s : System} {t : Nat} {x : TxnState} {r : Request} (h : EffectsOk P s t)
    (hws : x.txn.writeSet = (s.txns t).txn.writeSet)
    (hco : x.txn.coordinatorId = (s.txns t).txn.coordinatorId) (hpc : x.pc = (s.txns t).pc) :
    EffectsOk P ((s.receive r).setTxn t x) t :=
  h.quiet rfl (fun _ hq _ => List.mem_of_mem_erase hq) rfl (by simpa using hws) (by simpa using hco)
    (by simpa [hpc] using Pc.Forward.refl _ _)

/-- A handler consumes a piece. -/
theorem EffectsOk.received {s : System} {t : Nat} {r : Request} (h : EffectsOk P s t) :
    EffectsOk P (s.receive r) t :=
  h.quiet rfl (fun _ hq _ => List.mem_of_mem_erase hq) rfl rfl rfl (.refl _ _)

theorem LockInv.owner_eq_none {s : System} (hinv : LockInv P s) {l : Loc}
    (h : (s.db l).tid.locked = false) : s.owner l = none := by
  have := hinv.locked l
  rw [h] at this
  exact Option.not_isSome_iff_eq_none.mp (by simp [← this])

/-! ### Steps with an effect -/

section Effects

variable {s : System} {t : Nat}

/-- While executing, locking or validating, `t` has unlocked nothing. -/
theorem EffectsOk.countP_unlocks_deciding (h : EffectsOk P s t) (hpc : (s.txns t).pc.Deciding)
    (l : Loc) : (s.events t).countP (Effect.unlocks l) = 0 :=
  List.countP_eq_zero.mpr fun ev hev hu => by
    cases ev with
    | unlock m w =>
      obtain ⟨i, k, -, -, -, hp⟩ := h.unlocked hpc.beforeRelease m w hev
      exact hpc.not_replicatedPast i k hp
    | _ => simp at hu

/-- `t` sends a piece that is not an `ABORT`. -/
theorem EffectsOk.addSend {r : Request} (h : EffectsOk P s t)
    (hcommit : (Effect.send r).CommitOnly → (s.txns t).pc.Writing)
    (habort : ∀ l u i, r ≠ .abort l u i) : EffectsOk P (s.send t r) t := by
  have hev : (s.send t r).events t = s.events t ++ [.send r] := by simp
  refine ⟨fun q hq hqt => ?_, fun ev hev' hc => ?_, fun i e he hb => ?_, fun l => ?_, fun l => ?_,
    fun hr l w hl => ?_, fun l u i hs => ?_, fun i e he hb ha hloc => ?_,
    fun i e he hb ha hloc => ?_⟩ <;> simp only [hev, System.send_txns, System.send_owner] at *
  · rcases List.mem_cons.mp hq with rfl | hq
    · simp
    · simp [h.sent q hq hqt]
  · rcases List.mem_append.mp hev' with hev' | hev'
    · exact h.commitOnly ev hev' hc
    · rw [List.mem_singleton.mp hev'] at hc; exact hcommit hc
  · exact (h.locked i e he hb).imp_right (List.mem_append_left _)
  · simpa using h.balanced l
  · simpa using h.lockedOnce l
  · exact h.unlocked hr l w (by simpa using hl)
  · rcases List.mem_append.mp hs with hs | hs
    · exact h.abortSent l u i hs
    · cases habort l u i (Effect.send.inj (List.mem_singleton.mp hs)).symm
  · exact List.mem_append_left _ (h.abortedLocal i e he hb ha hloc)
  · simp [h.abortedRemote i e he hb ha hloc, List.count_singleton', (habort _ _ _).symm]

/-- `t` writes row `l` on the write path. -/
theorem EffectsOk.addWrite {l : Loc} {v : Nat} (h : EffectsOk P s t) (hpc : (s.txns t).pc.Writing) :
    EffectsOk P (s.writeRow t l v) t := by
  have hev : (s.writeRow t l v).events t = s.events t ++ [.write l v] := by simp
  refine ⟨fun q hq hqt => ?_, fun ev hev' hc => ?_, fun i e he hb => ?_, fun m => ?_, fun m => ?_,
    fun hr m w hm => ?_, fun m u i hs => ?_, fun i e he hb ha hloc => ?_,
    fun i e he hb ha hloc => ?_⟩ <;> simp only [hev, System.writeRow_txns, System.writeRow_owner,
      System.writeRow_network] at *
  · exact List.mem_append_left _ (h.sent q hq hqt)
  · exact hpc
  · exact (h.locked i e he hb).imp_right (List.mem_append_left _)
  · simpa using h.balanced m
  · simpa using h.lockedOnce m
  · exact h.unlocked hr m w (by simpa using hm)
  · exact h.abortSent m u i (by simpa using hs)
  · exact List.mem_append_left _ (h.abortedLocal i e he hb ha hloc)
  · simp [h.abortedRemote i e he hb ha hloc, List.count_singleton']

/-- `t` sets `LOCK` on the row `l` nobody owns and `t` never unlocked. -/
theorem EffectsOk.addLock {l : Loc} (h : EffectsOk P s t) (hown : s.owner l = none)
    (hfresh : (s.events t).countP (Effect.unlocks l) = 0) : EffectsOk P (s.lockRow t l) t := by
  have hev : (s.lockRow t l).events t = s.events t ++ [.lock l (s.db l).tid] := by simp
  have hzero : (s.events t).countP (Effect.locks l) = 0 := by simpa [hown, hfresh] using h.balanced l
  refine ⟨fun q hq hqt => ?_, fun ev hev' hc => ?_, fun i e he hb => ?_, fun m => ?_, fun m => ?_,
    fun hr m w hm => ?_, fun m u i hs => ?_, fun i e he hb ha hloc => ?_,
    fun i e he hb ha hloc => ?_⟩ <;> simp only [hev, System.lockRow_txns, System.lockRow_network] at *
  · exact List.mem_append_left _ (h.sent q hq hqt)
  · rcases List.mem_append.mp hev' with hev' | hev'
    · exact h.commitOnly ev hev' hc
    · rw [List.mem_singleton.mp hev'] at hc; exact hc.elim
  · exact (h.locked i e he hb).imp_right (List.mem_append_left _)
  · by_cases hm : l = m
    · subst hm; simp [hzero, hfresh, hown]
    · simpa [hm, Ne.symm hm] using h.balanced m
  · by_cases hm : l = m
    · subst hm; simp [hzero]
    · simpa [hm] using h.lockedOnce m
  · exact h.unlocked hr m w (by simpa using hm)
  · exact h.abortSent m u i (by simpa using hs)
  · exact List.mem_append_left _ (h.abortedLocal i e he hb ha hloc)
  · simp [h.abortedRemote i e he hb ha hloc, List.count_singleton']

/-- `t` clears `LOCK` on the row `l` it owns, before the release loop only on a
replica the replication loop has passed. -/
theorem EffectsOk.addUnlock {l : Loc} {w : Tid} (h : EffectsOk P s t) (hown : s.owner l = some t)
    (hrep : (s.txns t).pc.BeforeRelease → ∃ (i k : Nat) (e : ScarRWKey),
      (s.txns t).txn.writeSet[i]? = some e ∧ l = replicaLoc e k ∧ (s.txns t).pc.ReplicatedPast i k) :
    EffectsOk P (s.unlockRow t l w) t := by
  have hev : (s.unlockRow t l w).events t = s.events t ++ [.unlock l w] := by simp
  refine ⟨fun q hq hqt => ?_, fun ev hev' hc => ?_, fun i e he hb => ?_, fun m => ?_, fun m => ?_,
    fun hr m w' hm => ?_, fun m u i hs => ?_, fun i e he hb ha hloc => ?_,
    fun i e he hb ha hloc => ?_⟩ <;>
    simp only [hev, System.unlockRow_txns, System.unlockRow_network] at *
  · exact List.mem_append_left _ (h.sent q hq hqt)
  · rcases List.mem_append.mp hev' with hev' | hev'
    · exact h.commitOnly ev hev' hc
    · rw [List.mem_singleton.mp hev'] at hc; exact hc.elim
  · exact (h.locked i e he hb).imp_right (List.mem_append_left _)
  · by_cases hm : l = m
    · subst hm; simpa [hown] using h.balanced l
    · simpa [hm, Ne.symm hm] using h.balanced m
  · simpa using h.lockedOnce m
  · rcases List.mem_append.mp hm with hm | hm
    · exact h.unlocked hr m w' hm
    · cases List.mem_singleton.mp hm; exact hrep hr
  · exact h.abortSent m u i (by simpa using hs)
  · exact List.mem_append_left _ (h.abortedLocal i e he hb ha hloc)
  · simp [h.abortedRemote i e he hb ha hloc, List.count_singleton']

/-- `t` is granted the lock of its write key `i` on the unlocked master copy, while
locking. -/
theorem EffectsOk.grant {x : TxnState} {i : Nat} {e : ScarRWKey} (h : EffectsOk P s t)
    (hpc : (s.txns t).pc.Deciding) (hpc' : x.pc.Deciding) (hown : s.owner (P.masterLoc e) = none)
    (hfree : (s.db (P.masterLoc e)).tid.locked = false)
    (hws : ∀ j, x.txn.writeSet[j]? = if j = i then
      some { e with writeLockBit := true, tid := (s.db (P.masterLoc e)).tid }
      else (s.txns t).txn.writeSet[j]?) :
    EffectsOk P ((s.lockRow t (P.masterLoc e)).setTxn t x) t := by

  have h₁ := h.addLock hown (h.countP_unlocks_deciding hpc _)
  refine ⟨fun q hq hqt => h₁.sent q hq hqt, fun ev hev hc => ?_, fun j f hf hb => ?_,
    h₁.balanced, h₁.lockedOnce, fun _ l w hl => ?_, fun l u j hs => ?_,
    fun j f _ _ ha => ?_, fun j f _ _ ha => ?_⟩ <;>
    simp only [System.setTxn_txns, if_true, System.setTxn_events] at *
  · exact absurd (h₁.commitOnly ev hev hc) hpc.not_writing
  · rw [hws] at hf
    split at hf
    · cases hf; exact ⟨hfree, by simp [Placement.masterLoc]⟩
    · exact h₁.locked j f hf hb
  · obtain ⟨i, k, -, -, -, hp⟩ := h₁.unlocked hpc.beforeRelease l w hl
    exact absurd hp (hpc.not_replicatedPast i k)
  · exact absurd (h₁.abortSent l u j hs).2.1 (hpc.not_abortedPast j)
  · exact absurd ha (hpc'.not_abortedPast j)
  · exact absurd ha (hpc'.not_abortedPast j)

/-- The abort loop unlocks the master copy of its local write key `i`, storing
back the word the key's lock replaced. -/
theorem EffectsOk.abortLocal {i : Nat} {e : ScarRWKey} (h : EffectsOk P s t) (hinv : LockInv P s)
    (hpc : (s.txns t).pc = .abort i) (he : (s.txns t).txn.writeSet[i]? = some e)
    (hbit : e.writeLockBit = true)
    (hlocal : P.hasMasterPartition (s.txns t).txn.coordinatorId e.partitionId) :
    EffectsOk P ((s.unlockRow t (P.masterLoc e) (ScarHelper.unlock (s.db (P.masterLoc e)).tid)).setTxn t
      ⟨.abort (i + 1), (s.txns t).txn⟩) t := by
  have hU : (s.txns t).pc.Unreleased i := by simp [hpc, Pc.Unreleased]
  have hword : ScarHelper.unlock (s.db (P.masterLoc e)).tid = e.tid := by
    rw [hinv.heldWord t i e he ⟨e, he, hbit, .inl hU⟩, ScarHelper.unlock_eq, Tid.setLocked_setLocked,
      ← (h.locked i e he hbit).1, Tid.setLocked_self]
  have h₁ := h.addUnlock (w := e.tid) ((hinv.owner _ _).mpr (holds_master he hbit hU))
    fun hr => absurd hr (by simp [hpc, Pc.BeforeRelease])
  rw [hword]
  have hlt : ∀ j, (Pc.abort (i + 1)).AbortedPast j → j ≠ i → (s.txns t).pc.AbortedPast j :=
    fun j hj hji => by simp only [hpc, Pc.AbortedPast] at hj ⊢; omega
  refine ⟨fun q hq hqt => h₁.sent q hq hqt, fun ev hev hc => ?_, fun j f hf hb => ?_, h₁.balanced,
    h₁.lockedOnce, fun hr => ?_, fun l u j hs => ?_, fun j f hf hb ha hloc => ?_,
    fun j f hf hb ha hloc => ?_⟩ <;>
    simp only [System.setTxn_txns, if_true, System.setTxn_events, System.unlockRow_txns] at *
  · exact absurd (h₁.commitOnly ev hev hc) (by simp [hpc, Pc.Writing])
  · exact h₁.locked j f hf hb
  · exact hr.elim
  · obtain ⟨rfl, hp, hrest⟩ := h₁.abortSent l u j hs
    exact ⟨rfl, by simp only [System.unlockRow_txns, hpc, Pc.AbortedPast] at hp ⊢; omega, hrest⟩
  · by_cases hji : j = i
    · subst hji; rw [he] at hf; cases hf; simp
    · exact h₁.abortedLocal j f hf hb (hlt j ha hji) hloc
  · by_cases hji : j = i
    · subst hji; rw [he] at hf; cases hf; exact absurd hlocal hloc
    · exact h₁.abortedRemote j f hf hb (hlt j ha hji) hloc

/-- The abort loop sends the `ABORT` piece of its remote write key `i`. -/
theorem EffectsOk.abortRemote {i : Nat} {e : ScarRWKey} (h : EffectsOk P s t)
    (hpc : (s.txns t).pc = .abort i) (he : (s.txns t).txn.writeSet[i]? = some e)
    (hbit : e.writeLockBit = true)
    (hremote : ¬ P.hasMasterPartition (s.txns t).txn.coordinatorId e.partitionId) :
    EffectsOk P ((s.send t (.abort (P.masterLoc e) t i)).setTxn t ⟨.abort (i + 1), (s.txns t).txn⟩) t := by
  have hnew : Effect.send (.abort (P.masterLoc e) t i) ∉ s.events t := fun hs => by
    have := (h.abortSent _ _ _ hs).2.1
    simp [hpc, Pc.AbortedPast] at this
  have hlt : ∀ j, (Pc.abort (i + 1)).AbortedPast j → j ≠ i → (s.txns t).pc.AbortedPast j :=
    fun j hj hji => by simp only [hpc, Pc.AbortedPast] at hj ⊢; omega
  refine ⟨fun q hq hqt => ?_, fun ev hev hc => ?_, fun j f hf hb => ?_, fun l => ?_, fun l => ?_,
    fun hr => ?_, fun l u j hs => ?_, fun j f hf hb ha hloc => ?_, fun j f hf hb ha hloc => ?_⟩ <;>
    simp only [System.setTxn_txns, if_true, System.setTxn_events, System.setTxn_network,
      System.send_events, System.record_events, System.send_network, System.send_owner,
      System.send_txns, System.setTxn_owner] at *
  · rcases List.mem_cons.mp hq with rfl | hq
    · simp
    · exact List.mem_append_left _ (h.sent q hq hqt)
  · rcases List.mem_append.mp hev with hev | hev
    · exact absurd (h.commitOnly ev hev hc) (by simp [hpc, Pc.Writing])
    · rw [List.mem_singleton.mp hev] at hc; exact hc.elim
  · exact (h.locked j f hf hb).imp_right (List.mem_append_left _)
  · simpa using h.balanced l
  · simpa using h.lockedOnce l
  · exact hr.elim
  · rcases List.mem_append.mp hs with hs | hs
    · obtain ⟨rfl, hp, hrest⟩ := h.abortSent l u j hs
      exact ⟨rfl, by simp only [hpc, Pc.AbortedPast] at hp ⊢; omega, hrest⟩
    · cases List.mem_singleton.mp hs
      exact ⟨rfl, Nat.lt_succ_self i, e, he, hbit, hremote, rfl⟩
  · by_cases hji : j = i
    · subst hji; rw [he] at hf; cases hf; exact absurd hloc hremote
    · exact List.mem_append_left _ (h.abortedLocal j f hf hb (hlt j ha hji) hloc)
  · by_cases hji : j = i
    · subst hji; rw [he] at hf; cases hf
      simp [List.count_singleton', List.count_eq_zero.mpr hnew]
    · have hne : Effect.send (.abort (P.masterLoc e) t i) ≠ .send (.abort (P.masterLoc f) t j) :=
        fun heq => hji (by simp only [Effect.send.injEq, Request.abort.injEq] at heq; exact heq.2.2.symm)
      simp [List.count_singleton', hne, h.abortedRemote j f hf hb (hlt j ha hji) hloc]

/-- `t` sends a piece other than `ABORT` and moves. -/
theorem EffectsOk.send {x : TxnState} {r : Request} (h : EffectsOk P s t)
    (hws : x.txn.writeSet = (s.txns t).txn.writeSet)
    (hco : x.txn.coordinatorId = (s.txns t).txn.coordinatorId)
    (hpc : Pc.Forward (HasLockBit (s.txns t).txn.writeSet) (s.txns t).pc x.pc)
    (hcommit : (Effect.send r).CommitOnly → x.pc.Writing) (habort : ∀ l u i, r ≠ .abort l u i) :
    EffectsOk P ((s.send t r).setTxn t x) t :=
  (h.setTxn hws hco hpc).addSend (by simpa using hcommit) habort

/-- The replication loop reaches the local replica of key `i` before `t` ever
unlocked it: the replicas `t` unlocked are those of earlier keys, which name
other rows. -/
theorem EffectsOk.replica_fresh (h : EffectsOk P s t) (ht : TxnOk P s.network t (s.txns t))
    {i k : Nat} {e : ScarRWKey} (hpc : (s.txns t).pc = .replicate i k)
    (he : (s.txns t).txn.writeSet[i]? = some e) :
    (s.events t).countP (Effect.unlocks (replicaLoc e k)) = 0 := by
  refine List.countP_eq_zero.mpr fun ev hev hu => ?_
  cases ev with
  | unlock m w =>
    simp only [Effect.unlocks_unlock, decide_eq_true_eq] at hu
    subst hu
    obtain ⟨j, k', f, hf, hl, hp⟩ := h.unlocked (by simp [hpc, Pc.BeforeRelease]) _ _ hev
    simp only [replicaLoc, Loc.mk.injEq] at hl
    obtain ⟨rfl, hpart, hkey⟩ := hl
    have hbits : ∀ g ∈ (s.txns t).txn.writeSet, g.writeLockBit = true :=
      fun g hg => ((ht.committing (by simp [hpc, Pc.Committing])).2 g hg).1
    obtain rfl : j = i := ht.keyUnique j i f e hf he (hbits f (List.getElem?_mem hf))
      (hbits e (List.getElem?_mem he)) (by simp [Placement.masterLoc, hpart, hkey])
    simp [hpc, Pc.ReplicatedPast] at hp
  | _ => simp at hu

end Effects

/-! ### Every step -/

theorem effectsOk_step {s s' : System} {u t : Nat} (hinv : LockInv P s) (h : Step P s u s')
    (hok : EffectsOk P s t) : EffectsOk P s' t := by
  by_cases htu : t = u
  swap
  · exact hok.frame hinv (lockInv_step hinv h) h htu
  subst htu
  have ht := hinv.txn t
  have hdec : ∀ {pc : Pc}, (s.txns t).pc = pc → pc.Deciding → (s.txns t).pc.Deciding :=
    fun hpc h => hpc ▸ h
  cases h with
  | read hx hpc => subst hx; exact hok.setTxn rfl rfl (.of_deciding (hdec hpc trivial) (.inl trivial))
  | executeDone hx hpc =>
    subst hx; exact hok.setTxn rfl rfl (.of_deciding (hdec hpc trivial) (.inl trivial))
  | @lockLocal _ _ i e r hx hpc he hlocal hunlocked hread =>
    subst hx
    exact hok.grant (hdec hpc trivial) (by dsimp only; split <;> trivial) (hinv.owner_eq_none hunlocked)
      hunlocked ((s.txns t).txn.lockGranted_writeSet he _ _)
  | lockLocalFail hx hpc =>
    subst hx; exact hok.setTxn rfl rfl (.of_deciding (hdec hpc trivial) (.inl trivial))
  | lockRemote hx hpc =>
    subst hx
    exact hok.send rfl rfl (.of_deciding (hdec hpc trivial) (.inl trivial)) False.elim
      fun _ _ _ => Request.noConfusion
  | lockDone hx hpc =>
    subst hx; exact hok.setTxn rfl rfl (.of_deciding (hdec hpc trivial) (.inl trivial))
  | syncLockAbort hx hpc =>
    subst hx; exact hok.setTxn rfl rfl (.of_deciding (hdec hpc trivial) (.inr (.inl rfl)))
  | syncLockCommit hx hpc =>
    subst hx; exact hok.setTxn rfl rfl (.of_deciding (hdec hpc trivial) (.inl trivial))
  | validateSkip hx hpc =>
    subst hx; exact hok.setTxn rfl rfl (.of_deciding (hdec hpc trivial) (.inl trivial))
  | @validateLocal _ _ i e w hx hpc =>
    subst hx
    exact (hok.setTxn (x := ⟨.validateReadSet (i + 1), (s.txns t).txn.validationPassed i e w⟩) rfl rfl
      (.of_deciding (hdec hpc trivial) (.inl trivial))).congr rfl rfl rfl rfl
  | validateLocalFail hx hpc =>
    subst hx; exact hok.setTxn rfl rfl (.of_deciding (hdec hpc trivial) (.inl trivial))
  | validateRemote hx hpc =>
    subst hx
    exact hok.send rfl rfl (.of_deciding (hdec hpc trivial) (.inl trivial)) False.elim
      fun _ _ _ => Request.noConfusion
  | validateDone hx hpc =>
    subst hx; exact hok.setTxn rfl rfl (.of_deciding (hdec hpc trivial) (.inl trivial))
  | syncValidationAbort hx hpc =>
    subst hx; exact hok.setTxn rfl rfl (.of_deciding (hdec hpc trivial) (.inr (.inl rfl)))
  | syncValidationCommit hx hpc =>
    subst hx; exact hok.setTxn rfl rfl (.of_deciding (hdec hpc trivial) (.inr (.inr rfl)))
  | @writeLocal _ _ i e hx hpc =>
    subst hx
    exact ((hok.setTxn (x := ⟨.replicate i 0, (s.txns t).txn⟩) rfl rfl (.write_next hpc)).addWrite
      (by simp [Pc.Writing])).congr rfl rfl rfl rfl
  | writeRemote hx hpc =>
    subst hx
    exact hok.send rfl rfl (.write_next hpc) (fun _ => trivial) fun _ _ _ => Request.noConfusion
  | writeDone hx hpc => subst hx; exact hok.setTxn rfl rfl (.write_done hpc)
  | replicateSkip hx hpc => subst hx; exact hok.setTxn rfl rfl (.replicate_next (.inl hpc))
  | @replicateLock _ _ i k e hx hpc he _ _ _ _ hunlocked =>
    subst hx
    exact (hok.addLock (hinv.owner_eq_none hunlocked) (hok.replica_fresh ht hpc he)).setTxn rfl rfl
      (.replicate_lock hpc)
  | @replicaUnlock _ _ i k e hx hpc he =>
    subst hx
    have hown : s.owner (replicaLoc e k) = some t := (hinv.owner _ _).mpr (.inr ⟨i, k, e, hpc, he, rfl⟩)
    exact (((hok.setTxn (x := ⟨.replicate i (k + 1), (s.txns t).txn⟩) rfl rfl
      (.replicate_next (.inr hpc))).addWrite (by simp [Pc.Writing])).addUnlock
      (by simpa using hown) fun _ => ⟨i, k, e, by simpa using he, rfl, by simp [Pc.ReplicatedPast]⟩).congr
        rfl rfl rfl rfl
  | replicateRemote hx hpc =>
    subst hx
    exact hok.send rfl rfl (.replicate_next (.inl hpc)) (fun _ => trivial) fun _ _ _ => Request.noConfusion
  | replicateDone hx hpc => subst hx; exact hok.setTxn rfl rfl (.replicate_done hpc)
  | syncWriteDone hx hpc => subst hx; exact hok.setTxn rfl rfl (.release (.inl hpc) (.inl ⟨0, rfl⟩))
  | @releaseLocal _ _ i e hx hpc he =>
    subst hx
    have hbit := ((ht.committing (by simp [hpc, Pc.Committing])).2 e (List.getElem?_mem he)).1
    have hown : s.owner (P.masterLoc e) = some t :=
      (hinv.owner _ _).mpr (holds_master he hbit (by simp [hpc, Pc.Unreleased]))
    exact (((hok.setTxn (x := ⟨.releaseLock (i + 1), (s.txns t).txn⟩) rfl rfl
      (.release (.inr ⟨i, hpc⟩) (.inl ⟨i + 1, rfl⟩))).addWrite
      (by simp [Pc.Writing])).addUnlock (by simpa using hown) fun hr => by simp [Pc.BeforeRelease] at hr).congr
        rfl rfl rfl rfl
  | releaseRemote hx hpc =>
    subst hx
    exact hok.send rfl rfl (.release (.inr ⟨_, hpc⟩) (.inl ⟨_, rfl⟩)) (fun _ => trivial)
      fun _ _ _ => Request.noConfusion
  | releaseDone hx hpc => subst hx; exact hok.setTxn rfl rfl (.release (.inr ⟨_, hpc⟩) (.inr rfl))
  | @abortSkip _ _ i e hx hpc he hbit =>
    subst hx
    exact hok.setTxn rfl rfl (.abort_next hpc fun ⟨f, hf, hb⟩ => by
      rw [he] at hf; cases hf; rw [hb] at hbit; cases hbit)
  | abortLocal hx hpc he hbit hlocal => subst hx; exact hok.abortLocal hinv hpc he hbit hlocal
  | abortRemote hx hpc he hbit hremote => subst hx; exact hok.abortRemote hpc he hbit hremote
  | abortDone hx hpc hi =>
    subst hx
    exact hok.setTxn rfl rfl (.abort_done hpc fun j ⟨f, hf, _⟩ =>
      lt_of_lt_of_le (List.getElem?_eq_some_iff.mp hf).1 hi)
  | @serveLock _ _ i _ e r hr hx he hread hunlocked =>
    subst hx
    obtain ⟨hpos, e', he', rfl⟩ := ht.requests _ hr rfl
    rw [he] at he'; cases he'
    have hpc : (s.txns t).pc.Deciding := by rcases hpos with hp | ⟨j, hp, -⟩ <;> rw [hp] <;> trivial
    exact hok.received.grant hpc hpc (hinv.owner_eq_none hunlocked) hunlocked
      ((s.txns t).txn.lockGranted_writeSet he (s.db (P.masterLoc e)).tid r.tid)
  | serveLockFail hr hx => subst hx; exact hok.receive rfl rfl rfl
  | @serveValidation _ _ i _ _ _ e w hr hx =>
    subst hx
    exact (hok.receive (x := ⟨(s.txns t).pc, { (s.txns t).txn.validationPassed i e w with
      pendingResponses := (s.txns t).txn.pendingResponses - 1 }⟩) rfl rfl rfl).congr rfl rfl rfl rfl
  | serveValidationFail hr hx => subst hx; exact hok.receive rfl rfl rfl
  | serveWrite hr hx =>
    subst hx
    obtain ⟨hw, -⟩ := ht.requests _ hr rfl
    exact ((hok.receive (x := ⟨(s.txns t).pc, { (s.txns t).txn with
      pendingResponses := (s.txns t).txn.pendingResponses - 1 }⟩) rfl rfl rfl).addWrite
        (by simpa using hw.writing)).congr rfl rfl rfl rfl
  | serveReplication hr hx =>
    subst hx
    obtain ⟨hw, -⟩ := ht.requests _ hr rfl
    exact ((hok.receive (x := ⟨(s.txns t).pc, { (s.txns t).txn with
      pendingResponses := (s.txns t).txn.pendingResponses - 1 }⟩) rfl rfl rfl).addWrite
        (by simpa using hw.writing)).congr rfl rfl rfl rfl
  | @serveRelease _ _ _ i hr =>
    obtain ⟨hpos, e, he, rfl, hbit, -⟩ := ht.requests _ hr rfl
    have hown : s.owner (P.masterLoc e) = some t :=
      (hinv.owner _ _).mpr (.inl ⟨i, e, he, rfl, e, he, hbit, .inr ⟨_, hr, rfl, rfl⟩⟩)
    exact hok.received.addUnlock hown fun hrel => by rcases hpos with hp | ⟨j, hp, -⟩ <;> simp [hp, Pc.BeforeRelease] at hrel
  | @serveAbort _ _ i hr =>
    obtain ⟨hpos, e, he, rfl, hbit⟩ := ht.requests _ hr rfl
    have hown : s.owner (P.masterLoc e) = some t :=
      (hinv.owner _ _).mpr (.inl ⟨i, e, he, rfl, e, he, hbit, .inr ⟨_, hr, rfl, rfl⟩⟩)
    exact hok.received.addUnlock hown fun hrel => by rcases hpos with hp | ⟨j, hp, -⟩ <;> simp [hp, Pc.BeforeRelease] at hrel

theorem effectsOk_init {db : Loc → Row} {txns : Nat → ScarTransaction} (h : Clean db txns) (t : Nat) :
    EffectsOk P (System.init db txns) t where
  sent _ hr := absurd hr (List.not_mem_nil _)
  commitOnly _ hev := absurd hev (List.not_mem_nil _)
  locked i e he hb := by
    rw [h.writeLockBit t e (List.getElem?_mem he)] at hb; cases hb
  balanced _ := by simp [System.init]
  lockedOnce _ := by simp [System.init]
  unlocked _ _ _ hl := absurd hl (List.not_mem_nil _)
  abortSent _ _ _ hs := absurd hs (List.not_mem_nil _)
  abortedLocal _ _ _ _ ha := ha.elim
  abortedRemote _ _ _ _ ha := ha.elim

theorem reachable_effectsOk {s : System} (hs : Reachable P s) (t : Nat) : EffectsOk P s t := by
  induction hs with
  | init h => exact effectsOk_init h t
  | step hs' h ih => exact effectsOk_step (reachable_lockInv hs') h ih

/-! ### What `commit` has done when it returns -/

section Returned

variable {s : System} {t : Nat}

/-- A row `t` still owns after `commit` returned is the master copy of one of its
write keys whose unlock piece is in flight. -/
theorem LockInv.owned_after_return (hinv : LockInv P s) {b : Bool} (hpc : (s.txns t).pc = .returned b)
    {l : Loc} (hown : s.owner l = some t) :
    ∃ i e, (s.txns t).txn.writeSet[i]? = some e ∧ e.writeLockBit = true ∧ P.masterLoc e = l ∧
      ∃ r ∈ s.network, r.Unlocks t i := by
  rcases (hinv.owner l t).mp hown with ⟨i, e, he, hl, f, hf, hb, hU | hr⟩ | ⟨_, _, _, hrep, -⟩
  · rw [he] at hf; cases hf; simp [hpc, Pc.Unreleased] at hU
  · rw [he] at hf; cases hf; exact ⟨i, e, he, hb, hl, hr⟩
  · rw [hpc] at hrep; cases hrep

/-- After `commit` returned false, `t` owns no local master copy. -/
theorem EffectsOk.not_owner_local (h : EffectsOk P s t) (hinv : LockInv P s)
    (hpc : (s.txns t).pc = .returned false) {i : Nat} {e : ScarRWKey}
    (he : (s.txns t).txn.writeSet[i]? = some e) (hb : e.writeLockBit = true)
    (hlocal : P.hasMasterPartition (s.txns t).txn.coordinatorId e.partitionId) :
    s.owner (P.masterLoc e) ≠ some t := fun hown => by
  obtain ⟨j, f, hf, hfb, hl, r, hr, hu⟩ := hinv.owned_after_return hpc hown
  obtain rfl := (hinv.txn t).keyUnique j i f e hf he hfb hb hl
  rw [he] at hf; cases hf
  cases r with
  | releaseLock =>
    obtain ⟨hpos, -⟩ := (hinv.txn t).requests _ hr hu.txn_eq
    rcases hpos with hp | ⟨_, hp, -⟩ <;> rw [hpc] at hp <;> cases hp
  | abort l u k =>
    obtain ⟨-, -, f, hf, -, hremote, -⟩ := h.abortSent l u k (h.sent _ hr hu.1)
    rw [hu.2, he] at hf; cases hf; exact hremote hlocal
  | _ => exact hu.elim

/-- What `Scar::commit` has done to shared state for transaction `t`. On every
path each row `t` locked was locked once and has been unlocked once, but while
`t` still owns it, and a row `t` still owns after `commit` returned is the master
copy of one of its write keys whose unlock piece is in flight. When `commit` has
returned false: no table write and no `WRITE`, `REPLICATION` or `RELEASE_LOCK`
piece; each local key with the lock bit locked and unlocked once, the unlock
storing back the unlocked word its lock replaced; and one `ABORT` piece for each
remote key with the lock bit, and no other. -/
structure CommitEffects (P : Placement) (s : System) (t : Nat) : Prop where
  lockedAtMostOnce : ∀ l, (s.events t).countP (Effect.locks l) ≤ 1
  unlockedUnlessOwned : ∀ l, (s.events t).countP (Effect.unlocks l) +
    (if s.owner l = some t then 1 else 0) = (s.events t).countP (Effect.locks l)
  ownedAfterReturn : ∀ b l, (s.txns t).pc = .returned b → s.owner l = some t →
    ∃ i e, (s.txns t).txn.writeSet[i]? = some e ∧ e.writeLockBit = true ∧ P.masterLoc e = l ∧
      ∃ r ∈ s.network, r.Unlocks t i
  abortWritesNothing : (s.txns t).pc = .returned false → ∀ ev ∈ s.events t, ¬ ev.CommitOnly
  abortRestores : (s.txns t).pc = .returned false → ∀ (i : Nat) (e : ScarRWKey),
    (s.txns t).txn.writeSet[i]? = some e → e.writeLockBit = true →
    P.hasMasterPartition (s.txns t).txn.coordinatorId e.partitionId →
    e.tid.locked = false ∧ Effect.lock (P.masterLoc e) e.tid ∈ s.events t ∧
      Effect.unlock (P.masterLoc e) e.tid ∈ s.events t ∧
      (s.events t).countP (Effect.locks (P.masterLoc e)) = 1 ∧
      (s.events t).countP (Effect.unlocks (P.masterLoc e)) = 1
  abortPieces : (s.txns t).pc = .returned false → ∀ (l : Loc) (u i : Nat),
    Effect.send (.abort l u i) ∈ s.events t ↔ u = t ∧ ∃ e, (s.txns t).txn.writeSet[i]? = some e ∧
      e.writeLockBit = true ∧ ¬ P.hasMasterPartition (s.txns t).txn.coordinatorId e.partitionId ∧
      l = P.masterLoc e
  abortOnce : (s.txns t).pc = .returned false → ∀ (i : Nat) (e : ScarRWKey),
    (s.txns t).txn.writeSet[i]? = some e → e.writeLockBit = true →
    ¬ P.hasMasterPartition (s.txns t).txn.coordinatorId e.partitionId →
    (s.events t).count (Effect.send (.abort (P.masterLoc e) t i)) = 1

theorem commit_effects (hs : Reachable P s) (t : Nat) : CommitEffects P s t := by
  have h := reachable_effectsOk hs t
  have hinv := reachable_lockInv hs
  have hpast : ∀ {i}, (s.txns t).pc = .returned false → (s.txns t).pc.AbortedPast i :=
    fun hpc => by rw [hpc]; trivial
  refine ⟨h.lockedOnce, fun l => (h.balanced l).symm, fun b l hpc hown => hinv.owned_after_return hpc hown,
    fun hpc ev hev hc => ?_, fun hpc i e he hb hloc => ?_, fun hpc l u i => ⟨fun hsent => ?_, ?_⟩,
    fun hpc i e he hb hr => h.abortedRemote i e he hb (hpast hpc) hr⟩
  · have := h.commitOnly ev hev hc
    rw [hpc] at this; exact this
  · obtain ⟨hlk, hlock⟩ := h.locked i e he hb
    have hone : (s.events t).countP (Effect.locks (P.masterLoc e)) = 1 :=
      le_antisymm (h.lockedOnce _) (List.countP_pos_iff.mpr ⟨_, hlock, by simp⟩)
    have hbal := h.balanced (P.masterLoc e)
    rw [if_neg (h.not_owner_local hinv hpc he hb hloc), hone] at hbal
    exact ⟨hlk, hlock, h.abortedLocal i e he hb (hpast hpc) hloc, hone, hbal.symm⟩
  · obtain ⟨hu, -, hrest⟩ := h.abortSent l u i hsent
    exact ⟨hu, hrest⟩
  · rintro ⟨rfl, e, he, hb, hr, rfl⟩
    exact List.count_pos_iff.mp (by rw [h.abortedRemote i e he hb (hpast hpc) hr]; exact Nat.one_pos)

end Returned

/-- The effects of the abort run: `commit` has returned false. -/
theorem commit_effects_after_abort :
    ∃ s, Reachable Placement.pair s ∧ (s.txns 0).pc = .returned false ∧
      CommitEffects Placement.pair s 0 := by
  obtain ⟨s, hs, hpc, -⟩ := abortStart_run
  exact ⟨s, hs, hpc, commit_effects hs 0⟩

/-- `commit` returns false while a remote row it locked is still locked: the abort
loop sent `ABORT` for it without waiting, so the row has been locked once and not
yet unlocked, and its piece is still in flight. -/
theorem abort_returns_before_remote_unlock :
    ∃ s, Reachable Placement.pair s ∧ (s.txns 0).pc = .returned false ∧
      (s.db ⟨1, 1, 1⟩).tid.locked = true ∧ s.owner ⟨1, 1, 1⟩ = some 0 ∧
      (s.events 0).countP (Effect.locks ⟨1, 1, 1⟩) = 1 ∧
      (s.events 0).countP (Effect.unlocks ⟨1, 1, 1⟩) = 0 ∧
      Request.abort ⟨1, 1, 1⟩ 0 0 ∈ s.network := by
  obtain ⟨s, hs, hpc, hlk, hown, hev, hnet⟩ := abortStart_run
  exact ⟨s, hs, hpc, hlk, hown, by simp [hev], by simp [hev], hnet⟩

end Coco.Scar
