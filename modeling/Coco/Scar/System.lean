import Coco.Scar.Transaction

/-!
Scar commits running side by side on a cluster. Every coordinator's tables form
one database of rows indexed by `Loc`; each transaction runs its reads and then
`Scar::commit`, one loop iteration of `lock_write_set`, `validate_read_set`,
`write_and_replicate`, `release_lock` or `abort` at a time, so that steps of all
transactions interleave.

A piece sent to another coordinator is a `Request` in flight. Serving it is one
step: the master's handler runs the same `ScarHelper` operation on its row and,
for the requests `sync_messages` waits for, the response is applied to the
waiting transaction. `ScarMessage.h` is not in the sources; the handlers are
modelled from the spec's description of the pieces. `LOCK`, `READ_VALIDATION`,
`WRITE` and `REPLICATION` are waited for; `RELEASE_LOCK` and `ABORT` are sent with
`sync_messages(txn, false)` and served at any later time.

Two ghost fields record who set each `LOCK` bit and every shared-state effect
of each transaction, in order.
-/

namespace Coco.Scar

/-- Where a transaction is: before read `i` of its execution, or before an
iteration of one of the loops of `Scar::commit`. -/
inductive Pc where
  | execute (i : Nat)
  | lockWriteSet (i : Nat)
  /-- `sync_messages` at the end of `lock_write_set`. -/
  | syncLock
  | validateReadSet (i : Nat)
  | syncValidation
  | writeAndReplicate (i : Nat)
  /-- The replication loop over coordinators `k` for write key `i`. -/
  | replicate (i k : Nat)
  /-- Between `ScarHelper::lock(tid)` and `unlock(tid, commit_wts)` on the
  local replica. -/
  | replicaLocked (i k : Nat)
  | syncWrite
  | releaseLock (i : Nat)
  | abort (i : Nat)
  | returned (result : Bool)
  deriving DecidableEq, Repr

structure Row where
  value : Nat
  tid : Tid
  deriving DecidableEq

/-- A message piece to another coordinator, with the row it goes to. `t` and
`i` name the transaction and the key offset the response goes back to. -/
inductive Request where
  | lock (loc : Loc) (t i : Nat)
  | readValidation (loc : Loc) (t i : Nat) (tid : Tid) (commitTs : Nat)
  | write (loc : Loc) (value t i : Nat)
  | replication (loc : Loc) (value commitWts t i : Nat)
  | releaseLock (loc : Loc) (commitWts t i : Nat)
  | abort (loc : Loc) (t i : Nat)
  deriving DecidableEq

namespace Request

def txn : Request → Nat
  | lock _ t _ | readValidation _ t _ _ _ | write _ _ t _ | replication _ _ _ t _
  | releaseLock _ _ t _ | abort _ t _ => t

/-- The pieces `sync_messages` waits for a response to. -/
def Waited : Request → Prop
  | lock .. | readValidation .. | write .. | replication .. => True
  | releaseLock .. | abort .. => False

instance : DecidablePred Waited := fun r => by cases r <;> unfold Waited <;> infer_instance

end Request

/-- What a step does to shared state on behalf of a transaction. -/
inductive Effect where
  /-- `LOCK` set on the row, which held `word` before. -/
  | lock (loc : Loc) (word : Tid)
  /-- `LOCK` cleared, the row now holding `word`. -/
  | unlock (loc : Loc) (word : Tid)
  | write (loc : Loc) (value : Nat)
  | send (r : Request)
  deriving DecidableEq

structure TxnState where
  pc : Pc
  txn : ScarTransaction

structure System where
  db : Loc → Row
  txns : Nat → TxnState
  network : List Request
  /-- Ghost: the transaction whose step set the row's `LOCK` bit. -/
  owner : Loc → Option Nat
  /-- Ghost: each transaction's effects so far. -/
  events : Nat → List Effect

namespace System

variable (s : System)

def setTxn (t : Nat) (x : TxnState) : System := { s with txns := Function.update s.txns t x }

def record (t : Nat) (e : Effect) : System :=
  { s with events := Function.update s.events t (s.events t ++ [e]) }

/-- `lock` granted to `t`. -/
def lockRow (t : Nat) (l : Loc) : System :=
  { s.record t (.lock l (s.db l).tid) with
    db := Function.update s.db l ⟨(s.db l).value, (s.db l).tid.setLocked true⟩
    owner := Function.update s.owner l (some t) }

/-- `t` clears the row's `LOCK` bit, storing `w`. -/
def unlockRow (t : Nat) (l : Loc) (w : Tid) : System :=
  { s.record t (.unlock l w) with
    db := Function.update s.db l ⟨(s.db l).value, w⟩
    owner := Function.update s.owner l none }

/-- `table->update(key, value)` for `t`. -/
def writeRow (t : Nat) (l : Loc) (v : Nat) : System :=
  { s.record t (.write l v) with
    db := Function.update s.db l ⟨v, (s.db l).tid⟩ }

/-- A store to the row's word that leaves `LOCK` alone. -/
def setTid (l : Loc) (w : Tid) : System :=
  { s with db := Function.update s.db l ⟨(s.db l).value, w⟩ }

def send (t : Nat) (r : Request) : System := { s.record t (.send r) with network := r :: s.network }

def receive (r : Request) : System := { s with network := s.network.erase r }

variable {s} (t u : Nat) (x : TxnState) (l m : Loc) (w : Tid) (v : Nat) (e : Effect) (r : Request)

@[simp] theorem setTxn_db : (s.setTxn t x).db = s.db := rfl
@[simp] theorem setTxn_network : (s.setTxn t x).network = s.network := rfl
@[simp] theorem setTxn_owner : (s.setTxn t x).owner = s.owner := rfl
@[simp] theorem setTxn_events : (s.setTxn t x).events = s.events := rfl
@[simp] theorem setTxn_txns : (s.setTxn t x).txns u = if u = t then x else s.txns u := by
  simp [setTxn, Function.update_apply]

@[simp] theorem record_db : (s.record t e).db = s.db := rfl
@[simp] theorem record_txns : (s.record t e).txns = s.txns := rfl
@[simp] theorem record_network : (s.record t e).network = s.network := rfl
@[simp] theorem record_owner : (s.record t e).owner = s.owner := rfl
@[simp] theorem record_events :
    (s.record t e).events u = if u = t then s.events t ++ [e] else s.events u := by
  simp [record, Function.update_apply]

@[simp] theorem lockRow_db : (s.lockRow t l).db m =
    if m = l then ⟨(s.db l).value, (s.db l).tid.setLocked true⟩ else s.db m := by
  simp [lockRow, Function.update_apply]
@[simp] theorem lockRow_owner : (s.lockRow t l).owner m = if m = l then some t else s.owner m := by
  simp [lockRow, Function.update_apply]
@[simp] theorem lockRow_txns : (s.lockRow t l).txns = s.txns := rfl
@[simp] theorem lockRow_network : (s.lockRow t l).network = s.network := rfl
@[simp] theorem lockRow_events :
    (s.lockRow t l).events = (s.record t (.lock l (s.db l).tid)).events := rfl

@[simp] theorem unlockRow_db : (s.unlockRow t l w).db m =
    if m = l then ⟨(s.db l).value, w⟩ else s.db m := by
  simp [unlockRow, Function.update_apply]
@[simp] theorem unlockRow_owner : (s.unlockRow t l w).owner m = if m = l then none else s.owner m := by
  simp [unlockRow, Function.update_apply]
@[simp] theorem unlockRow_txns : (s.unlockRow t l w).txns = s.txns := rfl
@[simp] theorem unlockRow_network : (s.unlockRow t l w).network = s.network := rfl
@[simp] theorem unlockRow_events :
    (s.unlockRow t l w).events = (s.record t (.unlock l w)).events := rfl

@[simp] theorem writeRow_db : (s.writeRow t l v).db m = if m = l then ⟨v, (s.db l).tid⟩ else s.db m := by
  simp [writeRow, Function.update_apply]
@[simp] theorem writeRow_owner : (s.writeRow t l v).owner = s.owner := rfl
@[simp] theorem writeRow_txns : (s.writeRow t l v).txns = s.txns := rfl
@[simp] theorem writeRow_network : (s.writeRow t l v).network = s.network := rfl
@[simp] theorem writeRow_events : (s.writeRow t l v).events = (s.record t (.write l v)).events := rfl

@[simp] theorem setTid_db : (s.setTid l w).db m = if m = l then ⟨(s.db l).value, w⟩ else s.db m := by
  simp [setTid, Function.update_apply]
@[simp] theorem setTid_owner : (s.setTid l w).owner = s.owner := rfl
@[simp] theorem setTid_txns : (s.setTid l w).txns = s.txns := rfl
@[simp] theorem setTid_network : (s.setTid l w).network = s.network := rfl
@[simp] theorem setTid_events : (s.setTid l w).events = s.events := rfl

@[simp] theorem send_db : (s.send t r).db = s.db := rfl
@[simp] theorem send_owner : (s.send t r).owner = s.owner := rfl
@[simp] theorem send_txns : (s.send t r).txns = s.txns := rfl
@[simp] theorem send_network : (s.send t r).network = r :: s.network := rfl
@[simp] theorem send_events : (s.send t r).events = (s.record t (.send r)).events := rfl

@[simp] theorem receive_db : (s.receive r).db = s.db := rfl
@[simp] theorem receive_owner : (s.receive r).owner = s.owner := rfl
@[simp] theorem receive_txns : (s.receive r).txns = s.txns := rfl
@[simp] theorem receive_network : (s.receive r).network = s.network.erase r := rfl
@[simp] theorem receive_events : (s.receive r).events = s.events := rfl

end System

namespace ScarTransaction

variable (txn : ScarTransaction)

/-- `readRequestHandler` filling read key `i` with the row it read. -/
def readFilled (i : Nat) (e : ScarRWKey) (row : Row) : ScarTransaction :=
  { txn with readSet := txn.readSet.set i { e with value := row.value, tid := row.tid } }

/-- The write key bookkeeping once `lock` is granted: `set_write_lock_bit`,
`set_tid(latestTid)`, and `abort_lock` when the wts differs from the one read. -/
def lockGranted (i : Nat) (e : ScarRWKey) (latest tidOnRead : Tid) : ScarTransaction :=
  { txn with
    writeSet := txn.writeSet.set i { e with writeLockBit := true, tid := latest }
    abortLock := txn.abortLock || decide (ScarHelper.getWts latest ≠ ScarHelper.getWts tidOnRead) }

/-- The read key bookkeeping of a successful `validate_read_key`. -/
def validationPassed (i : Nat) (e : ScarRWKey) (written : Tid) : ScarTransaction :=
  let changed := decide (ScarHelper.getWts written ≠ ScarHelper.getWts e.tid)
  { txn with
    readSet := txn.readSet.set i
      { e with
        readValidationSuccessBit := true
        wtsChangeInReadValidationBit := e.wtsChangeInReadValidationBit || changed
        tid := if changed then written else e.tid } }

variable (i : Nat) (e : ScarRWKey) (row : Row) (w r : Tid)

@[simp] theorem readFilled_coordinatorId : (txn.readFilled i e row).coordinatorId = txn.coordinatorId := rfl
@[simp] theorem readFilled_writeSet : (txn.readFilled i e row).writeSet = txn.writeSet := rfl
@[simp] theorem readFilled_abortLock : (txn.readFilled i e row).abortLock = txn.abortLock := rfl
@[simp] theorem readFilled_pendingResponses :
    (txn.readFilled i e row).pendingResponses = txn.pendingResponses := rfl
@[simp] theorem validationPassed_coordinatorId :
    (txn.validationPassed i e w).coordinatorId = txn.coordinatorId := rfl
@[simp] theorem validationPassed_writeSet : (txn.validationPassed i e w).writeSet = txn.writeSet := rfl
@[simp] theorem validationPassed_abortLock : (txn.validationPassed i e w).abortLock = txn.abortLock := rfl
@[simp] theorem validationPassed_abortReadValidation :
    (txn.validationPassed i e w).abortReadValidation = txn.abortReadValidation := rfl
@[simp] theorem validationPassed_pendingResponses :
    (txn.validationPassed i e w).pendingResponses = txn.pendingResponses := rfl
@[simp] theorem validationPassed_commitWts : (txn.validationPassed i e w).commitWts = txn.commitWts := rfl
@[simp] theorem lockGranted_coordinatorId :
    (txn.lockGranted i e w r).coordinatorId = txn.coordinatorId := rfl
@[simp] theorem lockGranted_pendingResponses :
    (txn.lockGranted i e w r).pendingResponses = txn.pendingResponses := rfl
@[simp] theorem lockGranted_readSet : (txn.lockGranted i e w r).readSet = txn.readSet := rfl

end ScarTransaction

open ScarHelper in
/-- One step of transaction `t`, or of a handler serving one of `t`'s requests.
`x` is `t`'s state before the step. -/
inductive Step (P : Placement) : System → Nat → System → Prop
  /- Execution: `readRequestHandler` reads the local copy for a local index read
  and the master copy otherwise; `ScarHelper::read` waits while `LOCK` is set. -/
  | read {s t x i e} (hx : s.txns t = x) (hpc : x.pc = .execute i)
      (he : x.txn.readSet[i]? = some e)
      (hunlocked : (s.db (P.readLoc x.txn.coordinatorId e)).tid.locked = false) :
      Step P s t (s.setTxn t
        ⟨.execute (i + 1), x.txn.readFilled i e (s.db (P.readLoc x.txn.coordinatorId e))⟩)
  | executeDone {s t x i} (hx : s.txns t = x) (hpc : x.pc = .execute i)
      (hi : x.txn.readSet.length ≤ i) :
      Step P s t (s.setTxn t ⟨.lockWriteSet 0, x.txn⟩)
  /- `lock_write_set` -/
  | lockLocal {s t x i e r} (hx : s.txns t = x) (hpc : x.pc = .lockWriteSet i)
      (he : x.txn.writeSet[i]? = some e)
      (hlocal : P.hasMasterPartition x.txn.coordinatorId e.partitionId)
      (hunlocked : (s.db (P.masterLoc e)).tid.locked = false)
      (hread : x.txn.getReadKey e.key = some r) :
      Step P s t ((s.lockRow t (P.masterLoc e)).setTxn t
        ⟨if getWts (s.db (P.masterLoc e)).tid ≠ getWts r.tid then .syncLock else .lockWriteSet (i + 1),
          x.txn.lockGranted i e (s.db (P.masterLoc e)).tid r.tid⟩)
  | lockLocalFail {s t x i e} (hx : s.txns t = x) (hpc : x.pc = .lockWriteSet i)
      (he : x.txn.writeSet[i]? = some e)
      (hlocal : P.hasMasterPartition x.txn.coordinatorId e.partitionId)
      (hlocked : (s.db (P.masterLoc e)).tid.locked = true) :
      Step P s t (s.setTxn t ⟨.syncLock, { x.txn with abortLock := true }⟩)
  | lockRemote {s t x i e} (hx : s.txns t = x) (hpc : x.pc = .lockWriteSet i)
      (he : x.txn.writeSet[i]? = some e)
      (hremote : ¬ P.hasMasterPartition x.txn.coordinatorId e.partitionId) :
      Step P s t ((s.send t (.lock (P.masterLoc e) t i)).setTxn t
        ⟨.lockWriteSet (i + 1), { x.txn with pendingResponses := x.txn.pendingResponses + 1 }⟩)
  | lockDone {s t x i} (hx : s.txns t = x) (hpc : x.pc = .lockWriteSet i)
      (hi : x.txn.writeSet.length ≤ i) :
      Step P s t (s.setTxn t ⟨.syncLock, x.txn⟩)
  /- `sync_messages`; `commit` then aborts or computes the commit timestamps -/
  | syncLockAbort {s t x} (hx : s.txns t = x) (hpc : x.pc = .syncLock)
      (hdone : x.txn.pendingResponses = 0) (habort : x.txn.abortLock = true) :
      Step P s t (s.setTxn t ⟨.abort 0, x.txn⟩)
  | syncLockCommit {s t x} (hx : s.txns t = x) (hpc : x.pc = .syncLock)
      (hdone : x.txn.pendingResponses = 0) (habort : x.txn.abortLock = false) :
      Step P s t (s.setTxn t ⟨.validateReadSet 0, x.txn.computeCommitTs⟩)
  /- `validate_read_set` -/
  | validateSkip {s t x i e} (hx : s.txns t = x) (hpc : x.pc = .validateReadSet i)
      (he : x.txn.readSet[i]? = some e)
      (hskip : e.localIndexReadBit = true ∨
        ScarTransaction.isKeyInWriteSet x.txn.writeSet e.key = true) :
      Step P s t (s.setTxn t ⟨.validateReadSet (i + 1), x.txn⟩)
  | validateLocal {s t x i e w} (hx : s.txns t = x) (hpc : x.pc = .validateReadSet i)
      (he : x.txn.readSet[i]? = some e) (hindex : e.localIndexReadBit = false)
      (hwrite : ScarTransaction.isKeyInWriteSet x.txn.writeSet e.key = false)
      (hlocal : P.hasMasterPartition x.txn.coordinatorId e.partitionId)
      (hvalid : validateReadKey (s.db (P.masterLoc e)).tid e.tid x.txn.commitWts = some w) :
      Step P s t ((s.setTid (P.masterLoc e) w).setTxn t
        ⟨.validateReadSet (i + 1), x.txn.validationPassed i e w⟩)
  | validateLocalFail {s t x i e} (hx : s.txns t = x) (hpc : x.pc = .validateReadSet i)
      (he : x.txn.readSet[i]? = some e) (hindex : e.localIndexReadBit = false)
      (hwrite : ScarTransaction.isKeyInWriteSet x.txn.writeSet e.key = false)
      (hlocal : P.hasMasterPartition x.txn.coordinatorId e.partitionId)
      (hinvalid : validateReadKey (s.db (P.masterLoc e)).tid e.tid x.txn.commitWts = none) :
      Step P s t (s.setTxn t ⟨.syncValidation, { x.txn with abortReadValidation := true }⟩)
  | validateRemote {s t x i e} (hx : s.txns t = x) (hpc : x.pc = .validateReadSet i)
      (he : x.txn.readSet[i]? = some e) (hindex : e.localIndexReadBit = false)
      (hwrite : ScarTransaction.isKeyInWriteSet x.txn.writeSet e.key = false)
      (hremote : ¬ P.hasMasterPartition x.txn.coordinatorId e.partitionId) :
      Step P s t ((s.send t (.readValidation (P.masterLoc e) t i e.tid x.txn.commitWts)).setTxn t
        ⟨.validateReadSet (i + 1), { x.txn with pendingResponses := x.txn.pendingResponses + 1 }⟩)
  | validateDone {s t x i} (hx : s.txns t = x) (hpc : x.pc = .validateReadSet i)
      (hi : x.txn.readSet.length ≤ i) :
      Step P s t (s.setTxn t ⟨.syncValidation, x.txn⟩)
  | syncValidationAbort {s t x} (hx : s.txns t = x) (hpc : x.pc = .syncValidation)
      (hdone : x.txn.pendingResponses = 0) (habort : x.txn.abortReadValidation = true) :
      Step P s t (s.setTxn t ⟨.abort 0, x.txn⟩)
  | syncValidationCommit {s t x} (hx : s.txns t = x) (hpc : x.pc = .syncValidation)
      (hdone : x.txn.pendingResponses = 0) (habort : x.txn.abortReadValidation = false) :
      Step P s t (s.setTxn t ⟨.writeAndReplicate 0, x.txn⟩)
  /- `write_and_replicate` -/
  | writeLocal {s t x i e} (hx : s.txns t = x) (hpc : x.pc = .writeAndReplicate i)
      (he : x.txn.writeSet[i]? = some e)
      (hlocal : P.hasMasterPartition x.txn.coordinatorId e.partitionId) :
      Step P s t ((s.writeRow t (P.masterLoc e) e.value).setTxn t ⟨.replicate i 0, x.txn⟩)
  | writeRemote {s t x i e} (hx : s.txns t = x) (hpc : x.pc = .writeAndReplicate i)
      (he : x.txn.writeSet[i]? = some e)
      (hremote : ¬ P.hasMasterPartition x.txn.coordinatorId e.partitionId) :
      Step P s t ((s.send t (.write (P.masterLoc e) e.value t i)).setTxn t
        ⟨.replicate i 0, { x.txn with pendingResponses := x.txn.pendingResponses + 1 }⟩)
  | writeDone {s t x i} (hx : s.txns t = x) (hpc : x.pc = .writeAndReplicate i)
      (hi : x.txn.writeSet.length ≤ i) :
      Step P s t (s.setTxn t ⟨.syncWrite, x.txn⟩)
  | replicateSkip {s t x i k e} (hx : s.txns t = x) (hpc : x.pc = .replicate i k)
      (he : x.txn.writeSet[i]? = some e) (hk : k < P.totalCoordinators)
      (hskip : P.isPartitionReplicatedOn e.partitionId k = false ∨
        k = P.masterCoordinator e.partitionId) :
      Step P s t (s.setTxn t ⟨.replicate i (k + 1), x.txn⟩)
  | replicateLock {s t x i k e} (hx : s.txns t = x) (hpc : x.pc = .replicate i k)
      (he : x.txn.writeSet[i]? = some e) (hk : k < P.totalCoordinators)
      (hrep : P.isPartitionReplicatedOn e.partitionId k = true)
      (hmaster : k ≠ P.masterCoordinator e.partitionId) (hself : k = x.txn.coordinatorId)
      (hunlocked : (s.db (replicaLoc e k)).tid.locked = false) :
      Step P s t ((s.lockRow t (replicaLoc e k)).setTxn t ⟨.replicaLocked i k, x.txn⟩)
  | replicaUnlock {s t x i k e} (hx : s.txns t = x) (hpc : x.pc = .replicaLocked i k)
      (he : x.txn.writeSet[i]? = some e) :
      Step P s t (((s.writeRow t (replicaLoc e k) e.value).unlockRow t (replicaLoc e k)
        (unlockWithCommit x.txn.commitWts)).setTxn t ⟨.replicate i (k + 1), x.txn⟩)
  | replicateRemote {s t x i k e} (hx : s.txns t = x) (hpc : x.pc = .replicate i k)
      (he : x.txn.writeSet[i]? = some e) (hk : k < P.totalCoordinators)
      (hrep : P.isPartitionReplicatedOn e.partitionId k = true)
      (hmaster : k ≠ P.masterCoordinator e.partitionId) (hother : k ≠ x.txn.coordinatorId) :
      Step P s t ((s.send t (.replication (replicaLoc e k) e.value x.txn.commitWts t i)).setTxn t
        ⟨.replicate i (k + 1), { x.txn with pendingResponses := x.txn.pendingResponses + 1 }⟩)
  | replicateDone {s t x i k} (hx : s.txns t = x) (hpc : x.pc = .replicate i k)
      (hk : P.totalCoordinators ≤ k) :
      Step P s t (s.setTxn t ⟨.writeAndReplicate (i + 1), x.txn⟩)
  | syncWriteDone {s t x} (hx : s.txns t = x) (hpc : x.pc = .syncWrite)
      (hdone : x.txn.pendingResponses = 0) :
      Step P s t (s.setTxn t ⟨.releaseLock 0, x.txn⟩)
  /- `release_lock`, whose `sync_messages(txn, false)` does not wait -/
  | releaseLocal {s t x i e} (hx : s.txns t = x) (hpc : x.pc = .releaseLock i)
      (he : x.txn.writeSet[i]? = some e)
      (hlocal : P.hasMasterPartition x.txn.coordinatorId e.partitionId) :
      Step P s t (((s.writeRow t (P.masterLoc e) e.value).unlockRow t (P.masterLoc e)
        (unlockWithCommit x.txn.commitWts)).setTxn t ⟨.releaseLock (i + 1), x.txn⟩)
  | releaseRemote {s t x i e} (hx : s.txns t = x) (hpc : x.pc = .releaseLock i)
      (he : x.txn.writeSet[i]? = some e)
      (hremote : ¬ P.hasMasterPartition x.txn.coordinatorId e.partitionId) :
      Step P s t ((s.send t (.releaseLock (P.masterLoc e) x.txn.commitWts t i)).setTxn t
        ⟨.releaseLock (i + 1), x.txn⟩)
  | releaseDone {s t x i} (hx : s.txns t = x) (hpc : x.pc = .releaseLock i)
      (hi : x.txn.writeSet.length ≤ i) :
      Step P s t (s.setTxn t ⟨.returned true, x.txn⟩)
  /- `abort`, whose `sync_messages(txn, false)` does not wait -/
  | abortSkip {s t x i e} (hx : s.txns t = x) (hpc : x.pc = .abort i)
      (he : x.txn.writeSet[i]? = some e) (hbit : e.writeLockBit = false) :
      Step P s t (s.setTxn t ⟨.abort (i + 1), x.txn⟩)
  | abortLocal {s t x i e} (hx : s.txns t = x) (hpc : x.pc = .abort i)
      (he : x.txn.writeSet[i]? = some e) (hbit : e.writeLockBit = true)
      (hlocal : P.hasMasterPartition x.txn.coordinatorId e.partitionId) :
      Step P s t ((s.unlockRow t (P.masterLoc e) (unlock (s.db (P.masterLoc e)).tid)).setTxn t
        ⟨.abort (i + 1), x.txn⟩)
  | abortRemote {s t x i e} (hx : s.txns t = x) (hpc : x.pc = .abort i)
      (he : x.txn.writeSet[i]? = some e) (hbit : e.writeLockBit = true)
      (hremote : ¬ P.hasMasterPartition x.txn.coordinatorId e.partitionId) :
      Step P s t ((s.send t (.abort (P.masterLoc e) t i)).setTxn t ⟨.abort (i + 1), x.txn⟩)
  | abortDone {s t x i} (hx : s.txns t = x) (hpc : x.pc = .abort i)
      (hi : x.txn.writeSet.length ≤ i) :
      Step P s t (s.setTxn t ⟨.returned false, x.txn⟩)
  /- The handlers of the pieces, and the responses to the waiting transaction. -/
  | serveLock {s l t i x e r} (hr : Request.lock l t i ∈ s.network) (hx : s.txns t = x)
      (he : x.txn.writeSet[i]? = some e) (hread : x.txn.getReadKey e.key = some r)
      (hunlocked : (s.db l).tid.locked = false) :
      Step P s t (((s.receive (.lock l t i)).lockRow t l).setTxn t ⟨x.pc,
        { x.txn.lockGranted i e (s.db l).tid r.tid with
          pendingResponses := x.txn.pendingResponses - 1 }⟩)
  | serveLockFail {s l t i x} (hr : Request.lock l t i ∈ s.network) (hx : s.txns t = x)
      (hlocked : (s.db l).tid.locked = true) :
      Step P s t ((s.receive (.lock l t i)).setTxn t ⟨x.pc,
        { x.txn with abortLock := true, pendingResponses := x.txn.pendingResponses - 1 }⟩)
  | serveValidation {s l t i tid c x e w}
      (hr : Request.readValidation l t i tid c ∈ s.network) (hx : s.txns t = x)
      (he : x.txn.readSet[i]? = some e) (hvalid : validateReadKey (s.db l).tid tid c = some w) :
      Step P s t (((s.receive (.readValidation l t i tid c)).setTid l w).setTxn t ⟨x.pc,
        { x.txn.validationPassed i e w with pendingResponses := x.txn.pendingResponses - 1 }⟩)
  | serveValidationFail {s l t i tid c x}
      (hr : Request.readValidation l t i tid c ∈ s.network) (hx : s.txns t = x)
      (hinvalid : validateReadKey (s.db l).tid tid c = none) :
      Step P s t ((s.receive (.readValidation l t i tid c)).setTxn t ⟨x.pc,
        { x.txn with
          abortReadValidation := true
          pendingResponses := x.txn.pendingResponses - 1 }⟩)
  | serveWrite {s l v t i x} (hr : Request.write l v t i ∈ s.network) (hx : s.txns t = x) :
      Step P s t (((s.receive (.write l v t i)).writeRow t l v).setTxn t ⟨x.pc,
        { x.txn with pendingResponses := x.txn.pendingResponses - 1 }⟩)
  | serveReplication {s l v c t i x} (hr : Request.replication l v c t i ∈ s.network)
      (hx : s.txns t = x) (hunlocked : (s.db l).tid.locked = false) :
      Step P s t ((((s.receive (.replication l v c t i)).writeRow t l v).setTid l
        (unlockWithCommit c)).setTxn t ⟨x.pc,
          { x.txn with pendingResponses := x.txn.pendingResponses - 1 }⟩)
  | serveRelease {s l c t i} (hr : Request.releaseLock l c t i ∈ s.network) :
      Step P s t ((s.receive (.releaseLock l c t i)).unlockRow t l (unlockWithCommit c))
  | serveAbort {s l t i} (hr : Request.abort l t i ∈ s.network) :
      Step P s t ((s.receive (.abort l t i)).unlockRow t l (unlock (s.db l).tid))

/-- A start of a run: every row unlocked, and each transaction before its first
read, with no response pending, no abort flag and no write lock bit set. -/
structure Clean (db : Loc → Row) (txns : Nat → ScarTransaction) : Prop where
  unlocked : ∀ l, (db l).tid.locked = false
  pending : ∀ t, (txns t).pendingResponses = 0
  abortLock : ∀ t, (txns t).abortLock = false
  abortReadValidation : ∀ t, (txns t).abortReadValidation = false
  writeLockBit : ∀ t, ∀ e ∈ (txns t).writeSet, e.writeLockBit = false

def System.init (db : Loc → Row) (txns : Nat → ScarTransaction) : System :=
  ⟨db, fun t => ⟨.execute 0, txns t⟩, [], fun _ => none, fun _ => []⟩

inductive Reachable (P : Placement) : System → Prop
  | init {db txns} : Clean db txns → Reachable P (System.init db txns)
  | step {s t s'} : Reachable P s → Step P s t s' → Reachable P s'

end Coco.Scar
