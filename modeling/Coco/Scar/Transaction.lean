import Coco.Scar.Tid

/-!
The parts of a Scar transaction that `Scar::commit` reads and writes
(`ScarTransaction.h` is not in the sources; the fields are the ones `Scar.h` uses),
where each record lives, and the pure steps of the commit: `compute_commit_ts`,
the `isKeyInWriteSet` lambda of `validate_read_set` and `get_read_key`.

A record is named by its key (the code compares key pointers, one object per
record) and lives on every coordinator that holds its partition: the master copy
on `master_coordinator(partition_id)`, replicas elsewhere.
-/

namespace Coco.Scar

/-- The fields of a read or write key that Scar uses. -/
structure ScarRWKey where
  partitionId : Nat
  key : Nat
  value : Nat
  tid : Tid
  localIndexReadBit : Bool
  writeLockBit : Bool
  readValidationSuccessBit : Bool
  wtsChangeInReadValidationBit : Bool
  deriving DecidableEq, Inhabited

/-- The fields of the transaction that `Scar::commit` uses. -/
structure ScarTransaction where
  coordinatorId : Nat
  readSet : List ScarRWKey
  writeSet : List ScarRWKey
  pendingResponses : Nat
  abortLock : Bool
  abortReadValidation : Bool
  commitRts : Nat
  commitWts : Nat
  deriving DecidableEq

/-- The partitioner calls of the commit, the same on every coordinator:
`has_master_partition(p)` is `master_coordinator(p) == coordinator_id`. -/
structure Placement where
  totalCoordinators : Nat
  masterCoordinator : Nat → Nat
  isPartitionReplicatedOn : Nat → Nat → Bool

/-- A copy of a record: the coordinator holding it, its partition and its key. -/
structure Loc where
  coordinator : Nat
  partitionId : Nat
  key : Nat
  deriving DecidableEq

namespace Placement

variable (P : Placement)

def hasMasterPartition (coordinatorId partitionId : Nat) : Prop :=
  P.masterCoordinator partitionId = coordinatorId

instance (c p : Nat) : Decidable (P.hasMasterPartition c p) :=
  inferInstanceAs (Decidable (_ = _))

/-- The master copy of the record a key names. -/
def masterLoc (k : ScarRWKey) : Loc := ⟨P.masterCoordinator k.partitionId, k.partitionId, k.key⟩

/-- The copy a read goes to: the local table for a local index read, else the master. -/
def readLoc (coordinatorId : Nat) (k : ScarRWKey) : Loc :=
  if k.localIndexReadBit then ⟨coordinatorId, k.partitionId, k.key⟩ else P.masterLoc k

/-- A copy is a master copy when its coordinator masters its partition. -/
def IsMaster (l : Loc) : Prop := P.masterCoordinator l.partitionId = l.coordinator

@[simp] theorem masterLoc_isMaster (k : ScarRWKey) : P.IsMaster (P.masterLoc k) := rfl

end Placement

/-- The copy of `k`'s record on coordinator `c`, where the replication loop writes. -/
def replicaLoc (k : ScarRWKey) (c : Nat) : Loc := ⟨c, k.partitionId, k.key⟩

theorem replicaLoc_ne_masterLoc {P : Placement} {k k' : ScarRWKey} {c : Nat}
    (hc : c ≠ P.masterCoordinator k.partitionId) : replicaLoc k c ≠ P.masterLoc k' := by
  intro h
  simp only [replicaLoc, Placement.masterLoc, Loc.mk.injEq] at h
  exact hc (h.2.1 ▸ h.1)

namespace ScarTransaction

/-- The lambda `isKeyInWriteSet` of `validate_read_set`. -/
def isKeyInWriteSet (writeSet : List ScarRWKey) (key : Nat) : Bool :=
  writeSet.any fun writeKey => writeKey.key = key

/-- `get_read_key(key)`: the first read-set entry of the key. -/
def getReadKey (txn : ScarTransaction) (key : Nat) : Option ScarRWKey :=
  txn.readSet.find? fun readKey => readKey.key = key

/-- `compute_commit_ts`: `commit_rts` is the largest wts read, `commit_wts` the
larger of it and every locked write's rts plus one. -/
def computeCommitTs (txn : ScarTransaction) : ScarTransaction :=
  let commitRts := txn.readSet.foldl (fun ts k => max ts (ScarHelper.getWts k.tid)) 0
  let commitWts := txn.writeSet.foldl (fun ts k => max ts (ScarHelper.getRts k.tid + 1)) commitRts
  { txn with commitRts, commitWts }

theorem le_foldl_max {α : Type} (f : α → Nat) (l : List α) (a : Nat) :
    a ≤ l.foldl (fun ts k => max ts (f k)) a := by
  induction l generalizing a with
  | nil => exact le_rfl
  | cons x l ih => exact (le_max_left a (f x)).trans (ih _)

theorem le_foldl_max_of_mem {α : Type} (f : α → Nat) {l : List α} {x : α} (hx : x ∈ l)
    (a : Nat) : f x ≤ l.foldl (fun ts k => max ts (f k)) a := by
  induction l generalizing a with
  | nil => cases hx
  | cons y l ih =>
    rcases List.mem_cons.mp hx with rfl | hx
    · exact (le_max_right a (f x)).trans (le_foldl_max f l _)
    · exact ih hx _

theorem foldl_max_le_iff {α : Type} (f : α → Nat) (l : List α) (a c : Nat) :
    l.foldl (fun ts k => max ts (f k)) a ≤ c ↔ a ≤ c ∧ ∀ x ∈ l, f x ≤ c := by
  induction l generalizing a with
  | nil => simp
  | cons x l ih => simp only [List.foldl_cons, ih, max_le_iff, List.mem_cons, forall_eq_or_imp, and_assoc]

variable (txn : ScarTransaction)

@[simp] theorem computeCommitTs_readSet : txn.computeCommitTs.readSet = txn.readSet := rfl
@[simp] theorem computeCommitTs_writeSet : txn.computeCommitTs.writeSet = txn.writeSet := rfl
@[simp] theorem computeCommitTs_coordinatorId :
    txn.computeCommitTs.coordinatorId = txn.coordinatorId := rfl
@[simp] theorem computeCommitTs_pendingResponses :
    txn.computeCommitTs.pendingResponses = txn.pendingResponses := rfl
@[simp] theorem computeCommitTs_abortLock :
    txn.computeCommitTs.abortLock = txn.abortLock := rfl
@[simp] theorem computeCommitTs_abortReadValidation :
    txn.computeCommitTs.abortReadValidation = txn.abortReadValidation := rfl

theorem wts_le_commitRts {k : ScarRWKey} (hk : k ∈ txn.readSet) :
    k.tid.wts ≤ txn.computeCommitTs.commitRts :=
  le_foldl_max_of_mem (fun k : ScarRWKey => ScarHelper.getWts k.tid) hk 0

theorem commitRts_le_commitWts : txn.computeCommitTs.commitRts ≤ txn.computeCommitTs.commitWts :=
  le_foldl_max _ _ _

theorem rts_lt_commitWts {k : ScarRWKey} (hk : k ∈ txn.writeSet) :
    k.tid.rts < txn.computeCommitTs.commitWts :=
  le_foldl_max_of_mem (fun k : ScarRWKey => ScarHelper.getRts k.tid + 1) hk _

end ScarTransaction

end Coco.Scar
