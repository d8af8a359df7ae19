import Coco.Scar.Abort
import Coco.Scar.Runs

/-!
Replication in Scar. `write_and_replicate` writes each write key's value on the
master copy of its record and on every replica, the coordinators below
`total_coordinators` other than the master on which `is_partition_replicated_on`
holds: locally with `table->update`, or with a `WRITE` or `REPLICATION` piece,
and a replica's word becomes `unlock(tid, commit_wts)`. Its `sync_messages`
waits for every response before `release_lock` stores the same word on the
master.

Only the transaction holding a record's master lock changes a copy's value or
wts, and it writes nothing on the abort path. So a record whose master copy is
unlocked has every replica equal to the master in value and wts, in every state
of a run from a database whose copies agree (`replicas_agree_with_master`).
`KeyCopies` says where the copies of a held write key stand while the loops
run; `ReplicaInv` adds that the copies of every record nobody holds agree.
-/

namespace Coco.Scar

variable {P : Placement}

/-- The copy of `l`'s record on coordinator `c`. -/
def Loc.copyOn (l : Loc) (c : Nat) : Loc := ⟨c, l.partitionId, l.key⟩

namespace Placement

/-- The master copy of `l`'s record. -/
def masterOf (P : Placement) (l : Loc) : Loc := l.copyOn (P.masterCoordinator l.partitionId)

/-- The replication loop of `write_and_replicate` writes partition `p`'s records
on coordinator `c`. -/
def IsReplica (P : Placement) (p c : Nat) : Prop :=
  c < P.totalCoordinators ∧ P.isPartitionReplicatedOn p c = true ∧ c ≠ P.masterCoordinator p

@[simp] theorem masterOf_copyOn (l : Loc) (c : Nat) : P.masterOf (l.copyOn c) = P.masterOf l := rfl

@[simp] theorem masterOf_masterLoc (e : ScarRWKey) : P.masterOf (P.masterLoc e) = P.masterLoc e := rfl

theorem IsMaster.masterOf_eq {m : Loc} (h : P.IsMaster m) : P.masterOf m = m := by
  unfold masterOf Loc.copyOn; rw [show P.masterCoordinator m.partitionId = m.coordinator from h]

end Placement

namespace Request

/-- The key offset a piece carries. -/
def index : Request → Nat
  | lock _ _ i | readValidation _ _ i _ _ | write _ _ _ i | replication _ _ _ _ i
  | releaseLock _ _ _ i | abort _ _ i => i

end Request

/-- What a reader of a copy sees: its value and its wts. -/
def Row.view (r : Row) : Nat × Nat := (r.value, r.tid.wts)

@[simp] theorem Row.view_mk (v : Nat) (w : Tid) : (Row.mk v w).view = (v, w.wts) := rfl

theorem System.lockRow_view (s : System) (t : Nat) (l m : Loc) :
    ((s.lockRow t l).db m).view = (s.db m).view := by
  rw [System.lockRow_db]; split <;> simp_all [Row.view]

theorem System.setTid_view {s : System} {l : Loc} {w : Tid} (hw : w.wts = (s.db l).tid.wts)
    (m : Loc) : ((s.setTid l w).db m).view = (s.db m).view := by
  rw [System.setTid_db]; split <;> simp_all [Row.view]

theorem System.unlockRow_view {s : System} {t : Nat} {l : Loc} {w : Tid}
    (hw : w.wts = (s.db l).tid.wts) (m : Loc) : ((s.unlockRow t l w).db m).view = (s.db m).view := by
  rw [System.unlockRow_db]; split <;> simp_all [Row.view]

/-- `unlock(tid)` keeps what readers see. -/
theorem System.unlock_view (s : System) (t : Nat) (l m : Loc) :
    ((s.unlockRow t l (ScarHelper.unlock (s.db l).tid)).db m).view = (s.db m).view :=
  System.unlockRow_view (w := ScarHelper.unlock (s.db l).tid) rfl m

/-- Every replica of the record mastered at `m` holds the master's value and wts. -/
def CopiesAgree (P : Placement) (db : Loc → Row) (m : Loc) : Prop :=
  ∀ c, P.IsReplica m.partitionId c → (db (m.copyOn c)).view = (db m).view

/-- Copies whose rows look the same agree as they did. -/
theorem CopiesAgree.congr {db db' : Loc → Row} {m : Loc} (h : CopiesAgree P db m)
    (hm : (db' m).view = (db m).view) (hc : ∀ c, (db' (m.copyOn c)).view = (db (m.copyOn c)).view) :
    CopiesAgree P db' m := fun c hc' => by rw [hc, hm]; exact h c hc'

/-! ### Where the loops of `commit` stand -/

/-- The write loop has written the master copy of key `i`; the key stays written
through `release_lock` and `return true`. -/
def Pc.MasterWritten (i : Nat) : Pc → Prop
  | .writeAndReplicate j => i < j
  | .replicate j _ | .replicaLocked j _ => i ≤ j
  | .syncWrite | .releaseLock _ | .returned true => True
  | _ => False

/-- The replication loop has passed coordinator `k` of key `i`. -/
def Pc.ReplicaWritten (i k : Nat) : Pc → Prop
  | .writeAndReplicate j => i < j
  | .replicate j k' | .replicaLocked j k' => i < j ∨ i = j ∧ k < k'
  | .syncWrite | .releaseLock _ | .returned true => True
  | _ => False

theorem Pc.WrotePast.masterWritten {pc : Pc} {i : Nat} (h : pc.WrotePast i) :
    pc.MasterWritten i := by
  cases pc with
  | returned b => exact False.elim h
  | _ => first | exact h | trivial

theorem Pc.ReplicatedPast.wrotePast {pc : Pc} {i k : Nat} (h : pc.ReplicatedPast i k) :
    pc.WrotePast i := by
  cases pc with
  | returned b => exact False.elim h
  | replicate j k' | replicaLocked j k' =>
    simp only [ReplicatedPast, WrotePast] at h ⊢; omega
  | _ => exact h

theorem Pc.ReplicatedPast.replicaWritten {pc : Pc} {i k : Nat} (h : pc.ReplicatedPast i k) :
    pc.ReplicaWritten i k := by
  cases pc with
  | returned b => exact False.elim h
  | _ => first | exact h | trivial

theorem Pc.ReplicaWritten.masterWritten {pc : Pc} {i k : Nat} (h : pc.ReplicaWritten i k) :
    pc.MasterWritten i := by
  cases pc with
  | returned b => cases b <;> trivial
  | replicate j k' | replicaLocked j k' =>
    simp only [ReplicaWritten, MasterWritten] at h ⊢; omega
  | _ => trivial

/-- Once the write loop has passed, every key and every replica is written. -/
theorem Pc.written_of_release {pc : Pc} (h : pc = .syncWrite ∨ (∃ j, pc = .releaseLock j) ∨
    pc = .returned true) (i k : Nat) : pc.MasterWritten i ∧ pc.ReplicaWritten i k := by
  rcases h with rfl | ⟨j, rfl⟩ | rfl <;> exact ⟨trivial, trivial⟩

/-- Where the copies of write key `i` of `u` stand while `u` holds the master:
untouched and agreeing until the write loop reaches the key; after it, the master
holds the key's value or its `WRITE` piece is in flight, and each replica the
replication loop has passed holds the value and the wts `unlock(tid, commit_wts)`
stores, or its `REPLICATION` piece is in flight. A replica the loop has not
reached keeps the wts of the word the master's `lock` returned. -/
structure KeyCopies (P : Placement) (s : System) (u i : Nat) (e : ScarRWKey) : Prop where
  unwritten : ¬ (s.txns u).pc.MasterWritten i → CopiesAgree P s.db (P.masterLoc e)
  master : (s.txns u).pc.MasterWritten i →
    (s.db (P.masterLoc e)).value = e.value ∨ Request.write (P.masterLoc e) e.value u i ∈ s.network
  replica : ∀ k, P.IsReplica e.partitionId k → (s.txns u).pc.ReplicaWritten i k →
    (s.db (replicaLoc e k)).view = (e.value, (s.txns u).txn.commitWts % 2 ^ 31) ∨
      Request.replication (replicaLoc e k) e.value (s.txns u).txn.commitWts u i ∈ s.network
  fresh : ∀ k, P.IsReplica e.partitionId k → ¬ (s.txns u).pc.ReplicaWritten i k →
    (s.db (replicaLoc e k)).tid.wts = e.tid.wts

/-- The replication invariant: the copies of every record whose master nobody
holds agree, and every held write key's copies stand as `KeyCopies` says. -/
structure ReplicaInv (P : Placement) (s : System) : Prop where
  free : ∀ m, P.IsMaster m → s.owner m = none → CopiesAgree P s.db m
  held : ∀ u i e, (s.txns u).txn.writeSet[i]? = some e → HoldsKey s u i → KeyCopies P s u i e

/-- `KeyCopies` reads the holder's loop position and `commit_wts`, the copies of
the key's record and two of the holder's pieces. -/
theorem KeyCopies.congr {s s' : System} {u i : Nat} {e : ScarRWKey} (h : KeyCopies P s u i e)
    (hmw : (s'.txns u).pc.MasterWritten i ↔ (s.txns u).pc.MasterWritten i)
    (hrw : ∀ k, P.IsReplica e.partitionId k →
      ((s'.txns u).pc.ReplicaWritten i k ↔ (s.txns u).pc.ReplicaWritten i k))
    (hcw : (s'.txns u).txn.commitWts = (s.txns u).txn.commitWts)
    (hview : ∀ c, (s'.db ((P.masterLoc e).copyOn c)).view = (s.db ((P.masterLoc e).copyOn c)).view)
    (hnet : ∀ r, r ∈ s.network → r.txn = u → r.index = i → r ∈ s'.network) :
    KeyCopies P s' u i e := by
  have hm : (s'.db (P.masterLoc e)).view = (s.db (P.masterLoc e)).view :=
    hview (P.masterCoordinator e.partitionId)
  have hv : ∀ k, (s'.db (replicaLoc e k)).view = (s.db (replicaLoc e k)).view := hview
  refine ⟨fun hw => (h.unwritten (hw ∘ hmw.mpr)).congr hm hview, fun hw => ?_, fun k hk hw => ?_,
    fun k hk hw => ?_⟩
  · refine (h.master (hmw.mp hw)).imp (fun hv => ?_) fun hr => hnet _ hr rfl rfl
    rw [← hv]; exact congrArg Prod.fst hm
  · rw [hcw, hv]
    exact (h.replica k hk ((hrw k hk).mp hw)).imp_right fun hr => hnet _ hr rfl rfl
  · rw [← h.fresh k hk (hw ∘ (hrw k hk).mpr)]; exact congrArg Prod.snd (hv k)

theorem replicaLoc_inj {e : ScarRWKey} {k k' : Nat} (h : replicaLoc e k = replicaLoc e k') : k = k' :=
  congrArg Loc.coordinator h

/-- The replication loop at replica `k` of a written key: the copy on `k` gets the
key's value and `commit_wts` or its `REPLICATION` piece is in flight, and no other
copy or piece of the key moves. -/
theorem KeyCopies.replicaStep {s s' : System} {u i k : Nat} {e : ScarRWKey} (h : KeyCopies P s u i e)
    (hmw : (s.txns u).pc.MasterWritten i) (hmw' : (s'.txns u).pc.MasterWritten i)
    (hrw : ∀ k', k' ≠ k → ((s'.txns u).pc.ReplicaWritten i k' ↔ (s.txns u).pc.ReplicaWritten i k'))
    (hrwk : (s'.txns u).pc.ReplicaWritten i k)
    (hcw : (s'.txns u).txn.commitWts = (s.txns u).txn.commitWts)
    (hdb : ∀ l, l ≠ replicaLoc e k → s'.db l = s.db l) (hk : k ≠ P.masterCoordinator e.partitionId)
    (hnew : (s'.db (replicaLoc e k)).view = (e.value, (s.txns u).txn.commitWts % 2 ^ 31) ∨
      Request.replication (replicaLoc e k) e.value (s.txns u).txn.commitWts u i ∈ s'.network)
    (hnet : ∀ r ∈ s.network,
      r ≠ Request.replication (replicaLoc e k) e.value (s.txns u).txn.commitWts u i → r ∈ s'.network) :
    KeyCopies P s' u i e := by
  have hne : ∀ {k'}, k' ≠ k → replicaLoc e k' ≠ replicaLoc e k := fun hkk h => hkk (replicaLoc_inj h)
  refine ⟨fun hw => absurd hmw' hw, fun _ => ?_, fun k' hk' hw => ?_, fun k' hk' hw => ?_⟩
  · rw [hdb _ (replicaLoc_ne_masterLoc hk).symm]
    exact (h.master hmw).imp_right fun hr => hnet _ hr nofun
  · rw [hcw]
    by_cases hkk : k' = k
    · subst hkk; exact hnew
    · rw [hdb _ (hne hkk)]
      exact (h.replica k' hk' ((hrw k' hkk).mp hw)).imp_right fun hr => hnet _ hr fun h => by
        cases h; exact hne hkk rfl
  · have hkk : k' ≠ k := by rintro rfl; exact hw hrwk
    rw [hdb _ (hne hkk)]; exact h.fresh k' hk' (hw ∘ (hrw k' hkk).mpr)

/-- Past the write loop no `WRITE` piece of the transaction is in flight. -/
theorem TxnOk.write_not_mem {N : List Request} {t : Nat} {x : TxnState} (h : TxnOk P N t x)
    (hpc : (∃ j, x.pc = .releaseLock j) ∨ x.pc = .returned true) (l : Loc) (v i : Nat) :
    Request.write l v t i ∉ N := fun hr => by
  obtain ⟨hp, -⟩ := h.requests _ hr rfl
  rcases hpc with ⟨j, hpc⟩ | hpc <;> rw [hpc] at hp <;> exact hp

/-- Past the write loop no `REPLICATION` piece of the transaction is in flight. -/
theorem TxnOk.replication_not_mem {N : List Request} {t : Nat} {x : TxnState} (h : TxnOk P N t x)
    (hpc : (∃ j, x.pc = .releaseLock j) ∨ x.pc = .returned true) (l : Loc) (v c i : Nat) :
    Request.replication l v c t i ∉ N := fun hr => by
  obtain ⟨hp, -⟩ := h.requests _ hr rfl
  rcases hpc with ⟨j, hpc⟩ | hpc <;> rw [hpc] at hp <;> exact hp

/-- In `release_lock` and after it, a held key's value and `commit_wts` are on
the master and on every replica. -/
theorem KeyCopies.installed {s : System} {t i : Nat} {e : ScarRWKey} (h : KeyCopies P s t i e)
    (ht : TxnOk P s.network t (s.txns t))
    (hpc : (∃ j, (s.txns t).pc = .releaseLock j) ∨ (s.txns t).pc = .returned true) :
    (s.db (P.masterLoc e)).value = e.value ∧ ∀ k, P.IsReplica e.partitionId k →
      (s.db (replicaLoc e k)).view = (e.value, (s.txns t).txn.commitWts % 2 ^ 31) := by
  have hw := Pc.written_of_release (hpc.elim (.inr ∘ .inl) (.inr ∘ .inr)) i
  exact ⟨(h.master (hw 0).1).resolve_right (ht.write_not_mem hpc _ _ _),
    fun k hk => (h.replica k hk (hw k).2).resolve_right (ht.replication_not_mem hpc _ _ _ _)⟩

/-- The holder letting go of the master after the write loop, storing
`unlock(tid, commit_wts)` over the key's value, leaves the copies agreeing. -/
theorem KeyCopies.agree_of_release {s : System} {db : Loc → Row} {t i : Nat} {e : ScarRWKey}
    (h : KeyCopies P s t i e) (ht : TxnOk P s.network t (s.txns t))
    (hpc : (∃ j, (s.txns t).pc = .releaseLock j) ∨ (s.txns t).pc = .returned true)
    (hm : (db (P.masterLoc e)).view = (e.value, (s.txns t).txn.commitWts % 2 ^ 31))
    (hrep : ∀ k, P.IsReplica e.partitionId k → db (replicaLoc e k) = s.db (replicaLoc e k)) :
    CopiesAgree P db (P.masterLoc e) := fun k hk => by
  rw [hm, ← (h.installed ht hpc).2 k hk]; exact congrArg Row.view (hrep k hk)

/-! ### Steps -/

section Steps

variable {s s' : System} {t : Nat}

/-- Another transaction's ownership of a row survives a step of `t`. -/
theorem owner_iff_of_ne (hl : LockInv P s) (hl' : LockInv P s')
    (hfr : ∀ u, u ≠ t → s'.txns u = s.txns u ∧ ∀ r, r.txn = u → (r ∈ s'.network ↔ r ∈ s.network))
    {m : Loc} {u : Nat} (hu : u ≠ t) : s'.owner m = some u ↔ s.owner m = some u := by
  rw [hl'.owner, hl.owner]; exact holds_congr (hfr u hu).1 (hfr u hu).2 m

/-- Before its write loop a transaction has left the copies of every record it
holds agreeing. -/
theorem ReplicaInv.agree_of_owner (hinv : ReplicaInv P s) (hl : LockInv P s) {m : Loc}
    (ho : s.owner m = some t) (hpc : ∀ i, ¬ (s.txns t).pc.MasterWritten i) :
    CopiesAgree P s.db m := by
  rcases (hl.owner m t).mp ho with ⟨i, e, he, rfl, hk⟩ | ⟨i, k, e, hrep, -, -⟩
  · exact (hinv.held t i e he hk).unwritten (hpc i)
  · exact absurd (by rw [hrep]; exact Nat.le_refl i) (hpc i)

/-- A step of `t` keeps the invariant when it changes the copies only of records
whose master `t` holds, leaves the copies agreeing when it releases a master,
and keeps `KeyCopies` for `t`'s own keys. -/
theorem ReplicaInv.step_of (hinv : ReplicaInv P s) (hl : LockInv P s) (hl' : LockInv P s')
    (hfr : ∀ u, u ≠ t → s'.txns u = s.txns u ∧ ∀ r, r.txn = u → (r ∈ s'.network ↔ r ∈ s.network))
    (hview : ∀ l, s.owner (P.masterOf l) ≠ some t → (s'.db l).view = (s.db l).view)
    (hrelease : ∀ m, P.IsMaster m → s.owner m = some t → s'.owner m = none →
      CopiesAgree P s'.db m)
    (hkeys : ∀ j e, (s'.txns t).txn.writeSet[j]? = some e → HoldsKey s' t j → KeyCopies P s' t j e) :
    ReplicaInv P s' := by
  refine ⟨fun m hm ho => ?_, fun u j e he hk => ?_⟩
  · by_cases hot : s.owner m = some t
    · exact hrelease m hm hot ho
    · cases hsm : s.owner m with
      | none =>
        refine (hinv.free m hm hsm).congr (hview m (by rwa [hm.masterOf_eq])) fun c => hview _ ?_
        rwa [Placement.masterOf_copyOn, hm.masterOf_eq]
      | some u =>
        have hu : u ≠ t := fun h => hot (h ▸ hsm)
        rw [← owner_iff_of_ne hl hl' hfr hu, ho] at hsm; cases hsm
  · by_cases hu : u = t
    · subst hu; exact hkeys j e he hk
    · obtain ⟨htx, hnet⟩ := hfr u hu
      have hk' := (holdsKey_congr htx hnet j).mp hk
      rw [htx] at he
      have hot : s.owner (P.masterLoc e) ≠ some t := by
        rw [(hl.owner _ u).mpr (.inl ⟨j, e, he, rfl, hk'⟩)]; exact fun h => hu (Option.some.inj h)
      refine (hinv.held u j e he hk').congr (by rw [htx]) (fun k _ => by rw [htx])
        (by rw [htx]) (fun c => hview _ (by simpa using hot)) fun r hr hrt _ => (hnet r hrt).mpr hr

/-- A step that changes no copy's value or wts, taken by a transaction that has
written nothing before and after it: executing, locking, validating and
aborting, and the handlers of `LOCK`, `READ_VALIDATION` and `ABORT`. -/
theorem ReplicaInv.quiet (hinv : ReplicaInv P s) (hl : LockInv P s) (hl' : LockInv P s')
    (hfr : ∀ u, u ≠ t → s'.txns u = s.txns u ∧ ∀ r, r.txn = u → (r ∈ s'.network ↔ r ∈ s.network))
    (hview : ∀ l, (s'.db l).view = (s.db l).view) (hpc : ∀ i, ¬ (s.txns t).pc.MasterWritten i)
    (hpc' : ∀ i, ¬ (s'.txns t).pc.MasterWritten i) : ReplicaInv P s' := by
  refine hinv.step_of hl hl' hfr (fun l _ => hview l)
    (fun m _ ho _ => (hinv.agree_of_owner hl ho hpc).congr (hview m) fun c => hview _)
    fun j e he hk => ?_
  have ho' : s'.owner (P.masterLoc e) = some t := (hl'.owner _ t).mpr (.inl ⟨j, e, he, rfl, hk⟩)
  have hagree : CopiesAgree P s.db (P.masterLoc e) := by
    cases hso : s.owner (P.masterLoc e) with
    | none => exact hinv.free _ rfl hso
    | some u =>
      by_cases hu : u = t
      · subst hu; exact hinv.agree_of_owner hl hso hpc
      · rw [← owner_iff_of_ne hl hl' hfr hu, ho'] at hso; exact absurd (Option.some.inj hso).symm hu
  have hagree' := hagree.congr (hview _) fun c => hview _
  refine ⟨fun _ => hagree', fun hw => absurd hw (hpc' j), fun k _ hw => absurd hw.masterWritten (hpc' j),
    fun k hrep _ => ?_⟩
  rw [← Tid.setLocked_wts e.tid true, ← hl'.heldWord t j e he hk]
  exact congrArg Prod.snd (hagree' k hrep)

/-- A step of `t` in its write or release loop that changes only the copies of
its write key `i`'s record, and lets go of no other master. -/
theorem ReplicaInv.writing (hinv : ReplicaInv P s) (hl : LockInv P s) (hl' : LockInv P s')
    (hfr : ∀ u, u ≠ t → s'.txns u = s.txns u ∧ ∀ r, r.txn = u → (r ∈ s'.network ↔ r ∈ s.network))
    {i : Nat} {e : ScarRWKey} (hc : (s.txns t).pc.Committing)
    (he : (s.txns t).txn.writeSet[i]? = some e) (hk : HoldsKey s t i)
    (hdb : ∀ l, P.masterOf l ≠ P.masterLoc e → s'.db l = s.db l)
    (hown : ∀ m, P.IsMaster m → m ≠ P.masterLoc e → s'.owner m = s.owner m)
    (hrelease : s'.owner (P.masterLoc e) ≠ s.owner (P.masterLoc e) →
      CopiesAgree P s'.db (P.masterLoc e))
    (hws : (s'.txns t).txn.writeSet = (s.txns t).txn.writeSet)
    (hcw : (s'.txns t).txn.commitWts = (s.txns t).txn.commitWts)
    (hheld : ∀ j, j ≠ i → HoldsKey s' t j → HoldsKey s t j)
    (hmw : ∀ j, j ≠ i → ((s'.txns t).pc.MasterWritten j ↔ (s.txns t).pc.MasterWritten j))
    (hrw : ∀ j k, j ≠ i → ((s'.txns t).pc.ReplicaWritten j k ↔ (s.txns t).pc.ReplicaWritten j k))
    (hnet : ∀ r ∈ s.network, r.txn = t → r.index ≠ i → r ∈ s'.network)
    (hkey : HoldsKey s' t i → KeyCopies P s' t i e) : ReplicaInv P s' := by
  have ho : s.owner (P.masterLoc e) = some t := (hl.owner _ t).mpr (.inl ⟨i, e, he, rfl, hk⟩)
  have hbits : ∀ {j : Nat} {f : ScarRWKey}, (s.txns t).txn.writeSet[j]? = some f → f.writeLockBit = true :=
    fun hf => (((hl.txn t).committing hc).2 _ (List.getElem?_mem hf)).1
  refine hinv.step_of hl hl' hfr (fun l hl => ?_) (fun m hm hom hm' => ?_) fun j f hf hkf => ?_
  · rw [hdb l fun heq => hl (heq ▸ ho)]
  · by_cases hme : m = P.masterLoc e
    · subst hme; exact hrelease fun h => by rw [hm', hom] at h; cases h
    · rw [hown m hm hme, hom] at hm'; cases hm'
  · rw [hws] at hf
    by_cases hji : j = i
    · subst hji; rw [he] at hf; cases hf; exact hkey hkf
    have hne : P.masterLoc f ≠ P.masterLoc e := fun heq =>
      hji ((hl.txn t).keyUnique j i f e hf he (hbits hf) (hbits he) heq)
    exact (hinv.held t j f hf (hheld j hji hkf)).congr (hmw j hji) (fun k _ => hrw j k hji)
      hcw (fun c => by rw [hdb _ (by simpa using hne)]) fun r hr hrt hri => hnet r hr hrt (hri ▸ hji)

/-- A move of `t` in its write or release loop that changes no copy's value or
wts and no master's owner. -/
theorem ReplicaInv.advance (hinv : ReplicaInv P s) (hl : LockInv P s) (hl' : LockInv P s')
    (hfr : ∀ u, u ≠ t → s'.txns u = s.txns u ∧ ∀ r, r.txn = u → (r ∈ s'.network ↔ r ∈ s.network))
    (hview : ∀ l, (s'.db l).view = (s.db l).view)
    (hown : ∀ m, P.IsMaster m → s'.owner m = s.owner m)
    (hws : (s'.txns t).txn.writeSet = (s.txns t).txn.writeSet)
    (hcw : (s'.txns t).txn.commitWts = (s.txns t).txn.commitWts)
    (hheld : ∀ j, HoldsKey s' t j → HoldsKey s t j)
    (hmw : ∀ (j : Nat) (f : ScarRWKey), (s.txns t).txn.writeSet[j]? = some f →
      ((s'.txns t).pc.MasterWritten j ↔ (s.txns t).pc.MasterWritten j))
    (hrw : ∀ (j : Nat) (f : ScarRWKey), (s.txns t).txn.writeSet[j]? = some f →
      ∀ k, P.IsReplica f.partitionId k →
      ((s'.txns t).pc.ReplicaWritten j k ↔ (s.txns t).pc.ReplicaWritten j k))
    (hnet : ∀ r ∈ s.network, r.txn = t → r ∈ s'.network) : ReplicaInv P s' := by
  refine hinv.step_of hl hl' hfr (fun l _ => hview l) (fun m hm hom hm' => ?_) fun j f hf hkf => ?_
  · rw [hown m hm, hom] at hm'; cases hm'
  · rw [hws] at hf
    exact (hinv.held t j f hf (hheld j hkf)).congr (hmw j f hf) (hrw j f hf) hcw (fun c => hview _)
      fun r hr hrt _ => hnet r hr hrt

/-- A handler serving a piece that unlocks nothing leaves the held keys alone. -/
theorem holdsKey_iff_of_receive {r : Request} (hn : s.network.Nodup)
    (hpc : (s'.txns t).pc = (s.txns t).pc) (hws : (s'.txns t).txn.writeSet = (s.txns t).txn.writeSet)
    (hnet : s'.network = s.network.erase r) (hnu : ∀ i, ¬ r.Unlocks t i) (i : Nat) :
    HoldsKey s' t i ↔ HoldsKey s t i :=
  holdsKey_iff_of hws (fun j _ _ _ => by rw [hpc, hnet, exists_unlocks_erase hn (hnu j)]) i

end Steps

/-! ### Every step -/

theorem replicaInv_step {s s' : System} {t : Nat} (hinv : ReplicaInv P s) (hl : LockInv P s)
    (h : Step P s t s') : ReplicaInv P s' := by
  have hl' := lockInv_step hl h
  have hfr : ∀ u, u ≠ t → s'.txns u = s.txns u ∧ ∀ r, r.txn = u → (r ∈ s'.network ↔ r ∈ s.network) :=
    fun u hu => ⟨(h.frame hu).1, (h.frame hu).2.2⟩
  have ht := hl.txn t
  have hnw : ∀ {pc : Pc}, (s.txns t).pc = pc → (∀ j, ¬ pc.MasterWritten j) →
      ∀ j, ¬ (s.txns t).pc.MasterWritten j := fun hpc h => hpc ▸ h
  have hbit : ∀ {i : Nat} {e : ScarRWKey}, (s.txns t).txn.writeSet[i]? = some e →
      (s.txns t).pc.Committing → e.writeLockBit = true :=
    fun he hc => ((ht.committing hc).2 _ (List.getElem?_mem he)).1
  cases h with
  | read hx hpc | executeDone hx hpc | lockLocalFail hx hpc | lockRemote hx hpc
  | lockDone hx hpc | syncLockAbort hx hpc | syncLockCommit hx hpc | validateSkip hx hpc
  | validateLocalFail hx hpc | validateRemote hx hpc | validateDone hx hpc
  | syncValidationAbort hx hpc | syncValidationCommit hx hpc | abortSkip hx hpc
  | abortRemote hx hpc | abortDone hx hpc =>
    subst hx
    exact hinv.quiet hl hl' hfr (fun _ => rfl) (hnw hpc fun _ h => h) (by simp [Pc.MasterWritten])
  | lockLocal hx hpc =>
    subst hx
    exact hinv.quiet hl hl' hfr (fun m => System.lockRow_view s t _ m) (hnw hpc fun _ h => h)
      (by simp only [System.setTxn_txns, if_true]; split <;> exact fun _ h => h)
  | validateLocal hx hpc he hindex hwrite hlocal hvalid =>
    subst hx
    exact hinv.quiet hl hl' hfr
      (fun m => System.setTid_view (s := s) (ScarHelper.validateReadKey_eq_some hvalid).2.1 m)
      (hnw hpc fun _ h => h) (by simp [Pc.MasterWritten])
  | abortLocal hx hpc =>
    subst hx
    exact hinv.quiet hl hl' hfr (fun m => System.unlock_view s t _ m) (hnw hpc fun _ h => h)
      (by simp [Pc.MasterWritten])
  | serveLock hr hx =>
    subst hx
    obtain ⟨hpos, -⟩ := ht.requests _ hr rfl
    have hq : ∀ j, ¬ (s.txns t).pc.MasterWritten j := by
      rcases hpos with hp | ⟨_, hp, -⟩ <;> exact hnw hp fun _ h => h
    exact hinv.quiet hl hl' hfr (fun m => System.lockRow_view (s.receive _) t _ m) hq (by simpa using hq)
  | serveLockFail hr hx | serveValidationFail hr hx =>
    subst hx
    obtain ⟨hpos, -⟩ := ht.requests _ hr rfl
    have hq : ∀ j, ¬ (s.txns t).pc.MasterWritten j := by
      rcases hpos with hp | ⟨_, hp, -⟩ <;> exact hnw hp fun _ h => h
    exact hinv.quiet hl hl' hfr (fun _ => rfl) hq (by simpa using hq)
  | serveValidation hr hx he hvalid =>
    subst hx
    obtain ⟨hpos, -⟩ := ht.requests _ hr rfl
    have hq : ∀ j, ¬ (s.txns t).pc.MasterWritten j := by
      rcases hpos with hp | ⟨_, hp, -⟩ <;> exact hnw hp fun _ h => h
    exact hinv.quiet hl hl' hfr
      (fun m => System.setTid_view (s := s.receive _) (ScarHelper.validateReadKey_eq_some hvalid).2.1 m) hq
      (by simpa using hq)
  | serveAbort hr =>
    obtain ⟨hpos, -⟩ := ht.requests _ hr rfl
    have hq : ∀ j, ¬ (s.txns t).pc.MasterWritten j := by
      rcases hpos with hp | ⟨_, hp, -⟩ <;> exact hnw hp fun _ h => h
    exact hinv.quiet hl hl' hfr (fun m => System.unlock_view (s.receive _) t _ m) hq hq
  | @writeLocal _ _ i e hx hpc he =>
    subst hx
    have hc : (s.txns t).pc.Committing := hpc ▸ trivial
    have hk : HoldsKey s t i := ⟨e, he, hbit he hc, .inl (hpc ▸ trivial)⟩
    refine hinv.writing hl hl' hfr hc he hk (fun l hne => ?_) (fun _ _ _ => rfl) (fun h => absurd rfl h)
      (by simp) (by simp) (fun j _ => (holdsKey_iff_of_active (by simp) (fun _ => by simp [Pc.Unreleased])
        (fun _ => hpc ▸ trivial) j).mp) (fun j hji => ?_) (fun j k hji => ?_) (fun r hr _ _ => hr)
      fun _ => ⟨fun hw => absurd (by simp [Pc.MasterWritten]) hw, fun _ => .inl (by simp),
        fun k _ hw => absurd hw (by simp [Pc.ReplicaWritten]), fun k hrep _ => ?_⟩
    · simp [show l ≠ P.masterLoc e by rintro rfl; exact hne rfl]
    · simp only [System.setTxn_txns, if_true, hpc, Pc.MasterWritten]; omega
    · simp only [System.setTxn_txns, if_true, hpc, Pc.ReplicaWritten]; omega
    · simpa [replicaLoc_ne_masterLoc hrep.2.2] using
        (hinv.held t i e he hk).fresh k hrep (by rw [hpc]; exact Nat.lt_irrefl i)
  | @writeRemote _ _ i e hx hpc he =>
    subst hx
    have hc : (s.txns t).pc.Committing := hpc ▸ trivial
    have hk : HoldsKey s t i := ⟨e, he, hbit he hc, .inl (hpc ▸ trivial)⟩
    refine hinv.writing hl hl' hfr hc he hk (fun _ _ => rfl) (fun _ _ _ => rfl) (fun h => absurd rfl h)
      (by simp) (by simp) (fun j _ => (holdsKey_iff_of_active (by simp) (fun _ => by simp [Pc.Unreleased])
        (fun _ => hpc ▸ trivial) j).mp) (fun j hji => ?_) (fun j k hji => ?_)
      (fun r hr _ _ => List.mem_cons_of_mem _ hr)
      fun _ => ⟨fun hw => absurd (by simp [Pc.MasterWritten]) hw, fun _ => .inr (List.mem_cons_self _ _),
        fun k _ hw => absurd hw (by simp [Pc.ReplicaWritten]),
        fun k hrep _ => (hinv.held t i e he hk).fresh k hrep (by rw [hpc]; exact Nat.lt_irrefl i)⟩
    · simp only [System.setTxn_txns, if_true, hpc, Pc.MasterWritten]; omega
    · simp only [System.setTxn_txns, if_true, hpc, Pc.ReplicaWritten]; omega
  | @writeDone _ _ i hx hpc hi =>
    subst hx
    have hlt : ∀ {j : Nat} {f : ScarRWKey}, (s.txns t).txn.writeSet[j]? = some f → j < i :=
      fun hf => (List.getElem?_eq_some_iff.mp hf).1.trans_le hi
    exact hinv.advance hl hl' hfr (fun _ => rfl) (fun _ _ => rfl) (by simp) (by simp)
      (fun j => (holdsKey_iff_of_active (by simp) (fun _ => by simp [Pc.Unreleased])
        (fun _ => hpc ▸ trivial) j).mp)
      (fun _ _ hf => by rw [hpc]; exact iff_of_true (by simp [Pc.MasterWritten]) (hlt hf))
      (fun _ _ hf _ _ => by rw [hpc]; exact iff_of_true (by simp [Pc.ReplicaWritten]) (hlt hf))
      fun r hr _ => hr
  | @replicateSkip _ _ i k e hx hpc he hk hskip =>
    subst hx
    refine hinv.advance hl hl' hfr (fun _ => rfl) (fun _ _ => rfl) (by simp) (by simp)
      (fun j => (holdsKey_iff_of_active (by simp) (fun _ => by simp [Pc.Unreleased])
        (fun _ => hpc ▸ trivial) j).mp)
      (fun _ _ _ => by simp [hpc, Pc.MasterWritten]) (fun j f hf k' hk' => ?_) fun r hr _ => hr
    have hkk : j = i → k' ≠ k := by
      rintro rfl rfl
      rw [he] at hf; cases hf
      rcases hskip with h | h
      · rw [hk'.2.1] at h; cases h
      · exact hk'.2.2 h
    simp only [System.setTxn_txns, if_true, hpc, Pc.ReplicaWritten]
    omega
  | @replicateLock _ _ i k e hx hpc he hk hrep hmaster hself hunlocked =>
    subst hx
    exact hinv.advance hl hl' hfr (fun m => System.lockRow_view s t _ m)
      (fun m hm => by
        rw [System.setTxn_owner, System.lockRow_owner,
          if_neg (show m ≠ replicaLoc e k by rintro rfl; exact hmaster hm.symm)])
      (by simp) (by simp)
      (fun j => (holdsKey_iff_of_active (by simp) (fun _ => by simp [Pc.Unreleased])
        (fun _ => hpc ▸ trivial) j).mp)
      (fun _ _ _ => by simp [hpc, Pc.MasterWritten])
      (fun _ _ _ _ _ => by simp [hpc, Pc.ReplicaWritten]) fun r hr _ => hr
  | @replicaUnlock _ _ i k e hx hpc he =>
    subst hx
    have hc : (s.txns t).pc.Committing := hpc ▸ trivial
    have hk : HoldsKey s t i := ⟨e, he, hbit he hc, .inl (hpc ▸ trivial)⟩
    obtain ⟨e', he', hkm⟩ := ht.replica i k hpc
    rw [he] at he'; cases he'
    have hkl : P.masterLoc e ≠ replicaLoc e k := (replicaLoc_ne_masterLoc hkm).symm
    refine hinv.writing hl hl' hfr hc he hk
      (fun l hne => by simp [show l ≠ replicaLoc e k by rintro rfl; exact hne rfl])
      (fun m hm _ => by simp [show m ≠ replicaLoc e k by rintro rfl; exact hkm hm.symm])
      (fun h => absurd (by simp [hkl]) h) (by simp) (by simp)
      (fun j _ => (holdsKey_iff_of_active (by simp) (fun _ => by simp [Pc.Unreleased])
        (fun _ => hpc ▸ trivial) j).mp)
      (fun _ _ => by simp [hpc, Pc.MasterWritten])
      (fun j k' hji => by rw [hpc]; simp [Pc.ReplicaWritten]; omega) (fun r hr _ _ => hr)
      fun _ => (hinv.held t i e he hk).replicaStep (by rw [hpc]; exact Nat.le_refl i)
        (by simp [Pc.MasterWritten]) (fun k' hkk => by rw [hpc]; simp [Pc.ReplicaWritten]; omega)
        (by simp [Pc.ReplicaWritten]) (by simp) (fun l hne => by simp [hne]) hkm (.inl (by simp))
        fun r hr _ => hr
  | @replicateRemote _ _ i k e hx hpc he hk hrep hmaster hother =>
    subst hx
    have hc : (s.txns t).pc.Committing := hpc ▸ trivial
    have hk : HoldsKey s t i := ⟨e, he, hbit he hc, .inl (hpc ▸ trivial)⟩
    refine hinv.writing hl hl' hfr hc he hk (fun _ _ => rfl) (fun _ _ _ => rfl) (fun h => absurd rfl h)
      (by simp) (by simp)
      (fun j _ => (holdsKey_iff_of_active (by simp) (fun _ => by simp [Pc.Unreleased])
        (fun _ => hpc ▸ trivial) j).mp)
      (fun _ _ => by simp [hpc, Pc.MasterWritten])
      (fun j k' hji => by rw [hpc]; simp [Pc.ReplicaWritten]; omega)
      (fun r hr _ _ => List.mem_cons_of_mem _ hr)
      fun _ => (hinv.held t i e he hk).replicaStep (by rw [hpc]; exact Nat.le_refl i)
        (by simp [Pc.MasterWritten]) (fun k' hkk => by rw [hpc]; simp [Pc.ReplicaWritten]; omega)
        (by simp [Pc.ReplicaWritten]) (by simp) (fun _ _ => rfl) hmaster (.inr (by simp))
        fun r hr _ => List.mem_cons_of_mem _ hr
  | @replicateDone _ _ i k hx hpc hk =>
    subst hx
    exact hinv.advance hl hl' hfr (fun _ => rfl) (fun _ _ => rfl) (by simp) (by simp)
      (fun j => (holdsKey_iff_of_active (by simp) (fun _ => by simp [Pc.Unreleased])
        (fun _ => hpc ▸ trivial) j).mp)
      (fun _ _ _ => by simp only [System.setTxn_txns, if_true, hpc, Pc.MasterWritten]; omega)
      (fun _ _ _ _ hk' => by
        have := hk'.1
        simp only [System.setTxn_txns, if_true, hpc, Pc.ReplicaWritten]; omega)
      fun r hr _ => hr
  | syncWriteDone hx hpc hdone =>
    subst hx
    exact hinv.advance hl hl' hfr (fun _ => rfl) (fun _ _ => rfl) (by simp) (by simp)
      (fun j => (holdsKey_iff_of_active (by simp) (fun _ => by simp [Pc.Unreleased])
        (fun _ => hpc ▸ trivial) j).mp)
      (fun _ _ _ => by simp [hpc, Pc.MasterWritten]) (fun _ _ _ _ _ => by simp [hpc, Pc.ReplicaWritten])
      fun r hr _ => hr
  | @releaseLocal _ _ i e hx hpc he hlocal =>
    subst hx
    have hc : (s.txns t).pc.Committing := hpc ▸ trivial
    have hk : HoldsKey s t i := ⟨e, he, hbit he hc, .inl (by rw [hpc]; exact Nat.le_refl i)⟩
    refine hinv.writing hl hl' hfr hc he hk
      (fun l hne => by simp [show l ≠ P.masterLoc e by rintro rfl; exact hne rfl])
      (fun m _ hne => by simp [hne])
      (fun _ => (hinv.held t i e he hk).agree_of_release ht (.inl ⟨i, hpc⟩) (by simp)
        fun k hk => by simp [replicaLoc_ne_masterLoc hk.2.2]) (by simp) (by simp)
      (fun j _ hj => ((holdsKey_unlockNext (b := true) ht hpc (by simp) (by simp) (by simp) j).mp hj).1)
      (fun _ _ => by simp [hpc, Pc.MasterWritten]) (fun _ _ _ => by simp [hpc, Pc.ReplicaWritten])
      (fun r hr _ _ => hr)
      fun hk' => absurd rfl ((holdsKey_unlockNext (b := true) ht hpc (by simp) (by simp) (by simp) i).mp hk').2
  | @releaseRemote _ _ i e hx hpc he hremote =>
    subst hx
    refine hinv.advance hl hl' hfr (fun _ => rfl) (fun _ _ => rfl) (by simp) (by simp)
      (fun j ⟨f, hf, hb, hU⟩ => ⟨f, by simpa using hf, hb, ?_⟩)
      (fun _ _ _ => by simp [hpc, Pc.MasterWritten]) (fun _ _ _ _ _ => by simp [hpc, Pc.ReplicaWritten])
      fun r hr _ => List.mem_cons_of_mem _ hr
    rw [hpc]
    rcases hU with hU | ⟨r, hr, hu⟩
    · simp only [System.setTxn_txns, if_true, Pc.Unreleased] at hU; exact .inl (by show i ≤ j; omega)
    · rcases List.mem_cons.mp hr with rfl | hr
      · exact .inl (Nat.le_of_eq hu.2)
      · exact .inr ⟨r, hr, hu⟩
  | @releaseDone _ _ i hx hpc hi =>
    subst hx
    exact hinv.advance hl hl' hfr (fun _ => rfl) (fun _ _ => rfl) (by simp) (by simp)
      (fun j => (holdsKey_iff_of (by simp) (fun j f hf _ => by
        have := (List.getElem?_eq_some_iff.mp hf).1
        simp [hpc, Pc.Unreleased, show ¬ i ≤ j by omega]) j).mp)
      (fun _ _ _ => by simp [hpc, Pc.MasterWritten]) (fun _ _ _ _ _ => by simp [hpc, Pc.ReplicaWritten])
      fun r hr _ => hr
  | @serveWrite _ _ _ i _ hr hx =>
    subst hx
    obtain ⟨hw, e, he, rfl, rfl⟩ := ht.requests _ hr rfl
    have hk : HoldsKey s t i := ⟨e, he, hbit he hw.committing, .inl (hw.unreleased i)⟩
    refine hinv.writing hl hl' hfr hw.committing he hk
      (fun l hne => by simp [show l ≠ P.masterLoc e by rintro rfl; exact hne rfl])
      (fun _ _ _ => rfl) (fun h => absurd rfl h) (by simp) (by simp)
      (fun j _ => (holdsKey_iff_of_receive hl.nodup (by simp) (by simp) rfl (fun _ h => by exact h) j).mp)
      (fun _ _ => by simp) (fun _ _ _ => by simp)
      (fun r hr' _ hri => (List.mem_erase_of_ne fun h => hri (by rw [h]; rfl)).mpr hr')
      fun _ => ⟨fun hw' => absurd (by simpa using hw.masterWritten) hw', fun _ => .inl (by simp),
        fun k hk' hrw => ?_, fun k hk' hrw => ?_⟩
    · have hne : replicaLoc e k ≠ P.masterLoc e := replicaLoc_ne_masterLoc hk'.2.2
      simpa [hne] using (hinv.held t i e he hk).replica k hk' (by simpa using hrw)
    · have hne : replicaLoc e k ≠ P.masterLoc e := replicaLoc_ne_masterLoc hk'.2.2
      simpa [hne] using (hinv.held t i e he hk).fresh k hk' (by simpa using hrw)
  | @serveReplication l _ _ _ i _ hr hx hunlocked =>
    subst hx
    obtain ⟨hrp, e, he, hle, rfl, rfl, hm⟩ := ht.requests _ hr rfl
    generalize l.coordinator = k at hrp hle hm
    subst hle
    have hc : (s.txns t).pc.Committing := hrp.wrotePast.committing
    have hk : HoldsKey s t i := ⟨e, he, hbit he hc, .inl (hrp.wrotePast.unreleased i)⟩
    refine hinv.writing hl hl' hfr hc he hk
      (fun l hne => by simp [show l ≠ replicaLoc e k by rintro rfl; exact hne rfl])
      (fun _ _ _ => rfl) (fun h => absurd rfl h) (by simp) (by simp)
      (fun j _ => (holdsKey_iff_of_receive hl.nodup (by simp) (by simp) rfl (fun _ h => by exact h) j).mp)
      (fun _ _ => by simp) (fun _ _ _ => by simp)
      (fun r hr' _ hri => (List.mem_erase_of_ne fun h => hri (by rw [h]; rfl)).mpr hr')
      fun _ => (hinv.held t i e he hk).replicaStep hrp.wrotePast.masterWritten
        (by simpa using hrp.wrotePast.masterWritten) (fun _ _ => by simp)
        (by simpa using hrp.replicaWritten) (by simp)
        (fun l hne => by simp [hne]) hm (.inl (by simp)) fun r hr' hne => (List.mem_erase_of_ne hne).mpr hr'
  | @serveRelease _ _ _ i hr =>
    obtain ⟨hpos, e, he, rfl, hb, rfl⟩ := ht.requests _ hr rfl
    have hrel : (∃ j, (s.txns t).pc = .releaseLock j) ∨ (s.txns t).pc = .returned true :=
      hpos.elim .inr fun ⟨j, hp, _⟩ => .inl ⟨j, hp⟩
    have hc : (s.txns t).pc.Committing := by
      rcases hrel with ⟨j, hp⟩ | hp <;> rw [hp] <;> trivial
    have hk : HoldsKey s t i := ⟨e, he, hb, .inr ⟨_, hr, rfl, rfl⟩⟩
    have hu : ∀ j, HoldsKey ((s.receive _).unlockRow t (P.masterLoc e)
        (ScarHelper.unlockWithCommit (s.txns t).txn.commitWts)) t j ↔ HoldsKey s t j ∧ j ≠ i :=
      holdsKey_serveUnlock ht hl.nodup hr ⟨rfl, rfl⟩ rfl rfl
    exact hinv.writing hl hl' hfr hc he hk
      (fun l hne => by simp [show l ≠ P.masterLoc e by rintro rfl; exact hne rfl])
      (fun m _ hne => by simp [hne])
      (fun _ => (hinv.held t i e he hk).agree_of_release ht hrel
        (by simp [((hinv.held t i e he hk).installed ht hrel).1])
        fun k hk => by simp [replicaLoc_ne_masterLoc hk.2.2]) rfl rfl
      (fun j _ hj => ((hu j).mp hj).1) (fun _ _ => Iff.rfl) (fun _ _ _ => Iff.rfl)
      (fun r hr' _ hri => (List.mem_erase_of_ne fun h => hri (by rw [h]; rfl)).mpr hr')
      fun hk' => absurd rfl ((hu i).mp hk').2

/-! ### Runs -/

/-- One step of some transaction or of a handler serving one of its pieces. -/
def Next (P : Placement) (s s' : System) : Prop := ∃ t, Step P s t s'

/-- A run from a clean start reaches only reachable states. -/
theorem Reachable.of_run {db : Loc → Row} {txns : Nat → ScarTransaction} (hc : Clean db txns)
    {s : System} (hrun : Relation.ReflTransGen (Next P) (System.init db txns) s) : Reachable P s := by
  induction hrun with
  | refl => exact .init hc
  | tail _ h ih => obtain ⟨t, h⟩ := h; exact ih.step h

/-- At a clean start no write key has its lock bit, so nobody holds a key and only
the agreement of the copies is asked. -/
theorem replicaInv_init {db : Loc → Row} {txns : Nat → ScarTransaction} (hc : Clean db txns)
    (hagree : ∀ m, P.IsMaster m → CopiesAgree P db m) : ReplicaInv P (System.init db txns) :=
  ⟨fun m hm _ => hagree m hm, fun u _ _ _ ⟨f, hf, hb, _⟩ =>
    absurd ((hc.writeLockBit u f (List.getElem?_mem hf)).symm.trans hb) Bool.false_ne_true⟩

/-- Every state of a run from a clean start whose copies agree keeps the
replication invariant. -/
theorem replicaInv_run {db : Loc → Row} {txns : Nat → ScarTransaction} (hc : Clean db txns)
    (hagree : ∀ m, P.IsMaster m → CopiesAgree P db m) {s : System}
    (hrun : Relation.ReflTransGen (Next P) (System.init db txns) s) : ReplicaInv P s := by
  induction hrun with
  | refl => exact replicaInv_init hc hagree
  | tail hrun h ih =>
    obtain ⟨t, h⟩ := h
    exact replicaInv_step ih (reachable_lockInv (Reachable.of_run hc hrun)) h

/-- Coordinator 0 masters every partition and coordinator 1 replicates it. -/
def Placement.mirrored : Placement := ⟨2, fun _ => 0, fun _ _ => true⟩

/-- Every row holds 0 with the zero word, and every transaction reads record 0
of partition 0 and writes 5 to it from coordinator 0. -/
def mirroredStart : System := System.init (fun _ => ⟨0, Tid.zero⟩) fun _ => readModifyWrite 0 5

theorem mirroredStart_clean : Clean (fun _ => ⟨0, Tid.zero⟩) fun _ => readModifyWrite 0 5 :=
  ⟨fun _ => rfl, fun _ => rfl, fun _ => rfl, fun _ => rfl, fun _ e he => by
    simp only [readModifyWrite, List.mem_singleton] at he; subst he; rfl⟩

/-- The write key of the runs below once its lock is granted. -/
def mirroredKey : ScarRWKey := { rwKey 0 5 with writeLockBit := true }

/-- Transaction 0 of `mirroredStart` reads, locks and validates record 0 and
writes it on the master; it skips coordinator 0, the master, and reaches the
replica on coordinator 1 (`s₁`), sends it a `REPLICATION` piece (`s₂`), which is
served, and reaches `release_lock` with `commit_wts = 1` (`s₃`). -/
theorem mirroredStart_run : ∃ s₁ s₂ s₃,
    Relation.ReflTransGen (Next Placement.mirrored) mirroredStart s₁ ∧
    (s₁.txns 0).pc = .replicate 0 1 ∧ (s₁.txns 0).txn.writeSet[0]? = some mirroredKey ∧
    Relation.ReflTransGen (Next Placement.mirrored) mirroredStart s₂ ∧
    Request.replication ⟨1, 0, 0⟩ 5 1 0 0 ∈ s₂.network ∧
    Relation.ReflTransGen (Next Placement.mirrored) mirroredStart s₃ ∧
    (s₃.txns 0).pc = .releaseLock 0 ∧ (s₃.txns 0).txn.writeSet[0]? = some mirroredKey ∧
    (s₃.txns 0).txn.commitWts = 1 := by
  have h₁ := Relation.ReflTransGen.single (r := Next Placement.mirrored)
    ⟨0, Step.read (s := mirroredStart) (t := 0) (i := 0) rfl rfl rfl rfl⟩
  have h₂ := h₁.tail ⟨0, Step.executeDone (i := 1) rfl rfl (by decide)⟩
  have h₃ := h₂.tail ⟨0, Step.lockLocal (i := 0) rfl rfl rfl rfl rfl rfl⟩
  have h₄ := h₃.tail ⟨0, Step.lockDone (i := 1) rfl rfl (by decide)⟩
  have h₅ := h₄.tail ⟨0, Step.syncLockCommit rfl rfl rfl rfl⟩
  have h₆ := h₅.tail ⟨0, Step.validateSkip (i := 0) rfl rfl rfl (.inr rfl)⟩
  have h₇ := h₆.tail ⟨0, Step.validateDone (i := 1) rfl rfl (by decide)⟩
  have h₈ := h₇.tail ⟨0, Step.syncValidationCommit rfl rfl rfl rfl⟩
  have h₉ := h₈.tail ⟨0, Step.writeLocal (i := 0) rfl rfl rfl rfl⟩
  have h₁₀ := h₉.tail ⟨0, Step.replicateSkip (i := 0) (k := 0) rfl rfl rfl (by decide) (.inr rfl)⟩
  have h₁₁ := h₁₀.tail ⟨0, Step.replicateRemote (i := 0) (k := 1) rfl rfl rfl (by decide) rfl
    (by decide) (by decide)⟩
  have h₁₂ := h₁₁.tail ⟨0, Step.replicateDone (i := 0) (k := 2) rfl rfl (by decide)⟩
  have h₁₃ := h₁₂.tail ⟨0, Step.writeDone (i := 1) rfl rfl (by decide)⟩
  have h₁₄ := h₁₃.tail ⟨0, Step.serveReplication (List.mem_cons_self _ _) rfl rfl⟩
  have h₁₅ := h₁₄.tail ⟨0, Step.syncWriteDone rfl rfl rfl⟩
  exact ⟨_, _, _, h₁₀, rfl, rfl, h₁₁, List.mem_cons_self _ _, h₁₅, rfl, rfl, rfl⟩

/-- When `release_lock` reaches a write key, the `sync_messages` of
`write_and_replicate` has waited for every write and replication of it: the key's
master copy holds its value and every replica the value and `commit_wts`. -/
theorem replicas_written_before_release {db : Loc → Row} {txns : Nat → ScarTransaction}
    (hc : Clean db txns) (hagree : ∀ m, P.IsMaster m → CopiesAgree P db m) {s : System}
    (hrun : Relation.ReflTransGen (Next P) (System.init db txns) s)
    {t i j : Nat} {e : ScarRWKey} (hpc : (s.txns t).pc = .releaseLock j) (hji : j ≤ i)
    (he : (s.txns t).txn.writeSet[i]? = some e) :
    (s.db (P.masterLoc e)).value = e.value ∧ ∀ k, P.IsReplica e.partitionId k →
      (s.db (replicaLoc e k)).view = (e.value, (s.txns t).txn.commitWts % 2 ^ 31) := by
  have ht := (reachable_lockInv (Reachable.of_run hc hrun)).txn t
  have hbit := ((ht.committing (hpc ▸ trivial)).2 e (List.getElem?_mem he)).1
  exact ((replicaInv_run hc hagree hrun).held t i e he ⟨e, he, hbit, .inl (hpc ▸ hji)⟩).installed ht
    (.inl ⟨j, hpc⟩)

/-- In the run of `mirroredStart`, both copies of record 0 hold the new value when
`release_lock` starts, the replica with `commit_wts = 1`. -/
theorem replicas_written_before_release_mirrored :
    ∃ s, Relation.ReflTransGen (Next Placement.mirrored) mirroredStart s ∧
      (s.txns 0).pc = .releaseLock 0 ∧ (s.db ⟨0, 0, 0⟩).value = 5 ∧ (s.db ⟨1, 0, 0⟩).view = (5, 1) := by
  obtain ⟨-, -, s, -, -, -, -, -, hrun, hpc, he, hcw⟩ := mirroredStart_run
  have hw := replicas_written_before_release mirroredStart_clean (fun _ _ _ _ => rfl) hrun hpc le_rfl he
  exact ⟨s, hrun, hpc, hw.1, (hw.2 1 ⟨by decide, rfl, by decide⟩).trans (by rw [hcw]; rfl)⟩

/-- The local replicate of `write_and_replicate` locks a replica whose wts is
below `commit_wts`, as its `DCHECK(get_wts(last_tid) < commit_wts)` asserts: a
replica the loop has not reached keeps the wts the master had when its lock was
granted, and `commit_wts` is above that word's rts. -/
theorem replica_wts_below_commitWts {db : Loc → Row} {txns : Nat → ScarTransaction}
    (hc : Clean db txns) (hagree : ∀ m, P.IsMaster m → CopiesAgree P db m) {s : System}
    (hrun : Relation.ReflTransGen (Next P) (System.init db txns) s)
    {t i k : Nat} {e : ScarRWKey} (hpc : (s.txns t).pc = .replicate i k)
    (he : (s.txns t).txn.writeSet[i]? = some e) (hk : P.IsReplica e.partitionId k) :
    (s.db (replicaLoc e k)).tid.wts < (s.txns t).txn.commitWts := by
  have ht := (reachable_lockInv (Reachable.of_run hc hrun)).txn t
  obtain ⟨hbit, hrts⟩ := (ht.committing (hpc ▸ trivial)).2 e (List.getElem?_mem he)
  have hkey := (replicaInv_run hc hagree hrun).held t i e he ⟨e, he, hbit, .inl (hpc ▸ trivial)⟩
  calc (s.db (replicaLoc e k)).tid.wts = e.tid.wts :=
        hkey.fresh k hk (by rw [hpc]; simp [Pc.ReplicaWritten])
    _ ≤ e.tid.rts := e.tid.wts_le_rts
    _ < (s.txns t).txn.commitWts := hrts

/-- In the run of `mirroredStart` the loop reaches the replica on coordinator 1,
whose wts 0 is below `commit_wts = 1`. -/
theorem replica_wts_below_commitWts_mirrored :
    ∃ s, Relation.ReflTransGen (Next Placement.mirrored) mirroredStart s ∧
      (s.txns 0).pc = .replicate 0 1 ∧ (s.db ⟨1, 0, 0⟩).tid.wts < (s.txns 0).txn.commitWts := by
  obtain ⟨s, -, -, hrun, hpc, he, -⟩ := mirroredStart_run
  exact ⟨s, hrun, hpc, replica_wts_below_commitWts mirroredStart_clean (fun _ _ _ _ => rfl) hrun hpc he
    ⟨by decide, rfl, by decide⟩⟩

/-! ### Replica locks -/

/-- A replica copy of a record whose master `t` holds is locked only by `t`
itself, between the local replicate's `lock(tid)` and its
`unlock(tid, commit_wts)`. -/
theorem LockInv.replica_locked {s : System} (hl : LockInv P s) {t i k : Nat} {e : ScarRWKey}
    (he : (s.txns t).txn.writeSet[i]? = some e) (hk : HoldsKey s t i)
    (hkm : k ≠ P.masterCoordinator e.partitionId) (hlock : (s.db (replicaLoc e k)).tid.locked = true) :
    ∃ j f, (s.txns t).pc = .replicaLocked j k ∧ (s.txns t).txn.writeSet[j]? = some f ∧
      P.masterLoc f = P.masterLoc e := by
  obtain ⟨u, ho⟩ := Option.isSome_iff_exists.mp (hl.locked _ ▸ hlock)
  rcases (hl.owner _ u).mp ho with ⟨j, f, -, hm, -⟩ | ⟨j, k', f, hpc, hf, hrep⟩
  · exact absurd hm.symm (replicaLoc_ne_masterLoc hkm)
  · simp only [replicaLoc, Loc.mk.injEq] at hrep
    obtain ⟨rfl, hp, hkey⟩ := hrep
    have hmf : P.masterLoc f = P.masterLoc e := by simp [Placement.masterLoc, hp, hkey]
    have hbit := (((hl.txn u).committing (hpc ▸ trivial)).2 f (List.getElem?_mem hf)).1
    obtain rfl := hl.holds_unique (hmf ▸ holds_master hf hbit (hpc ▸ trivial) : Holds P s u _)
      (.inl ⟨i, e, he, rfl, hk⟩)
    exact ⟨j, f, hpc, hf, hmf⟩

/-- The replication loop never waits at a replica's lock: when
`write_and_replicate` reaches replica `k` of a key, and when a `REPLICATION`
piece is served, the replica's word is unlocked, so the local replicate's
`lock(tid)` and the handler's lock succeed at once. -/
theorem replica_locks_never_wait {s : System} (hs : Reachable P s) {t i : Nat} :
    (∀ k e, (s.txns t).pc = .replicate i k → (s.txns t).txn.writeSet[i]? = some e →
      k ≠ P.masterCoordinator e.partitionId → (s.db (replicaLoc e k)).tid.locked = false) ∧
    ∀ l v c, Request.replication l v c t i ∈ s.network → (s.db l).tid.locked = false := by
  have hl := reachable_lockInv hs
  have ht := hl.txn t
  have hbit : ∀ {j : Nat} {f : ScarRWKey}, (s.txns t).pc.Committing → (s.txns t).txn.writeSet[j]? = some f →
      f.writeLockBit = true := fun hc hf => ((ht.committing hc).2 _ (List.getElem?_mem hf)).1
  refine ⟨fun k e hpc he hkm => ?_, fun l v c hr => ?_⟩
  · cases hlock : (s.db (replicaLoc e k)).tid.locked
    · rfl
    · obtain ⟨j, f, hpc', -⟩ := hl.replica_locked he ⟨e, he, hbit (hpc ▸ trivial) he, .inl (hpc ▸ trivial)⟩
        hkm hlock
      rw [hpc] at hpc'; cases hpc'
  · obtain ⟨hrp, e, he, hle, -, -, hkm⟩ := ht.requests _ hr rfl
    generalize l.coordinator = k at hrp hle hkm
    subst hle
    have hc := hrp.wrotePast.committing
    cases hlock : (s.db (replicaLoc e k)).tid.locked
    · rfl
    · obtain ⟨j, f, hpc, hf, hmf⟩ := hl.replica_locked he
        ⟨e, he, hbit hc he, .inl (hrp.wrotePast.unreleased i)⟩ hkm hlock
      obtain rfl := ht.keyUnique j i f e hf he (hbit hc hf) (hbit hc he) hmf
      rw [hpc] at hrp
      simp [Pc.ReplicatedPast] at hrp

/-- In the run of `mirroredStart` the loop reaches the replica on coordinator 1,
and then sends it a `REPLICATION` piece; both find its word unlocked. -/
theorem replica_locks_never_wait_mirrored :
    (∃ s, Reachable Placement.mirrored s ∧ (s.txns 0).pc = .replicate 0 1 ∧
      (s.txns 0).txn.writeSet[0]? = some mirroredKey ∧ (s.db ⟨1, 0, 0⟩).tid.locked = false) ∧
    ∃ s, Reachable Placement.mirrored s ∧ Request.replication ⟨1, 0, 0⟩ 5 1 0 0 ∈ s.network ∧
      (s.db ⟨1, 0, 0⟩).tid.locked = false := by
  obtain ⟨s₁, s₂, -, h₁, hpc, he, h₂, hr, -⟩ := mirroredStart_run
  have hs₁ := Reachable.of_run mirroredStart_clean h₁
  have hs₂ := Reachable.of_run mirroredStart_clean h₂
  exact ⟨⟨s₁, hs₁, hpc, he, (replica_locks_never_wait hs₁).1 1 mirroredKey hpc he (by decide)⟩,
    s₂, hs₂, hr, (replica_locks_never_wait hs₂).2 _ _ _ hr⟩

end Coco.Scar
