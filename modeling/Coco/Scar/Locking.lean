import Coco.Scar.InFlight

/-!
Lock exclusivity of Scar. A transaction holds the master copy of write key `i`
from the step that set the key's `write_lock_bit` until the release or abort
loop has passed `i` and, for a remote key, its `RELEASE_LOCK` or `ABORT` piece
has been served; it holds a local replica between `ScarHelper::lock(tid)` and
`unlock(tid, commit_wts)` in `write_and_replicate`.

`LockInv` says that the `LOCK` bit of a row is set exactly when some transaction
holds it, that the ghost owner is that transaction, and that a held master copy
still has the word it had when the lock was granted, with `LOCK` set. Every step
keeps it, so a step can change a locked row only if its transaction holds it.
-/

namespace Coco.Scar

/-- Transaction `t` holds the master copy of its write key `i`. -/
def HoldsKey (s : System) (t i : Nat) : Prop :=
  ∃ e, (s.txns t).txn.writeSet[i]? = some e ∧ e.writeLockBit = true ∧
    ((s.txns t).pc.Unreleased i ∨ ∃ r ∈ s.network, r.Unlocks t i)

/-- Transaction `t` holds the row at `l`: the master copy of a write key, or the
local replica `write_and_replicate` has locked. -/
def Holds (P : Placement) (s : System) (t : Nat) (l : Loc) : Prop :=
  (∃ i e, (s.txns t).txn.writeSet[i]? = some e ∧ P.masterLoc e = l ∧ HoldsKey s t i) ∨
    ∃ i k e, (s.txns t).pc = .replicaLocked i k ∧ (s.txns t).txn.writeSet[i]? = some e ∧
      replicaLoc e k = l

/-- The lock bits, the ghost owner and the holders agree, and a held master copy
keeps the word it had when its lock was granted. -/
structure LockInv (P : Placement) (s : System) : Prop where
  nodup : s.network.Nodup
  txn : ∀ t, TxnOk P s.network t (s.txns t)
  locked : ∀ l, (s.db l).tid.locked = (s.owner l).isSome
  owner : ∀ l t, s.owner l = some t ↔ Holds P s t l
  heldWord : ∀ t i e, (s.txns t).txn.writeSet[i]? = some e → HoldsKey s t i →
    (s.db (P.masterLoc e)).tid = e.tid.setLocked true

variable {P : Placement}

/-- `HoldsKey` reads only the transaction's own state and its own unlock pieces. -/
theorem holdsKey_congr {s s' : System} {t : Nat} (htx : s'.txns t = s.txns t)
    (hnet : ∀ r, r.txn = t → (r ∈ s'.network ↔ r ∈ s.network)) (i : Nat) :
    HoldsKey s' t i ↔ HoldsKey s t i := by
  have : (∃ r ∈ s'.network, r.Unlocks t i) ↔ ∃ r ∈ s.network, r.Unlocks t i := by
    refine exists_congr fun r => ⟨fun ⟨h, hu⟩ => ⟨?_, hu⟩, fun ⟨h, hu⟩ => ⟨?_, hu⟩⟩ <;>
      cases r <;> simp only [Request.Unlocks] at hu <;>
      first | exact hu.elim | exact (hnet _ (by simp [Request.txn, hu.1])).mp h |
        exact (hnet _ (by simp [Request.txn, hu.1])).mpr h
  simp only [HoldsKey, htx, this]

theorem holds_congr {s s' : System} {t : Nat} (htx : s'.txns t = s.txns t)
    (hnet : ∀ r, r.txn = t → (r ∈ s'.network ↔ r ∈ s.network)) (l : Loc) :
    Holds P s' t l ↔ Holds P s t l := by
  simp only [Holds, htx, holdsKey_congr htx hnet]

/-! ### The lock invariant -/

/-- A step of `t` changes only `t`'s pieces in flight. -/
structure NetFrame (s s' : System) (t : Nat) : Prop where
  nodup : s'.network.Nodup
  mem : ∀ r, r.txn ≠ t → (r ∈ s'.network ↔ r ∈ s.network)
  waited : ∀ u, u ≠ t → waitedOf s'.network u = waitedOf s.network u

theorem NetFrame.same {s s' : System} {t : Nat} (hn : s.network.Nodup)
    (h : s'.network = s.network) : NetFrame s s' t :=
  ⟨h ▸ hn, fun _ _ => by rw [h], fun _ _ => by rw [h]⟩

theorem NetFrame.cons {s s' : System} {t : Nat} {r : Request} (hn : s.network.Nodup)
    (h : s'.network = r :: s.network) (hrt : r.txn = t) (hfresh : r ∉ s.network) :
    NetFrame s s' t :=
  ⟨h ▸ List.nodup_cons.mpr ⟨hfresh, hn⟩,
    fun q hq => by rw [h, List.mem_cons]; exact or_iff_right fun heq => hq (heq ▸ hrt),
    fun u hu => by rw [h, waitedOf_cons, if_neg fun (h' : r.txn = u ∧ r.Waited) => hu (h'.1 ▸ hrt)]; rfl⟩

theorem NetFrame.erase {s s' : System} {t : Nat} {r : Request} (hn : s.network.Nodup)
    (h : s'.network = s.network.erase r) (hr : r ∈ s.network) (hrt : r.txn = t) :
    NetFrame s s' t :=
  ⟨h ▸ hn.erase r,
    fun q hq => by rw [h, mem_erase_of_nodup hn]; exact and_iff_right fun heq => hq (heq ▸ hrt),
    fun u hu => by
      rw [h, waitedOf_erase hr u, if_neg fun (h' : r.txn = u ∧ r.Waited) => hu (h'.1 ▸ hrt)]; rfl⟩

theorem NetFrame.txnOk {s s' : System} {t u : Nat} (hf : NetFrame s s' t) (hu : u ≠ t)
    (htx : s'.txns u = s.txns u) (h : TxnOk P s.network u (s.txns u)) :
    TxnOk P s'.network u (s'.txns u) :=
  htx ▸ h.congr (fun r hr => hf.mem r (hr ▸ hu)) (hf.waited u hu)

theorem NetFrame.holdsKey {s s' : System} {t u : Nat} (hf : NetFrame s s' t) (hu : u ≠ t)
    (htx : s'.txns u = s.txns u) (i : Nat) : HoldsKey s' u i ↔ HoldsKey s u i :=
  holdsKey_congr htx (fun r hr => hf.mem r (hr ▸ hu)) i

theorem NetFrame.holds {s s' : System} {t u : Nat} (hf : NetFrame s s' t) (hu : u ≠ t)
    (htx : s'.txns u = s.txns u) (l : Loc) : Holds P s' u l ↔ Holds P s u l :=
  holds_congr htx (fun r hr => hf.mem r (hr ▸ hu)) l

/-- The holder of a locked row is unique. -/
theorem LockInv.holds_unique {s : System} (hinv : LockInv P s) {t u : Nat} {l : Loc}
    (ht : Holds P s t l) (hu : Holds P s u l) : t = u := by
  rw [← hinv.owner] at ht hu; rw [ht] at hu; exact Option.some.inj hu

theorem LockInv.locked_of_holds {s : System} (hinv : LockInv P s) {t : Nat} {l : Loc}
    (ht : Holds P s t l) : (s.db l).tid.locked = true := by
  rw [hinv.locked, (hinv.owner l t).mpr ht]; rfl

theorem LockInv.holdsKey_locked {s : System} (hinv : LockInv P s) {t i : Nat} {e : ScarRWKey}
    (he : (s.txns t).txn.writeSet[i]? = some e) (hk : HoldsKey s t i) :
    (s.db (P.masterLoc e)).tid.locked = true :=
  hinv.locked_of_holds (.inl ⟨i, e, he, rfl, hk⟩)

/-- The lock bits of `db'` are those of `db`, and so are its locked words. -/
def LocksKept (db db' : Loc → Row) : Prop :=
  ∀ l, (db' l).tid.locked = (db l).tid.locked ∧ ((db l).tid.locked = true → (db' l).tid = (db l).tid)

theorem LocksKept.refl (db : Loc → Row) : LocksKept db db := fun _ => ⟨rfl, fun _ => rfl⟩

theorem LocksKept.trans {db db' db'' : Loc → Row} (h : LocksKept db db') (h' : LocksKept db' db'') :
    LocksKept db db'' :=
  fun l => ⟨(h' l).1.trans (h l).1, fun hl => ((h' l).2 ((h l).1 ▸ hl)).trans ((h l).2 hl)⟩

theorem LocksKept.writeRow (s : System) (t : Nat) (l : Loc) (v : Nat) :
    LocksKept s.db (s.writeRow t l v).db := fun m => by
  by_cases hm : m = l
  · subst hm; simp
  · simp [hm]

/-- A store that keeps `LOCK` and leaves a locked word as it is. -/
theorem LocksKept.setTid {s : System} {l : Loc} {w : Tid} (hl : w.locked = (s.db l).tid.locked)
    (hw : (s.db l).tid.locked = true → w = (s.db l).tid) : LocksKept s.db (s.setTid l w).db := fun m => by
  by_cases hm : m = l
  · subst hm; simpa [hl] using hw
  · simp [hm]

/-- A step that leaves the owners, the lock bits, the holders and every locked
word alone keeps the lock invariant. -/
theorem LockInv.keep {s s' : System} {t : Nat} (hinv : LockInv P s) (hf : NetFrame s s' t)
    (hactor : TxnOk P s'.network t (s'.txns t)) (hothers : ∀ u, u ≠ t → s'.txns u = s.txns u)
    (hws : (s'.txns t).txn.writeSet = (s.txns t).txn.writeSet)
    (hkey : ∀ i, HoldsKey s' t i ↔ HoldsKey s t i)
    (hrep : ∀ i k, (s'.txns t).pc = .replicaLocked i k ↔ (s.txns t).pc = .replicaLocked i k)
    (howner : s'.owner = s.owner) (hdb : LocksKept s.db s'.db) : LockInv P s' := by
  have hk : ∀ u i, HoldsKey s' u i ↔ HoldsKey s u i := fun u i => by
    by_cases hu : u = t
    · subst hu; exact hkey i
    · exact hf.holdsKey hu (hothers u hu) i
  have hh : ∀ u l, Holds P s' u l ↔ Holds P s u l := fun u l => by
    by_cases hu : u = t
    · subst hu; simp only [Holds, hws, hk, hrep]
    · exact hf.holds hu (hothers u hu) l
  refine ⟨hf.nodup, fun u => ?_, fun l => by rw [(hdb l).1, howner, hinv.locked],
    fun l u => by rw [howner, hh, hinv.owner], fun u i e he hki => ?_⟩
  · by_cases hu : u = t
    · subst hu; exact hactor
    · exact hf.txnOk hu (hothers u hu) (hinv.txn u)
  · have hws' : (s'.txns u).txn.writeSet = (s.txns u).txn.writeSet := by
      by_cases hu : u = t
      · subst hu; exact hws
      · rw [hothers u hu]
    rw [hws'] at he
    have hki := (hk u i).mp hki
    have hw := hinv.heldWord u i e he hki
    rw [(hdb _).2 (hinv.holdsKey_locked he hki), hw]

/-- A step in which `t` acquires the unlocked row `l₀` keeps the lock invariant. -/
theorem LockInv.acquire {s s' : System} {t : Nat} {l₀ : Loc} (hinv : LockInv P s)
    (hf : NetFrame s s' t) (hactor : TxnOk P s'.network t (s'.txns t))
    (hothers : ∀ u, u ≠ t → s'.txns u = s.txns u) (hfree : (s.db l₀).tid.locked = false)
    (howner : s'.owner = Function.update s.owner l₀ (some t))
    (hdb : s'.db = Function.update s.db l₀ ⟨(s.db l₀).value, (s.db l₀).tid.setLocked true⟩)
    (hholds : ∀ l, Holds P s' t l ↔ Holds P s t l ∨ l = l₀)
    (hkey : ∀ j f, (s'.txns t).txn.writeSet[j]? = some f → HoldsKey s' t j →
      (HoldsKey s t j ∧ (s.txns t).txn.writeSet[j]? = some f) ∨
        (P.masterLoc f = l₀ ∧ f.tid = (s.db l₀).tid)) : LockInv P s' := by
  have hnone : s.owner l₀ = none := by
    have := hinv.locked l₀; rw [hfree] at this; exact Option.not_isSome_iff_eq_none.mp (by simp [← this])
  have hnot : ∀ u, ¬ Holds P s u l₀ := fun u hu => by rw [← hinv.owner, hnone] at hu; cases hu
  refine ⟨hf.nodup, fun u => ?_, fun l => ?_, fun l u => ?_, fun u j f hf' hk => ?_⟩
  · by_cases hu : u = t
    · subst hu; exact hactor
    · exact hf.txnOk hu (hothers u hu) (hinv.txn u)
  · rw [hdb, howner]
    by_cases hl : l = l₀
    · subst hl; simp
    · simp [Function.update_noteq hl, hinv.locked]
  · rw [howner]
    by_cases hu : u = t
    · subst hu
      rw [hholds]
      by_cases hl : l = l₀
      · subst hl; simp
      · simp [Function.update_noteq hl, hinv.owner, hl]
    · rw [hf.holds hu (hothers u hu)]
      by_cases hl : l = l₀
      · subst hl; simp only [Function.update_same, Option.some.injEq]
        exact ⟨fun h => absurd h.symm hu, fun h => absurd h (hnot u)⟩
      · rw [Function.update_noteq hl, hinv.owner]
  · by_cases hu : u = t
    · subst hu
      rcases hkey j f hf' hk with ⟨hk, hf''⟩ | ⟨hl, htid⟩
      · have hlk := hinv.holdsKey_locked hf'' hk
        have hne : P.masterLoc f ≠ l₀ := fun h => by rw [h, hfree] at hlk; cases hlk
        rw [hdb, Function.update_noteq hne]; exact hinv.heldWord _ j f hf'' hk
      · rw [hdb, hl, Function.update_same, htid]
    · rw [hothers u hu] at hf'
      have hk := (hf.holdsKey hu (hothers u hu) j).mp hk
      have hlk := hinv.holdsKey_locked hf' hk
      have hne : P.masterLoc f ≠ l₀ := fun h => by rw [h, hfree] at hlk; cases hlk
      rw [hdb, Function.update_noteq hne]; exact hinv.heldWord u j f hf' hk

/-- A step in which `t` lets go of the row `l₀` it holds, storing an unlocked
word, keeps the lock invariant. -/
theorem LockInv.release {s s' : System} {t : Nat} {l₀ : Loc} (hinv : LockInv P s)
    (hf : NetFrame s s' t) (hactor : TxnOk P s'.network t (s'.txns t))
    (hothers : ∀ u, u ≠ t → s'.txns u = s.txns u) (hheld : Holds P s t l₀)
    (howner : s'.owner = Function.update s.owner l₀ none)
    (hdb : (s'.db l₀).tid.locked = false) (hdb' : ∀ l, l ≠ l₀ → s'.db l = s.db l)
    (hholds : ∀ l, Holds P s' t l ↔ Holds P s t l ∧ l ≠ l₀)
    (hkey : ∀ j f, (s'.txns t).txn.writeSet[j]? = some f → HoldsKey s' t j →
      HoldsKey s t j ∧ (s.txns t).txn.writeSet[j]? = some f) : LockInv P s' := by
  have hnot : ∀ u, u ≠ t → ¬ Holds P s u l₀ := fun u hu h => hu (hinv.holds_unique h hheld)
  refine ⟨hf.nodup, fun u => ?_, fun l => ?_, fun l u => ?_, fun u j f hf' hk => ?_⟩
  · by_cases hu : u = t
    · subst hu; exact hactor
    · exact hf.txnOk hu (hothers u hu) (hinv.txn u)
  · rw [howner]
    by_cases hl : l = l₀
    · subst hl; simp [hdb]
    · simp [Function.update_noteq hl, hinv.locked, hdb' l hl]
  · rw [howner]
    by_cases hl : l = l₀
    · subst hl; simp only [Function.update_same, reduceCtorEq, false_iff]
      by_cases hu : u = t
      · subst hu; rw [hholds]; simp
      · rw [hf.holds hu (hothers u hu)]; exact hnot u hu
    · rw [Function.update_noteq hl, hinv.owner]
      by_cases hu : u = t
      · subst hu; rw [hholds]; simp [hl]
      · rw [hf.holds hu (hothers u hu)]
  · obtain ⟨hk', hf''⟩ : HoldsKey s u j ∧ (s.txns u).txn.writeSet[j]? = some f := by
      by_cases hu : u = t
      · subst hu; exact hkey j f hf' hk
      · rw [hothers u hu] at hf'; exact ⟨(hf.holdsKey hu (hothers u hu) j).mp hk, hf'⟩
    have hne : P.masterLoc f ≠ l₀ := fun hl => by
      by_cases hu : u = t
      · subst hu
        have := (hholds (P.masterLoc f)).mp (.inl ⟨j, f, hf', rfl, hk⟩)
        exact this.2 hl
      · exact hnot u hu (hl ▸ .inl ⟨j, f, hf'', rfl, hk'⟩)
    rw [hdb' _ hne]; exact hinv.heldWord u j f hf'' hk'

/-- Keys with the lock bit keep their release status across a step of `t`. -/
theorem holdsKey_iff_of {s s' : System} {t : Nat}
    (hws : (s'.txns t).txn.writeSet = (s.txns t).txn.writeSet)
    (hrel : ∀ i e, (s.txns t).txn.writeSet[i]? = some e → e.writeLockBit = true →
      (((s'.txns t).pc.Unreleased i ∨ ∃ r ∈ s'.network, r.Unlocks t i) ↔
        ((s.txns t).pc.Unreleased i ∨ ∃ r ∈ s.network, r.Unlocks t i))) (i : Nat) :
    HoldsKey s' t i ↔ HoldsKey s t i := by
  simp only [HoldsKey, hws]
  exact exists_congr fun e => ⟨fun ⟨he, hb, h⟩ => ⟨he, hb, (hrel i e he hb).mp h⟩,
    fun ⟨he, hb, h⟩ => ⟨he, hb, (hrel i e he hb).mpr h⟩⟩

/-- Steps between positions where no key has been released yet. -/
theorem holdsKey_iff_of_active {s s' : System} {t : Nat}
    (hws : (s'.txns t).txn.writeSet = (s.txns t).txn.writeSet)
    (h' : ∀ i, (s'.txns t).pc.Unreleased i) (h : ∀ i, (s.txns t).pc.Unreleased i) (i : Nat) :
    HoldsKey s' t i ↔ HoldsKey s t i :=
  holdsKey_iff_of hws (fun i _ _ _ => by simp [h' i, h i]) i

/-- A step that changes only `t`'s own state. -/
theorem LockInv.setTxn {s : System} {t : Nat} {x' : TxnState} (hinv : LockInv P s)
    (hactor : TxnOk P s.network t x') (hws : x'.txn.writeSet = (s.txns t).txn.writeSet)
    (hrel : ∀ i e, (s.txns t).txn.writeSet[i]? = some e → e.writeLockBit = true →
      (x'.pc.Unreleased i ↔ (s.txns t).pc.Unreleased i))
    (hrep : ∀ i k, x'.pc = .replicaLocked i k ↔ (s.txns t).pc = .replicaLocked i k) :
    LockInv P (s.setTxn t x') :=
  hinv.keep (t := t) (.same hinv.nodup rfl) (by simpa using hactor) (fun u hu => by simp [hu])
    (by simpa using hws) (holdsKey_iff_of (by simpa using hws) fun i e he hb => by
      simpa using or_congr_left (hrel i e he hb)) (by simpa using hrep) rfl (.refl _)

/-- A step in which `t` sends the fresh piece `r` and changes its own state. -/
theorem LockInv.send {s : System} {t : Nat} {r : Request} {x' : TxnState} (hinv : LockInv P s)
    (hrt : r.txn = t) (hfresh : r ∉ s.network) (hactor : TxnOk P (r :: s.network) t x')
    (hws : x'.txn.writeSet = (s.txns t).txn.writeSet)
    (hrel : ∀ i e, (s.txns t).txn.writeSet[i]? = some e → e.writeLockBit = true →
      (x'.pc.Unreleased i ∨ r.Unlocks t i ↔ (s.txns t).pc.Unreleased i))
    (hrep : ∀ i k, x'.pc = .replicaLocked i k ↔ (s.txns t).pc = .replicaLocked i k) :
    LockInv P ((s.send t r).setTxn t x') :=
  hinv.keep (t := t) (.cons hinv.nodup rfl hrt hfresh) (by simpa using hactor)
    (fun u hu => by simp [hu]) (by simpa using hws) (holdsKey_iff_of (by simpa using hws)
      fun i e he hb => by
        simp only [System.setTxn_txns, if_true, System.setTxn_network, System.send_network,
          List.mem_cons, exists_eq_or_imp]
        rw [← or_assoc, or_congr_left (hrel i e he hb)])
    (by simpa using hrep) rfl (.refl _)

theorem exists_unlocks_erase {N : List Request} (hn : N.Nodup) {r : Request} {t i : Nat}
    (hr : ¬ r.Unlocks t i) : (∃ q ∈ N.erase r, q.Unlocks t i) ↔ ∃ q ∈ N, q.Unlocks t i :=
  exists_congr fun q => by
    rw [mem_erase_of_nodup hn]
    exact ⟨fun ⟨⟨_, hq⟩, hu⟩ => ⟨hq, hu⟩, fun ⟨hq, hu⟩ => ⟨⟨fun h => hr (h ▸ hu), hq⟩, hu⟩⟩

/-- A handler serving a piece that unlocks nothing, with the transaction staying where
it is and keeping its write set. -/
theorem LockInv.serve {s s' : System} {t : Nat} {r : Request} (hinv : LockInv P s)
    (hr : r ∈ s.network) (hrt : r.txn = t) (hnu : ∀ i, ¬ r.Unlocks t i)
    (hnet : s'.network = s.network.erase r) (hactor : TxnOk P s'.network t (s'.txns t))
    (hothers : ∀ u, u ≠ t → s'.txns u = s.txns u)
    (hws : (s'.txns t).txn.writeSet = (s.txns t).txn.writeSet)
    (hpc : (s'.txns t).pc = (s.txns t).pc) (howner : s'.owner = s.owner)
    (hdb : LocksKept s.db s'.db) : LockInv P s' :=
  hinv.keep (.erase hinv.nodup hnet hr hrt) hactor hothers hws
    (holdsKey_iff_of hws fun i _ _ _ => by rw [hpc, hnet, exists_unlocks_erase hinv.nodup (hnu i)])
    (fun _ _ => by rw [hpc]) howner hdb

/-- While no key has been released, a transaction holds exactly its keys with the
lock bit. -/
theorem holdsKey_of_active {s : System} {t : Nat} (h : ∀ j, (s.txns t).pc.Unreleased j) (j : Nat) :
    HoldsKey s t j ↔ ∃ f, (s.txns t).txn.writeSet[j]? = some f ∧ f.writeLockBit = true := by
  simp only [HoldsKey, h j, true_or, and_true]

/-- While no key has been released and no replica is locked, a transaction holds
the master copies of its keys with the lock bit. -/
theorem holds_of_active {s : System} {t : Nat} (h : ∀ j, (s.txns t).pc.Unreleased j)
    (hrep : ∀ j k, (s.txns t).pc ≠ .replicaLocked j k) (l : Loc) :
    Holds P s t l ↔ ∃ (j : Nat) (f : ScarRWKey), (s.txns t).txn.writeSet[j]? = some f ∧
      f.writeLockBit = true ∧ P.masterLoc f = l := by
  simp only [Holds, holdsKey_of_active h, hrep, false_and, exists_false, or_false]
  constructor
  · rintro ⟨j, f, hf, hl, f', hf', hb⟩; rw [hf] at hf'; cases hf'; exact ⟨j, f, hf, hb, hl⟩
  · rintro ⟨j, f, hf, hb, hl⟩; exact ⟨j, f, hf, hl, f, hf, hb⟩

/-- No other granted key of an active transaction names an unlocked row. -/
theorem LockInv.granted_ne {s : System} (hinv : LockInv P s) {t : Nat}
    (h : ∀ j, (s.txns t).pc.Unreleased j) {l : Loc} (hl : (s.db l).tid.locked = false) (j : Nat)
    (f : ScarRWKey) (hf : (s.txns t).txn.writeSet[j]? = some f) (hb : f.writeLockBit = true) :
    P.masterLoc f ≠ l := fun heq => by
  have := hinv.holdsKey_locked hf ((holdsKey_of_active h j).mpr ⟨f, hf, hb⟩)
  rw [heq, hl] at this; cases this

/-- An active transaction is granted the lock of its write key `i` on the unlocked
master copy. -/
theorem LockInv.grant {s s' : System} {t i : Nat} {e : ScarRWKey} (hinv : LockInv P s)
    (hf : NetFrame s s' t) (hactor : TxnOk P s'.network t (s'.txns t))
    (hothers : ∀ u, u ≠ t → s'.txns u = s.txns u) (he : (s.txns t).txn.writeSet[i]? = some e)
    (hfree : (s.db (P.masterLoc e)).tid.locked = false)
    (howner : s'.owner = Function.update s.owner (P.masterLoc e) (some t))
    (hdb : s'.db = Function.update s.db (P.masterLoc e)
      ⟨(s.db (P.masterLoc e)).value, (s.db (P.masterLoc e)).tid.setLocked true⟩)
    (hws : ∀ j, (s'.txns t).txn.writeSet[j]? = if j = i then
      some { e with writeLockBit := true, tid := (s.db (P.masterLoc e)).tid }
      else (s.txns t).txn.writeSet[j]?)
    (hpc : ∀ j, (s.txns t).pc.Unreleased j) (hpc' : ∀ j, (s'.txns t).pc.Unreleased j)
    (hrep : ∀ j k, (s.txns t).pc ≠ .replicaLocked j k)
    (hrep' : ∀ j k, (s'.txns t).pc ≠ .replicaLocked j k) : LockInv P s' := by
  refine hinv.acquire hf hactor hothers hfree howner hdb (fun l => ?_) fun j f hf' hk => ?_
  · have hi := hws i
    rw [if_pos rfl] at hi
    rw [holds_of_active hpc' hrep', holds_of_active hpc hrep]
    constructor
    · rintro ⟨j, f, hf', hb, rfl⟩
      rw [hws] at hf'
      by_cases hji : j = i
      · rw [if_pos hji] at hf'; cases hf'; exact .inr rfl
      · rw [if_neg hji] at hf'; exact .inl ⟨j, f, hf', hb, rfl⟩
    · rintro (⟨j, f, hf', hb, rfl⟩ | rfl)
      · by_cases hji : j = i
        · subst hji; rw [he] at hf'; cases hf'
          exact ⟨j, _, hi, rfl, rfl⟩
        · exact ⟨j, f, by rw [hws, if_neg hji, hf'], hb, rfl⟩
      · exact ⟨i, _, hi, rfl, rfl⟩
  · rw [hws] at hf'
    by_cases hji : j = i
    · rw [if_pos hji] at hf'; cases hf'; exact .inr ⟨rfl, rfl⟩
    · rw [if_neg hji] at hf'
      obtain ⟨f', hf'', hb⟩ := (holdsKey_of_active hpc' j).mp hk
      rw [hws, if_neg hji, hf'] at hf''; cases hf''
      exact .inl ⟨(holdsKey_of_active hpc j).mpr ⟨f, hf', hb⟩, hf'⟩

/-- The keys `t` holds after a step are those it held, but key `i`. -/
theorem holdsKey_iff_and {s s' : System} {t i : Nat}
    (hws : (s'.txns t).txn.writeSet = (s.txns t).txn.writeSet)
    (hrel : ∀ j, ((s'.txns t).pc.Unreleased j ∨ ∃ r ∈ s'.network, r.Unlocks t j) ↔
      ((s.txns t).pc.Unreleased j ∨ ∃ r ∈ s.network, r.Unlocks t j) ∧ j ≠ i) (j : Nat) :
    HoldsKey s' t j ↔ HoldsKey s t j ∧ j ≠ i := by
  simp only [HoldsKey, hws, hrel]
  exact ⟨fun ⟨f, a, b, c, d⟩ => ⟨⟨f, a, b, c⟩, d⟩, fun ⟨⟨f, a, b, c⟩, d⟩ => ⟨f, a, b, c, d⟩⟩

/-- `t` lets go of the master copy of its write key `i`. -/
theorem LockInv.releaseMaster {s s' : System} {t i : Nat} {e : ScarRWKey} (hinv : LockInv P s)
    (hf : NetFrame s s' t) (hactor : TxnOk P s'.network t (s'.txns t))
    (hothers : ∀ u, u ≠ t → s'.txns u = s.txns u)
    (hws : (s'.txns t).txn.writeSet = (s.txns t).txn.writeSet)
    (he : (s.txns t).txn.writeSet[i]? = some e) (hheld : HoldsKey s t i)
    (hkey : ∀ j, HoldsKey s' t j ↔ HoldsKey s t j ∧ j ≠ i)
    (hrep : ∀ j k, (s.txns t).pc ≠ .replicaLocked j k)
    (hrep' : ∀ j k, (s'.txns t).pc ≠ .replicaLocked j k)
    (howner : s'.owner = Function.update s.owner (P.masterLoc e) none)
    (hdb : (s'.db (P.masterLoc e)).tid.locked = false)
    (hdb' : ∀ l, l ≠ P.masterLoc e → s'.db l = s.db l) : LockInv P s' := by
  have hbit : ∀ {j f}, (s.txns t).txn.writeSet[j]? = some f → HoldsKey s t j →
      f.writeLockBit = true := fun hf ⟨f', hf', hb, _⟩ => by rw [hf] at hf'; cases hf'; exact hb
  refine hinv.release hf hactor hothers (.inl ⟨i, e, he, rfl, hheld⟩) howner hdb hdb' (fun l => ?_)
    fun j f hf' hk => ⟨((hkey j).mp hk).1, hws ▸ hf'⟩
  simp only [Holds, hws, hkey, hrep, hrep', false_and, exists_false, or_false]
  constructor
  · rintro ⟨j, f, hf', rfl, hk, hji⟩
    exact ⟨⟨j, f, hf', rfl, hk⟩, fun heq =>
      hji ((hinv.txn t).keyUnique j i f e hf' he (hbit hf' hk) (hbit he hheld) heq)⟩
  · rintro ⟨⟨j, f, hf', rfl, hk⟩, hne⟩
    exact ⟨j, f, hf', rfl, hk, fun hji => hne (by subst hji; rw [he] at hf'; cases hf'; rfl)⟩

/-- The release or abort loop passes key `i`. -/
theorem holdsKey_unlockNext {s s' : System} {t i : Nat} {b : Bool}
    (ht : TxnOk P s.network t (s.txns t))
    (hpc : (s.txns t).pc = if b then .releaseLock i else .abort i)
    (hpc' : (s'.txns t).pc = if b then .releaseLock (i + 1) else .abort (i + 1))
    (hws : (s'.txns t).txn.writeSet = (s.txns t).txn.writeSet) (hnet : s'.network = s.network) :
    ∀ j, HoldsKey s' t j ↔ HoldsKey s t j ∧ j ≠ i := by
  have hpast : ∀ j, (∃ q ∈ s.network, q.Unlocks t j) → j < i := fun j ⟨q, hq, hu⟩ => by
    obtain ⟨k, f, hk, -, -, -, hlt⟩ := ht.unlockReq hq hu.txn_eq (.inr ⟨i, hpc⟩)
    rw [hu.index_eq hk]; exact hlt i hpc
  refine holdsKey_iff_and hws fun j => ?_
  have := hpast j
  rw [hnet, hpc, hpc']
  by_cases hx : ∃ q ∈ s.network, q.Unlocks t j <;> cases b <;> simp [hx, Pc.Unreleased] at this ⊢ <;>
    omega

/-- A served `RELEASE_LOCK` or `ABORT` piece of key `i`. -/
theorem holdsKey_serveUnlock {s s' : System} {t i : Nat} {r : Request}
    (ht : TxnOk P s.network t (s.txns t)) (hn : s.network.Nodup) (hr : r ∈ s.network)
    (hu : r.Unlocks t i) (htx : s'.txns t = s.txns t) (hnet : s'.network = s.network.erase r) :
    ∀ j, HoldsKey s' t j ↔ HoldsKey s t j ∧ j ≠ i := by
  obtain ⟨b, hpos⟩ : ∃ b, (s.txns t).pc = .returned b ∨
      ∃ i', (s.txns t).pc = if b then .releaseLock i' else .abort i' := by
    have hok := ht.requests r hr hu.txn_eq
    cases r <;> simp only [Request.Unlocks] at hu
    · exact ⟨true, hok.1.imp id fun ⟨j, hj, _⟩ => ⟨j, hj⟩⟩
    · exact ⟨false, hok.1.imp id fun ⟨j, hj, _⟩ => ⟨j, hj⟩⟩
  obtain ⟨k, e, hk, he, -, hreq, hlt⟩ := ht.unlockReq hr hu.txn_eq hpos
  obtain rfl := hu.index_eq hk
  refine holdsKey_iff_and (by rw [htx]) fun j => ?_
  rw [htx, hnet]
  by_cases hji : j = i
  · subst hji
    simp only [ne_eq, not_true_eq_false, and_false, iff_false, not_or, not_exists, not_and]
    refine ⟨fun hU => ?_, fun q hq hq' => ?_⟩
    · rcases hpos with hp | ⟨i', hp⟩ <;> rw [hp] at hU
      · exact hU
      · have := hlt i' hp; cases b <;> simp [Pc.Unreleased] at hU <;> omega
    · obtain ⟨hne, hq⟩ := (mem_erase_of_nodup hn).mp hq
      obtain ⟨k', f, hk', hf, -, hreq', -⟩ := ht.unlockReq hq hq'.txn_eq hpos
      obtain rfl := hq'.index_eq hk'
      rw [he] at hf; cases hf
      exact hne (hreq'.trans hreq.symm)
  · rw [exists_unlocks_erase hn fun h => hji (hu.index_eq h).symm]
    exact (and_iff_left hji).symm

/-- The local replica a transaction at `replicaLocked i k` holds. -/
theorem replicaLocked_iff {ws : List ScarRWKey} {i k : Nat} {e : ScarRWKey} (he : ws[i]? = some e)
    (l : Loc) : (∃ i' k' f, Pc.replicaLocked i k = .replicaLocked i' k' ∧ ws[i']? = some f ∧
      replicaLoc f k' = l) ↔ l = replicaLoc e k :=
  ⟨fun ⟨_, _, f, h, hf, hl⟩ => by cases h; rw [he] at hf; cases hf; exact hl.symm,
    fun h => ⟨i, k, e, rfl, he, h.symm⟩⟩

theorem lockInv_step {s s' : System} {t : Nat} (hinv : LockInv P s) (h : Step P s t s') :
    LockInv P s' := by
  have ht := hinv.txn t
  cases h with
  | read hx hpc =>
    subst hx
    exact hinv.setTxn (ht.read hpc) rfl
      (fun _ _ _ _ => by simp [hpc, Pc.Unreleased]) (by simp [hpc])
  | executeDone hx hpc =>
    subst hx
    exact hinv.setTxn (ht.executeDone hpc) rfl
      (fun _ _ _ _ => by simp [hpc, Pc.Unreleased]) (by simp [hpc])
  | lockLocalFail hx hpc =>
    subst hx
    exact hinv.setTxn (ht.lockLocalFail hpc) rfl
      (fun _ _ _ _ => by simp [hpc, Pc.Unreleased]) (by simp [hpc])
  | lockRemote hx hpc he =>
    subst hx
    exact hinv.send rfl
      (fun hm => by simpa [ReqOk, hpc] using ht.requests _ hm rfl) (ht.lockRemote hpc he) rfl
      (fun _ _ _ _ => by simp [hpc, Pc.Unreleased, Request.Unlocks]) (by simp [hpc])
  | lockDone hx hpc hi =>
    subst hx
    exact hinv.setTxn (ht.lockDone hpc hi) rfl
      (fun _ _ _ _ => by simp [hpc, Pc.Unreleased]) (by simp [hpc])
  | syncLockAbort hx hpc hdone =>
    subst hx
    exact hinv.setTxn (ht.syncLockAbort hpc hdone) rfl
      (fun _ _ _ _ => by simp [hpc, Pc.Unreleased]) (by simp [hpc])
  | syncLockCommit hx hpc hdone habort =>
    subst hx
    exact hinv.setTxn (ht.syncLockCommit hpc hdone habort) rfl
      (fun _ _ _ _ => by simp [hpc, Pc.Unreleased]) (by simp [hpc])
  | validateSkip hx hpc =>
    subst hx
    exact hinv.setTxn (ht.validateSkip hpc) rfl
      (fun _ _ _ _ => by simp [hpc, Pc.Unreleased]) (by simp [hpc])
  | validateLocal hx hpc he hindex hwrite hlocal hvalid =>
    subst hx
    exact hinv.keep (t := t) (.same hinv.nodup rfl) (by simpa using ht.validateLocal hpc)
      (fun u hu => by simp [hu]) (by simp) (holdsKey_iff_of (by simp)
        fun _ _ _ _ => by simp [hpc, Pc.Unreleased]) (by simp [hpc]) rfl
      (.setTid (ScarHelper.validateReadKey_locked_eq hvalid) (ScarHelper.validateReadKey_locked hvalid))
  | validateLocalFail hx hpc =>
    subst hx
    exact hinv.setTxn (ht.validateLocalFail hpc) rfl
      (fun _ _ _ _ => by simp [hpc, Pc.Unreleased]) (by simp [hpc])
  | validateRemote hx hpc he =>
    subst hx
    exact hinv.send rfl
      (fun hm => by simpa [ReqOk, hpc] using ht.requests _ hm rfl) (ht.validateRemote hpc he) rfl
      (fun _ _ _ _ => by simp [hpc, Pc.Unreleased, Request.Unlocks]) (by simp [hpc])
  | validateDone hx hpc =>
    subst hx
    exact hinv.setTxn (ht.validateDone hpc) rfl
      (fun _ _ _ _ => by simp [hpc, Pc.Unreleased]) (by simp [hpc])
  | syncValidationAbort hx hpc hdone =>
    subst hx
    exact hinv.setTxn (ht.syncValidationAbort hpc hdone) rfl
      (fun _ _ _ _ => by simp [hpc, Pc.Unreleased]) (by simp [hpc])
  | syncValidationCommit hx hpc hdone =>
    subst hx
    exact hinv.setTxn (ht.syncValidationCommit hpc hdone) rfl
      (fun _ _ _ _ => by simp [hpc, Pc.Unreleased]) (by simp [hpc])
  | writeLocal hx hpc =>
    subst hx
    exact hinv.keep (t := t) (.same hinv.nodup rfl) (by simpa using ht.writeLocal hpc)
      (fun u hu => by simp [hu]) (by simp) (holdsKey_iff_of (by simp)
        fun _ _ _ _ => by simp [hpc, Pc.Unreleased]) (by simp [hpc]) rfl (.writeRow _ t _ _)
  | writeRemote hx hpc he =>
    subst hx
    exact hinv.send rfl
      (fun hm => by simpa [ReqOk, hpc, Pc.WrotePast] using ht.requests _ hm rfl)
      (ht.writeRemote hpc he) rfl (fun _ _ _ _ => by simp [hpc, Pc.Unreleased, Request.Unlocks])
      (by simp [hpc])
  | writeDone hx hpc =>
    subst hx
    exact hinv.setTxn (ht.writeDone hpc) rfl
      (fun _ _ _ _ => by simp [hpc, Pc.Unreleased]) (by simp [hpc])
  | replicateSkip hx hpc =>
    subst hx
    exact hinv.setTxn (ht.replicateNext (.inl hpc)) rfl
      (fun _ _ _ _ => by simp [hpc, Pc.Unreleased]) (by simp [hpc])
  | replicateRemote hx hpc he _ _ hmaster =>
    subst hx
    exact hinv.send rfl
      (fun hm => by simpa [ReqOk, hpc, Pc.ReplicatedPast, replicaLoc] using ht.requests _ hm rfl)
      (ht.replicateRemote hpc he hmaster) rfl (fun _ _ _ _ => by simp [hpc, Pc.Unreleased, Request.Unlocks])
      (by simp [hpc])
  | replicateDone hx hpc =>
    subst hx
    exact hinv.setTxn (ht.replicateDone hpc) rfl
      (fun _ _ _ _ => by simp [hpc, Pc.Unreleased]) (by simp [hpc])
  | syncWriteDone hx hpc hdone =>
    subst hx
    exact hinv.setTxn (ht.syncWriteDone hpc hdone) rfl
      (fun _ _ _ _ => by simp [hpc, Pc.Unreleased]) (by simp [hpc])
  | releaseRemote hx hpc he =>
    subst hx
    exact hinv.send rfl
      (fun hm => by simpa [ReqOk, hpc] using ht.requests _ hm rfl) (ht.releaseRemote hpc he) rfl
      (fun _ _ _ _ => by simp [hpc, Pc.Unreleased, Request.Unlocks]; omega) (by simp [hpc])
  | releaseDone hx hpc hi =>
    subst hx
    exact hinv.setTxn (ht.releaseDone hpc) rfl
      (fun _ _ he _ => by have := (List.getElem?_eq_some_iff.mp he).1; simp [hpc, Pc.Unreleased]; omega)
      (by simp [hpc])
  | @abortSkip _ _ i _ hx hpc he hbit =>
    subst hx
    exact hinv.setTxn (ht.abortNext hpc) rfl
      (fun j f hf hb => by
        have : j ≠ i := by rintro rfl; rw [he] at hf; cases hf; simp [hb] at hbit
        simp [hpc, Pc.Unreleased]; omega) (by simp [hpc])
  | abortRemote hx hpc he hbit =>
    subst hx
    exact hinv.send rfl
      (fun hm => by simpa [ReqOk, hpc] using ht.requests _ hm rfl) (ht.abortRemote hpc he hbit) rfl
      (fun _ _ _ _ => by simp [hpc, Pc.Unreleased, Request.Unlocks]; omega) (by simp [hpc])
  | abortDone hx hpc hi =>
    subst hx
    exact hinv.setTxn (ht.abortDone hpc) rfl
      (fun _ _ he _ => by have := (List.getElem?_eq_some_iff.mp he).1; simp [hpc, Pc.Unreleased]; omega)
      (by simp [hpc])
  | serveLockFail hr hx =>
    subst hx
    exact hinv.serve (t := t) hr rfl (fun _ => id) rfl (by simpa using ht.serveLockFail hinv.nodup hr)
      (fun u hu => by simp [hu]) (by simp) (by simp) rfl (.refl _)
  | serveValidation hr hx he hvalid =>
    subst hx
    exact hinv.serve (t := t) hr rfl (fun _ => id) rfl
      (by simpa using ht.serveValidation hinv.nodup hr he) (fun u hu => by simp [hu]) (by simp)
      (by simp) rfl
      (.setTid (ScarHelper.validateReadKey_locked_eq hvalid) (ScarHelper.validateReadKey_locked hvalid))
  | serveValidationFail hr hx =>
    subst hx
    exact hinv.serve (t := t) hr rfl (fun _ => id) rfl
      (by simpa using ht.serveValidationFail hinv.nodup hr) (fun u hu => by simp [hu]) (by simp)
      (by simp) rfl (.refl _)
  | serveWrite hr hx =>
    subst hx
    have hok := ht.serveWritten hinv.nodup hr rfl trivial (.inl ⟨_, _, _, rfl⟩)
    exact hinv.serve (t := t) hr rfl (fun _ => id) rfl (by simpa using hok) (fun u hu => by simp [hu])
      (by simp) (by simp) rfl (.writeRow _ t _ _)
  | serveReplication hr hx hunlocked =>
    subst hx
    have hok := ht.serveWritten hinv.nodup hr rfl trivial (.inr ⟨_, _, _, _, rfl⟩)
    exact hinv.serve (t := t) hr rfl (fun _ => id) rfl (by simpa using hok) (fun u hu => by simp [hu])
      (by simp) (by simp) rfl
      ((LocksKept.writeRow _ t _ _).trans (.setTid (by simp [hunlocked]) (by simp [hunlocked])))
  | @lockLocal _ _ i e r hx hpc he hlocal hunlocked hread =>
    subst hx
    have hact : ∀ j, (s.txns t).pc.Unreleased j := fun j => by simp [hpc, Pc.Unreleased]
    have hok := ht.lockLocal (w := (s.db (P.masterLoc e)).tid) (r := r.tid) hpc he
      (hinv.granted_ne hact hunlocked)
    exact hinv.grant (t := t) (.same hinv.nodup rfl) (by simpa using hok) (fun u hu => by simp [hu])
      he hunlocked rfl rfl (fun j => by simpa using (s.txns t).txn.lockGranted_writeSet he _ _ j) hact
      (fun j => by simp only [System.setTxn_txns, if_true]; split <;> simp [Pc.Unreleased]) (by simp [hpc])
      (fun j k => by simp only [System.setTxn_txns, if_true]; split <;> simp)
  | @replicateLock _ _ i k e hx hpc he hk hrep hmaster hself hunlocked =>
    subst hx
    have hkey : ∀ j, HoldsKey ((s.lockRow t (replicaLoc e k)).setTxn t
        ⟨.replicaLocked i k, (s.txns t).txn⟩) t j ↔ HoldsKey s t j :=
      holdsKey_iff_of_active (by simp) (fun j => by simp [Pc.Unreleased])
        (fun j => by simp [hpc, Pc.Unreleased])
    refine hinv.acquire (t := t) (.same hinv.nodup rfl) (by simpa using ht.replicateLock hpc he hmaster)
      (fun u hu => by simp [hu]) hunlocked rfl rfl (fun l => ?_)
      fun j f hf hk => .inl ⟨(hkey j).mp hk, by simpa using hf⟩
    simp only [Holds, hkey, System.setTxn_txns, if_true, hpc, replicaLocked_iff he, reduceCtorEq,
      false_and, exists_false, or_false]
  | @replicaUnlock _ _ i k e hx hpc he =>
    subst hx
    have hkey : ∀ j, HoldsKey (((s.writeRow t (replicaLoc e k) e.value).unlockRow t (replicaLoc e k)
        (ScarHelper.unlockWithCommit (s.txns t).txn.commitWts)).setTxn t
          ⟨.replicate i (k + 1), (s.txns t).txn⟩) t j ↔ HoldsKey s t j :=
      holdsKey_iff_of_active (by simp) (fun j => by simp [Pc.Unreleased])
        (fun j => by simp [hpc, Pc.Unreleased])
    obtain ⟨e', he', hne⟩ := ht.replica i k hpc
    rw [he] at he'; cases he'
    refine hinv.release (t := t) (.same hinv.nodup rfl) (by simpa using ht.replicateNext (.inr hpc))
      (fun u hu => by simp [hu]) (.inr ⟨i, k, e, hpc, he, rfl⟩) rfl (by simp) (fun l hl => by simp [hl])
      (fun l => ?_) fun j f hf hk => ⟨(hkey j).mp hk, by simpa using hf⟩
    simp only [Holds, hkey, System.setTxn_txns, if_true, hpc, replicaLocked_iff he, reduceCtorEq,
      false_and, exists_false, or_false]
    constructor
    · rintro ⟨j, f, hf, rfl, hk⟩
      exact ⟨.inl ⟨j, f, hf, rfl, hk⟩, (replicaLoc_ne_masterLoc hne).symm⟩
    · rintro ⟨hm | hl, hne'⟩
      · exact hm
      · exact absurd hl hne'
  | @releaseLocal _ _ i e hx hpc he hlocal =>
    subst hx
    have hbit := ((ht.committing (by simp [hpc, Pc.Committing])).2 e (List.getElem?_mem he)).1
    exact hinv.releaseMaster (t := t) (.same hinv.nodup rfl) (by simpa using ht.releaseNext hpc)
      (fun u hu => by simp [hu]) (by simp) he ⟨e, he, hbit, .inl (by simp [hpc, Pc.Unreleased])⟩
      (holdsKey_unlockNext (b := true) ht hpc (by simp) (by simp) rfl) (by simp [hpc]) (by simp) rfl
      (by simp) (fun l hl => by simp [hl])
  | @abortLocal _ _ i e hx hpc he hbit hlocal =>
    subst hx
    exact hinv.releaseMaster (t := t) (.same hinv.nodup rfl) (by simpa using ht.abortNext hpc)
      (fun u hu => by simp [hu]) (by simp) he ⟨e, he, hbit, .inl (by simp [hpc, Pc.Unreleased])⟩
      (holdsKey_unlockNext (b := false) ht hpc (by simp) (by simp) rfl) (by simp [hpc]) (by simp) rfl
      (by simp) (fun l hl => by simp [hl])
  | @serveLock _ l i x e r hr hx he hread hunlocked =>
    subst hx
    obtain ⟨hpos, e', he', rfl⟩ := ht.requests _ hr rfl
    rw [he] at he'; cases he'
    have hact : ∀ j, (s.txns t).pc.Unreleased j := fun j => by
      rcases hpos with hp | ⟨j, hp, -⟩ <;> simp [hp, Pc.Unreleased]
    have hnrep : ∀ j k, (s.txns t).pc ≠ .replicaLocked j k := by
      rcases hpos with hp | ⟨j, hp, -⟩ <;> simp [hp]
    have hok := ht.serveLock (w := (s.db (P.masterLoc e)).tid) (r := r.tid) hinv.nodup hr he
      (hinv.granted_ne hact hunlocked)
    exact hinv.grant (t := t) (.erase hinv.nodup rfl hr rfl) (by simpa using hok)
      (fun u hu => by simp [hu]) he hunlocked rfl rfl
      (fun j => by simpa using (s.txns t).txn.lockGranted_writeSet he _ _ j) hact (by simpa using hact)
      hnrep (by simpa using hnrep)
  | @serveRelease _ l c i hr =>
    obtain ⟨hpos, e, he, rfl, hbit, rfl⟩ := ht.requests _ hr rfl
    have hnrep : ∀ j k, (s.txns t).pc ≠ .replicaLocked j k := by
      rcases hpos with hp | ⟨j, hp, -⟩ <;> simp [hp]
    exact hinv.releaseMaster (t := t) (.erase hinv.nodup rfl hr rfl) (ht.serveUnlock hinv.nodup hr ⟨rfl, rfl⟩)
      (fun u hu => rfl) rfl he ⟨e, he, hbit, .inr ⟨_, hr, rfl, rfl⟩⟩
      (holdsKey_serveUnlock ht hinv.nodup hr ⟨rfl, rfl⟩ rfl rfl) hnrep hnrep rfl (by simp)
      (fun l hl => by simp [hl])
  | @serveAbort _ l i hr =>
    obtain ⟨hpos, e, he, rfl, hbit⟩ := ht.requests _ hr rfl
    have hnrep : ∀ j k, (s.txns t).pc ≠ .replicaLocked j k := by
      rcases hpos with hp | ⟨j, hp, -⟩ <;> simp [hp]
    exact hinv.releaseMaster (t := t) (.erase hinv.nodup rfl hr rfl) (ht.serveUnlock hinv.nodup hr ⟨rfl, rfl⟩)
      (fun u hu => rfl) rfl he ⟨e, he, hbit, .inr ⟨_, hr, rfl, rfl⟩⟩
      (holdsKey_serveUnlock ht hinv.nodup hr ⟨rfl, rfl⟩ rfl rfl) hnrep hnrep rfl (by simp)
      (fun l hl => by simp [hl])


/-- No transaction holds anything before its first read. -/
theorem not_holds_init {db : Loc → Row} {txns : Nat → ScarTransaction} (h : Clean db txns)
    (t : Nat) (l : Loc) : ¬ Holds P (System.init db txns) t l := by
  rintro (⟨i, e, he, -, f, hf, hb, -⟩ | ⟨i, k, e, hpc, -⟩)
  · rw [h.writeLockBit t f (List.getElem?_mem hf)] at hb; cases hb
  · cases hpc

theorem lockInv_init {db : Loc → Row} {txns : Nat → ScarTransaction} (h : Clean db txns) :
    LockInv P (System.init db txns) where
  nodup := List.nodup_nil
  txn t := by
    refine ⟨h.pending t, fun _ hr => absurd hr (List.not_mem_nil _),
      fun _ hj => by simp [System.init] at hj, fun hc => (by cases hc), fun i j e f he _ hb => ?_,
      fun _ _ hk => (by cases hk)⟩
    rw [h.writeLockBit t e (List.getElem?_mem he)] at hb; cases hb
  locked l := by simp [System.init, h.unlocked l]
  owner l t := by simp only [System.init, reduceCtorEq, false_iff]; exact not_holds_init h t l
  heldWord t i e he hk := absurd (.inl ⟨i, e, he, rfl, hk⟩) (not_holds_init h t (P.masterLoc e))

/-- A held master copy of a write key: the key's lock bit is set and its lock not
yet released. -/
theorem holds_master {s : System} {t i : Nat} {e : ScarRWKey}
    (he : (s.txns t).txn.writeSet[i]? = some e) (hb : e.writeLockBit = true)
    (hU : (s.txns t).pc.Unreleased i) : Holds P s t (P.masterLoc e) :=
  .inl ⟨i, e, he, rfl, e, he, hb, .inl hU⟩

/-- A step that changes a locked row is a step of the transaction holding it. -/
theorem LockInv.changes_held {s s' : System} {t : Nat} (hinv : LockInv P s) (h : Step P s t s')
    {l : Loc} (hl : (s.db l).tid.locked = true) (hne : s'.db l ≠ s.db l) : Holds P s t l := by
  have ht := hinv.txn t
  have hcommit : ∀ {i : Nat} {e : ScarRWKey}, (s.txns t).txn.writeSet[i]? = some e →
      (s.txns t).pc.Committing →
      e.writeLockBit = true := fun he hc => ((ht.committing hc).2 _ (List.getElem?_mem he)).1
  cases h with
  | @lockLocal _ _ _ e _ hx _ _ _ hunlocked _ =>
    by_cases hm : l = P.masterLoc e
    · subst hm; rw [hunlocked] at hl; cases hl
    · exact absurd (by simp [hm]) hne
  | @replicateLock _ _ _ k e hx _ _ _ _ _ _ hunlocked =>
    by_cases hm : l = replicaLoc e k
    · subst hm; rw [hunlocked] at hl; cases hl
    · exact absurd (by simp [hm]) hne
  | @serveLock l' _ _ _ _ _ _ _ _ _ hunlocked =>
    by_cases hm : l = l'
    · subst hm; rw [hunlocked] at hl; cases hl
    · exact absurd (by simp [hm]) hne
  | @serveReplication l' _ _ _ _ _ _ _ hunlocked =>
    by_cases hm : l = l'
    · subst hm; rw [hunlocked] at hl; cases hl
    · exact absurd (by simp [hm]) hne
  | @validateLocal _ _ _ e _ hx _ _ _ _ _ hvalid =>
    subst hx
    by_cases hm : l = P.masterLoc e
    · subst hm; exact absurd (by simp [ScarHelper.validateReadKey_locked hvalid hl]) hne
    · exact absurd (by simp [hm]) hne
  | @serveValidation l' _ _ _ _ _ _ _ _ _ _ hvalid =>
    by_cases hm : l = l'
    · subst hm; exact absurd (by simp [ScarHelper.validateReadKey_locked hvalid hl]) hne
    · exact absurd (by simp [hm]) hne
  | @writeLocal _ _ i e hx hpc he _ | @releaseLocal _ _ i e hx hpc he _ =>
    subst hx
    by_cases hm : l = P.masterLoc e
    · subst hm
      exact holds_master he (hcommit he (by simp [hpc, Pc.Committing])) (by simp [hpc, Pc.Unreleased])
    · exact absurd (by simp [hm]) hne
  | @abortLocal _ _ i e hx hpc he hbit _ =>
    subst hx
    by_cases hm : l = P.masterLoc e
    · subst hm; exact holds_master he hbit (by simp [hpc, Pc.Unreleased])
    · exact absurd (by simp [hm]) hne
  | @replicaUnlock _ _ i k e hx hpc he =>
    subst hx
    by_cases hm : l = replicaLoc e k
    · exact .inr ⟨i, k, e, hpc, he, hm.symm⟩
    · exact absurd (by simp [hm]) hne
  | @serveWrite _ _ _ i _ hr _ =>
    obtain ⟨hw, e, he, rfl, -⟩ := ht.requests _ hr rfl
    by_cases hm : l = P.masterLoc e
    · subst hm; exact holds_master he (hcommit he hw.committing) (hw.unreleased i)
    · exact absurd (by simp [hm]) hne
  | @serveRelease _ _ _ i hr =>
    obtain ⟨-, e, he, rfl, hbit, -⟩ := ht.requests _ hr rfl
    by_cases hm : l = P.masterLoc e
    · subst hm; exact .inl ⟨i, e, he, rfl, e, he, hbit, .inr ⟨_, hr, rfl, rfl⟩⟩
    · exact absurd (by simp [hm]) hne
  | @serveAbort _ _ i hr =>
    obtain ⟨-, e, he, rfl, hbit⟩ := ht.requests _ hr rfl
    by_cases hm : l = P.masterLoc e
    · subst hm; exact .inl ⟨i, e, he, rfl, e, he, hbit, .inr ⟨_, hr, rfl, rfl⟩⟩
    · exact absurd (by simp [hm]) hne
  | _ => exact absurd rfl hne

/-- Every reachable state satisfies the lock invariant. -/
theorem reachable_lockInv {s : System} (hs : Reachable P s) : LockInv P s := by
  induction hs with
  | init h => exact lockInv_init h
  | step _ h ih => exact lockInv_step ih h

/-- Lock exclusivity in state `s`: the `LOCK` bit of a row is set exactly when a
transaction holds the row, no two transactions hold one row, and a step that
changes a locked row (its value, its timestamps or its `LOCK` bit) is a step of
the transaction that locked it, which holds it. -/
structure LockExclusion (P : Placement) (s : System) : Prop where
  locked_iff : ∀ l, (s.db l).tid.locked = true ↔ ∃ t, Holds P s t l
  unique : ∀ l t u, Holds P s t l → Holds P s u l → t = u
  changedByHolder : ∀ t s' l, Step P s t s' → (s.db l).tid.locked = true → s'.db l ≠ s.db l →
    s.owner l = some t ∧ Holds P s t l

end Coco.Scar
