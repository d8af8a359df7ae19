import Coco.Scar.Checks
import Coco.Scar.Timestamps

/-!
Validated reads stay valid. `compute_commit_ts` puts `commit_wts` at or above
the wts of every read, `validate_read_set` extends the rts of every record it
validates to `commit_wts`, and `release_lock` stores a new version only above the
rts of the word its `lock` returned. So once a transaction is past
`validate_read_set` on the commit path, every read it validated is valid at its
`commit_wts` in every later state: the master copy still holds the version read,
with rts at or above `commit_wts`, or a later version whose wts is above
`commit_wts` (`validated_reads_stay_valid`). This is the timestamp order in which
the commit protocol serializes transactions.

It holds along every run whose commit timestamps stay below `2^27`, the range of
the rts delta (`NextInRange`). From `2^27` on, a validation can saturate the delta
short of `commit_wts` (`Saturation`), and from `2^31` on a release wraps the wts.
-/

namespace Coco.Scar

variable {P : Placement}

open ScarHelper

/-- A read of the version with wts `v` is valid at timestamp `c` on a record
whose word is `w`: the record still holds that version, with rts at or above `c`,
or it holds a later version, installed above `c`. -/
def ValidAt (w : Tid) (v c : Nat) : Prop :=
  (w.wts = v ∧ c ≤ w.rts) ∨ c < w.wts

theorem ValidAt.le_rts {w : Tid} {v c : Nat} (h : ValidAt w v c) : c ≤ w.rts := by
  have := w.wts_le_rts
  rcases h with ⟨-, h⟩ | h <;> omega

/-- A word moves by keeping its version without lowering its rts, or by a release
storing `unlock(tid, c)` above its rts, with `c` in the range of the wts field.
Either move keeps a valid read valid. -/
theorem ValidAt.move {w w' : Tid} {v c c' : Nat} (h : ValidAt w v c)
    (hw : (w'.wts = w.wts ∧ w.rts ≤ w'.rts) ∨ (w.rts < c' ∧ c' < 2 ^ 31 ∧ w' = unlockWithCommit c')) :
    ValidAt w' v c := by
  have hle := h.le_rts
  rcases hw with ⟨hwts, hrts⟩ | ⟨hlt, hc', rfl⟩
  · rcases h with ⟨hv, -⟩ | h
    · exact .inl ⟨hwts.trans hv, hle.trans hrts⟩
    · exact .inr (hwts ▸ h)
  · right
    rw [unlockWithCommit_wts, Nat.mod_eq_of_lt hc']
    omega

/-- Below the delta range, a successful `validate_read_key` leaves the read valid
at `commit_ts`. -/
theorem validAt_of_validateReadKey {latest tid w : Tid} {c : Nat}
    (hv : validateReadKey latest tid c = some w) (hc : c < 2 ^ 27) : ValidAt w tid.wts c := by
  obtain ⟨hwts, hw, -⟩ := validateReadKey_eq_some hv
  refine .inl ⟨hw.trans hwts, ?_⟩
  rw [validateReadKey_rts hv, maxDelta]
  omega

/-- How one step moves the word of a master record: it keeps the version without
lowering the rts, or it is the release of a write key of the stepping transaction
on the commit path, storing `unlock(tid, commit_wts)` above the rts the record
held. -/
theorem master_word_step {s s' : System} {t : Nat} (hinv : LockInv P s) (h : Step P s t s')
    {l : Loc} (hl : P.IsMaster l) :
    ((s'.db l).tid.wts = (s.db l).tid.wts ∧ (s.db l).tid.rts ≤ (s'.db l).tid.rts) ∨
      ((s.txns t).pc.Committing ∧ (s.db l).tid.rts < (s.txns t).txn.commitWts ∧
        (s'.db l).tid = unlockWithCommit (s.txns t).txn.commitWts) := by
  have ht := hinv.txn t
  cases h with
  | @releaseLocal _ _ i e hx hpc he _ =>
    subst hx
    have hcom : (s.txns t).pc.Committing := hpc ▸ trivial
    have hbit := ((ht.committing hcom).2 e (List.getElem?_mem he)).1
    obtain ⟨hw, -, hlt⟩ := hinv.release_word he ⟨e, he, hbit, .inl (hpc ▸ Nat.le_refl i)⟩ hcom
    by_cases hm : l = P.masterLoc e
    · subst hm; exact .inr ⟨hcom, by rwa [hw, Tid.setLocked_rts], by simp⟩
    · exact .inl (by simp [hm])
  | @serveRelease _ _ _ i hr =>
    obtain ⟨hpos, e, he, rfl, hbit, rfl⟩ := ht.requests _ hr rfl
    have hcom : (s.txns t).pc.Committing := by
      rcases hpos with hp | ⟨j, hp, -⟩ <;> rw [hp] <;> trivial
    obtain ⟨hw, -, hlt⟩ := hinv.release_word he ⟨e, he, hbit, .inr ⟨_, hr, rfl, rfl⟩⟩ hcom
    by_cases hm : l = P.masterLoc e
    · subst hm; exact .inr ⟨hcom, by rwa [hw, Tid.setLocked_rts], by simp⟩
    · exact .inl (by simp [hm])
  | @replicaUnlock _ _ i k e hx hpc he =>
    subst hx
    obtain ⟨e', he', hne⟩ := ht.replica i k hpc
    rw [he] at he'; cases he'
    have hm : l ≠ replicaLoc e k := fun h => replicaLoc_not_master hne (h ▸ hl)
    exact .inl (by simp [hm])
  | @serveReplication l' _ _ _ _ _ hr _ _ =>
    obtain ⟨-, e, -, hl', -, -, hne⟩ := ht.requests _ hr rfl
    have hm : l ≠ l' := fun h => replicaLoc_not_master hne (hl' ▸ h ▸ hl)
    exact .inl (by simp [hm])
  | @abortLocal _ _ i e _ _ _ _ _ | @serveAbort _ _ _ _ | @lockLocal _ _ i e _ _ _ _ _ _ _ |
    @replicateLock _ _ _ _ _ _ _ _ _ _ _ _ _ | @serveLock _ _ _ _ _ _ _ _ _ _ _ |
    @writeLocal _ _ _ _ _ _ _ _ | @serveWrite _ _ _ _ _ _ _ =>
    left
    simp only [System.setTxn_db, System.unlockRow_db, System.lockRow_db, System.writeRow_db,
      System.receive_db]
    split <;> simp_all
  | @validateLocal _ _ _ _ _ _ _ _ _ _ _ hvalid | @serveValidation _ _ _ _ _ _ _ _ _ _ _ hvalid =>
    left
    simp only [System.setTxn_db, System.setTid_db, System.receive_db]
    split
    · subst_vars
      rw [validateReadKey_rts hvalid]
      exact ⟨(validateReadKey_eq_some hvalid).2.1, le_max_left _ _⟩
    · exact ⟨rfl, le_rfl⟩
  | _ => exact .inl ⟨rfl, le_rfl⟩

/-- A step whose transaction's `commit_wts`, once computed, is below `2^27` keeps
every read valid on a master record valid. -/
theorem validAt_step {s s' : System} {t : Nat} (hinv : LockInv P s) (h : Step P s t s')
    (hb : (s.txns t).pc.Committing → (s.txns t).txn.commitWts < 2 ^ 27) {l : Loc}
    (hl : P.IsMaster l) {v c : Nat} (hv : ValidAt (s.db l).tid v c) : ValidAt (s'.db l).tid v c :=
  hv.move <| (master_word_step hinv h hl).imp_right fun ⟨hcom, hlt, hw⟩ =>
    ⟨hlt, (hb hcom).trans (by norm_num), hw⟩

/-! ### The invariant -/

/-- `validate_read_set` is past read key `i`, on the way to `return true`. -/
def Pc.ValidatedPast (i : Nat) : Pc → Prop
  | .validateReadSet j => i < j
  | .syncValidation | .writeAndReplicate _ | .replicate .. | .replicaLocked .. | .syncWrite
  | .releaseLock _ | .returned true => True
  | _ => False

theorem Pc.Writing.validatedPast {pc : Pc} (h : pc.Writing) (i : Nat) : pc.ValidatedPast i := by
  cases pc with
  | returned b => cases b; exacts [h.elim, trivial]
  | _ => trivial

/-- A key the validation loop is past after its iteration at `j` is a key it was
past before, or key `j`. -/
theorem Pc.validatedPast_of_next {pc : Pc} {i j : Nat} (hpc : pc = .validateReadSet j) (hij : i ≠ j)
    (h : Pc.ValidatedPast i (.validateReadSet (j + 1))) : pc.ValidatedPast i := by
  have : i < j + 1 := h
  rw [hpc]; show i < j; omega

/-- Read key `i` of transaction `t` in state `x` has passed validation: the loop of
`validate_read_set` is past it, `abort_read_validation` is clear, and no
`READ_VALIDATION` piece of it is in flight. -/
structure Validated (x : TxnState) (N : List Request) (t i : Nat) : Prop where
  past : x.pc.ValidatedPast i
  flag : x.txn.abortReadValidation = false
  answered : ∀ l tid c, Request.readValidation l t i tid c ∉ N

theorem Validated.of_move {x x' : TxnState} {N N' : List Request} {t i : Nat}
    (h : Validated x' N' t i) (hpast : x'.pc.ValidatedPast i → x.pc.ValidatedPast i)
    (hflag : x'.txn.abortReadValidation = x.txn.abortReadValidation)
    (hnet : ∀ l tid c, Request.readValidation l t i tid c ∈ N → Request.readValidation l t i tid c ∈ N') :
    Validated x N t i :=
  ⟨hpast h.past, hflag.symm.trans h.flag, fun l tid c hr => h.answered l tid c (hnet l tid c hr)⟩

/-- What `validate_read_set` leaves of read key `i` of `x`, unless execution read
it from the local index or `x` writes its key: the word of the record's master
copy keeps the read valid at `commit_wts`. -/
def ReadValid (P : Placement) (db : Loc → Row) (x : TxnState) (i : Nat) : Prop :=
  ∀ e, x.txn.readSet[i]? = some e → e.localIndexReadBit = false →
    ScarTransaction.isKeyInWriteSet x.txn.writeSet e.key = false →
    ValidAt (db (P.masterLoc e)).tid e.tid.wts x.txn.commitWts

/-- Every validated read of every transaction is valid. -/
def ReadsValid (P : Placement) (s : System) : Prop :=
  ∀ t i, Validated (s.txns t) s.network t i → ReadValid P s.db (s.txns t) i

theorem readsValid_init (db : Loc → Row) (txns : Nat → ScarTransaction) :
    ReadsValid P (System.init db txns) := fun _ _ hv => absurd hv.past id

/-- A successful validation keeps the read key but for its success bit. -/
theorem validationPassed_readSet_self (txn : ScarTransaction) {i : Nat} {e : ScarRWKey} {w : Tid}
    (he : txn.readSet[i]? = some e) (hw : w.wts = e.tid.wts) :
    (txn.validationPassed i e w).readSet[i]? = some { e with readValidationSuccessBit := true } := by
  have hi : i < txn.readSet.length := (List.getElem?_eq_some_iff.mp he).1
  simp [ScarTransaction.validationPassed, List.getElem?_set, hi, hw]

section Steps

variable {s s' : System} {t : Nat}

/-- A step that keeps `t`'s read key `i`, write set and `commit_wts`, and after
which the key is validated only if it was before, keeps the read valid. -/
theorem ReadsValid.keep (hinv : ReadsValid P s)
    (hdb : ∀ l, P.IsMaster l → ∀ v c, ValidAt (s.db l).tid v c → ValidAt (s'.db l).tid v c)
    {x' : TxnState} {i : Nat} (hrs : x'.txn.readSet[i]? = (s.txns t).txn.readSet[i]?)
    (hws : x'.txn.writeSet = (s.txns t).txn.writeSet)
    (hcw : x'.txn.commitWts = (s.txns t).txn.commitWts)
    (hold : (s.txns t).txn.readSet[i]? ≠ none → Validated (s.txns t) s.network t i) :
    ReadValid P s'.db x' i := fun e he hidx hw => by
  rw [hrs] at he; rw [hws] at hw; rw [hcw]
  exact hdb _ (P.masterLoc_isMaster e) _ _ (hinv t i (hold (by simp [he])) e he hidx hw)

/-- A read key that `validate_read_key` has just validated below the delta range. -/
theorem ReadValid.of_validate {db : Loc → Row} {x' : TxnState} {i : Nat} {e : ScarRWKey}
    {latest w : Tid} (he : x'.txn.readSet[i]? = some { e with readValidationSuccessBit := true })
    (hvalid : validateReadKey latest e.tid x'.txn.commitWts = some w)
    (hdb : (db (P.masterLoc e)).tid = w) (hc : x'.txn.commitWts < 2 ^ 27) : ReadValid P db x' i := by
  intro e' he' _ _
  rw [he] at he'; cases he'
  show ValidAt (db (P.masterLoc e)).tid e.tid.wts _
  rw [hdb]
  exact validAt_of_validateReadKey hvalid hc

open ScarTransaction in
/-- Every step whose transaction's `commit_wts` is in range keeps every validated
read valid: `validate_read_set` and the `READ_VALIDATION` handler make a read valid
as they validate it, the other steps of the transaction leave its validated keys
alone, and no step moves a master word off a valid read. -/
theorem readsValid_step (hinv : ReadsValid P s) (hl : LockInv P s) (h : Step P s t s')
    (hb : (s.txns t).pc.Committing → (s.txns t).txn.commitWts < 2 ^ 27) : ReadsValid P s' := by
  have hdb : ∀ l, P.IsMaster l → ∀ v c, ValidAt (s.db l).tid v c → ValidAt (s'.db l).tid v c :=
    fun l hm _ _ => validAt_step hl h hb hm
  intro u i hv
  by_cases hu : u = t
  swap
  · obtain ⟨htx, -, hnet⟩ := h.frame hu
    rw [htx] at hv ⊢
    exact hinv.keep (t := u) hdb rfl rfl rfl fun _ => hv.of_move id rfl
      fun l tid c hr => (hnet (.readValidation l u i tid c) rfl).mpr hr
  subst u
  have ht := hl.txn t
  cases h with
  -- the steps after which no read key of `t` is validated
  | read hx | executeDone hx | lockLocalFail hx | lockRemote hx | lockDone hx | syncLockAbort hx
  | syncValidationAbort hx | abortSkip hx | abortLocal hx | abortRemote hx | abortDone hx =>
    subst hx; rw [System.setTxn_txns, if_pos rfl] at hv
    exact absurd hv.past id
  | lockLocal hx =>
    subst hx; rw [System.setTxn_txns, if_pos rfl] at hv
    exact absurd hv.past (by dsimp only; split <;> exact id)
  | syncLockCommit hx =>
    subst hx; rw [System.setTxn_txns, if_pos rfl] at hv
    exact absurd hv.past (Nat.not_lt_zero i)
  | validateLocalFail hx | serveValidationFail _ hx =>
    subst hx; rw [System.setTxn_txns, if_pos rfl] at hv
    exact absurd hv.flag (by simp)
  | serveLock hr hx | serveLockFail hr hx =>
    subst hx; rw [System.setTxn_txns, if_pos rfl] at hv
    obtain ⟨hpos, -⟩ := ht.requests _ hr rfl
    have hp := hv.past
    rcases hpos with hpc | ⟨j, hpc, -⟩ <;> rw [hpc] at hp <;> exact absurd hp id
  -- the validation of read key `j`
  | @validateSkip _ _ j e hx hpc he hskip =>
    subst hx; rw [System.setTxn_txns, if_pos rfl] at hv ⊢
    by_cases hij : i = j
    · subst hij
      intro e' he' hidx hw
      rw [he] at he'; cases he'
      rcases hskip with h | h
      · exact absurd (h.symm.trans hidx) nofun
      · exact absurd (h.symm.trans hw) nofun
    · exact hinv.keep hdb rfl rfl rfl fun _ =>
        hv.of_move (Pc.validatedPast_of_next hpc hij) rfl fun _ _ _ => id
  | @validateLocal _ _ j e w hx hpc he _ _ _ hvalid =>
    subst hx; rw [System.setTxn_txns, if_pos rfl] at hv ⊢
    have hw := validateReadKey_eq_some hvalid
    by_cases hij : i = j
    · subst hij
      exact ReadValid.of_validate (validationPassed_readSet_self _ he (hw.2.1.trans hw.1)) hvalid
        (by simp) (hb (hpc ▸ trivial))
    · exact hinv.keep hdb (validationPassed_readSet_ne _ _ hij _) rfl rfl fun _ =>
        hv.of_move (Pc.validatedPast_of_next hpc hij) rfl fun _ _ _ => id
  | @validateRemote _ _ j e hx hpc he =>
    subst hx; rw [System.setTxn_txns, if_pos rfl] at hv ⊢
    by_cases hij : i = j
    · subst hij; exact absurd (List.mem_cons_self _ _) (hv.answered _ _ _)
    · exact hinv.keep hdb rfl rfl rfl fun _ =>
        hv.of_move (Pc.validatedPast_of_next hpc hij) rfl fun _ _ _ => List.mem_cons_of_mem _
  | @validateDone _ _ j hx hpc hj =>
    subst hx; rw [System.setTxn_txns, if_pos rfl] at hv ⊢
    refine hinv.keep hdb rfl rfl rfl fun hi => hv.of_move (fun _ => ?_) rfl fun _ _ _ => id
    rw [hpc]; show i < j
    exact (Nat.lt_of_not_le fun h => hi (List.getElem?_eq_none_iff.mpr h)).trans_le hj
  | @serveValidation l _ j tid c _ e w hr hx he hvalid =>
    subst hx; rw [System.setTxn_txns, if_pos rfl] at hv ⊢
    obtain ⟨hpos, e', he', rfl, rfl, rfl⟩ := ht.requests _ hr rfl
    rw [he'] at he; cases he
    have hw := validateReadKey_eq_some hvalid
    by_cases hij : i = j
    · subst hij
      have hcom : (s.txns t).pc.Committing := by
        rcases hpos with hp | ⟨_, hp, -⟩ <;> rw [hp] <;> trivial
      exact ReadValid.of_validate (validationPassed_readSet_self _ he' (hw.2.1.trans hw.1)) hvalid
        (by simp) (hb hcom)
    · exact hinv.keep hdb (validationPassed_readSet_ne _ _ hij _) rfl rfl
        fun _ => hv.of_move id rfl fun _ _ _ hr' => by simp [hr', hij]
  -- the steps past validation
  | syncValidationCommit hx hpc | writeLocal hx hpc | writeRemote hx hpc | writeDone hx hpc
  | replicateSkip hx hpc | replicateLock hx hpc | replicaUnlock hx hpc | replicateRemote hx hpc
  | replicateDone hx hpc | syncWriteDone hx hpc | releaseLocal hx hpc | releaseRemote hx hpc
  | releaseDone hx hpc =>
    subst hx; rw [System.setTxn_txns, if_pos rfl] at hv ⊢
    exact hinv.keep hdb rfl rfl rfl fun _ => hv.of_move (fun _ => hpc ▸ trivial) rfl
      fun _ _ _ hr => by simp [hr]
  | serveWrite hr hx | serveReplication hr hx =>
    subst hx; rw [System.setTxn_txns, if_pos rfl] at hv ⊢
    exact hinv.keep hdb rfl rfl rfl fun _ => hv.of_move id rfl fun _ _ _ hr' => by simp [hr']
  | serveRelease hr | serveAbort hr =>
    exact hinv.keep hdb rfl rfl rfl fun _ => hv.of_move id rfl fun _ _ _ hr' => by simp [hr']

end Steps

/-! ### Runs -/

/-- A step of a run whose commit timestamps stay in the range of the rts delta:
once the stepping transaction has computed `commit_wts`, it is below `2^27`. -/
def NextInRange (P : Placement) (s s' : System) : Prop :=
  ∃ t, Step P s t s' ∧ ((s.txns t).pc.Committing → (s.txns t).txn.commitWts < 2 ^ 27)

theorem readsValid_run {db : Loc → Row} {txns : Nat → ScarTransaction} {s : System}
    (hc : Clean db txns) (hrun : Relation.ReflTransGen (NextInRange P) (System.init db txns) s) :
    Reachable P s ∧ ReadsValid P s := by
  induction hrun with
  | refl => exact ⟨.init hc, readsValid_init db txns⟩
  | tail _ hst ih =>
    obtain ⟨t, h, hb⟩ := hst
    exact ⟨ih.1.step h, readsValid_step ih.2 (reachable_lockInv ih.1) h hb⟩

/-- Past validation on the commit path, every read key the transaction validated
is valid at its `commit_wts`. -/
theorem ReadsValid.of_writing {s : System} (hinv : ReadsValid P s) (hs : Reachable P s) {t i : Nat}
    {e : ScarRWKey} (hpc : (s.txns t).pc.Writing) (he : (s.txns t).txn.readSet[i]? = some e)
    (hidx : e.localIndexReadBit = false)
    (hws : ScarTransaction.isKeyInWriteSet (s.txns t).txn.writeSet e.key = false) :
    ValidAt (s.db (P.masterLoc e)).tid e.tid.wts (s.txns t).txn.commitWts := by
  have hans : ∀ l tid c, Request.readValidation l t i tid c ∉ s.network := fun l tid c hr => by
    obtain ⟨hp, -⟩ := ((reachable_lockInv hs).txn t).requests _ hr rfl
    rcases hp with hp | ⟨j, hp, -⟩ <;> rw [hp] at hpc <;> exact hpc
  exact hinv t i ⟨hpc.validatedPast i, (reachable_checksOk hs t).validated hpc, hans⟩ e he hidx hws

/-- Once a transaction is past `validate_read_set` on the commit path, every read
it validated is valid at its `commit_wts`, in every later state of a run whose
commit timestamps stay below `2^27`: the master copy of the record still holds
the version read, with rts at or above `commit_wts`, or a later version whose wts
is above `commit_wts`. -/
theorem validated_reads_stay_valid {db : Loc → Row} {txns : Nat → ScarTransaction} {s : System}
    (hc : Clean db txns) (hrun : Relation.ReflTransGen (NextInRange P) (System.init db txns) s)
    {t i : Nat} {e : ScarRWKey} (hpc : (s.txns t).pc.Writing)
    (he : (s.txns t).txn.readSet[i]? = some e) (hidx : e.localIndexReadBit = false)
    (hws : ScarTransaction.isKeyInWriteSet (s.txns t).txn.writeSet e.key = false) :
    ((s.db (P.masterLoc e)).tid.wts = e.tid.wts ∧
        (s.txns t).txn.commitWts ≤ (s.db (P.masterLoc e)).tid.rts) ∨
      (s.txns t).txn.commitWts < (s.db (P.masterLoc e)).tid.wts :=
  have hrs := readsValid_run hc hrun
  hrs.2.of_writing hrs.1 hpc he hidx hws

/-- A step that stores a new version on a record that a transaction past
validation has validated a read of is a release by a writer whose `commit_wts` is
above the reader's, and the new wts is the writer's `commit_wts`: in the order of
commit timestamps, a transaction that overwrites a record comes after every
transaction that validated a read of the version it overwrites. -/
theorem overwrite_follows_validated_read {db : Loc → Row} {txns : Nat → ScarTransaction}
    {s s' : System} (hc : Clean db txns)
    (hrun : Relation.ReflTransGen (NextInRange P) (System.init db txns) s) {w : Nat}
    (h : Step P s w s') (hb : (s.txns w).pc.Committing → (s.txns w).txn.commitWts < 2 ^ 27)
    {r i : Nat} {e : ScarRWKey} (hpc : (s.txns r).pc.Writing)
    (he : (s.txns r).txn.readSet[i]? = some e) (hidx : e.localIndexReadBit = false)
    (hws : ScarTransaction.isKeyInWriteSet (s.txns r).txn.writeSet e.key = false)
    (hnew : (s'.db (P.masterLoc e)).tid.wts ≠ (s.db (P.masterLoc e)).tid.wts) :
    (s.txns r).txn.commitWts < (s.txns w).txn.commitWts ∧
      (s'.db (P.masterLoc e)).tid.wts = (s.txns w).txn.commitWts := by
  obtain ⟨hs, hinv⟩ := readsValid_run hc hrun
  have hv := hinv.of_writing hs hpc he hidx hws
  rcases master_word_step (reachable_lockInv hs) h (P.masterLoc_isMaster e) with
    ⟨hsame, -⟩ | ⟨hcom, hlt, hword⟩
  · exact absurd hsame hnew
  · have hcw := hb hcom
    refine ⟨hv.le_rts.trans_lt hlt, ?_⟩
    rw [hword, unlockWithCommit_wts, Nat.mod_eq_of_lt (by omega)]

/-- A transaction of coordinator 0 that reads record 0 and writes nothing. -/
def readZero : ScarTransaction := ⟨0, [rwKey 0 0], [], 0, false, false, 0, 0⟩

/-- Transaction 0 reads record 0, every other transaction writes 1 to it, on a
table of zero rows. -/
def readerWriterStart : System := System.init (fun _ => ⟨0, Tid.zero⟩) fun t =>
  if t = 0 then readZero else readModifyWrite 0 1

theorem readerWriterStart_clean :
    Clean (fun _ => (⟨0, Tid.zero⟩ : Row)) fun t => if t = 0 then readZero else readModifyWrite 0 1 :=
  ⟨fun _ => rfl, fun t => by split <;> rfl, fun t => by split <;> rfl, fun t => by split <;> rfl,
    fun t e he => by split at he <;> simp_all [readZero, readModifyWrite]⟩

/-- Transaction 0 validates its read of record 0 at `commit_wts = 0` and enters
the write loop; then transaction 1 reads record 0, locks it, computes
`commit_wts = 1`, writes it, and releases it with wts 1. -/
theorem readerWriterStart_run :
    ∃ s s', Relation.ReflTransGen (NextInRange Placement.solo) readerWriterStart s ∧
      (s.txns 0).pc = .writeAndReplicate 0 ∧
      (s.txns 0).txn.readSet[0]? = some { rwKey 0 0 with readValidationSuccessBit := true } ∧
      (s.txns 0).txn.writeSet = [] ∧ Step Placement.solo s 1 s' ∧
      ((s.txns 1).pc.Committing → (s.txns 1).txn.commitWts < 2 ^ 27) ∧
      (s'.db ⟨0, 0, 0⟩).tid.wts ≠ (s.db ⟨0, 0, 0⟩).tid.wts := by
  have r₁ := Relation.ReflTransGen.single (r := NextInRange Placement.solo) (a := readerWriterStart)
    ⟨0, Step.read (t := 0) (i := 0) rfl rfl rfl rfl, fun h => absurd h id⟩
  have r₂ := r₁.tail ⟨0, Step.executeDone (t := 0) (i := 1) rfl rfl le_rfl, fun h => absurd h id⟩
  have r₃ := r₂.tail ⟨0, Step.lockDone (t := 0) (i := 0) rfl rfl le_rfl, fun h => absurd h id⟩
  have r₄ := r₃.tail ⟨0, Step.syncLockCommit (t := 0) rfl rfl rfl rfl, fun h => absurd h id⟩
  have r₅ := r₄.tail ⟨0, Step.validateLocal (t := 0) (i := 0) rfl rfl rfl rfl rfl rfl rfl,
    fun _ => by decide⟩
  have r₆ := r₅.tail ⟨0, Step.validateDone (t := 0) (i := 1) rfl rfl le_rfl, fun _ => by decide⟩
  have r₇ := r₆.tail ⟨0, Step.syncValidationCommit (t := 0) rfl rfl rfl rfl, fun _ => by decide⟩
  have w₁ := r₇.tail ⟨1, Step.read (t := 1) (i := 0) rfl rfl rfl rfl, fun h => absurd h id⟩
  have w₂ := w₁.tail ⟨1, Step.executeDone (t := 1) (i := 1) rfl rfl le_rfl, fun h => absurd h id⟩
  have w₃ := w₂.tail ⟨1, Step.lockLocal (t := 1) (i := 0) rfl rfl rfl rfl rfl rfl, fun h => absurd h id⟩
  have w₄ := w₃.tail ⟨1, Step.lockDone (t := 1) (i := 1) rfl rfl le_rfl, fun h => absurd h id⟩
  have w₅ := w₄.tail ⟨1, Step.syncLockCommit (t := 1) rfl rfl rfl rfl, fun h => absurd h id⟩
  have w₆ := w₅.tail ⟨1, Step.validateSkip (t := 1) (i := 0) rfl rfl rfl (.inr rfl), fun _ => by decide⟩
  have w₇ := w₆.tail ⟨1, Step.validateDone (t := 1) (i := 1) rfl rfl le_rfl, fun _ => by decide⟩
  have w₈ := w₇.tail ⟨1, Step.syncValidationCommit (t := 1) rfl rfl rfl rfl, fun _ => by decide⟩
  have w₉ := w₈.tail ⟨1, Step.writeLocal (t := 1) (i := 0) rfl rfl rfl rfl, fun _ => by decide⟩
  have w₁₀ := w₉.tail ⟨1, Step.replicateSkip (t := 1) (i := 0) (k := 0) rfl rfl rfl Nat.one_pos
    (.inl rfl), fun _ => by decide⟩
  have w₁₁ := w₁₀.tail ⟨1, Step.replicateDone (t := 1) (i := 0) (k := 1) rfl rfl le_rfl,
    fun _ => by decide⟩
  have w₁₂ := w₁₁.tail ⟨1, Step.writeDone (t := 1) (i := 1) rfl rfl le_rfl, fun _ => by decide⟩
  have w₁₃ := w₁₂.tail ⟨1, Step.syncWriteDone (t := 1) rfl rfl rfl, fun _ => by decide⟩
  exact ⟨_, _, w₁₃, rfl, rfl, rfl, Step.releaseLocal (t := 1) (i := 0) rfl rfl rfl rfl,
    fun _ => by decide, by decide⟩

theorem validated_reads_stay_valid_readerWriter :
    ∃ s, Relation.ReflTransGen (NextInRange Placement.solo) readerWriterStart s ∧
      (s.txns 0).pc.Writing ∧
      (s.txns 0).txn.readSet[0]? = some { rwKey 0 0 with readValidationSuccessBit := true } ∧
      (((s.db ⟨0, 0, 0⟩).tid.wts = 0 ∧ (s.txns 0).txn.commitWts ≤ (s.db ⟨0, 0, 0⟩).tid.rts) ∨
        (s.txns 0).txn.commitWts < (s.db ⟨0, 0, 0⟩).tid.wts) := by
  obtain ⟨s, -, hrun, hpc, hrs, hws, -⟩ := readerWriterStart_run
  exact ⟨s, hrun, hpc ▸ trivial, hrs, validated_reads_stay_valid readerWriterStart_clean hrun
    (hpc ▸ trivial) hrs rfl (by rw [hws]; rfl)⟩

theorem overwrite_follows_validated_read_readerWriter :
    ∃ s s', Relation.ReflTransGen (NextInRange Placement.solo) readerWriterStart s ∧
      Step Placement.solo s 1 s' ∧ ((s.txns 1).pc.Committing → (s.txns 1).txn.commitWts < 2 ^ 27) ∧
      (s.txns 0).pc.Writing ∧
      (s.txns 0).txn.readSet[0]? = some { rwKey 0 0 with readValidationSuccessBit := true } ∧
      (s'.db ⟨0, 0, 0⟩).tid.wts ≠ (s.db ⟨0, 0, 0⟩).tid.wts ∧
      (s.txns 0).txn.commitWts < (s.txns 1).txn.commitWts ∧
      (s'.db ⟨0, 0, 0⟩).tid.wts = (s.txns 1).txn.commitWts := by
  obtain ⟨s, s', hrun, hpc, hrs, hws, h, hb, hnew⟩ := readerWriterStart_run
  exact ⟨s, s', hrun, h, hb, hpc ▸ trivial, hrs, hnew, overwrite_follows_validated_read
    readerWriterStart_clean hrun h hb (hpc ▸ trivial) hrs rfl (by rw [hws]; rfl) hnew⟩

end Coco.Scar
