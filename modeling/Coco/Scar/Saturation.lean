import Coco.Scar.Runs

/-!
The saturating rts delta of the TID word. `validate_read_key` extends the rts of a
record it validates up to `commit_ts`, but the 27-bit delta field clamps the
extension at `wts + 2^27 - 1`, and the validation succeeds all the same. A
transaction whose `commit_wts` is `2^27` or more above the wts of a record it read
then commits with that record's rts below its `commit_wts`, and a later writer of
the record can pick the same `commit_wts`.

The run below has `2^27` read-modify-writes of record 1 (wts `2^27`), then a
transaction `R` that reads records 0 and 1 and commits with `commit_wts = 2^27`,
leaving record 0 at rts `2^27 - 1`, then a transaction `W` that writes record 0
and commits with `commit_wts = 2^27` too.
-/

namespace Coco.Scar

open ScarHelper

/-- A transaction of coordinator 0 that reads records 0 and 1 and writes nothing. -/
def readBoth : ScarTransaction := ⟨0, [rwKey 0 0, rwKey 1 0], [], 0, false, false, 0, 0⟩

/-- The word validation leaves on record 0: wts 0 and the delta saturated. -/
theorem extendRts_zero_saturates :
    validateReadKey Tid.zero Tid.zero (2 ^ 27) = some (extendRts Tid.zero (2 ^ 27)) ∧
      (extendRts Tid.zero (2 ^ 27)).rts = 2 ^ 27 - 1 := ⟨rfl, rfl⟩

/-- `R` runs alone from its first read to `return true`, on a table where record 0
holds the zero word and record 1 the word `unlock(tid, 2^27)`. -/
theorem Reachable.readBoth_commit {s : System} (hs : Reachable Placement.solo s) {t : Nat}
    (htx : s.txns t = ⟨.execute 0, readBoth⟩) (hx : (s.db ⟨0, 0, 0⟩).tid = Tid.zero)
    (hy : (s.db ⟨0, 0, 1⟩).tid = unlockWithCommit (2 ^ 27)) :
    ∃ s', Reachable Placement.solo s' ∧ (s'.txns t).pc = .returned true ∧
      (s'.txns t).txn.commitWts = 2 ^ 27 ∧
      (s'.txns t).txn.readSet[0]? = some { rwKey 0 0 with
        value := (s.db ⟨0, 0, 0⟩).value, readValidationSuccessBit := true } ∧
      (s'.txns t).txn.writeSet = [] ∧
      s'.db = Function.update s.db ⟨0, 0, 0⟩ ⟨(s.db ⟨0, 0, 0⟩).value, extendRts Tid.zero (2 ^ 27)⟩ ∧
      (∀ u, u ≠ t → s'.txns u = s.txns u) ∧ s'.network = s.network := by
  set rx : ScarRWKey := { rwKey 0 0 with value := (s.db ⟨0, 0, 0⟩).value, tid := (s.db ⟨0, 0, 0⟩).tid }
  set ry : ScarRWKey := { rwKey 1 0 with value := (s.db ⟨0, 0, 1⟩).value, tid := (s.db ⟨0, 0, 1⟩).tid }
  set txn₁ := readBoth.readFilled 0 (rwKey 0 0) (s.db ⟨0, 0, 0⟩)
  set txn₂ := txn₁.readFilled 1 (rwKey 1 0) (s.db ⟨0, 0, 1⟩)
  set txn₅ := txn₂.computeCommitTs
  set w := extendRts Tid.zero (2 ^ 27)
  set txn₆ := txn₅.validationPassed 0 rx w
  set txn₇ := txn₆.validationPassed 1 ry (s.db ⟨0, 0, 1⟩).tid
  have hrs : txn₂.readSet = [rx, ry] := by
    simp [txn₂, txn₁, rx, ry, readBoth, ScarTransaction.readFilled]
  have hws : txn₂.writeSet = [] := rfl
  have hcw : txn₅.commitWts = 2 ^ 27 := by
    have hy' : (s.db ⟨0, 0, 1⟩).tid.wts = 2 ^ 27 := by rw [hy]; rfl
    simp [txn₅, ScarTransaction.computeCommitTs, hrs, hws, rx, ry, hx, hy', Tid.zero]
  have h₁ := hs.step (Step.read (x := ⟨.execute 0, readBoth⟩) (i := 0) (e := rwKey 0 0) htx rfl rfl
    (by simp [readBoth, hx, Tid.zero]))
  have h₂ := h₁.step (Step.read (t := t) (x := ⟨.execute 1, txn₁⟩) (i := 1) (e := rwKey 1 0)
    (by simp [txn₁, readBoth]) rfl (by simp [txn₁, readBoth, ScarTransaction.readFilled])
    (by simp [txn₁, readBoth, ScarTransaction.readFilled, hy]))
  have h₃ := h₂.step (Step.executeDone (t := t) (x := ⟨.execute 2, txn₂⟩) (i := 2)
    (by simp [txn₂, txn₁, readBoth, ScarTransaction.readFilled]) rfl (by simp [hrs]))
  have h₄ := h₃.step (Step.lockDone (t := t) (x := ⟨.lockWriteSet 0, txn₂⟩) (i := 0) (by simp) rfl
    (by simp [hws]))
  have h₅ := h₄.step (Step.syncLockCommit (t := t) (x := ⟨.syncLock, txn₂⟩) (by simp) rfl rfl rfl)
  have h₆ := h₅.step (Step.validateLocal (t := t) (x := ⟨.validateReadSet 0, txn₅⟩) (i := 0) (e := rx)
    (w := w) (by simp [txn₅]) rfl (by simp [txn₅, hrs]) rfl
    (by simp [txn₅, hws, ScarTransaction.isKeyInWriteSet]) rfl (by simp [hcw, rx, hx, w]; rfl))
  have hrs₆ : txn₆.readSet = [{ rx with readValidationSuccessBit := true }, ry] := by
    simp [txn₆, txn₅, hrs, ScarTransaction.validationPassed, w, rx, hx, Tid.zero]
  have h₇ := h₆.step (Step.validateLocal (t := t) (x := ⟨.validateReadSet 1, txn₆⟩) (i := 1) (e := ry)
    (w := (s.db ⟨0, 0, 1⟩).tid) (by simp) rfl (by simp [hrs₆]) rfl
    (by simp [txn₆, txn₅, hws, ScarTransaction.isKeyInWriteSet]) rfl
    (by simp [txn₆, hcw, ry, hy]; rfl))
  have hrs₇ : txn₇.readSet.length = 2 := by simp [txn₇, ScarTransaction.validationPassed, hrs₆]
  have h₈ := h₇.step (Step.validateDone (t := t) (x := ⟨.validateReadSet 2, txn₇⟩) (i := 2) (by simp)
    rfl hrs₇.le)
  have h₉ := h₈.step (Step.syncValidationCommit (t := t) (x := ⟨.syncValidation, txn₇⟩) (by simp) rfl
    rfl rfl)
  have h₁₀ := h₉.step (Step.writeDone (t := t) (x := ⟨.writeAndReplicate 0, txn₇⟩) (i := 0) (by simp)
    rfl (by simp [txn₇, txn₆, txn₅, hws]))
  have h₁₁ := h₁₀.step (Step.syncWriteDone (t := t) (x := ⟨.syncWrite, txn₇⟩) (by simp) rfl rfl)
  have h₁₂ := h₁₁.step (Step.releaseDone (t := t) (x := ⟨.releaseLock 0, txn₇⟩) (i := 0) (by simp)
    rfl (by simp [txn₇, txn₆, txn₅, hws]))
  refine ⟨_, h₁₂, by simp, by simpa [txn₇, txn₆] using hcw, ?_, by simp [txn₇, txn₆, txn₅, hws], ?_,
    fun u hu => by simp [hu], by simp⟩
  · simp [txn₇, ScarTransaction.validationPassed, hrs₆, rx, hx]
  · funext m
    by_cases hm : m = ⟨0, 0, 0⟩
    · subst hm; simp [w]
    · by_cases hm' : m = ⟨0, 0, 1⟩
      · subst hm'; simp
      · simp [hm, hm']

/-- The start of the run: transaction `t < 2^27` writes `t` to record 1,
transaction `2^27 + 1` is `W`, writing 1 to record 0, and every other
transaction is a copy of `R`. Every row holds 0 with the zero word. -/
def saturationStart : System := System.init (fun _ => ⟨0, Tid.zero⟩) fun t =>
  if t < 2 ^ 27 then readModifyWrite 1 t else if t = 2 ^ 27 + 1 then readModifyWrite 0 1 else readBoth

theorem saturationStart_reachable : Reachable Placement.solo saturationStart := by
  refine .init ⟨fun _ => rfl, fun t => ?_, fun t => ?_, fun t => ?_, fun t e he => ?_⟩ <;>
    split_ifs at * <;> simp_all [readModifyWrite, readBoth]

/-- The run up to `R`'s return: the writers of record 1 commit one after another,
taking its wts to `2^27`, then `R` validates record 0 with the delta saturated
and commits with `commit_wts = 2^27`. -/
theorem saturationStart_reader_commits :
    ∃ s, Reachable Placement.solo s ∧ (s.txns (2 ^ 27)).pc = .returned true ∧
      (s.txns (2 ^ 27)).txn.commitWts = 2 ^ 27 ∧
      (s.txns (2 ^ 27)).txn.readSet[0]? = some { rwKey 0 0 with readValidationSuccessBit := true } ∧
      (s.txns (2 ^ 27)).txn.writeSet = [] ∧
      s.db ⟨0, 0, 0⟩ = ⟨0, extendRts Tid.zero (2 ^ 27)⟩ ∧
      (∀ j < 2 ^ 27, (s.txns j).pc = .returned true ∧ ∀ e ∈ (s.txns j).txn.writeSet, e.key = 1) ∧
      ∀ u, 2 ^ 27 < u → s.txns u = saturationStart.txns u := by
  have hrow : (saturationStart.db ⟨0, 0, 1⟩).tid = unlockWithCommit 0 := rfl
  obtain ⟨s₁, h₁, hrow₁, hdb₁, hdone₁, hother₁, -⟩ :=
    saturationStart_reachable.readModifyWrite_run hrow 0 id (2 ^ 27)
      fun j hj => by simp only [saturationStart, System.init, zero_add, id_eq, if_pos hj]
  have hx : s₁.db ⟨0, 0, 0⟩ = ⟨0, Tid.zero⟩ := hdb₁ _ (by decide)
  have htx : s₁.txns (2 ^ 27) = ⟨.execute 0, readBoth⟩ :=
    (hother₁ _ (.inr (by omega))).trans (by simp [saturationStart, System.init])
  obtain ⟨s₂, h₂, hpc, hcw, hrs, hws, hdb₂, hother₂, -⟩ :=
    h₁.readBoth_commit htx (by rw [hx]) (by rw [hrow₁, zero_add])
  refine ⟨s₂, h₂, hpc, hcw, by rw [hrs, hx]; rfl, hws, by simp [hdb₂, hx],
    fun j hj => ?_, fun u hu => ?_⟩
  · rw [hother₂ j (by omega)]; simpa using hdone₁ j hj
  · rw [hother₂ u (by omega), hother₁ u (.inr (by omega))]

end Coco.Scar
