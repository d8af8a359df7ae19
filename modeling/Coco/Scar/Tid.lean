import Mathlib.Tactic

/-!
The record metadata word of Scar and the atomic operations `ScarHelper` performs
on it. `protocol/Scar/ScarHelper.h` is not in the sources, so the word and its
operations follow the spec's description of them: bit 63 is `LOCK`, bits 62..32
hold `wts` (31 bits) and bits 31..5 the saturating delta `rts - wts` (27 bits).
A word is kept as its three fields; `Tid.word` is the `uint64_t` they encode.
-/

namespace Coco.Scar

/-- Modelled from the spec: the TID word of a record (`ScarHelper.h` is missing).
The bounds are the widths of the two timestamp fields. -/
structure Tid where
  locked : Bool
  wts : Nat
  delta : Nat
  wts_lt : wts < 2 ^ 31
  delta_lt : delta < 2 ^ 27
  deriving DecidableEq

namespace Tid

/-- The `uint64_t` value of the word; bits 4..0 stay clear. -/
def word (t : Tid) : Nat :=
  (if t.locked then 2 ^ 63 else 0) + t.wts * 2 ^ 32 + t.delta * 2 ^ 5

theorem word_lt (t : Tid) : t.word < 2 ^ 64 := by
  have := t.wts_lt; have := t.delta_lt
  unfold word; split <;> omega

/-- The fields are read back from the word by the shifts and masks of the layout. -/
theorem word_fields (t : Tid) :
    (t.word / 2 ^ 63 = if t.locked then 1 else 0) ∧ t.word / 2 ^ 32 % 2 ^ 31 = t.wts ∧
      t.word / 2 ^ 5 % 2 ^ 27 = t.delta := by
  have := t.wts_lt; have := t.delta_lt
  unfold word; split <;> omega

theorem word_injective : Function.Injective word := by
  intro a b h
  obtain ⟨h1, h2, h3⟩ := word_fields a
  obtain ⟨h1', h2', h3'⟩ := word_fields b
  rw [h] at h1 h2 h3
  obtain ⟨la, wa, da, _, _⟩ := a
  obtain ⟨lb, wb, db, _, _⟩ := b
  simp only [mk.injEq]
  refine ⟨?_, h2.symm.trans h2', h3.symm.trans h3'⟩
  cases la <;> cases lb <;> simp_all

/-- The read timestamp `wts + delta`. -/
def rts (t : Tid) : Nat := t.wts + t.delta

/-- The word with `LOCK` set to `b` and the timestamps kept. -/
def setLocked (t : Tid) (b : Bool) : Tid := { t with locked := b }

@[simp] theorem setLocked_locked (t : Tid) (b : Bool) : (t.setLocked b).locked = b := rfl
@[simp] theorem setLocked_wts (t : Tid) (b : Bool) : (t.setLocked b).wts = t.wts := rfl
@[simp] theorem setLocked_rts (t : Tid) (b : Bool) : (t.setLocked b).rts = t.rts := rfl

@[simp] theorem setLocked_self (t : Tid) : t.setLocked t.locked = t := rfl

@[simp] theorem setLocked_setLocked (t : Tid) (a b : Bool) :
    (t.setLocked a).setLocked b = t.setLocked b := rfl

theorem wts_le_rts (t : Tid) : t.wts ≤ t.rts := Nat.le_add_right _ _

/-- The unlocked word with `wts = rts = 0`, the metadata of a freshly loaded row. -/
def zero : Tid := ⟨false, 0, 0, by norm_num, by norm_num⟩

instance : Inhabited Tid := ⟨zero⟩

end Tid

namespace ScarHelper

/-- Modelled from the spec: `get_wts`. -/
def getWts (tid : Tid) : Nat := tid.wts

/-- Modelled from the spec: `get_rts`, the wts plus the delta. -/
def getRts (tid : Tid) : Nat := tid.rts

/-- Modelled from the spec: `is_locked`. -/
def isLocked (tid : Tid) : Bool := tid.locked

/-- Modelled from the spec: `lock(tid)` sets `LOCK` by a CAS when it is clear and
fails without spinning when it is set; it returns the word it replaced, and the
word it stores is that one with `LOCK` set. -/
def lock (latest : Tid) : Option Tid :=
  if latest.locked then none else some (latest.setLocked true)

/-- Modelled from the spec: `unlock(tid)` stores the word with `LOCK` cleared. -/
def unlock (tid : Tid) : Tid := tid.setLocked false

/-- Modelled from the spec: `unlock(tid, commit_wts)` stores an unlocked word with
`wts = rts = commit_wts`. The wts field keeps the low 31 bits of `commit_wts`. -/
def unlockWithCommit (commitWts : Nat) : Tid :=
  ⟨false, commitWts % 2 ^ 31, 0, Nat.mod_lt _ (by norm_num), by norm_num⟩

/-- The largest delta the 27-bit field holds. -/
def maxDelta : Nat := 2 ^ 27 - 1

/-- Modelled from the spec: the CAS of `validate_read_key` that extends `rts` up to
`commit_ts`, the delta clamped to saturation. -/
def extendRts (latest : Tid) (commitTs : Nat) : Tid :=
  ⟨latest.locked, latest.wts, min (commitTs - latest.wts) maxDelta, latest.wts_lt,
    lt_of_le_of_lt (min_le_right _ _) (by decide)⟩

/-- Modelled from the spec: `validate_read_key(latest, tid, commit_ts, written)`,
with its CAS loop taken as one atomic step at the load the loop ends on. It fails
when the wts changed, succeeds without a store when `commit_ts ≤ rts`, fails on a
locked record (validation never reaches a record the validating transaction has
locked, which the spec's lock-holder test excludes), and otherwise stores the
extended word. The result is `written`, also the word the record holds after. -/
def validateReadKey (latest tid : Tid) (commitTs : Nat) : Option Tid :=
  if latest.wts ≠ tid.wts then none
  else if commitTs ≤ getRts latest then some latest
  else if latest.locked then none
  else some (extendRts latest commitTs)

@[simp] theorem getWts_eq (tid : Tid) : getWts tid = tid.wts := rfl
@[simp] theorem getRts_eq (tid : Tid) : getRts tid = tid.rts := rfl
@[simp] theorem isLocked_eq (tid : Tid) : isLocked tid = tid.locked := rfl

theorem lock_eq_some {latest tid : Tid} :
    lock latest = some tid ↔ latest.locked = false ∧ tid = latest.setLocked true := by
  unfold lock; cases latest.locked <;> simp [eq_comm]

@[simp] theorem lock_eq_none {latest : Tid} : lock latest = none ↔ latest.locked = true := by
  unfold lock; cases latest.locked <;> simp

@[simp] theorem unlock_eq (tid : Tid) : unlock tid = tid.setLocked false := rfl

@[simp] theorem unlockWithCommit_locked (c : Nat) : (unlockWithCommit c).locked = false := rfl
@[simp] theorem unlockWithCommit_wts (c : Nat) : (unlockWithCommit c).wts = c % 2 ^ 31 := rfl
@[simp] theorem unlockWithCommit_rts (c : Nat) : (unlockWithCommit c).rts = c % 2 ^ 31 := by
  simp [unlockWithCommit, Tid.rts]

@[simp] theorem extendRts_locked (latest : Tid) (c : Nat) :
    (extendRts latest c).locked = latest.locked := rfl
@[simp] theorem extendRts_wts (latest : Tid) (c : Nat) :
    (extendRts latest c).wts = latest.wts := rfl
theorem extendRts_rts (latest : Tid) (c : Nat) :
    (extendRts latest c).rts = latest.wts + min (c - latest.wts) maxDelta := rfl

/-- What a successful validation guarantees: the wts is the one read, the record
was left as it was or unlocked and extended, and the word it holds after. -/
theorem validateReadKey_eq_some {latest tid written : Tid} {c : Nat}
    (h : validateReadKey latest tid c = some written) :
    latest.wts = tid.wts ∧ written.wts = latest.wts ∧
      ((c ≤ latest.rts ∧ written = latest) ∨
        (latest.rts < c ∧ latest.locked = false ∧ written = extendRts latest c)) := by
  unfold validateReadKey at h
  split_ifs at h with h1 h2 h3 <;> cases h
  · exact ⟨not_not.mp h1, rfl, .inl ⟨h2, rfl⟩⟩
  · exact ⟨not_not.mp h1, rfl, .inr ⟨by simpa using h2, by simpa using h3, rfl⟩⟩

/-- Validation never changes a locked word. -/
theorem validateReadKey_locked {latest tid written : Tid} {c : Nat}
    (h : validateReadKey latest tid c = some written) (hl : latest.locked = true) :
    written = latest := by
  obtain ⟨-, -, ⟨-, rfl⟩ | ⟨-, hu, -⟩⟩ := validateReadKey_eq_some h
  · rfl
  · simp [hl] at hu

theorem validateReadKey_locked_eq {latest tid written : Tid} {c : Nat}
    (h : validateReadKey latest tid c = some written) : written.locked = latest.locked := by
  obtain ⟨-, -, ⟨-, rfl⟩ | ⟨-, -, rfl⟩⟩ := validateReadKey_eq_some h <;> rfl

/-- Below saturation the extension reaches `commit_ts`; at saturation it stops at
`wts + 2^27 - 1`, and a successful validation then leaves `rts < commit_ts`. -/
theorem validateReadKey_rts {latest tid written : Tid} {c : Nat}
    (h : validateReadKey latest tid c = some written) :
    written.rts = max latest.rts (min c (latest.wts + maxDelta)) := by
  have hd := latest.delta_lt
  obtain ⟨-, -, ⟨hc, rfl⟩ | ⟨hc, -, rfl⟩⟩ := validateReadKey_eq_some h
  · simp only [Tid.rts, maxDelta] at hc ⊢; omega
  · rw [extendRts_rts]; simp only [Tid.rts, maxDelta] at hc ⊢; omega

end ScarHelper

end Coco.Scar
