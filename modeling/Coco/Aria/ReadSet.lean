import Mathlib.Tactic

/-!
The read set of an Aria transaction in its execution phase
(`AriaTransaction.h`). Every `search_*` call appends an entry with
`read_request_bit` set, and the `process_requests` closure installed by
`setup_process_requests_in_execution_phase` walks the read set backwards,
stopping at the first entry without the bit. The pending entries always form
a suffix of the read set, so that early break never skips one: a call serves
every pending entry exactly once, at its own index, and leaves none pending.

`aria_read_handler` is a parameter. It receives one entry, the transaction id
and the key offset, as the source's `std::function` does; whatever it does to
the entry, the loop clears `read_request_bit` afterwards.
-/

namespace Coco.Aria

/-- The fields of an `AriaRWKey` that the transaction sets or tests. Keys and
values are the addresses the source stores. -/
structure AriaRWKey where
  tableId : Nat
  partitionId : Nat
  key : Nat
  value : Nat
  localIndexReadBit : Bool
  readRequestBit : Bool
  executionProcessedBit : Bool
  deriving DecidableEq, Repr

/-- The state of an `AriaTransaction` that `reset` and the read and write set
operations touch. -/
structure AriaTransaction where
  coordinatorId : Nat
  partitionId : Nat
  id : Nat
  pendingResponses : Nat
  networkSize : Nat
  localRead : Int
  savedLocalRead : Int
  remoteRead : Int
  savedRemoteRead : Int
  abortLock : Bool
  abortNoRetry : Bool
  abortReadValidation : Bool
  distributedTransaction : Bool
  executionPhase : Bool
  waw : Bool
  war : Bool
  raw : Bool
  activeCoordinators : List Bool
  readSet : List AriaRWKey
  writeSet : List AriaRWKey
  deriving DecidableEq, Repr

/-- The type of `aria_read_handler`: entry, transaction id, key offset. -/
abbrev AriaReadHandler := AriaRWKey → Nat → Nat → AriaRWKey

namespace AriaTransaction

def reset (t : AriaTransaction) : AriaTransaction :=
  { t with
    localRead := 0, savedLocalRead := 0, remoteRead := 0, savedRemoteRead := 0,
    abortLock := false, abortNoRetry := false, abortReadValidation := false,
    distributedTransaction := false, executionPhase := false,
    waw := false, war := false, raw := false,
    pendingResponses := 0, networkSize := 0,
    activeCoordinators := [], readSet := [], writeSet := [] }

def addToReadSet (t : AriaTransaction) (key : AriaRWKey) : AriaTransaction :=
  { t with readSet := t.readSet ++ [key] }

def addToWriteSet (t : AriaTransaction) (key : AriaRWKey) : AriaTransaction :=
  { t with writeSet := t.writeSet ++ [key] }

/-- The body the three `search_*` calls share: outside the execution phase,
append a fresh entry with `read_request_bit` set, marked as a local index read
when `localIndexRead` holds. -/
def search (localIndexRead : Bool) (t : AriaTransaction)
    (tableId partitionId key value : Nat) : AriaTransaction :=
  if t.executionPhase then t
  else t.addToReadSet
    { tableId, partitionId, key, value, localIndexReadBit := localIndexRead,
      readRequestBit := true, executionProcessedBit := false }

def searchLocalIndex := search true

def searchForRead := search false

def searchForUpdate := search false

def update (t : AriaTransaction) (tableId partitionId key value : Nat) :
    AriaTransaction :=
  if t.executionPhase then t
  else t.addToWriteSet
    { tableId, partitionId, key, value, localIndexReadBit := false,
      readRequestBit := false, executionProcessedBit := false }

def clearExecutionBit (t : AriaTransaction) : AriaTransaction :=
  { t with readSet := t.readSet.map fun k =>
      if k.localIndexReadBit then k else { k with executionProcessedBit := false } }

end AriaTransaction

/-- The reverse loop of `process_requests`, at index `i - 1` downwards. It
returns the new read set and the calls of `aria_read_handler` it made, each as
its key offset and the entry it was given. -/
def processRequestsLoop (handler : AriaReadHandler) (id : Nat) :
    Nat → List AriaRWKey → List AriaRWKey × List (Nat × AriaRWKey)
  | 0, rs => (rs, [])
  | i + 1, rs =>
    match rs[i]? with
    | some k =>
      if k.readRequestBit then
        let r := processRequestsLoop handler id i
          (rs.set i { handler k id i with readRequestBit := false })
        (r.1, (i, k) :: r.2)
      else (rs, [])
    | none => (rs, [])

/-- The closure `setup_process_requests_in_execution_phase` installs; its
return value is always `false` and is left out. -/
def AriaTransaction.processRequests (handler : AriaReadHandler) (t : AriaTransaction) :
    AriaTransaction × List (Nat × AriaRWKey) :=
  let r := processRequestsLoop handler t.id t.readSet.length t.readSet
  ({ t with readSet := r.1 }, r.2)

/-- The operations of the claim's sequences; `setExecutionPhase` is the
executor writing the public `execution_phase` field. -/
inductive AriaOp where
  | reset
  | searchLocalIndex (tableId partitionId key value : Nat)
  | searchForRead (tableId partitionId key value : Nat)
  | searchForUpdate (tableId partitionId key value : Nat)
  | update (tableId partitionId key value : Nat)
  | clearExecutionBit
  | processRequests
  | setExecutionPhase (b : Bool)
  deriving DecidableEq, Repr

namespace AriaTransaction

def apply (handler : AriaReadHandler) (t : AriaTransaction) : AriaOp → AriaTransaction
  | .reset => t.reset
  | .searchLocalIndex a b c d => t.searchLocalIndex a b c d
  | .searchForRead a b c d => t.searchForRead a b c d
  | .searchForUpdate a b c d => t.searchForUpdate a b c d
  | .update a b c d => t.update a b c d
  | .clearExecutionBit => t.clearExecutionBit
  | .processRequests => (t.processRequests handler).1
  | .setExecutionPhase b => { t with executionPhase := b }

def run (handler : AriaReadHandler) (t : AriaTransaction) (ops : List AriaOp) :
    AriaTransaction :=
  ops.foldl (apply handler) t

end AriaTransaction

/-- Whether the entry at index `i` exists and has `read_request_bit` set. -/
def pendingAt (rs : List AriaRWKey) (i : Nat) : Bool :=
  match rs[i]? with
  | some k => k.readRequestBit
  | none => false

/-- The pending entries form a suffix: after a pending entry, every entry is
pending. -/
def PendingSuffix (rs : List AriaRWKey) : Prop :=
  (rs.map AriaRWKey.readRequestBit).Pairwise fun a b => a = true → b = true

instance (rs : List AriaRWKey) : Decidable (PendingSuffix rs) :=
  inferInstanceAs (Decidable (List.Pairwise _ _))

/-- The indices of the pending entries, highest first: the order in which the
reverse loop reaches them. -/
def pendingIndices (rs : List AriaRWKey) : List Nat :=
  ((List.range rs.length).filter (pendingAt rs)).reverse

/-! ## The pending entries under the set and append operations -/

theorem pendingAt_of_length_le {rs : List AriaRWKey} {i : Nat} (h : rs.length ≤ i) :
    pendingAt rs i = false := by
  simp [pendingAt, List.getElem?_eq_none h]

theorem pendingAt_set_ne {rs : List AriaRWKey} {i j : Nat} (k : AriaRWKey) (h : i ≠ j) :
    pendingAt (rs.set i k) j = pendingAt rs j := by
  simp [pendingAt, List.getElem?_set, h]

theorem pendingAt_set_self {rs : List AriaRWKey} {i : Nat} (k : AriaRWKey)
    (h : i < rs.length) : pendingAt (rs.set i k) i = k.readRequestBit := by
  simp [pendingAt, List.getElem?_set, h]

theorem PendingSuffix.pending_of_lt {rs : List AriaRWKey} (hs : PendingSuffix rs)
    {i j : Nat} (hij : i < j) (hj : j < rs.length) (hi : pendingAt rs i = true) :
    pendingAt rs j = true := by
  have hi' : i < rs.length := by omega
  have := List.pairwise_iff_getElem.mp hs i j (by simpa using hi') (by simpa using hj) hij
  simp only [pendingAt, List.getElem?_eq_getElem hi', List.getElem?_eq_getElem hj] at hi ⊢
  simpa [hi] using this

/-- One pass of the reverse loop, from index `i - 1` down. Below `i` the
pending entries form a suffix and from `i` on nothing is pending; then the
loop calls the handler on exactly the pending indices, highest first, passes
each its own entry, and leaves nothing pending. -/
theorem processRequestsLoop_spec (handler : AriaReadHandler) (id : Nat) :
    ∀ (i : Nat) (rs : List AriaRWKey), i ≤ rs.length →
      (∀ j j', j < j' → j' < i → pendingAt rs j = true → pendingAt rs j' = true) →
      (∀ j, i ≤ j → pendingAt rs j = false) →
      (processRequestsLoop handler id i rs).2.map Prod.fst =
          ((List.range i).filter (pendingAt rs)).reverse ∧
        (∀ p ∈ (processRequestsLoop handler id i rs).2, rs[p.1]? = some p.2) ∧
        (∀ j, pendingAt (processRequestsLoop handler id i rs).1 j = false)
  | 0, _, _, _, hclear => ⟨rfl, by simp [processRequestsLoop],
      fun j => hclear j (Nat.zero_le j)⟩
  | i + 1, rs, hlen, hsuf, hclear => by
    have hi : i < rs.length := by omega
    have hk : rs[i]? = some rs[i] := List.getElem?_eq_getElem hi
    have hpi : pendingAt rs i = rs[i].readRequestBit := by simp [pendingAt, hk]
    by_cases hbit : rs[i].readRequestBit = true
    · let rs' := rs.set i { handler rs[i] id i with readRequestBit := false }
      have hbelow : ∀ j, j < i → pendingAt rs' j = pendingAt rs j :=
        fun j hj => pendingAt_set_ne _ (by omega)
      have ih := processRequestsLoop_spec handler id i rs' (by simp [rs']; omega)
        (fun j j' hjj' hj' h => by
          rw [hbelow j' hj']
          rw [hbelow j (by omega)] at h
          exact hsuf j j' hjj' (by omega) h)
        (fun j hj => by
          rcases Nat.eq_or_lt_of_le hj with rfl | hj
          · simp [rs', pendingAt_set_self _ hi]
          · rw [pendingAt_set_ne _ (by omega)]; exact hclear j hj)
      obtain ⟨hcalls, hmem, hdone⟩ := ih
      have hfilter : (List.range i).filter (pendingAt rs') =
          (List.range i).filter (pendingAt rs) :=
        List.filter_congr fun j hj => hbelow j (List.mem_range.mp hj)
      simp only [processRequestsLoop, hk, hbit, ite_true]
      refine ⟨?_, ?_, hdone⟩
      · simp [hcalls, hfilter, List.range_succ, List.filter_append, hpi, hbit]
      · intro p hp
        rcases List.mem_cons.mp hp with rfl | hp
        · exact hk
        · have hlt : p.1 < i := by
            have : p.1 ∈ (List.range i).filter (pendingAt rs') := by
              rw [← List.mem_reverse, ← hcalls]; exact List.mem_map_of_mem _ hp
            exact List.mem_range.mp (List.mem_filter.mp this).1
          simpa [rs', List.getElem?_set, Nat.ne_of_gt hlt] using hmem p hp
    · have hnone : ∀ j, j ≤ i → pendingAt rs j = false := by
        intro j hj
        rcases Nat.eq_or_lt_of_le hj with rfl | hj
        · simpa [hpi] using hbit
        · by_contra hp
          exact hbit (hpi ▸ hsuf j i hj (by omega) (by simpa using hp))
      have hempty : (List.range (i + 1)).filter (pendingAt rs) = [] :=
        List.filter_eq_nil_iff.mpr fun j hj => by
          simp [hnone j (Nat.lt_succ_iff.mp (List.mem_range.mp hj))]
      simp only [processRequestsLoop, hk, hbit]
      refine ⟨by simp [hempty], by simp, fun j => ?_⟩
      by_cases hj : j ≤ i
      · exact hnone j hj
      · exact hclear j (by omega)

/-- The loop over the whole read set, when its pending entries form a suffix. -/
theorem processRequests_spec (handler : AriaReadHandler) (t : AriaTransaction)
    (hs : PendingSuffix t.readSet) :
    (t.processRequests handler).2.map Prod.fst = pendingIndices t.readSet ∧
      (∀ p ∈ (t.processRequests handler).2, t.readSet[p.1]? = some p.2) ∧
      ∀ j, pendingAt (t.processRequests handler).1.readSet j = false :=
  processRequestsLoop_spec handler t.id t.readSet.length t.readSet le_rfl
    (fun _ _ hjj' hj' => hs.pending_of_lt hjj' hj')
    (fun _ hj => pendingAt_of_length_le hj)

theorem pendingSuffix_of_not_pending {rs : List AriaRWKey}
    (h : ∀ j, pendingAt rs j = false) : PendingSuffix rs := by
  refine List.pairwise_iff_getElem.mpr fun i j hi _ _ hpi => ?_
  have hi' : i < rs.length := by simpa using hi
  have := h i
  simp [pendingAt, List.getElem?_eq_getElem hi'] at this
  simp [this] at hpi

theorem pendingSuffix_search {t : AriaTransaction} (hs : PendingSuffix t.readSet)
    (b : Bool) (x y z w : Nat) : PendingSuffix (t.search b x y z w).readSet := by
  unfold AriaTransaction.search
  split
  · exact hs
  · simp only [PendingSuffix, AriaTransaction.addToReadSet, List.map_append,
      List.pairwise_append] at hs ⊢
    simp [hs]

/-- Every operation keeps the pending entries a suffix. -/
theorem pendingSuffix_apply (handler : AriaReadHandler) {t : AriaTransaction}
    (hs : PendingSuffix t.readSet) (op : AriaOp) :
    PendingSuffix (t.apply handler op).readSet := by
  cases op with
  | reset => simp [AriaTransaction.apply, AriaTransaction.reset, PendingSuffix]
  | searchLocalIndex => exact pendingSuffix_search hs true ..
  | searchForRead => exact pendingSuffix_search hs false ..
  | searchForUpdate => exact pendingSuffix_search hs false ..
  | update =>
    simp only [AriaTransaction.apply, AriaTransaction.update]
    split <;> exact hs
  | clearExecutionBit =>
    simpa [AriaTransaction.apply, AriaTransaction.clearExecutionBit, PendingSuffix,
      List.map_map, Function.comp_def, apply_ite AriaRWKey.readRequestBit] using hs
  | processRequests =>
    exact pendingSuffix_of_not_pending (processRequests_spec handler t hs).2.2
  | setExecutionPhase => exact hs

theorem pendingSuffix_run (handler : AriaReadHandler) :
    ∀ (ops : List AriaOp) {t : AriaTransaction}, PendingSuffix t.readSet →
      PendingSuffix (t.run handler ops).readSet
  | [], _, hs => hs
  | op :: ops, _, hs => pendingSuffix_run handler ops (pendingSuffix_apply handler hs op)

/-- For every sequence of operations on a constructed transaction (the
constructor runs `reset`), the pending entries form a suffix of the read set,
and the next `process_requests` call invokes the handler once on every pending
entry, highest index first, with the entry's own index as key offset, and
leaves no entry pending. -/
theorem pending_reads_form_suffix (handler : AriaReadHandler) (t₀ : AriaTransaction)
    (ops : List AriaOp) :
    PendingSuffix (t₀.reset.run handler ops).readSet ∧
      ((t₀.reset.run handler ops).processRequests handler).2.map Prod.fst =
        pendingIndices (t₀.reset.run handler ops).readSet ∧
      (∀ p ∈ ((t₀.reset.run handler ops).processRequests handler).2,
        (t₀.reset.run handler ops).readSet[p.1]? = some p.2) ∧
      ∀ j, pendingAt ((t₀.reset.run handler ops).processRequests handler).1.readSet j =
        false := by
  have hs := pendingSuffix_run handler ops
    (t := t₀.reset) (by simp [AriaTransaction.reset, PendingSuffix])
  exact ⟨hs, processRequests_spec handler _ hs⟩

end Coco.Aria
