import Mathlib.Tactic

/-!
The outbound message slots of `Executor` (`Executor.h`). The executor keeps
one in-progress `Message` per coordinator; every site that talks to a peer
appends a piece to the peer's slot, and `flush_messages` moves each non-empty
slot, except the executor's own, to `out_queue` and puts a fresh message with
the same header in its place.

Under the partitioner contract no site ever routes a piece to the
executor's own slot, the one `flush_messages` skips. Hence at every point of
a run the pieces already in `out_queue` for a destination, followed by those
still in its slot, are exactly the pieces sent there, in the order they were
created; after a flush the slot part is empty.

`core/Partitioner.h` is not in the source: the partitioner is a parameter
with the contract the executor relies on. Pieces are a type parameter.
-/

namespace Coco.Worker

/-- The partitioner calls the executor makes. -/
structure Partitioner where
  coordinatorId : Nat
  totalCoordinators : Nat
  hasMasterPartition : Nat → Bool
  masterCoordinator : Nat → Nat
  isPartitionReplicatedOn : Nat → Nat → Bool

/-- The contract the executor relies on: `has_master_partition(p)` exactly
when `master_coordinator(p)` is this coordinator, masters are coordinators,
and `total_coordinators()` is the number of message slots. -/
structure Partitioner.Contract (P : Partitioner) (coordinatorNum : Nat) : Prop where
  hasMaster_iff : ∀ p, P.hasMasterPartition p = true ↔ P.masterCoordinator p = P.coordinatorId
  master_lt : ∀ p, P.masterCoordinator p < coordinatorNum
  total : P.totalCoordinators = coordinatorNum

structure Message (Piece : Type) where
  sourceNodeId : Nat
  destNodeId : Nat
  workerId : Nat
  pieces : List Piece

/-- `init_message`: an empty message with the executor's header. -/
def initMessage {Piece : Type} (coordinatorId id destNodeId : Nat) : Message Piece :=
  ⟨coordinatorId, destNodeId, id, []⟩

/-- The executor's `messages` vector, one slot per coordinator, and its
`out_queue`. -/
@[ext] structure Outbox (Piece : Type) where
  messages : Nat → Message Piece
  outQueue : List (Message Piece)

/-- Every place that appends a piece to a slot, with what its routing reads. -/
inductive PieceSource where
  | search (partitionId : Nat) (localIndexRead : Bool)
  | lock (partitionId : Nat)
  | readValidation (partitionId : Nat)
  | write (partitionId : Nat)
  | replication (partitionId k : Nat)
  | releaseLock (partitionId : Nat)
  | abort (partitionId : Nat)
  | reply (sourceNodeId : Nat)
  deriving DecidableEq, Repr

/-- The routing that `lock_write_set`, `validate_read_set`,
`write_and_replicate` (its write), `release_lock` and `abort` share: a record
mastered elsewhere is handled by a message to its master. -/
def masterRoute (P : Partitioner) (partitionId : Nat) : Option Nat :=
  if P.hasMasterPartition partitionId then none else some (P.masterCoordinator partitionId)

/-- The slot a piece goes to, or `none` when the site handles the record
locally. `txnCoordinatorId` is the transaction's `coordinator_id`, which the
replication loop compares with `k`. -/
def route (P : Partitioner) (txnCoordinatorId : Nat) : PieceSource → Option Nat
  | .search p localIndexRead =>
    if P.hasMasterPartition p || localIndexRead then none else some (P.masterCoordinator p)
  | .lock p | .readValidation p | .write p | .releaseLock p | .abort p => masterRoute P p
  | .replication p k =>
    if !P.isPartitionReplicatedOn p k then none
    else if k = P.masterCoordinator p then none
    else if k = txnCoordinatorId then none
    else some k
  | .reply sourceNodeId => some sourceNodeId

inductive OutboxAction (Piece : Type) where
  | send (source : PieceSource) (piece : Piece)
  | flush

variable {Piece : Type}

def Message.addPiece (m : Message Piece) (piece : Piece) : Message Piece :=
  { m with pieces := m.pieces ++ [piece] }

def Outbox.append (o : Outbox Piece) (d : Nat) (piece : Piece) : Outbox Piece :=
  { o with messages := Function.update o.messages d ((o.messages d).addPiece piece) }

/-- One turn of the loop of `flush_messages`. -/
def flushSlot (coordinatorId id : Nat) (o : Outbox Piece) (i : Nat) : Outbox Piece :=
  if i = coordinatorId then o
  else if (o.messages i).pieces.length = 0 then o
  else ⟨Function.update o.messages i (initMessage coordinatorId id i),
    o.outQueue ++ [o.messages i]⟩

def flushMessages (coordinatorId id coordinatorNum : Nat) (o : Outbox Piece) : Outbox Piece :=
  (List.range coordinatorNum).foldl (flushSlot coordinatorId id) o

/-- The executor after its constructor. -/
def Outbox.init (coordinatorId id : Nat) : Outbox Piece :=
  ⟨initMessage coordinatorId id, []⟩

def Outbox.step (P : Partitioner) (txnCoordinatorId coordinatorNum id : Nat)
    (o : Outbox Piece) : OutboxAction Piece → Outbox Piece
  | .send source piece =>
    match route P txnCoordinatorId source with
    | none => o
    | some d => o.append d piece
  | .flush => flushMessages P.coordinatorId id coordinatorNum o

def Outbox.run (P : Partitioner) (txnCoordinatorId coordinatorNum id : Nat)
    (o : Outbox Piece) (as : List (OutboxAction Piece)) : Outbox Piece :=
  as.foldl (Outbox.step P txnCoordinatorId coordinatorNum id) o

/-- The pieces the actions send to `d`, in creation order. -/
def sentTo (P : Partitioner) (txnCoordinatorId d : Nat) : List (OutboxAction Piece) → List Piece
  | [] => []
  | .send source piece :: as =>
    (if route P txnCoordinatorId source = some d then [piece] else []) ++
      sentTo P txnCoordinatorId d as
  | .flush :: as => sentTo P txnCoordinatorId d as

/-- The pieces `out_queue` holds for destination `d`, in queue order. -/
def queuedFor (q : List (Message Piece)) (d : Nat) : List Piece :=
  (q.filter fun m => m.destNodeId = d).flatMap Message.pieces

/-- What the actions of a run may carry: a replication target below
`total_coordinators()` (the loop bound), and replies to other coordinators only. -/
def PieceSource.WellFormed (P : Partitioner) (coordinatorNum : Nat) : PieceSource → Prop
  | .replication _ k => k < P.totalCoordinators
  | .reply s => s ≠ P.coordinatorId ∧ s < coordinatorNum
  | _ => True

def OutboxAction.WellFormed (P : Partitioner) (coordinatorNum : Nat) :
    OutboxAction Piece → Prop
  | .send source _ => source.WellFormed P coordinatorNum
  | .flush => True

/-- Under the contract, with transactions of the executor's own coordinator,
every piece goes to another coordinator's slot. -/
theorem route_ne_self {P : Partitioner} {n : Nat} (hP : P.Contract n) {source : PieceSource}
    (hs : source.WellFormed P n) {d : Nat} (h : route P P.coordinatorId source = some d) :
    d ≠ P.coordinatorId ∧ d < n := by
  have hmaster : ∀ p, masterRoute P p = some d → d ≠ P.coordinatorId ∧ d < n := by
    intro p hp
    unfold masterRoute at hp
    split at hp
    · cases hp
    · rename_i hm
      cases hp
      exact ⟨fun he => hm ((hP.hasMaster_iff p).mpr he), hP.master_lt p⟩
  cases source with
  | search p localIndexRead =>
    simp only [route] at h
    split at h
    · cases h
    · rename_i hm
      simp only [Bool.or_eq_true, not_or] at hm
      cases h
      exact ⟨fun he => hm.1 ((hP.hasMaster_iff p).mpr he), hP.master_lt p⟩
  | lock p | readValidation p | write p | releaseLock p | abort p => exact hmaster p h
  | replication p k =>
    simp only [route] at h
    split at h
    · cases h
    · split at h
      · cases h
      · split at h
        · cases h
        · cases h
          simp only [PieceSource.WellFormed, hP.total] at hs
          exact ⟨by assumption, hs⟩
  | reply s =>
    cases h
    exact hs

/-! ## `flush_messages` -/

/-- Whether `flush_messages` moves slot `i`: not the executor's own, and
holding at least one piece. -/
def Outbox.flushable (o : Outbox Piece) (coordinatorId i : Nat) : Prop :=
  i ≠ coordinatorId ∧ (o.messages i).pieces.length ≠ 0

instance (o : Outbox Piece) (coordinatorId i : Nat) : Decidable (o.flushable coordinatorId i) :=
  inferInstanceAs (Decidable (_ ∧ _))

/-- The state after the first `k` turns of the loop of `flush_messages`. -/
def flushedUpTo (coordinatorId id k : Nat) (o : Outbox Piece) : Outbox Piece :=
  ⟨fun i => if i < k ∧ o.flushable coordinatorId i then initMessage coordinatorId id i
      else o.messages i,
    o.outQueue ++ ((List.range k).filter fun i => o.flushable coordinatorId i).map o.messages⟩

theorem flushSlot_flushedUpTo (coordinatorId id k : Nat) (o : Outbox Piece) :
    flushSlot coordinatorId id (flushedUpTo coordinatorId id k o) k =
      flushedUpTo coordinatorId id (k + 1) o := by
  have hk : (flushedUpTo coordinatorId id k o).messages k = o.messages k := by
    simp [flushedUpTo]
  have hlt : ∀ i, i ≠ k → (i < k + 1 ↔ i < k) := fun i hi => by omega
  unfold flushSlot
  rw [hk]
  by_cases hf : o.flushable coordinatorId k
  · have hc : k ≠ coordinatorId := hf.1
    have he : (o.messages k).pieces.length ≠ 0 := hf.2
    simp only [hc, he, ite_false]
    ext i
    · simp only [flushedUpTo, Function.update_apply]
      by_cases hi : i = k
      · subst hi; simp [hf]
      · simp [hi, hlt i hi]
    · simp [flushedUpTo, List.range_succ, List.filter_append, hf]
  · have hkeep : flushedUpTo coordinatorId id k o = flushedUpTo coordinatorId id (k + 1) o := by
      ext i
      · simp only [flushedUpTo]
        by_cases hi : i = k
        · subst hi; simp [hf]
        · simp [hlt i hi]
      · simp [flushedUpTo, List.range_succ, List.filter_append, hf]
    unfold Outbox.flushable at hf
    rw [← hkeep]
    split
    · rfl
    · split
      · rfl
      · exact absurd ⟨by assumption, by assumption⟩ hf

/-- `flush_messages` moves every non-empty slot other than the executor's
own to `out_queue`, in slot order, and re-initialises exactly those slots. -/
theorem flushMessages_eq (coordinatorId id : Nat) (o : Outbox Piece) :
    ∀ n, flushMessages coordinatorId id n o = flushedUpTo coordinatorId id n o
  | 0 => by ext <;> simp [flushMessages, flushedUpTo]
  | n + 1 => by
    rw [flushMessages, List.range_succ, List.foldl_append, ← flushMessages,
      flushMessages_eq coordinatorId id o n]
    exact flushSlot_flushedUpTo coordinatorId id n o

theorem queuedFor_append (q q' : List (Message Piece)) (d : Nat) :
    queuedFor (q ++ q') d = queuedFor q d ++ queuedFor q' d := by
  simp [queuedFor, List.filter_append]

/-- The pieces a flush queues for `d`: the slot's, if it was flushed. -/
theorem queuedFor_flushed (coordinatorId d : Nat) (o : Outbox Piece)
    (hdest : ∀ i, (o.messages i).destNodeId = i) :
    ∀ n, queuedFor (((List.range n).filter fun i => o.flushable coordinatorId i).map o.messages) d =
      if d < n ∧ o.flushable coordinatorId d then (o.messages d).pieces else []
  | 0 => by simp [queuedFor]
  | n + 1 => by
    rw [List.range_succ, List.filter_append, List.map_append, queuedFor_append,
      queuedFor_flushed coordinatorId d o hdest n]
    by_cases hd : d = n
    · subst hd
      by_cases hf : o.flushable coordinatorId d <;> simp [queuedFor, hdest, hf]
    · have hlt : d < n + 1 ↔ d < n := by omega
      by_cases hf : o.flushable coordinatorId n <;>
        simp [queuedFor, hdest, hf, hlt, Ne.symm hd]

/-! ## The run invariant -/

theorem sentTo_append (P : Partitioner) (tc d : Nat) (as bs : List (OutboxAction Piece)) :
    sentTo P tc d (as ++ bs) = sentTo P tc d as ++ sentTo P tc d bs := by
  induction as with
  | nil => rfl
  | cons a as ih =>
    cases a <;> simp [sentTo, ih]

/-- What holds after every prefix `hist` of a run. -/
structure OutboxInv (P : Partitioner) (id : Nat) (o : Outbox Piece)
    (hist : List (OutboxAction Piece)) : Prop where
  header : ∀ i, (o.messages i).sourceNodeId = P.coordinatorId ∧
    (o.messages i).destNodeId = i ∧ (o.messages i).workerId = id
  self_empty : (o.messages P.coordinatorId).pieces = []
  queued : ∀ m ∈ o.outQueue, m.sourceNodeId = P.coordinatorId ∧ m.workerId = id ∧
    m.destNodeId ≠ P.coordinatorId ∧ m.pieces ≠ []
  conservation : ∀ d, d ≠ P.coordinatorId →
    queuedFor o.outQueue d ++ (o.messages d).pieces = sentTo P P.coordinatorId d hist

theorem outboxInv_init (P : Partitioner) (id : Nat) :
    OutboxInv P id (Outbox.init P.coordinatorId id : Outbox Piece) [] :=
  ⟨fun _ => ⟨rfl, rfl, rfl⟩, rfl, by simp [Outbox.init], fun _ _ => by
    simp [Outbox.init, queuedFor, initMessage, sentTo]⟩

theorem outboxInv_send {P : Partitioner} {n id : Nat} (hP : P.Contract n)
    {o : Outbox Piece} {hist : List (OutboxAction Piece)} (hinv : OutboxInv P id o hist)
    {source : PieceSource} (hs : source.WellFormed P n) (piece : Piece) :
    OutboxInv P id (o.step P P.coordinatorId n id (.send source piece))
      (hist ++ [.send source piece]) := by
  have hsent : ∀ d, sentTo P P.coordinatorId d (hist ++ [.send source piece]) =
      sentTo P P.coordinatorId d hist ++
        if route P P.coordinatorId source = some d then [piece] else [] := by
    intro d; simp [sentTo_append, sentTo]
  simp only [Outbox.step]
  split
  · rename_i hr
    refine ⟨hinv.header, hinv.self_empty, hinv.queued, fun d hd => ?_⟩
    rw [hsent, hr, hinv.conservation d hd]
    simp
  · rename_i d₀ hr
    obtain ⟨hne, -⟩ := route_ne_self hP hs hr
    refine ⟨fun i => ?_, ?_, hinv.queued, fun d hd => ?_⟩
    · by_cases hi : i = d₀
      · subst hi; simpa [Outbox.append, Message.addPiece] using hinv.header i
      · simpa [Outbox.append, hi] using hinv.header i
    · simpa [Outbox.append, Ne.symm hne] using hinv.self_empty
    · rw [hsent, hr, ← hinv.conservation d hd]
      by_cases hdd : d = d₀
      · subst hdd; simp [Outbox.append, Message.addPiece]
      · simp [Outbox.append, hdd, Ne.symm hdd]

theorem outboxInv_flush {P : Partitioner} {n id : Nat} {o : Outbox Piece}
    {hist : List (OutboxAction Piece)} (hinv : OutboxInv P id o hist) :
    OutboxInv P id (o.step P P.coordinatorId n id .flush) (hist ++ [.flush]) := by
  have hdest : ∀ i, (o.messages i).destNodeId = i := fun i => (hinv.header i).2.1
  simp only [Outbox.step, flushMessages_eq]
  refine ⟨fun i => ?_, ?_, ?_, fun d hd => ?_⟩
  · simp only [flushedUpTo]
    split
    · exact ⟨rfl, rfl, rfl⟩
    · exact hinv.header i
  · simpa [flushedUpTo, Outbox.flushable] using hinv.self_empty
  · intro m hm
    simp only [flushedUpTo, List.mem_append, List.mem_map, List.mem_filter,
      List.mem_range, decide_eq_true_eq] at hm
    rcases hm with hm | ⟨i, ⟨-, hi⟩, rfl⟩
    · exact hinv.queued m hm
    · obtain ⟨hs, hd, hw⟩ := hinv.header i
      exact ⟨hs, hw, by rw [hd]; exact hi.1, fun h => hi.2 (by simp [h])⟩
  · rw [sentTo_append, ← hinv.conservation d hd]
    simp only [flushedUpTo, queuedFor_append, queuedFor_flushed _ d o hdest]
    split
    · simp [sentTo, initMessage]
    · simp [sentTo]

theorem outboxInv_run {P : Partitioner} {n id : Nat} (hP : P.Contract n) :
    ∀ (as : List (OutboxAction Piece)) {o : Outbox Piece} {hist : List (OutboxAction Piece)},
      OutboxInv P id o hist → (∀ a ∈ as, a.WellFormed P n) →
      OutboxInv P id (o.run P P.coordinatorId n id as) (hist ++ as)
  | [], _, hist, hinv, _ => by simpa using hinv
  | a :: as, o, hist, hinv, has => by
    have hstep : OutboxInv P id (o.step P P.coordinatorId n id a) (hist ++ [a]) := by
      cases a with
      | send source piece => exact outboxInv_send hP hinv (has _ (List.mem_cons_self _ _)) piece
      | flush => exact outboxInv_flush hinv
    have := outboxInv_run hP as hstep fun b hb => has b (List.mem_cons_of_mem _ hb)
    simpa [Outbox.run] using this

/-- For every run of the executor (its transactions carry its coordinator id,
and it answers only other coordinators), no piece is ever in the
executor's own slot; for every other destination the pieces already in
`out_queue` followed by those in its slot are exactly the pieces sent there, in
creation order; every queued message has the executor's header, another
coordinator as destination and at least one piece; and one more
`flush_messages` moves exactly the non-empty peer slots, in slot order, after
which `out_queue` holds every piece sent to every coordinator once, in order. -/
theorem pieces_reach_out_queue_once (P : Partitioner) (n id : Nat) (hP : P.Contract n)
    (as : List (OutboxAction Piece)) (has : ∀ a ∈ as, a.WellFormed P n) :
    let o := (Outbox.init P.coordinatorId id).run P P.coordinatorId n id as
    (o.messages P.coordinatorId).pieces = [] ∧
      (∀ d, d ≠ P.coordinatorId →
        queuedFor o.outQueue d ++ (o.messages d).pieces = sentTo P P.coordinatorId d as) ∧
      (∀ m ∈ o.outQueue, m.sourceNodeId = P.coordinatorId ∧ m.workerId = id ∧
        m.destNodeId ≠ P.coordinatorId ∧ m.pieces ≠ []) ∧
      flushMessages P.coordinatorId id n o = flushedUpTo P.coordinatorId id n o ∧
      ∀ d, d < n → d ≠ P.coordinatorId →
        queuedFor (flushMessages P.coordinatorId id n o).outQueue d = sentTo P P.coordinatorId d as := by
  intro o
  have hinv : OutboxInv P id o as := by
    simpa using outboxInv_run hP as (outboxInv_init P id) has
  refine ⟨hinv.self_empty, hinv.conservation, hinv.queued, flushMessages_eq _ _ _ n,
    fun d hd hne => ?_⟩
  have hflush := (outboxInv_flush (n := n) hinv).conservation d hne
  have hempty : ((flushMessages P.coordinatorId id n o).messages d).pieces = [] := by
    rw [flushMessages_eq]
    simp only [flushedUpTo]
    split
    · rfl
    · rename_i h
      simpa [hd, Outbox.flushable, hne] using h
  simpa [Outbox.step, sentTo_append, sentTo, hempty] using hflush

/-- Two coordinators, even partitions mastered by coordinator 0, every
partition replicated everywhere. -/
def twoCoordinators : Partitioner :=
  ⟨0, 2, fun p => p % 2 == 0, fun p => p % 2, fun _ _ => true⟩

theorem twoCoordinators_contract : twoCoordinators.Contract 2 :=
  ⟨fun p => by simp [twoCoordinators], fun p => Nat.mod_lt p (by decide), rfl⟩

/-- A lock request to coordinator 1, a local write, a reply to coordinator 1,
then a flush. -/
def lockReplyFlush : List (OutboxAction Nat) :=
  [.send (.lock 1) 10, .send (.write 2) 11, .send (.reply 1) 12, .flush]

theorem pieces_reach_out_queue_once_two_coordinators :
    twoCoordinators.Contract 2 ∧ (∀ a ∈ lockReplyFlush, a.WellFormed twoCoordinators 2) ∧
      let o := (Outbox.init twoCoordinators.coordinatorId 0).run twoCoordinators
        twoCoordinators.coordinatorId 2 0 lockReplyFlush
      (o.messages twoCoordinators.coordinatorId).pieces = [] ∧
        (∀ d, d ≠ twoCoordinators.coordinatorId →
          queuedFor o.outQueue d ++ (o.messages d).pieces =
            sentTo twoCoordinators twoCoordinators.coordinatorId d lockReplyFlush) ∧
        (∀ m ∈ o.outQueue, m.sourceNodeId = twoCoordinators.coordinatorId ∧ m.workerId = 0 ∧
          m.destNodeId ≠ twoCoordinators.coordinatorId ∧ m.pieces ≠ []) ∧
        flushMessages twoCoordinators.coordinatorId 0 2 o =
          flushedUpTo twoCoordinators.coordinatorId 0 2 o ∧
        ∀ d, d < 2 → d ≠ twoCoordinators.coordinatorId →
          queuedFor (flushMessages twoCoordinators.coordinatorId 0 2 o).outQueue d =
            sentTo twoCoordinators twoCoordinators.coordinatorId d lockReplyFlush := by
  have has : ∀ a ∈ lockReplyFlush, a.WellFormed twoCoordinators 2 := by
    simp [lockReplyFlush, OutboxAction.WellFormed, PieceSource.WellFormed, twoCoordinators]
  exact ⟨twoCoordinators_contract, has,
    pieces_reach_out_queue_once twoCoordinators 2 0 twoCoordinators_contract lockReplyFlush has⟩

end Coco.Worker
