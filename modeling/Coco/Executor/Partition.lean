import Mathlib.Tactic

/-!
The partition a worker generates its transactions for. `Executor::start`
draws `uniform_dist(0, partition_num_per_node - 1)` and strides by the number
of coordinators; `RStoreExecutor::run_transaction` gives each worker a block
of partitions in the C-phase and one partition in the S-phase. All three are
`std::size_t` computations, so they wrap modulo `2 ^ 64`: with fewer partitions
than coordinators `partition_num_per_node - 1` is the largest `size_t`, and the
strided id can be any value.

`common/Random.h` is not part of the source; of `uniform_dist(a, b)` only its
contract is used, a draw in `[a, b]`.
-/

namespace Coco.Worker

/-- The fields of `Context` that the executors read. -/
structure Context where
  partitionNum : Nat
  workerNum : Nat
  coordinatorNum : Nat
  deriving DecidableEq, Repr

/-- Subtraction on `std::size_t`. -/
def sizeSub (a b : Nat) : Nat := (a + 2 ^ 64 - b) % 2 ^ 64

/-- A value `uniform_dist(a, b)` may return. -/
def UniformDraw (a b r : Nat) : Prop := a ≤ r ∧ r ≤ b

instance (a b r : Nat) : Decidable (UniformDraw a b r) :=
  inferInstanceAs (Decidable (_ ∧ _))

/-- The upper end `partition_num_per_node - 1` of the draw in `Executor::start`. -/
def drawBound (ctx : Context) : Nat :=
  sizeSub (ctx.partitionNum / ctx.coordinatorNum) 1

/-- The partition `Executor::start` picks for the draw `r`. -/
def partitionId (ctx : Context) (coordinatorId r : Nat) : Nat :=
  (r * ctx.coordinatorNum + coordinatorId) % 2 ^ 64

/-- `partition_num_per_thread` of the C-phase. -/
def partitionNumPerThread (ctx : Context) : Nat := ctx.partitionNum / ctx.workerNum

/-- The upper end `partition_num_per_thread - 1` of the C-phase draw. -/
def cPhaseDrawBound (ctx : Context) : Nat := sizeSub (partitionNumPerThread ctx) 1

/-- The C-phase partition of worker `id` for the draw `r`. -/
def cPhasePartitionId (ctx : Context) (id r : Nat) : Nat :=
  (id * partitionNumPerThread ctx + r) % 2 ^ 64

/-- The S-phase partition of worker `id` on coordinator `coordinatorId`. -/
def sPhasePartitionId (ctx : Context) (coordinatorId id : Nat) : Nat :=
  (id * ctx.coordinatorNum + coordinatorId) % 2 ^ 64

/-- A configuration the executors run with: `std::size_t` values, at least one
coordinator, and coordinator and worker ids in range. Nothing else is checked
before the partition is computed. -/
structure Admits (ctx : Context) (coordinatorId id : Nat) : Prop where
  partitionNum_lt : ctx.partitionNum < 2 ^ 64
  workerNum_lt : ctx.workerNum < 2 ^ 64
  coordinatorNum_lt : ctx.coordinatorNum < 2 ^ 64
  coordinatorNum_pos : 1 ≤ ctx.coordinatorNum
  coordinatorId_lt : coordinatorId < ctx.coordinatorNum
  id_lt : id < ctx.workerNum

instance (ctx : Context) (coordinatorId id : Nat) : Decidable (Admits ctx coordinatorId id) :=
  decidable_of_iff (ctx.partitionNum < 2 ^ 64 ∧ ctx.workerNum < 2 ^ 64 ∧
      ctx.coordinatorNum < 2 ^ 64 ∧ 1 ≤ ctx.coordinatorNum ∧
      coordinatorId < ctx.coordinatorNum ∧ id < ctx.workerNum)
    ⟨fun ⟨a, b, c, d, e, f⟩ => ⟨a, b, c, d, e, f⟩, fun ⟨a, b, c, d, e, f⟩ => ⟨a, b, c, d, e, f⟩⟩

/-- The partition ranges as the spec states them, for every admitted
configuration and every draw. -/
def PartitionRangesClaim : Prop :=
  ∀ ctx coordinatorId id, Admits ctx coordinatorId id →
    (∀ r, UniformDraw 0 (drawBound ctx) r →
      partitionId ctx coordinatorId r < ctx.partitionNum ∧
        partitionId ctx coordinatorId r % ctx.coordinatorNum = coordinatorId) ∧
    (ctx.partitionNum % ctx.workerNum = 0 → ∀ r, UniformDraw 0 (cPhaseDrawBound ctx) r →
      id * partitionNumPerThread ctx ≤ cPhasePartitionId ctx id r ∧
        cPhasePartitionId ctx id r < (id + 1) * partitionNumPerThread ctx ∧
        cPhasePartitionId ctx id r < ctx.partitionNum) ∧
    sPhasePartitionId ctx coordinatorId id < ctx.partitionNum ∧
    ∀ coordinatorId' id', Admits ctx coordinatorId' id' →
      sPhasePartitionId ctx coordinatorId id = sPhasePartitionId ctx coordinatorId' id' →
        coordinatorId = coordinatorId' ∧ id = id'

/-- With one partition and two coordinators, coordinator 1's
`partition_num_per_node - 1` wraps, and the draw `0` already gives partition 1. -/
theorem partition_ranges_fail_with_few_partitions : ¬ PartitionRangesClaim := by
  intro h
  have hadm : Admits ⟨1, 1, 2⟩ 1 0 := by decide
  have := ((h ⟨1, 1, 2⟩ 1 0 hadm).1 0 (by decide)).1
  exact absurd this (by decide)

/-- No `size_t` wrap once the strided id stays below a `size_t` bound. -/
theorem mod_size_of_lt {n : Nat} (h : n < 2 ^ 64) : n % 2 ^ 64 = n := Nat.mod_eq_of_lt h

theorem sizeSub_one_of_pos {n : Nat} (hpos : 1 ≤ n) (h : n < 2 ^ 64) : sizeSub n 1 = n - 1 := by
  unfold sizeSub
  rw [show n + 2 ^ 64 - 1 = n - 1 + 2 ^ 64 by omega, Nat.add_mod_right]
  exact Nat.mod_eq_of_lt (by omega)

/-- `r * k + c < n` for a draw `r < n / k` and an offset `c < k`. -/
theorem strided_lt {r k c n : Nat} (hr : r + 1 ≤ n / k) (hc : c < k) : r * k + c < n := by
  have h1 : (r + 1) * k ≤ n / k * k := Nat.mul_le_mul_right k hr
  have h2 : n / k * k ≤ n := Nat.div_mul_le_self n k
  rw [Nat.add_mul, Nat.one_mul] at h1
  omega

/-- `Executor::start` picks a partition below `partition_num` that its own
coordinator masters, once there are at least as many partitions as coordinators. -/
theorem partitionId_spec {ctx : Context} {coordinatorId id : Nat}
    (h : Admits ctx coordinatorId id) (henough : ctx.coordinatorNum ≤ ctx.partitionNum)
    {r : Nat} (hr : UniformDraw 0 (drawBound ctx) r) :
    partitionId ctx coordinatorId r < ctx.partitionNum ∧
      partitionId ctx coordinatorId r % ctx.coordinatorNum = coordinatorId := by
  have hper : 1 ≤ ctx.partitionNum / ctx.coordinatorNum :=
    (Nat.one_le_div_iff (by have := h.coordinatorNum_pos; omega)).mpr henough
  have hbound : drawBound ctx = ctx.partitionNum / ctx.coordinatorNum - 1 :=
    sizeSub_one_of_pos hper (lt_of_le_of_lt (Nat.div_le_self _ _) h.partitionNum_lt)
  have hlt := strided_lt (k := ctx.coordinatorNum) (n := ctx.partitionNum)
    (show r + 1 ≤ _ by have := hr.2; omega) h.coordinatorId_lt
  unfold partitionId
  rw [mod_size_of_lt (by have := h.partitionNum_lt; omega)]
  refine ⟨hlt, ?_⟩
  rw [Nat.mul_comm, Nat.mul_add_mod, Nat.mod_eq_of_lt h.coordinatorId_lt]

/-- The C-phase partition of worker `id` lies in its own block, once every
worker has at least one partition. -/
theorem cPhasePartitionId_spec {ctx : Context} {coordinatorId id : Nat}
    (h : Admits ctx coordinatorId id) (henough : ctx.workerNum ≤ ctx.partitionNum)
    (hdiv : ctx.partitionNum % ctx.workerNum = 0)
    {r : Nat} (hr : UniformDraw 0 (cPhaseDrawBound ctx) r) :
    id * partitionNumPerThread ctx ≤ cPhasePartitionId ctx id r ∧
      cPhasePartitionId ctx id r < (id + 1) * partitionNumPerThread ctx ∧
      cPhasePartitionId ctx id r < ctx.partitionNum := by
  have hw : 0 < ctx.workerNum := by have := h.id_lt; omega
  have hper : 1 ≤ partitionNumPerThread ctx := (Nat.one_le_div_iff hw).mpr henough
  have hbound : cPhaseDrawBound ctx = partitionNumPerThread ctx - 1 :=
    sizeSub_one_of_pos hper
      (lt_of_le_of_lt (Nat.div_le_self _ _) h.partitionNum_lt)
  have hblocks : ctx.workerNum * partitionNumPerThread ctx = ctx.partitionNum :=
    Nat.mul_div_cancel' (Nat.dvd_of_mod_eq_zero hdiv)
  have hid : (id + 1) * partitionNumPerThread ctx ≤ ctx.partitionNum :=
    hblocks ▸ Nat.mul_le_mul_right _ h.id_lt
  have hr' : r < partitionNumPerThread ctx := by have := hr.2; omega
  have hlast : id * partitionNumPerThread ctx + r < (id + 1) * partitionNumPerThread ctx := by
    rw [Nat.add_mul, Nat.one_mul]; omega
  unfold cPhasePartitionId
  rw [mod_size_of_lt (by have := h.partitionNum_lt; omega)]
  exact ⟨Nat.le_add_right _ _, hlast, by omega⟩

/-- The S-phase partition is below `partition_num`, and distinct for distinct
(coordinator, worker) pairs, once there are `worker_num * coordinator_num`
partitions. -/
theorem sPhasePartitionId_spec {ctx : Context} {coordinatorId id : Nat}
    (h : Admits ctx coordinatorId id)
    (henough : ctx.workerNum * ctx.coordinatorNum ≤ ctx.partitionNum) :
    sPhasePartitionId ctx coordinatorId id < ctx.partitionNum ∧
      ∀ coordinatorId' id', Admits ctx coordinatorId' id' →
        sPhasePartitionId ctx coordinatorId id = sPhasePartitionId ctx coordinatorId' id' →
          coordinatorId = coordinatorId' ∧ id = id' := by
  have hlt : ∀ c i, Admits ctx c i → i * ctx.coordinatorNum + c < ctx.partitionNum :=
    fun c i hci => lt_of_lt_of_le
      (strided_lt (n := ctx.workerNum * ctx.coordinatorNum)
        (by rw [Nat.mul_div_cancel _ (by have := hci.coordinatorNum_pos; omega)]
            exact hci.id_lt) hci.coordinatorId_lt) henough
  have hval : ∀ c i, Admits ctx c i → sPhasePartitionId ctx c i = i * ctx.coordinatorNum + c :=
    fun c i hci => mod_size_of_lt (by have := hlt c i hci; have := h.partitionNum_lt; omega)
  refine ⟨hval _ _ h ▸ hlt _ _ h, fun c' i' h' heq => ?_⟩
  rw [hval _ _ h, hval _ _ h'] at heq
  have hc : coordinatorId = c' := by
    have := congrArg (· % ctx.coordinatorNum) heq
    simpa [Nat.mul_comm _ ctx.coordinatorNum, Nat.mul_add_mod,
      Nat.mod_eq_of_lt h.coordinatorId_lt, Nat.mod_eq_of_lt h'.coordinatorId_lt] using this
  subst hc
  have hmul : id * ctx.coordinatorNum = i' * ctx.coordinatorNum := by omega
  exact ⟨rfl, Nat.eq_of_mul_eq_mul_right h.coordinatorNum_pos hmul⟩

/-- The partition ranges hold for every admitted configuration with enough
partitions: as many as coordinators for `Executor::start`, at least one per
worker for the C-phase, and `worker_num * coordinator_num` for the S-phase. -/
theorem partition_ranges_with_enough_partitions (ctx : Context) (coordinatorId id : Nat)
    (h : Admits ctx coordinatorId id) :
    (ctx.coordinatorNum ≤ ctx.partitionNum → ∀ r, UniformDraw 0 (drawBound ctx) r →
      partitionId ctx coordinatorId r < ctx.partitionNum ∧
        partitionId ctx coordinatorId r % ctx.coordinatorNum = coordinatorId) ∧
    (ctx.workerNum ≤ ctx.partitionNum → ctx.partitionNum % ctx.workerNum = 0 →
      ∀ r, UniformDraw 0 (cPhaseDrawBound ctx) r →
        id * partitionNumPerThread ctx ≤ cPhasePartitionId ctx id r ∧
          cPhasePartitionId ctx id r < (id + 1) * partitionNumPerThread ctx ∧
          cPhasePartitionId ctx id r < ctx.partitionNum) ∧
    (ctx.workerNum * ctx.coordinatorNum ≤ ctx.partitionNum →
      sPhasePartitionId ctx coordinatorId id < ctx.partitionNum ∧
        ∀ coordinatorId' id', Admits ctx coordinatorId' id' →
          sPhasePartitionId ctx coordinatorId id = sPhasePartitionId ctx coordinatorId' id' →
            coordinatorId = coordinatorId' ∧ id = id') :=
  ⟨fun he _ hr => partitionId_spec h he hr,
   fun he hdiv _ hr => cPhasePartitionId_spec h he hdiv hr,
   fun he => sPhasePartitionId_spec h he⟩

/-- Two coordinators with two workers each and four partitions. -/
theorem partition_ranges_four_partitions :
    Admits ⟨4, 2, 2⟩ 1 1 ∧
      ((2 ≤ 4 → ∀ r, UniformDraw 0 (drawBound ⟨4, 2, 2⟩) r →
        partitionId ⟨4, 2, 2⟩ 1 r < 4 ∧ partitionId ⟨4, 2, 2⟩ 1 r % 2 = 1) ∧
      (2 ≤ 4 → 4 % 2 = 0 → ∀ r, UniformDraw 0 (cPhaseDrawBound ⟨4, 2, 2⟩) r →
        1 * partitionNumPerThread ⟨4, 2, 2⟩ ≤ cPhasePartitionId ⟨4, 2, 2⟩ 1 r ∧
          cPhasePartitionId ⟨4, 2, 2⟩ 1 r < (1 + 1) * partitionNumPerThread ⟨4, 2, 2⟩ ∧
          cPhasePartitionId ⟨4, 2, 2⟩ 1 r < 4) ∧
      (2 * 2 ≤ 4 → sPhasePartitionId ⟨4, 2, 2⟩ 1 1 < 4 ∧
        ∀ coordinatorId' id', Admits ⟨4, 2, 2⟩ coordinatorId' id' →
          sPhasePartitionId ⟨4, 2, 2⟩ 1 1 = sPhasePartitionId ⟨4, 2, 2⟩ coordinatorId' id' →
            1 = coordinatorId' ∧ 1 = id')) :=
  ⟨by decide, partition_ranges_with_enough_partitions ⟨4, 2, 2⟩ 1 1 (by decide)⟩

end Coco.Worker
