import Cscrypto.Memory.KeyLifetime

namespace Cscrypto

open Cscrypto.Data Cscrypto.KeysDerivation

/-! # When private keys are released

Nothing that a live object needs is freed before a counter overflows.  A key
block is freed with its last object in every run that never assigns a key to an
object that has it already.
-/

namespace Heap

variable {surplus : Nat → Nat} {limit : Nat} {heap : Heap}

/-- What the live objects point to is allocated. -/
def Alive (heap : Heap) : Prop :=
  ∀ this own, heap.handles.find this = some own →
    (∃ count, heap.counters.find own.ctr = some count) ∧
      ∀ block, own.mem = some block → ∃ found, heap.blocks.find block = some found

theorem Sharing.alive (sharing : Sharing surplus limit heap) (small : limit ≤ kMaxCount) :
    heap.Alive := by
  intro this own live
  obtain ⟨count, counted⟩ := sharing.counted small this own live
  exact ⟨⟨count, counted⟩, fun _ keyed =>
    sharing.allocated (sharing.valid this own live) counted keyed⟩

/-- An operation counts one object more at most. -/
theorem Sharing.room (sharing : Sharing surplus limit heap) (op : HandleOp) :
    Room surplus (limit + 1) heap op := by
  intro this own count _ _ counted
  exact Nat.succ_le_succ (sharing.bounds own.ctr count counted).2

theorem Sharing.step (sign : SignKeys) (sharing : Sharing surplus limit heap) (op : HandleOp) :
    Outcome surplus (limit + 1) heap (heap.SameKey op) (heap.handleStep sign op) :=
  handleStep_outcome sign (sharing.weaken (Nat.le_succ limit)) (Nat.succ_pos limit)
    (sharing.room op)

theorem run_ok (sign : SignKeys) {ops : List HandleOp} (sharing : Sharing surplus limit heap)
    (few : limit + ops.length ≤ kMaxCount) :
    ∃ heap', ops.foldlM (handleStep sign) heap = .ok heap' ∧ heap'.Alive := by
  induction ops generalizing surplus limit heap with
  | nil => exact ⟨heap, rfl, sharing.alive few⟩
  | cons op rest ih =>
      rw [List.length_cons] at few
      obtain ⟨next, stepped, surplus', shared, _, _⟩ :=
        (sharing.step sign op).advances (by omega)
      obtain ⟨last, ran, alive⟩ := ih shared (by omega)
      exact ⟨last, foldlM_cons_ok.mpr ⟨next, stepped, ran⟩, alive⟩

/-- Freeing what is freed already ends a run with a fault, so a run that
succeeds frees nothing twice. -/
theorem keys_stay_allocated (sign : SignKeys) (ops : List HandleOp)
    (few : ops.length < 2 ^ 32 - 1) :
    ∃ heap, ops.foldlM (handleStep sign) empty = .ok heap ∧ heap.Alive := by
  have room : 1 + ops.length ≤ kMaxCount := by
    unfold kMaxCount
    omega
  exact run_ok sign (empty_sharing 1) room

theorem keys_stay_allocated_over_a_move : ∃ heap,
    [HandleOp.construct, .generateWithPair (.replicate _ 7), .moveAssign 0 1, .destroy 1].foldlM
      (handleStep .transparent) empty = .ok heap ∧ heap.Alive :=
  keys_stay_allocated .transparent _ (by decide)

/-- The members of a key that no live object refers to are freed. -/
def Released (heap : Heap) : Prop :=
  ∀ key ∈ heap.made,
    (∀ this own, heap.handles.find this = some own → own.mem ≠ some key.block) →
      heap.blocks.find key.block = none ∧ heap.counters.find key.ctr = none

/-- Every counter of a key counts just its objects. -/
def Exact (heap : Heap) : Prop :=
  ∃ surplus limit, Sharing surplus limit heap ∧ Balanced surplus heap

theorem empty_exact : Exact empty := ⟨_, 0, empty_sharing _, fun _ member => by cases member⟩

theorem Exact.released (exact : heap.Exact) : heap.Released := by
  obtain ⟨surplus, limit, sharing, balanced⟩ := exact
  intro key member unreferenced
  have together := sharing.together key member
  cases counted : heap.counters.find key.ctr with
  | none =>
      rw [counted] at together
      exact ⟨Option.isNone_iff_eq_none.mp (Option.isSome_eq_false_iff.mp together), rfl⟩
  | some count =>
      have positive := (sharing.bounds key.ctr count counted).1
      rw [counting, balanced key member] at positive
      obtain ⟨this, own, live, same⟩ := Store.count_pos.mp positive
      exact absurd ((sharing.valid this own live).owned key member (of_decide_eq_true same).symm)
        (unreferenced this own live)

theorem Exact.step {sign : SignKeys} {op : HandleOp} {next : Heap} (exact : heap.Exact)
    (apart : ¬heap.SameKey op) (stepped : heap.handleStep sign op = .ok next) : next.Exact := by
  obtain ⟨surplus, limit, sharing, balanced⟩ := exact
  have outcome := sharing.step sign op
  rw [stepped] at outcome
  cases outcome with
  | ok advances =>
      obtain ⟨surplus', shared, _, keeps⟩ := advances
      exact ⟨surplus', _, shared, keeps balanced apart⟩

/-- The last object of a key releases it in every run without assignments
between objects of one key. -/
theorem keys_released (sign : SignKeys) (ops : List HandleOp)
    (apart : EveryStep (handleStep sign) (fun heap op => ¬heap.SameKey op) empty ops) :
    Always (handleStep sign) Released empty ops :=
  (EveryStep.always (fun _ _ _ => Exact.step) empty_exact apart).imp fun _ => Exact.released

theorem keys_released_after_a_copy :
    Always (handleStep .transparent) Released empty
      [.generateWithPair (.replicate _ 7), .copy 0, .destroy 0, .destroy 1] :=
  keys_released .transparent _ (by
    refine ⟨id, fun _ _ => ⟨id, fun _ _ => ⟨id, fun _ _ => ⟨id, fun _ _ => trivial⟩⟩⟩⟩)

/-- Assigning a key to itself increments its counter once too often. -/
theorem self_assignment_keeps_key :
    ¬Always (handleStep .transparent) Released empty
      [.generateWithPair (.replicate _ 7), .assign 0 0, .destroy 0] := by
  intro always
  have released : Released _ := ((always.2 _ rfl).2 _ rfl).2 _ rfl
  obtain ⟨freed, _⟩ := released _ List.mem_cons_self (by
    intro this own live
    have gone := Store.find_of_find_free live
    cases this with
    | zero => exact absurd rfl gone.1
    | succ this => cases gone.2)
  cases freed

end Heap

end Cscrypto
