import Cscrypto.Data.Run
import Cscrypto.Data.Store
import Cscrypto.Memory.Guard

namespace Cscrypto

open Cscrypto.Data

/-! # Owners of guarded memory

`MemGuard` with its pointer.  Blocks are handed from guard to guard by
assignments of raw pointers; what makes a guard the only owner of its block is
that these assignments never leave two copies behind.
-/

/-- The blocks that `sodium_malloc` handed out and that are not freed, and
`mem_` of the guards that are alive; `none` is the null pointer. -/
structure Memory (size : Nat) where
  blocks : Store (Block size)
  guards : Store (Option Nat)

inductive GuardStep where
  | construct
  | moveConstruct (rhs : Nat)
  | moveAssign (this rhs : Nat)
  | clear (this : Nat)
  | destroy (this : Nat)

namespace Memory

def empty : Memory size := ⟨.empty, .empty⟩

/-- Freeing a block that is not allocated makes libsodium abort. -/
def sodiumFree (memory : Memory size) : Option Nat → Except Fault (Memory size)
  | none => .ok memory
  | some block =>
      match memory.blocks.find block with
      | none => .error .misuse
      | some _ => .ok { memory with blocks := memory.blocks.free block }

def setMem (memory : Memory size) (this : Nat) (mem : Option Nat) : Memory size :=
  { memory with guards := memory.guards.set this mem }

/-- `MemGuard()`, with `sodium_malloc`. -/
def construct (memory : Memory size) : Memory size where
  blocks := memory.blocks.alloc ⟨.replicate size 0xdb, .readWrite⟩
  guards := memory.guards.alloc (some memory.blocks.fresh)

def clear (memory : Memory size) (this : Nat) (mem : Option Nat) : Except Fault (Memory size) := do
  let memory ← memory.sodiumFree mem
  return memory.setMem this none

/-- `MemGuard(MemGuard&& rhs)`; `mem` is `rhs.mem_`. -/
def moveConstruct (memory : Memory size) (rhs : Nat) (mem : Option Nat) : Memory size :=
  { memory with guards := memory.guards.alloc mem }.setMem rhs none

/-- `operator=(MemGuard&& rhs)`; `own` is `mem_` and `mem` is `rhs.mem_`. -/
def moveAssign (memory : Memory size) (this rhs : Nat) (own mem : Option Nat) :
    Except Fault (Memory size) :=
  if mem ≠ own then do
    let memory ← memory.clear this own
    return (memory.setMem this mem).setMem rhs none
  else .ok memory

/-- `~MemGuard()`. -/
def destroy (memory : Memory size) (this : Nat) (own : Option Nat) :
    Except Fault (Memory size) := do
  let memory ← memory.clear this own
  return { memory with guards := memory.guards.free this }

/-- One operation on guards that are alive; there is none on others. -/
def step (memory : Memory size) : GuardStep → Except Fault (Memory size)
  | .construct => .ok memory.construct
  | .moveConstruct rhs =>
      match memory.guards.find rhs with
      | none => .ok memory
      | some mem => .ok (memory.moveConstruct rhs mem)
  | .moveAssign this rhs =>
      match memory.guards.find this, memory.guards.find rhs with
      | some own, some mem => memory.moveAssign this rhs own mem
      | _, _ => .ok memory
  | .clear this =>
      match memory.guards.find this with
      | none => .ok memory
      | some own => memory.clear this own
  | .destroy this =>
      match memory.guards.find this with
      | none => .ok memory
      | some own => memory.destroy this own

def Owns (memory : Memory size) (guard block : Nat) : Prop :=
  memory.guards.find guard = some (some block)

def Allocated (memory : Memory size) (block : Nat) : Prop := block < memory.blocks.fresh

/-- Addresses are not reused, so a block that was handed out and is gone was
freed. -/
def Freed (memory : Memory size) (block : Nat) : Prop :=
  memory.Allocated block ∧ memory.blocks.find block = none

/-- Every block is owned by exactly one guard or freed, and no guard has
anything else. -/
structure OneOwner (memory : Memory size) : Prop where
  live : ∀ {guard block}, memory.Owns guard block → ∃ found, memory.blocks.find block = some found
  unique : ∀ {left right block}, memory.Owns left block → memory.Owns right block → left = right
  kept : ∀ {block found}, memory.blocks.find block = some found → ∃ guard, memory.Owns guard block

variable {memory next : Memory size}

theorem owns_set {this guard block : Nat} {old mem : Option Nat}
    (live : memory.guards.find this = some old) :
    (memory.setMem this mem).Owns guard block ↔
      (guard = this ∧ mem = some block) ∨ (guard ≠ this ∧ memory.Owns guard block) := by
  rw [Owns, setMem, Store.find_set_eq_some live, Owns]
  exact or_congr_left (and_congr_right fun _ => eq_comm)

theorem empty_oneOwner : OneOwner (empty : Memory size) where
  live owns := by cases owns
  unique owns := by cases owns
  kept found := by cases found

theorem OneOwner.construct (owner : memory.OneOwner) : memory.construct.OneOwner := by
  have owns {guard block : Nat} : memory.construct.Owns guard block ↔
      (guard = memory.guards.fresh ∧ block = memory.blocks.fresh) ∨
        (guard ≠ memory.guards.fresh ∧ memory.Owns guard block) := by
    rw [Owns, Memory.construct, Store.find_alloc_eq_some, Option.some.injEq]
    rfl
  have old {guard block : Nat} (before : memory.Owns guard block) : block ≠ memory.blocks.fresh := by
    obtain ⟨found, at_block⟩ := owner.live before
    exact Store.ne_fresh at_block
  refine ⟨?_, ?_, ?_⟩
  · intro guard block owned
    rcases owns.mp owned with ⟨_, rfl⟩ | ⟨_, before⟩
    · exact ⟨_, Store.find_alloc_fresh⟩
    · obtain ⟨found, at_block⟩ := owner.live before
      exact ⟨found, Store.find_alloc_of_find at_block⟩
  · intro left right block first second
    rcases owns.mp first with ⟨rfl, rfl⟩ | ⟨_, first⟩ <;>
      rcases owns.mp second with ⟨rfl, same⟩ | ⟨_, second⟩
    · rfl
    · exact absurd rfl (old second)
    · exact absurd same (old first)
    · exact owner.unique first second
  · intro block found at_block
    rcases Store.find_alloc_eq_some.mp at_block with ⟨rfl, _⟩ | ⟨_, before⟩
    · exact ⟨_, owns.mpr (.inl ⟨rfl, rfl⟩)⟩
    · obtain ⟨guard, owned⟩ := owner.kept before
      exact ⟨guard, owns.mpr (.inr ⟨Store.ne_fresh owned, owned⟩)⟩

/-- `clear` of a live guard frees its block, if it has one, and nothing else. -/
theorem OneOwner.clear (owner : memory.OneOwner) {this : Nat} {own : Option Nat}
    (live : memory.guards.find this = some own) :
    ∃ next, memory.clear this own = .ok next ∧ next.OneOwner ∧
      next.guards = memory.guards.set this none := by
  cases own with
  | none =>
      refine ⟨memory.setMem this none, rfl, ?_, rfl⟩
      rwa [setMem, Store.set_eq_self live]
  | some block =>
      obtain ⟨found, at_block⟩ := owner.live live
      refine ⟨{ memory with blocks := memory.blocks.free block }.setMem this none, ?_, ?_, rfl⟩
      · simp only [Memory.clear, sodiumFree, at_block, ok_bind, pure_eq_ok]
      have owns {guard other : Nat} :
          ({ memory with blocks := memory.blocks.free block }.setMem this none).Owns guard other ↔
            guard ≠ this ∧ memory.Owns guard other := by
        have changed : _ ↔ _ := @owns_set size { memory with blocks := memory.blocks.free block }
          this guard other (some block) none live
        simpa [Owns] using changed
      have elsewhere {guard other : Nat} (different : guard ≠ this)
          (owned : memory.Owns guard other) : other ≠ block := by
        intro same
        subst same
        exact different (owner.unique owned live)
      refine ⟨?_, ?_, ?_⟩
      · intro guard other owned
        obtain ⟨different, before⟩ := owns.mp owned
        obtain ⟨found, at_other⟩ := owner.live before
        exact ⟨found, (Store.find_free_of_ne (elsewhere different before)).trans at_other⟩
      · intro left right other first second
        exact owner.unique (owns.mp first).2 (owns.mp second).2
      · intro other found at_other
        obtain ⟨different, before⟩ := Store.find_of_find_free at_other
        obtain ⟨guard, owned⟩ := owner.kept before
        refine ⟨guard, owns.mpr ⟨?_, owned⟩⟩
        intro same
        subst same
        exact different (Option.some.inj (Option.some.inj (owned.symm.trans live)))

/-- The two assignments of a move to a guard that has nothing. -/
theorem OneOwner.transfer (owner : memory.OneOwner) {this rhs : Nat} {mem : Option Nat}
    (different : rhs ≠ this) (empty : memory.guards.find this = some none)
    (live : memory.guards.find rhs = some mem) :
    ((memory.setMem this mem).setMem rhs none).OneOwner := by
  have kept : (memory.setMem this mem).guards.find rhs = some mem :=
    (Store.find_set_of_ne different).trans live
  have owns {guard block : Nat} : ((memory.setMem this mem).setMem rhs none).Owns guard block ↔
      guard ≠ rhs ∧ ((guard = this ∧ mem = some block) ∨
        (guard ≠ this ∧ memory.Owns guard block)) := by
    rw [owns_set kept, owns_set empty]
    simp
  -- what the new owner has is what `rhs` had
  have moved {guard block : Nat} (owned : ((memory.setMem this mem).setMem rhs none).Owns guard
      block) : (guard = this ∧ memory.Owns rhs block) ∨ (guard ≠ rhs ∧ memory.Owns guard block) := by
    rcases owns.mp owned with ⟨_, ⟨same, rfl⟩ | ⟨_, before⟩⟩
    · exact .inl ⟨same, live⟩
    · exact .inr ⟨by assumption, before⟩
  refine ⟨?_, ?_, ?_⟩
  · intro guard block owned
    rcases moved owned with ⟨_, before⟩ | ⟨_, before⟩ <;> exact owner.live before
  · intro left right block first second
    rcases moved first with ⟨atThis, fromRhs⟩ | ⟨apart, before⟩ <;>
      rcases moved second with ⟨atThis', fromRhs'⟩ | ⟨apart', before'⟩
    · rw [atThis, atThis']
    · exact absurd (owner.unique before' fromRhs) apart'
    · exact absurd (owner.unique before fromRhs') apart
    · exact owner.unique before before'
  · intro block found at_block
    obtain ⟨guard, owned⟩ := owner.kept at_block
    by_cases source : guard = rhs
    · subst source
      have same : mem = some block := Option.some.inj (live.symm.trans owned)
      exact ⟨this, owns.mpr ⟨Ne.symm different, .inl ⟨rfl, same⟩⟩⟩
    · refine ⟨guard, owns.mpr ⟨source, .inr ⟨?_, owned⟩⟩⟩
      intro target
      subst target
      cases empty.symm.trans owned

theorem OneOwner.congr (owner : memory.OneOwner) (blocks : next.blocks = memory.blocks)
    (owns : ∀ guard block, next.Owns guard block ↔ memory.Owns guard block) : next.OneOwner where
  live owned := by
    rw [blocks]
    exact owner.live ((owns _ _).mp owned)
  unique first second := owner.unique ((owns _ _).mp first) ((owns _ _).mp second)
  kept at_block := by
    rw [blocks] at at_block
    obtain ⟨guard, owned⟩ := owner.kept at_block
    exact ⟨guard, (owns _ _).mpr owned⟩

theorem OneOwner.allocNull (owner : memory.OneOwner) :
    OneOwner { memory with guards := memory.guards.alloc none } := by
  refine owner.congr rfl ?_
  intro guard block
  rw [Owns, Store.find_alloc_eq_some]
  constructor
  · intro owned
    rcases owned with ⟨_, nothing⟩ | ⟨_, before⟩
    · contradiction
    · exact before
  · exact fun before => .inr ⟨Store.ne_fresh before, before⟩

theorem OneOwner.freeNull (owner : memory.OneOwner) {this : Nat}
    (null : memory.guards.find this = some none) :
    OneOwner { memory with guards := memory.guards.free this } := by
  refine owner.congr rfl ?_
  intro guard block
  constructor
  · exact fun owned => (Store.find_of_find_free owned).2
  · intro before
    have different : guard ≠ this := by
      intro same
      subst same
      cases null.symm.trans before
    exact (Store.find_free_of_ne different).trans before

theorem OneOwner.moveConstruct (owner : memory.OneOwner) {rhs : Nat} {mem : Option Nat}
    (live : memory.guards.find rhs = some mem) : (memory.moveConstruct rhs mem).OneOwner := by
  have transferred := owner.allocNull.transfer (Store.ne_fresh live) Store.find_alloc_fresh
    (Store.find_alloc_of_find live)
  simpa only [Memory.moveConstruct, setMem, Store.set_alloc_fresh] using transferred

/-- Two guards with the same pointer are one guard, or have none. -/
theorem OneOwner.moveAssign (owner : memory.OneOwner) {this rhs : Nat} {own mem : Option Nat}
    (live : memory.guards.find this = some own) (source : memory.guards.find rhs = some mem) :
    ∃ next, memory.moveAssign this rhs own mem = .ok next ∧ next.OneOwner := by
  by_cases same : mem = own
  · refine ⟨memory, ?_, owner⟩
    rw [Memory.moveAssign, if_neg (not_not_intro same)]
  · obtain ⟨cleared, ran, kept, guards⟩ := owner.clear live
    have different : rhs ≠ this := Store.ne_of_find source live same
    refine ⟨(cleared.setMem this mem).setMem rhs none, ?_, ?_⟩
    · rw [Memory.moveAssign, if_pos same, ran, ok_bind, pure_eq_ok]
    · refine kept.transfer different ?_ ?_
      · rw [guards, Store.find_set_self live]
      · rw [guards, Store.find_set_of_ne different, source]

theorem OneOwner.destroy (owner : memory.OneOwner) {this : Nat} {own : Option Nat}
    (live : memory.guards.find this = some own) :
    ∃ next, memory.destroy this own = .ok next ∧ next.OneOwner := by
  obtain ⟨cleared, ran, kept, guards⟩ := owner.clear live
  refine ⟨{ cleared with guards := cleared.guards.free this }, ?_, kept.freeNull ?_⟩
  · rw [Memory.destroy, ran, ok_bind, pure_eq_ok]
  · rw [guards, Store.find_set_self live]

theorem OneOwner.step (owner : memory.OneOwner) (action : GuardStep) :
    ∃ next, memory.step action = .ok next ∧ next.OneOwner := by
  cases action with
  | construct => exact ⟨_, rfl, owner.construct⟩
  | moveConstruct rhs =>
      cases live : memory.guards.find rhs with
      | none => exact ⟨memory, by rw [Memory.step, live], owner⟩
      | some mem => exact ⟨_, by rw [Memory.step, live], owner.moveConstruct live⟩
  | moveAssign this rhs =>
      rw [Memory.step]
      cases live : memory.guards.find this with
      | none => exact ⟨memory, rfl, owner⟩
      | some own =>
          cases source : memory.guards.find rhs with
          | none => exact ⟨memory, rfl, owner⟩
          | some mem => exact owner.moveAssign live source
  | clear this =>
      rw [Memory.step]
      cases live : memory.guards.find this with
      | none => exact ⟨memory, rfl, owner⟩
      | some own =>
          obtain ⟨next, ran, kept, _⟩ := owner.clear live
          exact ⟨next, ran, kept⟩
  | destroy this =>
      rw [Memory.step]
      cases live : memory.guards.find this with
      | none => exact ⟨memory, rfl, owner⟩
      | some own => exact owner.destroy live

theorem OneOwner.owned_or_freed (owner : memory.OneOwner) {block : Nat}
    (allocated : memory.Allocated block) :
    (¬memory.Freed block ∧ ∃! guard, memory.Owns guard block) ∨
      (memory.Freed block ∧ ∀ guard, ¬memory.Owns guard block) := by
  cases at_block : memory.blocks.find block with
  | none =>
      refine .inr ⟨⟨allocated, at_block⟩, ?_⟩
      intro guard owned
      obtain ⟨found, still⟩ := owner.live owned
      cases at_block.symm.trans still
  | some found =>
      obtain ⟨guard, owned⟩ := owner.kept at_block
      refine .inl ⟨?_, guard, owned, fun other => (owner.unique · owned)⟩
      intro freed
      cases at_block.symm.trans freed.2

theorem OneOwner.all_freed (owner : memory.OneOwner)
    (gone : ∀ guard, memory.guards.find guard = none) {block : Nat}
    (allocated : memory.Allocated block) : memory.Freed block := by
  rcases owner.owned_or_freed allocated with ⟨_, guard, owned, _⟩ | ⟨freed, _⟩
  · cases (gone guard).symm.trans owned
  · exact freed

/-- Whatever is done with any number of guards, no block is freed twice, each
is owned by exactly one guard until it is freed, and none is left when the
guards are gone. -/
theorem one_owner (size : Nat) (actions : List GuardStep) :
    (∃ last, actions.foldlM step (empty : Memory size) = .ok last) ∧
      Always step (fun memory : Memory size =>
        (∀ block, memory.Allocated block →
          (¬memory.Freed block ∧ ∃! guard, memory.Owns guard block) ∨
            (memory.Freed block ∧ ∀ guard, ¬memory.Owns guard block)) ∧
        ((∀ guard, memory.guards.find guard = none) →
          ∀ block, memory.Allocated block → memory.Freed block)) empty actions := by
  constructor
  · obtain ⟨last, ran, _⟩ :=
      foldlM_succeeds (fun _ action owner => OneOwner.step owner action) actions empty_oneOwner
    exact ⟨last, ran⟩
  · have always : Always step OneOwner (empty : Memory size) actions := by
      refine always_of_invariant ?_ empty_oneOwner
      intro memory action next owner stepped
      obtain ⟨_, ran, kept⟩ := owner.step action
      cases ran.symm.trans stepped
      exact kept
    exact always.imp fun memory owner =>
      ⟨fun _ => owner.owned_or_freed, fun gone _ => owner.all_freed gone⟩

end Memory

end Cscrypto
