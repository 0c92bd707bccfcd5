import Cscrypto.Memory.Owners

namespace Cscrypto

open Cscrypto.Data

/-! # Guards as values

Because a block has one owner, a guard can be taken for the block itself: what
the operations do with pointers is what they do with the values of `MemGuard`.
-/

namespace MemGuard

/-- One operation on guards that are values. -/
def step (guards : Store (MemGuard size)) : GuardStep → Store (MemGuard size)
  | .construct => guards.alloc (.new size)
  | .moveConstruct rhs =>
      match guards.find rhs with
      | none => guards
      | some value => (guards.alloc value).set rhs ⟨none⟩
  | .moveAssign this rhs =>
      match guards.find this, guards.find rhs with
      | some _, some value => if this = rhs then guards else (guards.set this value).set rhs ⟨none⟩
      | _, _ => guards
  | .clear this =>
      match guards.find this with
      | none => guards
      | some own => guards.set this own.clear
  | .destroy this => guards.free this

end MemGuard

namespace Memory

/-- The guard behind a pointer. -/
def valueOf (memory : Memory size) (mem : Option Nat) : MemGuard size :=
  ⟨mem.bind memory.blocks.find⟩

/-- Every guard that is alive is the value behind its pointer. -/
structure Views (memory : Memory size) (guards : Store (MemGuard size)) : Prop where
  find : ∀ guard, guards.find guard = (memory.guards.find guard).map memory.valueOf
  fresh : guards.fresh = memory.guards.fresh

variable {memory next : Memory size} {guards : Store (MemGuard size)}

theorem Views.found (views : memory.Views guards) {guard : Nat} {mem : Option Nat}
    (live : memory.guards.find guard = some mem) :
    guards.find guard = some (memory.valueOf mem) := by
  rw [views.find, live, Option.map_some]

/-- A block that is still allocated is the same value. -/
theorem valueOf_congr {mem : Option Nat}
    (kept : ∀ block, mem = some block → next.blocks.find block = memory.blocks.find block) :
    next.valueOf mem = memory.valueOf mem := by
  cases mem with
  | none => rfl
  | some block => exact congrArg MemGuard.mk (kept block rfl)

theorem Views.construct (views : memory.Views guards) (owner : memory.OneOwner) :
    memory.construct.Views (guards.alloc (.new size)) := by
  refine ⟨?_, ?_⟩
  · intro guard
    rw [Store.find_alloc, Memory.construct, Store.find_alloc, views.fresh]
    split
    · rw [Option.map_some, valueOf, Option.bind_some, Store.find_alloc_fresh]
      rfl
    · rw [views.find]
      cases live : memory.guards.find guard with
      | none => rfl
      | some mem =>
          refine congrArg some (valueOf_congr ?_).symm
          rintro block rfl
          obtain ⟨found, at_block⟩ := owner.live live
          rw [at_block]
          exact Store.find_alloc_of_find at_block
  · rw [Store.fresh_alloc, Memory.construct, Store.fresh_alloc, views.fresh]

theorem Views.set (views : memory.Views guards) {this : Nat} {old : Option Nat}
    (live : memory.guards.find this = some old) (mem : Option Nat) :
    (memory.setMem this mem).Views (guards.set this (memory.valueOf mem)) := by
  refine ⟨?_, ?_⟩
  · intro guard
    by_cases same : guard = this
    · subst same
      rw [Store.find_set_self (views.found live), setMem, Store.find_set_self live]
      rfl
    · rw [Store.find_set_of_ne same, setMem, Store.find_set_of_ne same]
      exact views.find guard
  · rw [Store.fresh_set, setMem, Store.fresh_set, views.fresh]

theorem Views.alloc (views : memory.Views guards) (mem : Option Nat) :
    Views { memory with guards := memory.guards.alloc mem } (guards.alloc (memory.valueOf mem)) := by
  refine ⟨?_, ?_⟩
  · intro guard
    rw [Store.find_alloc, Store.find_alloc, views.fresh]
    split
    · rfl
    · exact views.find guard
  · rw [Store.fresh_alloc, Store.fresh_alloc, views.fresh]

theorem Views.free (views : memory.Views guards) (this : Nat) :
    Views { memory with guards := memory.guards.free this } (guards.free this) := by
  refine ⟨?_, ?_⟩
  · intro guard
    by_cases same : guard = this
    · rw [same, Store.find_free_self, Store.find_free_self]
      rfl
    · rw [Store.find_free_of_ne same, Store.find_free_of_ne same]
      exact views.find guard
  · rw [Store.fresh_free, Store.fresh_free, views.fresh]

/-- Freeing the block of one guard changes the value of no other. -/
theorem Views.clear (views : memory.Views guards) (owner : memory.OneOwner) {this : Nat}
    {own : Option Nat} (live : memory.guards.find this = some own)
    (ran : memory.clear this own = .ok next) : next.Views (guards.set this ⟨none⟩) := by
  obtain ⟨freed, released, same⟩ := bind_eq_ok.mp ran
  cases same
  cases own with
  | none =>
      cases released
      exact views.set live none
  | some block =>
      obtain ⟨found, at_block⟩ := owner.live live
      rw [sodiumFree, at_block] at released
      cases released
      refine ⟨?_, ?_⟩
      · intro guard
        by_cases same : guard = this
        · subst same
          rw [Store.find_set_self (views.found live), setMem, Store.find_set_self live]
          rfl
        · rw [Store.find_set_of_ne same, setMem, Store.find_set_of_ne same, views.find]
          cases other : memory.guards.find guard with
          | none => rfl
          | some mem =>
              refine congrArg some (valueOf_congr ?_).symm
              rintro shared rfl
              refine Store.find_free_of_ne ?_
              intro shares
              subst shares
              exact same (owner.unique other live)
      · rw [Store.fresh_set, setMem, Store.fresh_set, views.fresh]

theorem Views.transfer (views : memory.Views guards) {this rhs : Nat} {own mem : Option Nat}
    (different : rhs ≠ this) (live : memory.guards.find this = some own)
    (source : memory.guards.find rhs = some mem) :
    ((memory.setMem this mem).setMem rhs none).Views
      ((guards.set this (memory.valueOf mem)).set rhs ⟨none⟩) :=
  (views.set live mem).set ((Store.find_set_of_ne different).trans source) none

theorem Views.moveConstruct (views : memory.Views guards) {rhs : Nat} {mem : Option Nat}
    (live : memory.guards.find rhs = some mem) :
    (memory.moveConstruct rhs mem).Views ((guards.alloc (memory.valueOf mem)).set rhs ⟨none⟩) :=
  (views.alloc mem).set (Store.find_alloc_of_find live) none

theorem Views.moveAssign (views : memory.Views guards) (owner : memory.OneOwner) {this rhs : Nat}
    {own mem : Option Nat} (live : memory.guards.find this = some own)
    (source : memory.guards.find rhs = some mem)
    (ran : memory.moveAssign this rhs own mem = .ok next) :
    next.Views (if this = rhs then guards
      else (guards.set this (memory.valueOf mem)).set rhs ⟨none⟩) := by
  rw [Memory.moveAssign] at ran
  split at ran
  · rename_i apart
    have different : rhs ≠ this := Store.ne_of_find source live apart
    obtain ⟨cleared, clearing, same⟩ := bind_eq_ok.mp ran
    cases same
    obtain ⟨_, ran', _, kept⟩ := owner.clear live
    cases ran'.symm.trans clearing
    have viewed := views.clear owner live clearing
    have source' : cleared.guards.find rhs = some mem := by
      rw [kept, Store.find_set_of_ne different, source]
    -- the block that is handed over is not the one that was freed
    have value : cleared.valueOf mem = memory.valueOf mem := by
      have found := viewed.found source'
      rw [Store.find_set_of_ne different, views.found source] at found
      exact (Option.some.inj found).symm
    have moved := viewed.transfer different (by rw [kept, Store.find_set_self live]) source'
    rw [value, Store.set_set] at moved
    rwa [if_neg (Ne.symm different)]
  · rename_i same
    cases ran
    cases not_not.mp same
    split
    · exact views
    · rename_i apart
      cases own with
      | some block => exact absurd (owner.unique live source) apart
      | none =>
          have here : guards.find this = some ⟨none⟩ := views.found live
          have there : guards.find rhs = some ⟨none⟩ := views.found source
          rw [show memory.valueOf none = ⟨none⟩ from rfl, Store.set_eq_self here,
            Store.set_eq_self there]
          exact views

/-- Every operation does to the values what `MemGuard.step` says. -/
theorem Views.step (views : memory.Views guards) (owner : memory.OneOwner) {action : GuardStep}
    (stepped : memory.step action = .ok next) : next.Views (MemGuard.step guards action) := by
  cases action with
  | construct =>
      cases stepped
      exact views.construct owner
  | moveConstruct rhs =>
      rw [Memory.step] at stepped
      rw [MemGuard.step, views.find]
      cases live : memory.guards.find rhs with
      | none =>
          rw [live] at stepped
          cases stepped
          exact views
      | some mem =>
          rw [live] at stepped
          cases stepped
          exact views.moveConstruct live
  | moveAssign this rhs =>
      rw [Memory.step] at stepped
      rw [MemGuard.step, views.find, views.find]
      cases live : memory.guards.find this with
      | none =>
          rw [live] at stepped
          cases stepped
          exact views
      | some own =>
          cases source : memory.guards.find rhs with
          | none =>
              rw [live, source] at stepped
              cases stepped
              exact views
          | some mem =>
              rw [live, source] at stepped
              exact views.moveAssign owner live source stepped
  | clear this =>
      rw [Memory.step] at stepped
      rw [MemGuard.step, views.find]
      cases live : memory.guards.find this with
      | none =>
          rw [live] at stepped
          cases stepped
          exact views
      | some own =>
          rw [live] at stepped
          exact views.clear owner live stepped
  | destroy this =>
      rw [Memory.step] at stepped
      rw [MemGuard.step]
      cases live : memory.guards.find this with
      | none =>
          rw [live] at stepped
          cases stepped
          have absent : guards.find this = none := by rw [views.find, live, Option.map_none]
          rwa [Store.free_eq_self absent]
      | some own =>
          rw [live] at stepped
          obtain ⟨cleared, clearing, same⟩ := bind_eq_ok.mp stepped
          cases same
          have viewed := (views.clear owner live clearing).free this
          rwa [Store.free_set] at viewed

/-- A run on pointers is a run on values. -/
theorem run_views (size : Nat) (actions : List GuardStep) :
    ∃ last, actions.foldlM step (empty : Memory size) = .ok last ∧
      last.Views (actions.foldl MemGuard.step .empty) := by
  have simulates : ∀ (memory : Memory size) guards, memory.OneOwner → memory.Views guards →
      ∃ last, actions.foldlM step memory = .ok last ∧
        last.Views (actions.foldl MemGuard.step guards) := by
    induction actions with
    | nil => exact fun memory guards _ views => ⟨memory, rfl, views⟩
    | cons action rest ih =>
        intro memory guards owner views
        obtain ⟨next, stepped, owner'⟩ := owner.step action
        obtain ⟨last, ran, viewed⟩ := ih next _ owner' (views.step owner stepped)
        exact ⟨last, foldlM_cons_ok.mpr ⟨next, stepped, ran⟩, viewed⟩
  exact simulates empty .empty empty_oneOwner ⟨fun _ => rfl, rfl⟩

end Memory

end Cscrypto
