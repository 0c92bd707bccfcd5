import Cscrypto.Core.Types
import Cscrypto.Data.Run
import Cscrypto.Data.Store
import Cscrypto.Memory.Guard

namespace Cscrypto

open Cscrypto.Data

/-! # Access guards that are moved

`MemAccessGuard` with its pointer.  Its move constructor has the text of the
assignment, and so reads and locks what is in the new object before it has a
value.  A state records every change of protection together with the block of
the guard that made it.
-/

/-- A call of `sodium_mprotect_*`. `owned` is the block of the guard that calls
it: none as long as its member has no value. -/
structure ProtectionChange where
  owned : Option Nat
  target : Option Nat

/-- The key blocks, `mem_` of the guards that are alive, and the changes so far. -/
structure GuardedKeys where
  blocks : Store Protection
  guards : Store (Option Nat)
  changes : List ProtectionChange

/-- `garbage` is what the member of a new guard holds before it has a value. -/
inductive MoveStep where
  | construct (block : Nat)
  | moveConstruct (rhs : Nat) (garbage : Option Nat)
  | moveAssign (this rhs : Nat)
  | destroy (this : Nat)

namespace GuardedKeys

/-- A null pointer makes libsodium abort, and it reads the page in front of
any other one. -/
def mprotect (keys : GuardedKeys) (owned : Option Nat) (protection : Protection) :
    Option Nat → Except Fault GuardedKeys
  | none => .error .misuse
  | some block =>
      match keys.blocks.find block with
      | none => .error .accessViolation
      | some _ => .ok { keys with
          blocks := keys.blocks.set block protection
          changes := keys.changes ++ [⟨owned, some block⟩] }

/-- `MemAccessGuard(T* mem)`. -/
def construct (keys : GuardedKeys) (mem : Option Nat) : Except Fault GuardedKeys := do
  let keys ← keys.mprotect mem .readOnly mem
  return { keys with guards := keys.guards.alloc mem }

/-- `clear`, which keeps the pointer. -/
def clear (keys : GuardedKeys) (owned mem : Option Nat) : Except Fault GuardedKeys :=
  keys.mprotect owned .noAccess mem

/-- `MemAccessGuard(MemAccessGuard&& rhs)`; `mem` is `rhs.mem_`. -/
def moveConstruct (keys : GuardedKeys) (rhs : Nat) (mem garbage : Option Nat) :
    Except Fault GuardedKeys :=
  if mem ≠ garbage then do
    let keys ← keys.clear none garbage
    return { keys with guards := (keys.guards.alloc mem).set rhs none }
  else .ok { keys with guards := keys.guards.alloc garbage }

/-- `operator=(MemAccessGuard&& rhs)`; `own` is `mem_` and `mem` is `rhs.mem_`. -/
def moveAssign (keys : GuardedKeys) (this rhs : Nat) (own mem : Option Nat) :
    Except Fault GuardedKeys :=
  if mem ≠ own then do
    let keys ← keys.clear own own
    return { keys with guards := (keys.guards.set this mem).set rhs none }
  else .ok keys

/-- `~MemAccessGuard()`. -/
def destroy (keys : GuardedKeys) (this : Nat) (own : Option Nat) : Except Fault GuardedKeys := do
  let keys ← keys.clear own own
  return { keys with guards := keys.guards.free this }

/-- One operation on a key block or on guards that are alive; there is none on
others. -/
def step (keys : GuardedKeys) : MoveStep → Except Fault GuardedKeys
  | .construct block =>
      match keys.blocks.find block with
      | none => .ok keys
      | some _ => keys.construct (some block)
  | .moveConstruct rhs garbage =>
      match keys.guards.find rhs with
      | none => .ok keys
      | some mem => keys.moveConstruct rhs mem garbage
  | .moveAssign this rhs =>
      match keys.guards.find this, keys.guards.find rhs with
      | some own, some mem => keys.moveAssign this rhs own mem
      | _, _ => .ok keys
  | .destroy this =>
      match keys.guards.find this with
      | none => .ok keys
      | some own => keys.destroy this own

/-- The guard changes the protection of a block that it owns. -/
def OnOwned (change : ProtectionChange) : Prop :=
  change.target ≠ none ∧ change.target = change.owned

/-- After a move the new owner has the block and the old one nothing; a guard
that is moved to itself keeps its block. -/
def Moved (before after : GuardedKeys) : MoveStep → Prop
  | .moveConstruct rhs _ => ∀ mem, before.guards.find rhs = some mem →
      after.guards.find before.guards.fresh = some mem ∧ after.guards.find rhs = some none
  | .moveAssign this rhs => ∀ own mem, before.guards.find this = some own →
      before.guards.find rhs = some mem →
        if this = rhs then after.guards.find this = some own
        else after.guards.find this = some mem ∧ after.guards.find rhs = some none
  | _ => True

def Proper (before : GuardedKeys) (action : MoveStep) : Prop :=
  ∃ after, before.step action = .ok after ∧
    (∃ changes, after.changes = before.changes ++ changes ∧ ∀ change ∈ changes, OnOwned change) ∧
    Moved before after action

/-- Nothing that a new object holds is taken for a block, and every guard that
is destroyed or assigned to owns a block. -/
def KeepsToOwn (keys : GuardedKeys) : MoveStep → Prop
  | .construct _ => True
  | .moveConstruct rhs garbage => ∀ mem, keys.guards.find rhs = some mem →
      mem = none ∧ garbage = none
  | .moveAssign this rhs => ∀ own mem, keys.guards.find this = some own →
      keys.guards.find rhs = some mem →
        this = rhs ∨ (own = none ∧ mem = none) ∨ (own ≠ none ∧ own ≠ mem)
  | .destroy this => ∀ own, keys.guards.find this = some own → own ≠ none

/-- What a guard has is a key block. -/
def Known (keys : GuardedKeys) : Prop :=
  ∀ guard block, keys.guards.find guard = some (some block) →
    ∃ protection, keys.blocks.find block = some protection

variable {keys next : GuardedKeys}

theorem mprotect_ok {owned target : Option Nat} {protection : Protection}
    (ran : keys.mprotect owned protection target = .ok next) :
    ∃ block before, target = some block ∧ keys.blocks.find block = some before ∧
      next = { keys with
        blocks := keys.blocks.set block protection
        changes := keys.changes ++ [⟨owned, some block⟩] } := by
  cases target with
  | none => contradiction
  | some block =>
      rw [mprotect] at ran
      cases found : keys.blocks.find block with
      | none =>
          rw [found] at ran
          contradiction
      | some before =>
          rw [found] at ran
          cases ran
          exact ⟨block, before, rfl, found, rfl⟩

theorem mprotect_eq {owned : Option Nat} {protection before : Protection} {block : Nat}
    (found : keys.blocks.find block = some before) :
    keys.mprotect owned protection (some block) = .ok { keys with
      blocks := keys.blocks.set block protection
      changes := keys.changes ++ [⟨owned, some block⟩] } := by
  rw [mprotect, found]

theorem changes_onOwned {changes : List ProtectionChange} {change : ProtectionChange} :
    (∃ more, changes ++ [change] = changes ++ more ∧ ∀ other ∈ more, OnOwned other) ↔
      OnOwned change := by
  constructor
  · intro given
    obtain ⟨more, same, every⟩ := given
    rw [← List.append_cancel_left same] at every
    exact every change List.mem_cons_self
  · intro owned
    refine ⟨[change], rfl, ?_⟩
    intro other member
    rwa [List.mem_singleton.mp member]

theorem proper_of_unchanged {action : MoveStep} (ran : keys.step action = .ok next)
    (changes : next.changes = keys.changes) (moved : Moved keys next action) :
    keys.Proper action :=
  ⟨next, ran, ⟨[], by rw [changes, List.append_nil], fun _ member => by cases member⟩, moved⟩

/-- What is left by a guard that changes the protection of its own block. -/
def changed (keys : GuardedKeys) (block : Nat) (protection : Protection)
    (guards : Store (Option Nat)) : GuardedKeys where
  blocks := keys.blocks.set block protection
  guards := guards
  changes := keys.changes ++ [⟨some block, some block⟩]

theorem proper_of_changed {action : MoveStep} {block : Nat} {protection : Protection}
    {guards : Store (Option Nat)} (ran : keys.step action = .ok (keys.changed block protection guards))
    (moved : Moved keys (keys.changed block protection guards) action) : keys.Proper action :=
  ⟨_, ran, changes_onOwned.mpr ⟨Option.some_ne_none block, rfl⟩, moved⟩

theorem proper_construct (keys : GuardedKeys) (block : Nat) : keys.Proper (.construct block) := by
  cases found : keys.blocks.find block with
  | none => exact proper_of_unchanged (by rw [step, found]) rfl trivial
  | some before =>
      have ran : keys.step (.construct block) =
          .ok (keys.changed block .readOnly (keys.guards.alloc (some block))) := by
        simp only [step, found, construct, mprotect_eq found, ok_bind, pure_eq_ok, changed]
      exact proper_of_changed ran trivial

theorem proper_moveConstruct {rhs : Nat} {mem garbage : Option Nat}
    (live : keys.guards.find rhs = some mem) :
    keys.Proper (.moveConstruct rhs garbage) ↔ mem = none ∧ garbage = none := by
  by_cases same : mem = garbage
  · subst same
    have ran : keys.step (.moveConstruct rhs mem) =
        .ok { keys with guards := keys.guards.alloc mem } := by
      simp only [step, live, moveConstruct, ne_eq, not_true_eq_false, if_false]
    have kept : (keys.guards.alloc mem).find rhs = some mem := Store.find_alloc_of_find live
    constructor
    · intro proper
      obtain ⟨after, stepped, _, moved⟩ := proper
      cases ran.symm.trans stepped
      have emptied := (moved mem live).2
      have none_mem : mem = none := Option.some.inj (kept.symm.trans emptied)
      exact ⟨none_mem, none_mem⟩
    · intro given
      refine proper_of_unchanged ran rfl ?_
      intro other found
      cases live.symm.trans found
      rw [given.1] at kept ⊢
      exact ⟨Store.find_alloc_fresh, kept⟩
  · -- the constructor locks what it takes for its block
    refine iff_of_false ?_ (fun given => same (given.1.trans given.2.symm))
    intro proper
    obtain ⟨after, stepped, changes, _⟩ := proper
    simp only [step, live, moveConstruct, ne_eq, same, not_false_eq_true, if_true] at stepped
    obtain ⟨cleared, ran, rest⟩ := bind_eq_ok.mp stepped
    obtain ⟨block, before, rfl, found, rfl⟩ := mprotect_ok ran
    cases rest
    have owned := (changes_onOwned.mp changes).2
    contradiction

theorem proper_moveAssign (known : keys.Known) {this rhs : Nat} {own mem : Option Nat}
    (live : keys.guards.find this = some own) (source : keys.guards.find rhs = some mem) :
    keys.Proper (.moveAssign this rhs) ↔
      this = rhs ∨ (own = none ∧ mem = none) ∨ (own ≠ none ∧ own ≠ mem) := by
  by_cases same : mem = own
  · subst same
    have ran : keys.step (.moveAssign this rhs) = .ok keys := by
      simp only [step, live, source, moveAssign, ne_eq, not_true_eq_false, if_false]
    constructor
    · intro proper
      obtain ⟨after, stepped, _, moved⟩ := proper
      cases ran.symm.trans stepped
      by_cases self : this = rhs
      · exact .inl self
      · have emptied := moved mem mem live source
        rw [if_neg self] at emptied
        have none_mem : mem = none := Option.some.inj (source.symm.trans emptied.2)
        exact .inr (.inl ⟨none_mem, none_mem⟩)
    · intro given
      refine proper_of_unchanged ran rfl ?_
      intro first second found found'
      cases live.symm.trans found
      cases source.symm.trans found'
      split
      · exact live
      · rename_i apart
        rcases given with self | ⟨nothing, _⟩ | ⟨_, different⟩
        · exact absurd self apart
        · exact ⟨live, nothing ▸ source⟩
        · exact absurd rfl different
  · have apart : rhs ≠ this := Store.ne_of_find source live same
    cases own with
    | none =>
        refine iff_of_false ?_ ?_
        · intro proper
          obtain ⟨after, stepped, _, _⟩ := proper
          simp only [step, live, source, moveAssign, ne_eq, same, not_false_eq_true,
            if_true] at stepped
          contradiction
        · intro given
          rcases given with self | ⟨_, nothing⟩ | ⟨something, _⟩
          · exact apart self.symm
          · exact same nothing
          · exact something rfl
    | some block =>
        refine iff_of_true ?_ (.inr (.inr ⟨Option.some_ne_none block, Ne.symm same⟩))
        obtain ⟨before, found⟩ := known this block live
        have ran : keys.step (.moveAssign this rhs) =
            .ok (keys.changed block .noAccess ((keys.guards.set this mem).set rhs none)) := by
          simp only [step, live, source, moveAssign, ne_eq, same, not_false_eq_true, if_true, clear,
            mprotect_eq found, ok_bind, pure_eq_ok, changed]
        refine proper_of_changed ran ?_
        intro first second found found'
        cases live.symm.trans found
        cases source.symm.trans found'
        rw [if_neg (Ne.symm apart)]
        constructor
        · exact (Store.find_set_of_ne (Ne.symm apart)).trans (Store.find_set_self live)
        · exact Store.find_set_self ((Store.find_set_of_ne apart).trans source)

theorem proper_destroy (known : keys.Known) {this : Nat} {own : Option Nat}
    (live : keys.guards.find this = some own) :
    keys.Proper (.destroy this) ↔ own ≠ none := by
  cases own with
  | none =>
      refine iff_of_false ?_ (fun given => given rfl)
      intro proper
      obtain ⟨after, stepped, _, _⟩ := proper
      simp only [step, live] at stepped
      contradiction
  | some block =>
      refine iff_of_true ?_ (Option.some_ne_none block)
      obtain ⟨before, found⟩ := known this block live
      have ran : keys.step (.destroy this) =
          .ok (keys.changed block .noAccess (keys.guards.free this)) := by
        simp only [step, live, destroy, clear, mprotect_eq found, ok_bind, pure_eq_ok, changed]
      exact proper_of_changed ran trivial

theorem proper_iff (known : keys.Known) (action : MoveStep) :
    keys.Proper action ↔ keys.KeepsToOwn action := by
  cases action with
  | construct block => exact iff_of_true (proper_construct keys block) trivial
  | moveConstruct rhs garbage =>
      cases live : keys.guards.find rhs with
      | none =>
          refine iff_of_true (proper_of_unchanged (by rw [step, live]) rfl ?_) ?_ <;>
            (intro mem found; cases live.symm.trans found)
      | some mem =>
          rw [proper_moveConstruct live]
          exact ⟨fun given other found => by cases live.symm.trans found; exact given,
            fun given => given mem live⟩
  | moveAssign this rhs =>
      cases live : keys.guards.find this with
      | none =>
          refine iff_of_true (proper_of_unchanged (by rw [step, live]) rfl ?_) ?_ <;>
            (intro own mem found; cases live.symm.trans found)
      | some own =>
          cases source : keys.guards.find rhs with
          | none =>
              refine iff_of_true (proper_of_unchanged (by rw [step, live, source]) rfl ?_) ?_ <;>
                (intro own mem _ found; cases source.symm.trans found)
          | some mem =>
              rw [proper_moveAssign known live source]
              constructor
              · intro given first second found found'
                cases live.symm.trans found
                cases source.symm.trans found'
                exact given
              · exact fun given => given own mem live source
  | destroy this =>
      cases live : keys.guards.find this with
      | none =>
          refine iff_of_true (proper_of_unchanged (by rw [step, live]) rfl trivial) ?_
          intro own found
          cases live.symm.trans found
      | some own =>
          rw [proper_destroy known live]
          exact ⟨fun given other found => by cases live.symm.trans found; exact given,
            fun given => given own live⟩

def KnownBlock (keys : GuardedKeys) (mem : Option Nat) : Prop :=
  ∀ block, mem = some block → ∃ protection, keys.blocks.find block = some protection

theorem knownBlock_none (keys : GuardedKeys) : keys.KnownBlock none :=
  fun _ nothing => by contradiction

theorem Known.found (known : keys.Known) {guard : Nat} {mem : Option Nat}
    (live : keys.guards.find guard = some mem) : keys.KnownBlock mem := by
  intro block same
  exact known guard block (by rw [live, same])

theorem Known.alloc (known : keys.Known) {mem : Option Nat} (found : keys.KnownBlock mem) :
    Known { keys with guards := keys.guards.alloc mem } := by
  intro guard block live
  rcases Store.find_alloc_eq_some.mp live with ⟨_, same⟩ | ⟨_, before⟩
  · exact found block same.symm
  · exact known guard block before

theorem Known.set (known : keys.Known) {this : Nat} {old mem : Option Nat}
    (live : keys.guards.find this = some old) (found : keys.KnownBlock mem) :
    Known { keys with guards := keys.guards.set this mem } := by
  intro guard block owned
  rcases (Store.find_set_eq_some live).mp owned with ⟨_, same⟩ | ⟨_, before⟩
  · exact found block same.symm
  · exact known guard block before

theorem Known.free (known : keys.Known) (this : Nat) :
    Known { keys with guards := keys.guards.free this } :=
  fun guard block owned => known guard block (Store.find_of_find_free owned).2

/-- A change of protection leaves the pointers and the key blocks. -/
theorem Known.mprotect (known : keys.Known) {owned target : Option Nat}
    {protection : Protection} (ran : keys.mprotect owned protection target = .ok next) :
    next.Known ∧ next.guards = keys.guards ∧
      ∀ mem, keys.KnownBlock mem → next.KnownBlock mem := by
  obtain ⟨target, before, _, found, rfl⟩ := mprotect_ok ran
  have kept : ∀ mem, keys.KnownBlock mem → KnownBlock { keys with
      blocks := keys.blocks.set target protection
      changes := keys.changes ++ [⟨owned, some target⟩] } mem := by
    intro mem given block same
    obtain ⟨_, at_block⟩ := given block same
    exact Store.exists_find_set found at_block
  refine ⟨?_, rfl, kept⟩
  intro guard block live
  exact kept _ (known.found live) block rfl

theorem Known.step (known : keys.Known) {action : MoveStep} (ran : keys.step action = .ok next) :
    next.Known := by
  cases action with
  | construct block =>
      cases found : keys.blocks.find block with
      | none =>
          rw [GuardedKeys.step, found] at ran
          cases ran
          exact known
      | some before =>
          rw [GuardedKeys.step, found] at ran
          obtain ⟨opened, changed, same⟩ := bind_eq_ok.mp ran
          cases same
          obtain ⟨known', _, kept⟩ := known.mprotect changed
          refine known'.alloc (kept _ ?_)
          intro other same
          cases same
          exact ⟨before, found⟩
  | moveConstruct rhs garbage =>
      cases live : keys.guards.find rhs with
      | none =>
          rw [GuardedKeys.step, live] at ran
          cases ran
          exact known
      | some mem =>
          simp only [GuardedKeys.step, live, GuardedKeys.moveConstruct] at ran
          split at ran
          · obtain ⟨cleared, changed, same⟩ := bind_eq_ok.mp ran
            cases same
            obtain ⟨known', guards, kept⟩ := known.mprotect changed
            rw [← guards] at live
            exact (known'.alloc (known'.found live)).set (Store.find_alloc_of_find live)
              (knownBlock_none _)
          · rename_i same
            cases ran
            rw [← not_not.mp same]
            exact known.alloc (known.found live)
  | moveAssign this rhs =>
      rw [GuardedKeys.step] at ran
      split at ran
      · rename_i own mem live source
        rw [GuardedKeys.moveAssign] at ran
        split at ran
        · rename_i different
          obtain ⟨cleared, changed, same⟩ := bind_eq_ok.mp ran
          cases same
          obtain ⟨known', guards, kept⟩ := known.mprotect changed
          rw [← guards] at live source
          have apart : rhs ≠ this := Store.ne_of_find source live different
          exact (known'.set live (known'.found source)).set
            ((Store.find_set_of_ne apart).trans source) (knownBlock_none _)
        · cases ran
          exact known
      · cases ran
        exact known
  | destroy this =>
      cases live : keys.guards.find this with
      | none =>
          rw [GuardedKeys.step, live] at ran
          cases ran
          exact known
      | some own =>
          rw [GuardedKeys.step, live] at ran
          obtain ⟨cleared, changed, same⟩ := bind_eq_ok.mp ran
          cases same
          obtain ⟨known', _, _⟩ := known.mprotect changed
          exact known'.free this

/-- Before the first guard. -/
def unguarded (blocks : Store Protection) : GuardedKeys := ⟨blocks, .empty, []⟩

/-- Every protection change of a run is made by a guard on its own block, and
every move hands the block over, if and only if each step keeps to blocks that
are owned. -/
theorem access_guards_proper_iff (blocks : Store Protection) (actions : List MoveStep) :
    EveryStep step Proper (unguarded blocks) actions ↔
      EveryStep step KeepsToOwn (unguarded blocks) actions := by
  refine everyStep_congr_of_invariant (fun _ _ _ known ran => known.step ran)
    (fun _ action known => proper_iff known action) actions ?_
  intro guard block live
  contradiction

/-- A guard on the only key block, and a guard that is moved from it while its
own member happens to be null. -/
theorem moved_guard_locks_null : ¬EveryStep step Proper (unguarded ⟨[some .noAccess]⟩)
    [.construct 0, .moveConstruct 0 none] := by
  intro every
  obtain ⟨after, ran, _⟩ := (every.2 _ rfl).1
  contradiction

end GuardedKeys

end Cscrypto
