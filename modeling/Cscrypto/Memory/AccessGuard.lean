import Cscrypto.Memory.KeyLifetime

namespace Cscrypto

open Cscrypto.Data

/-! # Access guards

A guard makes its key block readable when it is opened and locks it when it is
destroyed, whatever other guards of the block there are.  Calls on several
threads interleave here in any order.
-/

namespace Heap

/-- `PrivateKey::access()` and the constructor of `MemAccessGuard`. -/
def access (heap : Heap) (own : Handle) : Except Fault (Nat × Heap) :=
  match own.mem with
  | none => .error .misuse
  | some block => do
      let heap ← heap.mprotect .readOnly (some block)
      return (heap.guards.fresh, { heap with guards := heap.guards.alloc block })

/-- What the primitive finds behind `data()` of a guard. -/
def readGuard (heap : Heap) (block : Nat) : Except Fault SecretKey :=
  match heap.blocks.find block with
  | some ⟨content, .readWrite⟩ => .ok content
  | some ⟨content, .readOnly⟩ => .ok content
  | _ => .error .accessViolation

/-- `~MemAccessGuard()` of the guard on `block`. -/
def clearGuard (heap : Heap) (guard block : Nat) : Except Fault Heap := do
  let heap ← heap.mprotect .noAccess (some block)
  return { heap with guards := heap.guards.free guard }

end Heap

/-- The operations that open a guard. Each destroys it when it is done. -/
inductive Accessor where
  | getMatchingPublic
  | generateSignature
  | getEncrypted
  | getPubExchangeKey
  | getClientSessionKeys
  | getServerSessionKeys
  | getPubCipherKey
  | decryptData
  | user
deriving DecidableEq

/-- `mutex` is the guard of the call that holds `s_mutex`, the static mutex of
`generateSignature`. -/
structure Accesses where
  heap : Heap
  mutex : Option Nat

inductive AccessStep where
  | begin (accessor : Accessor) (this : Nat)
  | read (guard : Nat)
  | finish (guard : Nat)

namespace Accesses

/-- Opens a guard on the live object at `this`. -/
def opening (state : Accesses) (this : Nat) : Except Fault (Option Nat × Heap) :=
  match state.heap.handles.find this with
  | none => .ok (none, state.heap)
  | some own => do
      let (guard, heap) ← state.heap.access own
      return (some guard, heap)

def step (state : Accesses) : AccessStep → Except Fault Accesses
  | .begin .generateSignature this =>
      match state.mutex with
      | some _ => .ok state -- the call waits for the mutex
      | none => do
          let (guard, heap) ← state.opening this
          return ⟨heap, guard⟩
  | .begin _ this => do
      let (_, heap) ← state.opening this
      return { state with heap }
  | .read guard =>
      match state.heap.guards.find guard with
      | none => .ok state
      | some block => do
          let _ ← state.heap.readGuard block
          return state
  | .finish guard =>
      match state.heap.guards.find guard with
      | none => .ok state
      | some block => do
          let heap ← state.heap.clearGuard guard block
          return ⟨heap, if state.mutex = some guard then none else state.mutex⟩

/-- No guard is alive. -/
def idle (heap : Heap) : Accesses := ⟨{ heap with guards := .empty }, none⟩

/-- Every key block with a live guard can be read. -/
def Readable (state : Accesses) : Prop :=
  ∀ guard block, state.heap.guards.find guard = some block →
    ∃ content, state.heap.readGuard block = .ok content

/-- A guard is destroyed only when it is the last one of its block. -/
def ClosesLast (state : Accesses) : AccessStep → Prop
  | .finish guard => ∀ other block, state.heap.guards.find guard = some block →
      state.heap.guards.find other = some block → other = guard
  | _ => True

end Accesses

namespace Heap

variable {heap : Heap}

theorem readGuard_eq_ok {block : Nat} {content : SecretKey} :
    heap.readGuard block = .ok content ↔
      ∃ protection, heap.blocks.find block = some ⟨content, protection⟩ ∧ protection ≠ .noAccess := by
  rw [readGuard]
  rcases heap.blocks.find block with _ | ⟨found, _ | _ | _⟩ <;> simp

theorem mprotect_ok {block : Nat} {found : KeyBlock} (at_block : heap.blocks.find block = some found)
    (protection : Protection) : heap.mprotect protection (some block) =
      .ok { heap with blocks := heap.blocks.set block { found with protection } } := by
  rw [mprotect, at_block]

/-- What `access` leaves: the block readable and one guard more. -/
def accessed (heap : Heap) (block : Nat) (content : SecretKey) : Heap :=
  { heap with
    blocks := heap.blocks.set block ⟨content, .readOnly⟩
    guards := heap.guards.alloc block }

/-- What the destructor of a guard leaves: the block locked and one guard less. -/
def cleared (heap : Heap) (guard block : Nat) (content : SecretKey) : Heap :=
  { heap with
    blocks := heap.blocks.set block ⟨content, .noAccess⟩
    guards := heap.guards.free guard }

theorem access_eq {own : Handle} {block : Nat} {found : KeyBlock} (keyed : own.mem = some block)
    (at_block : heap.blocks.find block = some found) :
    heap.access own = .ok (heap.guards.fresh, heap.accessed block found.content) := by
  simp only [access, keyed, mprotect_ok at_block, ok_bind, pure_eq_ok, accessed]

theorem access_ok {own : Handle} {result : Nat × Heap} (accessed : heap.access own = .ok result) :
    ∃ block found, own.mem = some block ∧ heap.blocks.find block = some found := by
  cases keyed : own.mem with
  | none =>
      rw [access, keyed] at accessed
      contradiction
  | some block =>
      cases at_block : heap.blocks.find block with
      | none =>
          simp only [access, keyed, mprotect, at_block, error_bind] at accessed
          contradiction
      | some found => exact ⟨block, found, rfl, at_block⟩

theorem clearGuard_eq {guard block : Nat} {found : KeyBlock}
    (at_block : heap.blocks.find block = some found) :
    heap.clearGuard guard block = .ok (heap.cleared guard block found.content) := by
  simp only [clearGuard, mprotect_ok at_block, ok_bind, pure_eq_ok, cleared]

theorem clearGuard_ok {guard block : Nat} {next : Heap}
    (ran : heap.clearGuard guard block = .ok next) :
    ∃ found, heap.blocks.find block = some found ∧
      next = heap.cleared guard block found.content := by
  cases at_block : heap.blocks.find block with
  | none =>
      simp only [clearGuard, mprotect, at_block, error_bind] at ran
      contradiction
  | some found =>
      rw [clearGuard_eq at_block] at ran
      cases ran
      exact ⟨found, rfl, rfl⟩

end Heap

namespace Accesses

variable {state next : Accesses}

theorem opening_ok {this : Nat} {guard : Option Nat} {heap : Heap}
    (ran : state.opening this = .ok (guard, heap)) :
    (guard = none ∧ heap = state.heap) ∨ ∃ block found,
      state.heap.blocks.find block = some found ∧ guard = some state.heap.guards.fresh ∧
        heap = state.heap.accessed block found.content := by
  unfold opening at ran
  cases live : state.heap.handles.find this with
  | none =>
      rw [live] at ran
      cases ran
      exact .inl ⟨rfl, rfl⟩
  | some own =>
      rw [live] at ran
      obtain ⟨result, accessed, same⟩ := bind_eq_ok.mp ran
      obtain ⟨block, found, keyed, at_block⟩ := Heap.access_ok accessed
      rw [Heap.access_eq keyed at_block] at accessed
      cases accessed
      cases same
      exact .inr ⟨block, found, at_block, rfl, rfl⟩

theorem read_ok {guard : Nat} (stepped : state.step (.read guard) = .ok next) : next = state := by
  cases live : state.heap.guards.find guard with
  | none =>
      simp only [step, live] at stepped
      cases stepped
      rfl
  | some block =>
      simp only [step, live] at stepped
      obtain ⟨_, _, same⟩ := bind_eq_ok.mp stepped
      cases same
      rfl

theorem finish_eq {guard block : Nat} {found : KeyBlock}
    (live : state.heap.guards.find guard = some block)
    (at_block : state.heap.blocks.find block = some found) : state.step (.finish guard) =
      .ok ⟨state.heap.cleared guard block found.content,
        if state.mutex = some guard then none else state.mutex⟩ := by
  simp only [step, live, Heap.clearGuard_eq at_block, ok_bind, pure_eq_ok]

theorem finish_ok {guard : Nat} (stepped : state.step (.finish guard) = .ok next) :
    next = state ∨ ∃ block found, state.heap.guards.find guard = some block ∧
      state.heap.blocks.find block = some found ∧
      next = ⟨state.heap.cleared guard block found.content,
        if state.mutex = some guard then none else state.mutex⟩ := by
  cases live : state.heap.guards.find guard with
  | none =>
      simp only [step, live] at stepped
      cases stepped
      exact .inl rfl
  | some block =>
      simp only [step, live] at stepped
      obtain ⟨heap, cleared, same⟩ := bind_eq_ok.mp stepped
      obtain ⟨found, at_block, rfl⟩ := Heap.clearGuard_ok cleared
      cases same
      exact .inr ⟨block, found, rfl, at_block, rfl⟩

theorem Readable.find (readable : state.Readable) {guard block : Nat}
    (live : state.heap.guards.find guard = some block) :
    ∃ found, state.heap.blocks.find block = some found := by
  obtain ⟨content, read⟩ := readable guard block live
  obtain ⟨protection, at_block, _⟩ := Heap.readGuard_eq_ok.mp read
  exact ⟨_, at_block⟩

theorem Readable.accessed (readable : state.Readable) {block : Nat} {found : KeyBlock}
    (at_block : state.heap.blocks.find block = some found) (mutex : Option Nat) :
    Readable ⟨state.heap.accessed block found.content, mutex⟩ := by
  intro guard other live
  by_cases same : other = block
  · subst same
    exact ⟨_, Heap.readGuard_eq_ok.mpr ⟨_, Store.find_set_self at_block, by decide⟩⟩
  · rcases Store.find_alloc_eq_some.mp live with ⟨_, fresh⟩ | ⟨_, before⟩
    · exact absurd fresh same
    · obtain ⟨content, read⟩ := readable guard other before
      refine ⟨content, ?_⟩
      rw [Heap.readGuard] at read ⊢
      rwa [Heap.accessed, Store.find_set_of_ne same]

theorem Readable.cleared (readable : state.Readable) {guard block : Nat} {found : KeyBlock}
    (live : state.heap.guards.find guard = some block)
    (last : state.ClosesLast (.finish guard)) (mutex : Option Nat) :
    Readable ⟨state.heap.cleared guard block found.content, mutex⟩ := by
  intro guard' other live'
  obtain ⟨different, before⟩ := Store.find_of_find_free live'
  have elsewhere : other ≠ block := by
    intro same
    subst same
    exact different (last guard' other live before)
  obtain ⟨content, read⟩ := readable guard' other before
  refine ⟨content, ?_⟩
  rw [Heap.readGuard] at read ⊢
  rwa [Heap.cleared, Store.find_set_of_ne elsewhere]

theorem Readable.opening (readable : state.Readable) {this : Nat} {guard : Option Nat} {heap : Heap}
    (ran : state.opening this = .ok (guard, heap)) (mutex : Option Nat) :
    Readable ⟨heap, mutex⟩ := by
  rcases opening_ok ran with ⟨_, rfl⟩ | ⟨block, found, at_block, _, rfl⟩
  · exact readable
  · exact readable.accessed at_block mutex

theorem Readable.begin (readable : state.Readable) {accessor : Accessor} {this : Nat}
    (stepped : state.step (.begin accessor this) = .ok next) : next.Readable := by
  cases accessor with
  | generateSignature =>
      cases held : state.mutex with
      | some _ =>
          simp only [step, held] at stepped
          cases stepped
          exact readable
      | none =>
          simp only [step, held] at stepped
          obtain ⟨⟨guard, heap⟩, ran, same⟩ := bind_eq_ok.mp stepped
          cases same
          exact readable.opening ran guard
  | _ =>
      obtain ⟨⟨guard, heap⟩, ran, same⟩ := bind_eq_ok.mp stepped
      cases same
      exact readable.opening ran state.mutex

theorem Readable.step (readable : state.Readable) {action : AccessStep}
    (last : state.ClosesLast action) (stepped : state.step action = .ok next) : next.Readable := by
  cases action with
  | begin accessor this => exact readable.begin stepped
  | read guard =>
      rw [read_ok stepped]
      exact readable
  | finish guard =>
      rcases finish_ok stepped with rfl | ⟨block, found, live, at_block, rfl⟩
      · exact readable
      · exact readable.cleared live last _

/-- A guard that is destroyed before another one of its block locks the block
under the other one. -/
theorem Readable.locks (readable : state.Readable) {action : AccessStep}
    (early : ¬state.ClosesLast action) :
    ∃ next, state.step action = .ok next ∧ ¬next.Readable := by
  cases action with
  | begin accessor this => exact absurd trivial early
  | read guard => exact absurd trivial early
  | finish guard =>
      simp only [ClosesLast, not_forall] at early
      obtain ⟨other, block, live, at_other, different⟩ := early
      obtain ⟨found, at_block⟩ := readable.find live
      refine ⟨_, finish_eq live at_block, ?_⟩
      intro readable
      obtain ⟨content, read⟩ := readable other block (by
        rw [Heap.cleared, Store.find_free_of_ne different, at_other])
      obtain ⟨protection, locked, unlocked⟩ := Heap.readGuard_eq_ok.mp read
      rw [Heap.cleared, Store.find_set_self at_block] at locked
      cases locked
      exact unlocked rfl

theorem idle_readable (heap : Heap) : Readable (idle heap) := fun _ _ live => by contradiction

/-- A key stays readable under all its guards if and only if no guard is
destroyed while another one of the same block is alive. -/
theorem guards_readable_iff (heap : Heap) (actions : List AccessStep) :
    Always step Readable (idle heap) actions ↔ EveryStep step ClosesLast (idle heap) actions :=
  always_iff_everyStep (fun _ _ _ readable => Readable.step readable) (fun _ readable => readable)
    (fun _ _ readable => readable.locks) (idle_readable heap)

/-- Two connections that use one key: the first guard to be destroyed locks
the block that the other call still reads. -/
theorem overlapping_guards_lock : ¬Always step Readable
    (idle (Heap.empty.created (.replicate _ 7)))
    [.begin .getServerSessionKeys 0, .begin .getMatchingPublic 0, .finish 0] := by
  intro always
  obtain ⟨content, read⟩ := (((always.2 _ rfl).2 _ rfl).2 _ rfl) 1 0 rfl
  cases read

/-- `generateSignature` opens its guard under a mutex: only the call that holds
it has a guard. -/
def Serial (state : Accesses) : Prop :=
  ∀ guard block, state.heap.guards.find guard = some block → state.mutex = some guard

def Signs : AccessStep → Prop
  | .begin accessor _ => accessor = .generateSignature
  | _ => True

theorem Serial.closesLast (serial : state.Serial) (action : AccessStep) :
    state.ClosesLast action := by
  cases action with
  | finish guard =>
      intro other block live at_other
      have held := serial guard block live
      rw [serial other block at_other] at held
      exact Option.some.inj held
  | _ => trivial

theorem Serial.begin (serial : state.Serial) {this : Nat}
    (stepped : state.step (.begin .generateSignature this) = .ok next) : next.Serial := by
  cases held : state.mutex with
  | some _ =>
      simp only [step, held] at stepped
      cases stepped
      exact serial
  | none =>
      simp only [step, held] at stepped
      obtain ⟨⟨guard, heap⟩, ran, same⟩ := bind_eq_ok.mp stepped
      cases same
      rw [Serial, held] at serial
      rcases opening_ok ran with ⟨rfl, rfl⟩ | ⟨block, found, _, rfl, rfl⟩
      · exact serial
      · intro other block' at_other
        rcases Store.find_alloc_eq_some.mp at_other with ⟨fresh, _⟩ | ⟨_, before⟩
        · rw [fresh]
        · have owned := serial other block' before
          contradiction

theorem Serial.finish (serial : state.Serial) {guard : Nat}
    (stepped : state.step (.finish guard) = .ok next) : next.Serial := by
  rcases finish_ok stepped with rfl | ⟨block, found, live, _, rfl⟩
  · exact serial
  · -- the only guard is gone
    intro other block' at_other
    obtain ⟨different, before⟩ := Store.find_of_find_free at_other
    have held := serial guard block live
    rw [serial other block' before] at held
    exact absurd (Option.some.inj held) different

theorem Serial.step (serial : state.Serial) {action : AccessStep} (signs : Signs action)
    (stepped : state.step action = .ok next) : next.Serial := by
  cases action with
  | begin accessor this =>
      cases signs
      exact serial.begin stepped
  | read guard =>
      rw [read_ok stepped]
      exact serial
  | finish guard => exact serial.finish stepped

/-- Signing on any number of threads never locks a key under a guard. -/
theorem signing_readable (heap : Heap) (actions : List AccessStep)
    (signs : ∀ action ∈ actions, Signs action) :
    Always Accesses.step Readable (idle heap) actions := by
  have every : EveryStep Accesses.step (fun _ => Signs) (idle heap) actions :=
    EveryStep.of_forall (fun action inside _ => signs action inside) _
  have serial : (idle heap).Serial := fun guard block live => by contradiction
  have invariant : Always Accesses.step (fun state => state.Readable ∧ state.Serial) (idle heap)
      actions := by
    refine EveryStep.always ?_ ⟨idle_readable heap, serial⟩ every
    intro state action next given signs stepped
    obtain ⟨readable, serial⟩ := given
    exact ⟨readable.step (serial.closesLast action) stepped, serial.step signs stepped⟩
  exact invariant.imp fun _ both => both.1

end Accesses

end Cscrypto
