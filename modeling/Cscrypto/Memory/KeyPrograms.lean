import Cscrypto.Memory.KeyValues
import Cscrypto.Memory.KeysAtRest

namespace Cscrypto

open Cscrypto.Data Cscrypto.KeysDerivation Cscrypto.KeyExchange Cscrypto.Cipher

/-! # Private keys as values

A caller of the library need not know of blocks, counters and guards.  While no
counter overflows, every call returns what it returns for keys that are plain
values, and it changes the keys of no other object.
-/

/-- What a call hands back besides a new object. -/
inductive KeyOutput where
  | nothing
  | publicKey (publicKey : PublicKey)
  | signature (signature : Signature)
  | encrypted (bytes : Bytes)
  | pubCipherKey (key : Option PubCipherKey)
  | decrypted (result : Bool × Bytes)
  | pubExchangeKey (key : Option PubExchangeKey)
  | sessionKeys (result : Bool × KeyExchange.CipherKey × KeyExchange.CipherKey)
  | derived (publicKey : PublicKey) (seed : Mnemonic.MasterSeed)

/-- A call that returns no guard and destroys none. -/
def KeyCall.Closed : KeyCall → Prop
  | .access _ | .clearGuard _ => False
  | _ => True

namespace Heap

/-- A call with a live object. -/
def callOn (heap : Heap) (this : Nat) (output : α → KeyOutput)
    (call : Handle → Except Fault (α × Heap)) : Except Fault (KeyOutput × Heap) :=
  match heap.handles.find this with
  | none => .ok (.nothing, heap)
  | some own => do
      let (result, heap) ← call own
      return (output result, heap)

/-- A call with what it returns. -/
def keyCall (lib : Libsodium) (heap : Heap) : KeyCall → Except Fault (KeyOutput × Heap)
  | .handle (.generateWithPair random) => do
      let (publicKey, _, heap) ← heap.generateWithPair lib.sign random
      return (.publicKey publicKey, heap)
  | .readFromEncrypted bytes passwd => do
      let (_, heap) ← heap.readFromEncrypted lib.aead bytes passwd
      return (.nothing, heap)
  | .getEncrypted this passwd random =>
      heap.callOn this .encrypted fun own => heap.getEncrypted lib.aead own passwd random
  | .getMatchingPublic this => heap.callOn this .publicKey (heap.getMatchingPublic lib.sign)
  | .generateSignature this data =>
      heap.callOn this .signature fun own => heap.generateSignature lib.sodium own data
  | .getPubCipherKey this => heap.callOn this .pubCipherKey (heap.getPubCipherKey lib.sodium lib.box)
  | .decryptData target source this =>
      heap.callOn this .decrypted (heap.openData lib.sodium lib.box target source)
  | .getPubExchangeKey this => heap.callOn this .pubExchangeKey (heap.getPubExchangeKey lib.sodium)
  | .getClientSessionKeys sessionKeys this serverPk => heap.callOn this .sessionKeys fun own =>
      heap.getClientSessionKeys lib.sodium sessionKeys own serverPk
  | .getServerSessionKeys sessionKeys this clientPk => heap.callOn this .sessionKeys fun own =>
      heap.getServerSessionKeys lib.sodium sessionKeys own clientPk
  | .deriveKeyPair seed id ctx => do
      let ((publicKey, _, seed), heap) ← heap.deriveKeyPair lib.sign lib.kdf seed id ctx
      return (.derived publicKey seed, heap)
  | call => do return (.nothing, ← heap.keyStep lib call)

theorem callOn_snd (heap : Heap) (this : Nat) (output : α → KeyOutput)
    (call : Handle → Except Fault (α × Heap)) :
    (heap.callOn this output call).map Prod.snd =
      heap.withHandle this fun own => do return (← call own).2 := by
  unfold Heap.callOn Heap.withHandle
  cases heap.handles.find this with
  | none => rfl
  | some own =>
      cases called : call own with
      | error fault => simp only [called, error_bind]; rfl
      | ok result => simp only [called, ok_bind]; rfl

theorem keyCall_snd (lib : Libsodium) (heap : Heap) (call : KeyCall) :
    (heap.keyCall lib call).map Prod.snd = heap.keyStep lib call := by
  cases call with
  | getEncrypted | getMatchingPublic | generateSignature | getPubCipherKey | decryptData
      | getPubExchangeKey | getClientSessionKeys | getServerSessionKeys =>
      exact callOn_snd _ _ _ _
  | readFromEncrypted bytes passwd =>
      simp only [keyCall, keyStep]
      cases heap.readFromEncrypted lib.aead bytes passwd <;> rfl
  | deriveKeyPair seed id ctx =>
      simp only [keyCall, keyStep]
      cases heap.deriveKeyPair lib.sign lib.kdf seed id ctx <;> rfl
  | access this =>
      simp only [keyCall]
      cases heap.keyStep lib (.access this) <;> rfl
  | clearGuard guard =>
      simp only [keyCall]
      cases heap.keyStep lib (.clearGuard guard) <;> rfl
  | handle op =>
      cases op with
      | generateWithPair random =>
          simp only [keyCall, keyStep, handleStep]
          cases heap.generateWithPair lib.sign random <;> rfl
      | construct | readFromBytes | readFromGuard | copy | move | assign | moveAssign | destroy =>
          simp only [keyCall]
          generalize heap.keyStep lib _ = result
          cases result <;> rfl

end Heap

/-- The objects with their keys. -/
abbrev Keys := Nat → Option PrivateKey

/-- What a call does to the objects. -/
inductive Change where
  | keeps
  | makes (key : PrivateKey)
  | sets (this : Nat) (key : PrivateKey)
  | drops (this : Nat)

/-- A new object has an address that no live object has. -/
def Change.Applies (before after : Keys) : Change → Prop
  | .keeps => after = before
  | .makes key => ∃ this, before this = none ∧ after = Function.update before this (some key)
  | .sets this key => after = Function.update before this (some key)
  | .drops this => after = Function.update before this none

namespace Keys

def callOn (keys : Keys) (this : Nat) (call : PrivateKey → Except Fault (KeyOutput × Change)) :
    Except Fault (KeyOutput × Change) :=
  match keys this with
  | none => .ok (.nothing, .keeps)
  | some key => call key

/-- The functions of the library on a key alone. -/
def call (lib : Libsodium) (keys : Keys) : KeyCall → Except Fault (KeyOutput × Change)
  | .handle .construct => .ok (.nothing, .makes ⟨none⟩)
  | .handle (.generateWithPair random) =>
      let (publicKey, key) := generateKeyPair lib.sign random
      .ok (.publicKey publicKey, .makes key)
  | .handle (.readFromBytes bytes) => .ok (.nothing, .makes (KeysDerivation.readFromBytes bytes))
  | .handle (.readFromGuard content) => .ok (.nothing, .makes (.holding content))
  | .handle (.copy rhs) | .handle (.move rhs) => keys.callOn rhs fun key => .ok (.nothing, .makes key)
  | .handle (.assign this rhs) | .handle (.moveAssign this rhs) => keys.callOn this fun _ =>
      keys.callOn rhs fun key => .ok (.nothing, .sets this key)
  | .handle (.destroy this) => keys.callOn this fun _ => .ok (.nothing, .drops this)
  | .readFromEncrypted bytes passwd => do
      return (.nothing, .makes (← PrivateKey.readFromEncrypted lib.aead bytes passwd))
  | .getEncrypted this passwd random => keys.callOn this fun key => do
      return (.encrypted (← key.getEncrypted lib.aead passwd random), .keeps)
  | .getMatchingPublic this => keys.callOn this fun key => do
      return (.publicKey (← getMatchingPublic lib.sign key), .keeps)
  | .generateSignature this data => keys.callOn this fun key => do
      return (.signature (← generateSignature lib.sodium key data), .keeps)
  | .getPubCipherKey this => keys.callOn this fun key => do
      return (.pubCipherKey (← getPubCipherKey lib.sodium lib.box key), .keeps)
  | .decryptData target source this => keys.callOn this fun key => do
      return (.decrypted (← openData lib.sodium lib.box target source key), .keeps)
  | .getPubExchangeKey this => keys.callOn this fun key => do
      return (.pubExchangeKey (← getPubExchangeKey lib.sodium key), .keeps)
  | .getClientSessionKeys sessionKeys this serverPk => keys.callOn this fun key => do
      return (.sessionKeys (← getClientSessionKeys lib.sodium sessionKeys key serverPk), .keeps)
  | .getServerSessionKeys sessionKeys this clientPk => keys.callOn this fun key => do
      return (.sessionKeys (← getServerSessionKeys lib.sodium sessionKeys key clientPk), .keeps)
  | .deriveKeyPair seed id ctx => do
      let ((publicKey, key), seed) ← deriveKeyPair lib.sign lib.kdf seed id ctx
      return (.derived publicKey seed, .makes key)
  | .access _ | .clearGuard _ => .ok (.nothing, .keeps)

end Keys

namespace Heap

variable {before after heap next : Heap} {own rhs : Handle} {this : Nat}

/-- No guard is alive. -/
def Unguarded (heap : Heap) : Prop := ∀ guard, heap.guards.find guard = none

/-- Between two calls. -/
structure Quiet (heap : Heap) : Prop where
  kept : heap.Kept
  unguarded : heap.Unguarded

theorem empty_quiet : Quiet empty := ⟨empty_kept, fun _ => rfl⟩

theorem Quiet.locked (quiet : heap.Quiet) (live : heap.handles.find this = some own) :
    heap.LockedKey own := by
  intro block keyed
  obtain ⟨_, content, _, at_block⟩ := quiet.kept.atRest quiet.unguarded this own block live keyed
  exact ⟨content, at_block⟩

/-- The key of an object is the one that its block was made with. -/
theorem Kept.value_eq (kept : heap.Kept) (live : heap.handles.find this = some own) :
    (own.mem = none → heap.value own = ⟨none⟩) ∧
      ∀ key ∈ heap.made, own.mem = some key.block → heap.value own = .holding key.content := by
  refine ⟨fun empty => by rw [value, empty]; rfl, ?_⟩
  intro key member keyed
  obtain ⟨⟨surplus, sharing⟩, guarded⟩ := kept
  obtain ⟨count, counted⟩ := sharing.counted le_rfl this own live
  obtain ⟨found, at_block⟩ := sharing.allocated (sharing.valid this own live) counted keyed
  rw [value, keyed, Option.bind_some, at_block, Option.map_some, (guarded key member found at_block).1]
  rfl

/-- Two objects that refer to one block have one key, also when calls lie
between. -/
theorem Kept.value_later (first : before.Kept) (second : after.Kept)
    (made : ∀ key ∈ before.made, key ∈ after.made) (live : before.handles.find this = some own)
    {other : Nat} (later : after.handles.find other = some own) :
    after.value own = before.value own := by
  cases keyed : own.mem with
  | none => rw [(first.value_eq live).1 keyed, (second.value_eq later).1 keyed]
  | some block =>
      obtain ⟨⟨surplus, sharing⟩, _⟩ := id first
      obtain ⟨content, member⟩ := (sharing.valid this own live).keyed block keyed
      rw [(first.value_eq live).2 _ member keyed,
        (second.value_eq later).2 _ (made _ member) keyed]

theorem keyOf_eq (live : heap.handles.find this = some own) :
    heap.keyOf this = some (heap.value own) := by
  rw [keyOf, live, Option.map_some]

theorem keyOf_none (dead : heap.handles.find this = none) : heap.keyOf this = none := by
  rw [keyOf, dead, Option.map_none]

/-- An object that stays has its key. -/
theorem Kept.keyOf_later (first : before.Kept) (second : after.Kept)
    (made : ∀ key ∈ before.made, key ∈ after.made)
    (same : after.handles.find this = before.handles.find this) :
    after.keyOf this = before.keyOf this := by
  cases live : before.handles.find this with
  | none => rw [keyOf_none live, keyOf_none (same.trans live)]
  | some own =>
      rw [keyOf_eq live, keyOf_eq (same.trans live),
        first.value_later second made live (same.trans live)]

/-- A new object, with the others as they are. -/
theorem Kept.makes (first : before.Kept) (second : after.Kept)
    (made : ∀ key ∈ before.made, key ∈ after.made) (free : before.handles.find this = none)
    (others : ∀ other, other ≠ this → after.handles.find other = before.handles.find other)
    {key : PrivateKey} (new : after.keyOf this = some key) :
    (Change.makes key).Applies before.keyOf after.keyOf := by
  refine ⟨this, keyOf_none free, funext fun other => ?_⟩
  by_cases same : other = this
  · rw [same, Function.update_self, new]
  · rw [Function.update_of_ne same, first.keyOf_later second made (others other same)]

theorem created_makes (kept : heap.Kept) (content : SecretKey) :
    (Change.makes (.holding content)).Applies heap.keyOf (heap.created content).keyOf :=
  kept.makes (kept.created content) (fun _ => List.mem_append_left _) Store.find_fresh
    (fun _ different => Store.find_alloc_of_ne different) (heap.created_keyAt content).keyOf

theorem construct_makes (kept : heap.Kept) :
    (Change.makes ⟨none⟩).Applies heap.keyOf heap.construct.2.keyOf :=
  kept.makes kept.construct (fun _ => id) Store.find_fresh
    (fun _ different => Store.find_alloc_of_ne different) heap.construct_emptyKey.keyOf

theorem skipped_makes (kept : heap.Kept) :
    (Change.makes ⟨none⟩).Applies heap.keyOf heap.skipped.construct.2.keyOf := by
  obtain ⟨this, free, same⟩ := construct_makes kept.skipped
  have skip : heap.skipped.keyOf = heap.keyOf := by
    funext other
    exact kept.keyOf_later kept.skipped (fun _ => id) Store.find_skip
  rw [skip] at free same
  exact ⟨this, free, same⟩

/-- What an operation leaves as it is. -/
structure Frames (handles : Store Handle) (before after : Heap) : Prop where
  handles : after.handles = handles
  made : after.made = before.made
  guards : after.guards = before.guards

theorem clear_frames (ran : heap.clear own = .ok next) : Frames heap.handles heap next := by
  simp only [clear] at ran
  split at ran
  · contradiction
  split at ran
  · obtain ⟨freed, free, same⟩ := bind_eq_ok.mp ran
    cases same
    cases keyed : own.mem with
    | none =>
        rw [keyed] at free
        cases free
        exact ⟨rfl, rfl, rfl⟩
    | some block =>
        rw [keyed] at free
        simp only [sodiumFree] at free
        split at free
        · contradiction
        · cases free
          exact ⟨rfl, rfl, rfl⟩
  · cases ran
    exact ⟨rfl, rfl, rfl⟩

theorem increment_frames {ctr : Nat} (ran : heap.increment ctr = .ok next) :
    Frames heap.handles heap next := by
  simp only [increment] at ran
  split at ran
  · contradiction
  · cases ran
    exact ⟨rfl, rfl, rfl⟩

theorem copy_frames {result : Nat × Heap} (ran : heap.copy rhs = .ok result) :
    Frames (heap.handles.alloc rhs) heap result.2 := by
  obtain ⟨counted, increment, same⟩ := bind_eq_ok.mp ran
  cases same
  obtain ⟨handles, made, guards⟩ := increment_frames increment
  exact ⟨handles, made, guards⟩

theorem assign_frames (ran : heap.assign this own rhs = .ok next) :
    Frames (heap.handles.set this rhs) heap next := by
  simp only [assign] at ran
  split at ran
  · obtain ⟨cleared, clear, ran⟩ := bind_eq_ok.mp ran
    have middle := clear_frames clear
    obtain ⟨handles, made, guards⟩ := increment_frames ran
    exact ⟨by rw [handles, middle.handles], made.trans middle.made, guards.trans middle.guards⟩
  · obtain ⟨handles, made, guards⟩ := increment_frames ran
    exact ⟨handles, made, guards⟩

theorem destroy_frames (ran : heap.destroy this own = .ok next) :
    Frames (heap.handles.free this) heap next := by
  obtain ⟨cleared, clear, same⟩ := bind_eq_ok.mp ran
  cases same
  obtain ⟨handles, made, guards⟩ := clear_frames clear
  exact ⟨congrArg (Store.free · this) handles, made, guards⟩

theorem Frames.unguarded {handles : Store Handle} (frames : Frames handles heap next)
    (unguarded : heap.Unguarded) : next.Unguarded := by
  intro guard
  rw [frames.guards]
  exact unguarded guard

theorem Frames.later {handles : Store Handle} (frames : Frames handles heap next) :
    ∀ key ∈ heap.made, key ∈ next.made := by
  rw [frames.made]
  exact fun _ => id

/-- The result of a call on the heap is the one that is expected, and no guard
is left. -/
def Answers (heap : Heap) (result : Except Fault (KeyOutput × Heap)) :
    Except Fault (KeyOutput × Change) → Prop
  | .error fault => result = .error fault
  | .ok (output, change) => ∃ next, result = .ok (output, next) ∧
      change.Applies heap.keyOf next.keyOf ∧ next.Unguarded

def Computes (lib : Libsodium) (heap : Heap) (call : KeyCall) : Prop :=
  heap.Answers (heap.keyCall lib call) (Keys.call lib heap.keyOf call)

theorem Quiet.callOn_answers (quiet : heap.Quiet) (this : Nat) (output : α → KeyOutput)
    {call : Handle → Except Fault (α × Heap)} {plain : PrivateKey → Except Fault α}
    (same : ∀ own, heap.LockedKey own → call own =
      plain (heap.value own) >>= fun result => .ok (result, next))
    (keys : next.keyOf = heap.keyOf) (unguarded : next.Unguarded) :
    heap.Answers (heap.callOn this output call)
      (Keys.callOn heap.keyOf this fun key => do return (output (← plain key), .keeps)) := by
  cases live : heap.handles.find this with
  | none =>
      simp only [Keys.callOn, keyOf_none live, callOn, live]
      exact ⟨heap, rfl, rfl, quiet.unguarded⟩
  | some own =>
      simp only [Keys.callOn, keyOf_eq live, callOn, live, same own (quiet.locked live)]
      cases plain (heap.value own) with
      | error fault => rfl
      | ok result => exact ⟨next, rfl, keys, unguarded⟩

theorem Quiet.touched (quiet : heap.Quiet) : heap.touched.Unguarded := by
  intro guard
  rw [Heap.touched, Store.find_skip]
  exact quiet.unguarded guard

/-- A function that opens a guard and destroys it. -/
theorem Quiet.touching_answers (quiet : heap.Quiet) (this : Nat) (output : α → KeyOutput)
    {call : Handle → Except Fault (α × Heap)} {plain : PrivateKey → Except Fault α}
    (same : ∀ own, heap.LockedKey own → call own =
      plain (heap.value own) >>= fun result => .ok (result, heap.touched)) :
    heap.Answers (heap.callOn this output call)
      (Keys.callOn heap.keyOf this fun key => do return (output (← plain key), .keeps)) :=
  quiet.callOn_answers this output same rfl quiet.touched

theorem Quiet.decryptData_answers (lib : Libsodium) (quiet : heap.Quiet) (target source : Bytes)
    (this : Nat) : heap.Computes lib (.decryptData target source this) := by
  by_cases short : source.length < kSealBytes
  · refine quiet.callOn_answers this .decrypted (fun own _ => ?_) rfl quiet.unguarded
    rw [openData, if_pos short, Cipher.openData, if_pos short]
    rfl
  · exact quiet.touching_answers this .decrypted fun own locked =>
      openData_locked lib.sodium lib.box target (Nat.le_of_not_lt short) locked

theorem Quiet.readFromEncrypted_answers (lib : Libsodium) (quiet : heap.Quiet)
    (bytes passwd : Bytes) : heap.Computes lib (.readFromEncrypted bytes passwd) := by
  have same := readFromEncrypted_value lib.aead heap bytes passwd
  simp only [Computes, keyCall, Keys.call]
  cases ran : heap.readFromEncrypted lib.aead bytes passwd with
  | error fault =>
      rw [ran] at same
      cases plain : PrivateKey.readFromEncrypted lib.aead bytes passwd with
      | error other =>
          rw [plain] at same
          cases same
          rfl
      | ok key =>
          rw [plain] at same
          contradiction
  | ok made =>
      rw [ran] at same
      cases plain : PrivateKey.readFromEncrypted lib.aead bytes passwd with
      | error other =>
          rw [plain] at same
          contradiction
      | ok key =>
          rw [plain, map_ok, map_ok, Except.ok.injEq] at same
          have made_key : made.2.keyOf made.1 = some key := same
          refine ⟨made.2, rfl, ?_, ?_⟩
          · rcases readFromEncrypted_cases ran with rfl | rfl | ⟨secret, rfl⟩
            · rw [heap.construct_emptyKey.keyOf] at made_key
              cases made_key
              exact construct_makes quiet.kept
            · rw [heap.skipped_emptyKey.keyOf] at made_key
              cases made_key
              exact skipped_makes quiet.kept
            · rw [(heap.created_keyAt secret).keyOf] at made_key
              cases made_key
              exact created_makes quiet.kept secret
          · rcases readFromEncrypted_cases ran with rfl | rfl | ⟨secret, rfl⟩
            all_goals exact quiet.unguarded

theorem Quiet.deriveKeyPair_answers (lib : Libsodium) (quiet : heap.Quiet)
    (seed : Mnemonic.MasterSeed) (id : KeyId) (ctx : Context) :
    heap.Computes lib (.deriveKeyPair seed id ctx) := by
  simp only [Computes, keyCall, Keys.call, deriveKeyPair, KeysDerivation.deriveKeyPair,
    readFromGuard, KeysDerivation.readFromGuard]
  cases deriveSigningKeys lib.sign lib.kdf seed id ctx with
  | error fault => rfl
  | ok keys =>
      obtain ⟨publicKey, sk, seed⟩ := keys
      cases read : sk.read with
      | error fault => simp only [read, ok_bind, error_bind]; rfl
      | ok content =>
          simp only [read, ok_bind, create_eq, pure_eq_ok]
          exact ⟨_, rfl, created_makes quiet.kept content, quiet.unguarded⟩

theorem Quiet.copy_answers (lib : Libsodium) (quiet : heap.Quiet) {op : HandleOp}
    (countable : heap.Countable (.handle op)) (rhs : Nat)
    (stepped : heap.handleStep lib.sign op =
      heap.withHandle rhs fun rhs => do return (← heap.copy rhs).2) :
    heap.Answers (do return (.nothing, ← heap.handleStep lib.sign op))
      (Keys.callOn heap.keyOf rhs fun key => .ok (.nothing, .makes key)) := by
  obtain ⟨next, ran, kept⟩ := quiet.kept.handleStep_exists lib.sign countable
  rw [ran]
  rw [stepped, withHandle] at ran
  cases live : heap.handles.find rhs with
  | none =>
      rw [live] at ran
      cases ran
      simp only [Keys.callOn, keyOf_none live]
      exact ⟨heap, rfl, rfl, quiet.unguarded⟩
  | some own =>
      rw [live] at ran
      obtain ⟨result, copied, same⟩ := bind_eq_ok.mp ran
      cases same
      have frames := copy_frames copied
      have new : result.2.handles.find heap.handles.fresh = some own := by
        rw [frames.handles, Store.find_alloc_fresh]
      simp only [Keys.callOn, keyOf_eq live]
      refine ⟨result.2, rfl, ?_, frames.unguarded quiet.unguarded⟩
      refine quiet.kept.makes kept frames.later Store.find_fresh (fun other different => ?_) ?_
      · rw [frames.handles, Store.find_alloc_of_ne different]
      · rw [keyOf_eq new, quiet.kept.value_later kept frames.later live new]

theorem Quiet.assign_answers (lib : Libsodium) (quiet : heap.Quiet) {op : HandleOp}
    (countable : heap.Countable (.handle op)) (this rhs : Nat)
    (stepped : heap.handleStep lib.sign op = heap.withHandle this fun own =>
      heap.withHandle rhs fun rhs => heap.assign this own rhs) :
    heap.Answers (do return (.nothing, ← heap.handleStep lib.sign op))
      (Keys.callOn heap.keyOf this fun _ =>
        Keys.callOn heap.keyOf rhs fun key => .ok (.nothing, .sets this key)) := by
  obtain ⟨next, ran, kept⟩ := quiet.kept.handleStep_exists lib.sign countable
  rw [ran]
  rw [stepped, withHandle] at ran
  cases live : heap.handles.find this with
  | none =>
      rw [live] at ran
      cases ran
      simp only [Keys.callOn, keyOf_none live]
      exact ⟨heap, rfl, rfl, quiet.unguarded⟩
  | some own =>
      simp only [live, withHandle] at ran
      simp only [Keys.callOn, keyOf_eq live]
      cases source : heap.handles.find rhs with
      | none =>
          rw [source] at ran
          cases ran
          simp only [keyOf_none source]
          exact ⟨heap, rfl, rfl, quiet.unguarded⟩
      | some other =>
          rw [source] at ran
          have frames := assign_frames ran
          have set : next.handles.find this = some other := by
            rw [frames.handles, Store.find_set_self live]
          simp only [keyOf_eq source]
          refine ⟨next, rfl, funext fun address => ?_, frames.unguarded quiet.unguarded⟩
          by_cases same : address = this
          · rw [same, Function.update_self, keyOf_eq set,
              quiet.kept.value_later kept frames.later source set]
          · rw [Function.update_of_ne same]
            refine quiet.kept.keyOf_later kept frames.later ?_
            rw [frames.handles, Store.find_set_of_ne same]

theorem Quiet.destroy_answers (lib : Libsodium) (quiet : heap.Quiet) (this : Nat)
    (countable : heap.Countable (.handle (.destroy this))) :
    heap.Computes lib (.handle (.destroy this)) := by
  obtain ⟨next, ran, kept⟩ := quiet.kept.handleStep_exists lib.sign countable
  simp only [Computes, keyCall, keyStep, ran, Keys.call]
  rw [handleStep, withHandle] at ran
  cases live : heap.handles.find this with
  | none =>
      rw [live] at ran
      cases ran
      simp only [Keys.callOn, keyOf_none live]
      exact ⟨heap, rfl, rfl, quiet.unguarded⟩
  | some own =>
      rw [live] at ran
      have frames := destroy_frames ran
      simp only [Keys.callOn, keyOf_eq live]
      refine ⟨next, rfl, funext fun address => ?_, frames.unguarded quiet.unguarded⟩
      by_cases same : address = this
      · rw [same, Function.update_self, keyOf_none]
        rw [frames.handles, Store.find_free_self]
      · rw [Function.update_of_ne same]
        refine quiet.kept.keyOf_later kept frames.later ?_
        rw [frames.handles, Store.find_free_of_ne same]

theorem Quiet.handle_answers (lib : Libsodium) (quiet : heap.Quiet) {op : HandleOp}
    (countable : heap.Countable (.handle op)) : heap.Computes lib (.handle op) := by
  cases op with
  | construct => exact ⟨_, rfl, construct_makes quiet.kept, quiet.unguarded⟩
  | generateWithPair random =>
      simp only [Computes, keyCall, generateWithPair, create_eq, Keys.call, generateKeyPair]
      exact ⟨_, rfl, created_makes quiet.kept _, quiet.unguarded⟩
  | readFromBytes bytes =>
      simp only [Computes, keyCall, keyStep, handleStep, readFromBytes, Keys.call,
        KeysDerivation.readFromBytes]
      split
      · rw [create_eq]
        exact ⟨_, rfl, created_makes quiet.kept _, quiet.unguarded⟩
      · exact ⟨_, rfl, construct_makes quiet.kept, quiet.unguarded⟩
  | readFromGuard content =>
      simp only [Computes, keyCall, keyStep, handleStep, readFromGuard, MemGuard.read_readWrite,
        create_eq, Keys.call]
      exact ⟨_, rfl, created_makes quiet.kept _, quiet.unguarded⟩
  | copy rhs | move rhs => exact quiet.copy_answers lib countable rhs rfl
  | assign this rhs | moveAssign this rhs => exact quiet.assign_answers lib countable this rhs rfl
  | destroy this => exact quiet.destroy_answers lib this countable

variable {lib : Libsodium} {call : KeyCall}

theorem Quiet.computes (lib : Libsodium) (quiet : heap.Quiet) (closed : call.Closed)
    (countable : heap.Countable call) : heap.Computes lib call := by
  cases call with
  | handle op => exact quiet.handle_answers lib countable
  | readFromEncrypted bytes passwd => exact quiet.readFromEncrypted_answers lib bytes passwd
  | deriveKeyPair seed id ctx => exact quiet.deriveKeyPair_answers lib seed id ctx
  | decryptData target source this => exact quiet.decryptData_answers lib target source this
  | getEncrypted this passwd random =>
      exact quiet.touching_answers this .encrypted fun own locked =>
        getEncrypted_value lib.aead locked passwd random
  | getMatchingPublic this =>
      exact quiet.touching_answers this .publicKey fun own locked =>
        getMatchingPublic_locked lib.sign locked
  | generateSignature this data =>
      exact quiet.touching_answers this .signature fun own locked =>
        generateSignature_locked lib.sodium locked data
  | getPubCipherKey this =>
      exact quiet.touching_answers this .pubCipherKey fun own locked =>
        getPubCipherKey_locked lib.sodium lib.box locked
  | getPubExchangeKey this =>
      exact quiet.touching_answers this .pubExchangeKey fun own locked =>
        getPubExchangeKey_locked lib.sodium locked
  | getClientSessionKeys sessionKeys this serverPk =>
      exact quiet.touching_answers this .sessionKeys fun own locked =>
        getSessionKeys_locked lib.sodium _ locked sessionKeys serverPk
  | getServerSessionKeys sessionKeys this clientPk =>
      exact quiet.touching_answers this .sessionKeys fun own locked =>
        getSessionKeys_locked lib.sodium _ locked sessionKeys clientPk
  | access this | clearGuard guard => contradiction

theorem Quiet.step (quiet : heap.Quiet) (closed : call.Closed) (countable : heap.Countable call)
    (stepped : heap.keyStep lib call = .ok next) : next.Quiet := by
  refine ⟨quiet.kept.step countable stepped, ?_⟩
  have computes := quiet.computes lib closed countable
  rw [← keyCall_snd] at stepped
  cases ran : heap.keyCall lib call with
  | error fault =>
      rw [ran] at stepped
      contradiction
  | ok result =>
      rw [ran] at stepped
      cases stepped
      rw [Computes, ran] at computes
      cases expected : Keys.call lib heap.keyOf call with
      | error fault =>
          rw [expected] at computes
          contradiction
      | ok value =>
          rw [expected] at computes
          obtain ⟨next, same, _, unguarded⟩ := computes
          cases same
          exact unguarded

/-- In every run in which no counter overflows and no guard is kept, each call
on private keys returns what the function of its name returns for the keys as
values, fails if that one fails, and changes the key of its own object only. -/
theorem keys_behave_as_values (lib : Libsodium) (calls : List KeyCall)
    (meets : EveryStep (keyStep lib) (fun heap call => call.Closed ∧ heap.Countable call) empty
      calls) :
    EveryStep (keyStep lib) (Computes lib) empty calls :=
  meets.mono (fun _ _ _ quiet may stepped => quiet.step may.1 may.2 stepped)
    (fun _ _ quiet may => quiet.computes lib may.1 may.2) empty_quiet

/-- A key that is copied and signed with after its first object is gone. -/
theorem keys_behave_as_values_after_a_copy :
    EveryStep (keyStep transparentLib) (Computes transparentLib) empty
      [.handle (.generateWithPair (.replicate _ 7)), .handle (.copy 0), .handle (.destroy 0),
        .generateSignature 1 [1, 2, 3], .readFromEncrypted [] []] :=
  keys_behave_as_values transparentLib _ (by
    refine ⟨⟨trivial, fun _ _ _ from_this => by contradiction⟩, fun _ made =>
      ⟨⟨trivial, ?_⟩, fun _ _ => ⟨⟨trivial, fun _ _ _ from_this => by contradiction⟩, fun _ _ =>
        ⟨⟨trivial, trivial⟩, fun _ _ => ⟨⟨trivial, trivial⟩, fun _ _ => trivial⟩⟩⟩⟩⟩
    cases made
    intro this own count from_this live counted
    cases from_this
    cases live
    cases counted
    decide)

end Heap

end Cscrypto
