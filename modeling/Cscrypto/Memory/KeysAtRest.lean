import Cscrypto.Memory.KeyCalls

namespace Cscrypto

open Cscrypto.Data Cscrypto.KeysDerivation Cscrypto.KeyExchange Cscrypto.Cipher

/-! # Private keys at rest

Every call of the library on private keys in any order, with guards that the
caller opens.  Where no guard is alive the key of every object is locked and
holds the bytes it was made with, as long as no counter overflows.
-/

/-- What the calls use of libsodium. -/
structure Libsodium where
  sodium : Sodium
  sign : SignKeys
  kdf : Kdf
  aead : Aead
  box : SealedBox

inductive KeyCall where
  | handle (op : HandleOp)
  | readFromEncrypted (bytes passwd : Bytes)
  | getEncrypted (this : Nat) (passwd : Bytes) (random : ByteArray kNpubBytes)
  | getMatchingPublic (this : Nat)
  | generateSignature (this : Nat) (data : Bytes)
  | getPubCipherKey (this : Nat)
  | decryptData (target source : Bytes) (this : Nat)
  | getPubExchangeKey (this : Nat)
  | getClientSessionKeys (sessionKeys : ClientKeys) (this : Nat) (serverPk : PubExchangeKey)
  | getServerSessionKeys (sessionKeys : ServerKeys) (this : Nat) (clientPk : PubExchangeKey)
  | deriveKeyPair (seed : Mnemonic.MasterSeed) (id : KeyId) (ctx : Context)
  | access (this : Nat)
  | clearGuard (guard : Nat)

namespace Heap

def keyStep (lib : Libsodium) (heap : Heap) : KeyCall → Except Fault Heap
  | .handle op => heap.handleStep lib.sign op
  | .readFromEncrypted bytes passwd => return (← heap.readFromEncrypted lib.aead bytes passwd).2
  | .getEncrypted this passwd random => heap.withHandle this fun own =>
      return (← heap.getEncrypted lib.aead own passwd random).2
  | .getMatchingPublic this => heap.withHandle this fun own =>
      return (← heap.getMatchingPublic lib.sign own).2
  | .generateSignature this data => heap.withHandle this fun own =>
      return (← heap.generateSignature lib.sodium own data).2
  | .getPubCipherKey this => heap.withHandle this fun own =>
      return (← heap.getPubCipherKey lib.sodium lib.box own).2
  | .decryptData target source this => heap.withHandle this fun own =>
      return (← heap.openData lib.sodium lib.box target source own).2
  | .getPubExchangeKey this => heap.withHandle this fun own =>
      return (← heap.getPubExchangeKey lib.sodium own).2
  | .getClientSessionKeys sessionKeys this serverPk => heap.withHandle this fun own =>
      return (← heap.getClientSessionKeys lib.sodium sessionKeys own serverPk).2
  | .getServerSessionKeys sessionKeys this clientPk => heap.withHandle this fun own =>
      return (← heap.getServerSessionKeys lib.sodium sessionKeys own clientPk).2
  | .deriveKeyPair seed id ctx => return (← heap.deriveKeyPair lib.sign lib.kdf seed id ctx).2
  | .access this => heap.withHandle this fun own => return (← heap.access own).2
  | .clearGuard guard =>
      match heap.guards.find guard with
      | none => .ok heap
      | some block => heap.clearGuard guard block

/-- While no guard is alive, the key of every object is locked with the bytes
it was made with. -/
def AtRest (heap : Heap) : Prop :=
  (∀ guard, heap.guards.find guard = none) →
    ∀ this own block, heap.handles.find this = some own → own.mem = some block →
      ∃ ctr content, ⟨block, ctr, content⟩ ∈ heap.made ∧
        heap.blocks.find block = some ⟨content, .noAccess⟩

/-- The counter that an operation increments is not at its maximum. -/
def Countable (heap : Heap) : KeyCall → Prop
  | .handle op => ∀ this own count, source op = some this → heap.handles.find this = some own →
      heap.counters.find own.ctr = some count → count.toNat < kMaxCount
  | _ => True

/-- A key that is not locked has a guard, and no key changes. -/
def Guarded (heap : Heap) : Prop :=
  ∀ key ∈ heap.made, ∀ found, heap.blocks.find key.block = some found →
    found.content = key.content ∧
      (found.protection = .noAccess ∨ ∃ guard, heap.guards.find guard = some key.block)

/-- The counters are those of the objects, and the keys are guarded. -/
def Kept (heap : Heap) : Prop := (∃ surplus, Sharing surplus kMaxCount heap) ∧ heap.Guarded

theorem empty_kept : Kept empty :=
  ⟨⟨_, empty_sharing _⟩, fun _ member => by cases member⟩

variable {heap : Heap} {own : Handle} {block : Nat} {found : KeyBlock}

theorem Kept.atRest (kept : heap.Kept) : heap.AtRest := by
  obtain ⟨⟨surplus, sharing⟩, guarded⟩ := kept
  intro unguarded this own block live keyed
  have valid := sharing.valid this own live
  obtain ⟨count, counted⟩ := sharing.counted le_rfl this own live
  obtain ⟨content, member⟩ := valid.keyed block keyed
  obtain ⟨⟨bytes, protection⟩, at_block⟩ := sharing.allocated valid counted keyed
  obtain ⟨same, locked | ⟨guard, alive⟩⟩ := guarded _ member _ at_block
  · refine ⟨own.ctr, content, member, ?_⟩
    rw [at_block]
    cases same
    cases locked
    rfl
  · rw [unguarded guard] at alive
    contradiction

/-- Changing how a block is protected. -/
theorem Sharing.protect {surplus : Nat → Nat} {limit : Nat} {guards : Store Nat} {value : KeyBlock}
    (sharing : Sharing surplus limit heap) (at_block : heap.blocks.find block = some found) :
    Sharing surplus limit { heap with blocks := heap.blocks.set block value, guards } where
  valid this own live := (sharing.valid this own live).recount rfl
  counts := sharing.counts
  bounds := sharing.bounds
  counted := sharing.counted
  below key member := by
    rw [Store.fresh_set]
    exact sharing.below key member
  together key member := by
    rw [Store.isSome_find_set at_block]
    exact sharing.together key member
  unique := sharing.unique

theorem Guarded.protect {guards : Store Nat} {protection : Protection} (guarded : heap.Guarded)
    (at_block : heap.blocks.find block = some found)
    (kept : ∀ guard other, other ≠ block → heap.guards.find guard = some other →
      ∃ guard, guards.find guard = some other)
    (own : protection = .noAccess ∨ ∃ guard, guards.find guard = some block) :
    Guarded { heap with blocks := heap.blocks.set block ⟨found.content, protection⟩, guards } := by
  intro key member value at_key
  rcases (Store.find_set_eq_some at_block).mp at_key with ⟨same, rfl⟩ | ⟨different, before⟩
  · rw [same]
    rw [← same] at at_block
    exact ⟨(guarded key member found at_block).1, own⟩
  · obtain ⟨content, locked | ⟨guard, alive⟩⟩ := guarded key member value before
    · exact ⟨content, .inl locked⟩
    · exact ⟨content, .inr (kept guard key.block different alive)⟩

theorem Kept.released (kept : heap.Kept) (at_block : heap.blocks.find block = some found) :
    (heap.released block found.content).Kept := by
  obtain ⟨⟨surplus, sharing⟩, guarded⟩ := kept
  refine ⟨⟨surplus, sharing.protect at_block⟩, guarded.protect at_block ?_ (.inl rfl)⟩
  intro guard other _ alive
  exact ⟨guard, by rw [Store.find_skip, alive]⟩

theorem Kept.accessed (kept : heap.Kept) (at_block : heap.blocks.find block = some found) :
    (heap.accessed block found.content).Kept := by
  obtain ⟨⟨surplus, sharing⟩, guarded⟩ := kept
  refine ⟨⟨surplus, sharing.protect at_block⟩,
    guarded.protect at_block ?_ (.inr ⟨_, Store.find_alloc_fresh⟩)⟩
  intro guard other _ alive
  exact ⟨guard, Store.find_alloc_of_find alive⟩

theorem Kept.cleared {guard : Nat} (kept : heap.Kept)
    (alive : heap.guards.find guard = some block)
    (at_block : heap.blocks.find block = some found) :
    (heap.cleared guard block found.content).Kept := by
  obtain ⟨⟨surplus, sharing⟩, guarded⟩ := kept
  refine ⟨⟨surplus, sharing.protect at_block⟩, guarded.protect at_block ?_ (.inl rfl)⟩
  intro guard' other different alive'
  have apart : guard' ≠ guard := by
    intro same
    subst same
    rw [alive] at alive'
    exact different (Option.some.inj alive').symm
  exact ⟨guard', by rw [Store.find_free_of_ne apart, alive']⟩

theorem Kept.advances {surplus : Nat → Nat} {heap' : Heap} {drifting : Prop}
    (guarded : heap.Guarded) (advances : Advances surplus kMaxCount heap heap' drifting) :
    heap'.Kept := by
  obtain ⟨surplus', sharing, keeps, _⟩ := advances
  refine ⟨⟨surplus', sharing⟩, ?_⟩
  intro key member found at_block
  rcases keeps.keys key member found at_block with ⟨earlier, before⟩ | rfl
  · rw [keeps.guards]
    exact guarded key earlier found before
  · exact ⟨rfl, .inl rfl⟩

/-- Allocating the members of a key and freeing them. -/
theorem Kept.skipped (kept : heap.Kept) : heap.skipped.Kept := by
  obtain ⟨⟨surplus, sharing⟩, guarded⟩ := kept
  have counting : counting surplus heap.handles.skip = counting surplus heap.handles := by
    funext ctr
    rw [Heap.counting, sharers, Store.count_skip]
    rfl
  refine ⟨⟨surplus, ⟨?_, ?_, ?_, ?_, ?_, ?_, sharing.unique⟩⟩, ?_⟩
  all_goals simp only [Heap.skipped, Store.find_skip, Store.fresh_skip, counting, Guarded]
  · intro this own live
    obtain ⟨known, keyed, owned⟩ := sharing.valid this own live
    exact ⟨Nat.lt_succ_of_lt known |>.trans_eq Store.fresh_skip.symm, keyed, owned⟩
  · exact sharing.counts
  · exact sharing.bounds
  · exact sharing.counted
  · intro key member
    obtain ⟨block, ctr⟩ := sharing.below key member
    exact ⟨Nat.lt_succ_of_lt block, Nat.lt_succ_of_lt ctr⟩
  · exact sharing.together
  · exact guarded

theorem Kept.construct (kept : heap.Kept) : heap.construct.2.Kept := by
  obtain ⟨⟨surplus, sharing⟩, guarded⟩ := kept
  have advances : Advances surplus kMaxCount heap _ False :=
    sharing.construct_advances (by decide)
  exact .advances guarded advances

theorem Kept.created (kept : heap.Kept) (content : SecretKey) : (heap.created content).Kept := by
  obtain ⟨⟨surplus, sharing⟩, guarded⟩ := kept
  have advances : Advances surplus kMaxCount heap _ False :=
    sharing.created_advances (by decide) content
  exact .advances guarded advances

theorem Kept.accessing (kept : heap.Kept) {body : SecretKey → Except Fault α} {result : α × Heap}
    (ran : heap.accessing own body = .ok result) : result.2.Kept := by
  obtain ⟨block, found, _, at_block, _, same⟩ := accessing_ok ran
  rw [same]
  exact kept.released at_block

/-- The heap of a call that returns a result with the heap. -/
theorem snd_ok {call : Except Fault (α × Heap)} {next : Heap}
    (ran : (do return (← call).2 : Except Fault Heap) = .ok next) :
    ∃ result, call = .ok result ∧ result.2 = next := by
  obtain ⟨result, called, same⟩ := bind_eq_ok.mp ran
  cases same
  exact ⟨result, called, rfl⟩

theorem Kept.withHandle (kept : heap.Kept) {this : Nat} {next : Heap}
    {call : Handle → Except Fault (α × Heap)}
    (calls : ∀ own result, call own = .ok result → result.2.Kept)
    (ran : heap.withHandle this (fun own => do return (← call own).2) = .ok next) :
    next.Kept := by
  unfold Heap.withHandle at ran
  split at ran
  · cases ran
    exact kept
  · obtain ⟨result, called, rfl⟩ := snd_ok ran
    exact calls _ result called

theorem Kept.handleStep_exists (kept : heap.Kept) (sign : SignKeys) {op : HandleOp}
    (countable : heap.Countable (.handle op)) :
    ∃ next, heap.handleStep sign op = .ok next ∧ next.Kept := by
  obtain ⟨⟨surplus, sharing⟩, guarded⟩ := kept
  have room : Room surplus kMaxCount heap op := by
    intro this own count from_this live counted
    rw [← sharing.toNat_eq le_rfl counted]
    exact countable this own count from_this live counted
  obtain ⟨next, ran, advances⟩ :=
    (handleStep_outcome sign sharing (by decide) room).advances le_rfl
  exact ⟨next, ran, .advances guarded advances⟩

theorem Kept.handleStep (kept : heap.Kept) {sign : SignKeys} {op : HandleOp} {next : Heap}
    (countable : heap.Countable (.handle op)) (stepped : heap.handleStep sign op = .ok next) :
    next.Kept := by
  obtain ⟨other, ran, kept⟩ := kept.handleStep_exists sign countable
  rw [ran] at stepped
  cases stepped
  exact kept

theorem Kept.readFromEncrypted (kept : heap.Kept) {aead : Aead} {bytes passwd : Bytes}
    {result : Nat × Heap} (ran : heap.readFromEncrypted aead bytes passwd = .ok result) :
    result.2.Kept := by
  rcases readFromEncrypted_cases ran with rfl | rfl | ⟨secret, rfl⟩
  · exact kept.construct
  · exact kept.skipped.construct
  · exact kept.created secret

theorem Kept.getEncryptionKeysFromPrivate (kept : heap.Kept) {sodium : Sodium} {box : SealedBox}
    {result : Option (PubCipherKey × DecryptionSecKey) × Heap}
    (ran : heap.getEncryptionKeysFromPrivate sodium box own = .ok result) : result.2.Kept := by
  obtain ⟨⟨seed, middle⟩, accessed, same⟩ := bind_eq_ok.mp ran
  have kept : middle.Kept := kept.accessing accessed
  cases same
  exact kept

theorem Kept.getSessionKeys (kept : heap.Kept) {sodium : Sodium}
    {derive : PubExchangeKey → ByteArray kSecretExchangeKeySize → PubExchangeKey →
      Option (SessionKey × SessionKey)}
    {sessionKeys : ClientKeys} {peer : PubExchangeKey} {result : (Bool × ClientKeys) × Heap}
    (ran : heap.getSessionKeys sodium derive sessionKeys own peer = .ok result) :
    result.2.Kept := by
  obtain ⟨⟨keys, middle⟩, accessed, derived⟩ := bind_eq_ok.mp ran
  have kept : middle.Kept := kept.accessing accessed
  simp only at derived
  split at derived
  · cases derived
    exact kept
  · obtain ⟨first, _, derived⟩ := bind_eq_ok.mp derived
    obtain ⟨second, _, same⟩ := bind_eq_ok.mp derived
    cases same
    exact kept

theorem Kept.openData (kept : heap.Kept) {sodium : Sodium} {box : SealedBox} {target source : Bytes}
    {result : (Bool × Bytes) × Heap}
    (ran : heap.openData sodium box target source own = .ok result) : result.2.Kept := by
  unfold Heap.openData at ran
  split at ran
  · cases ran
    exact kept
  · obtain ⟨⟨keys, middle⟩, derived, opened⟩ := bind_eq_ok.mp ran
    have kept : middle.Kept := kept.getEncryptionKeysFromPrivate derived
    obtain ⟨plain, _, same⟩ := bind_eq_ok.mp opened
    cases same
    exact kept

theorem Kept.access (kept : heap.Kept) {result : Nat × Heap}
    (ran : heap.access own = .ok result) : result.2.Kept := by
  obtain ⟨block, found, keyed, at_block⟩ := access_ok ran
  rw [access_eq keyed at_block] at ran
  cases ran
  exact kept.accessed at_block

theorem Kept.getPubCipherKey (kept : heap.Kept) {sodium : Sodium} {box : SealedBox}
    {result : Option PubCipherKey × Heap}
    (ran : heap.getPubCipherKey sodium box own = .ok result) : result.2.Kept := by
  obtain ⟨⟨keys, middle⟩, derived, same⟩ := bind_eq_ok.mp ran
  have kept : middle.Kept := kept.getEncryptionKeysFromPrivate derived
  cases same
  exact kept

theorem Kept.getPubExchangeKey (kept : heap.Kept) {sodium : Sodium}
    {result : Option PubExchangeKey × Heap}
    (ran : heap.getPubExchangeKey sodium own = .ok result) : result.2.Kept := by
  obtain ⟨⟨keys, middle⟩, derived, same⟩ := bind_eq_ok.mp ran
  have kept : middle.Kept := kept.accessing derived
  cases same
  exact kept

theorem Kept.getEncrypted (kept : heap.Kept) {aead : Aead} {passwd : Bytes}
    {random : ByteArray kNpubBytes} {result : Bytes × Heap}
    (ran : heap.getEncrypted aead own passwd random = .ok result) : result.2.Kept := by
  obtain ⟨key, _, ran⟩ := bind_eq_ok.mp ran
  exact kept.accessing ran

theorem Kept.deriveKeyPair (kept : heap.Kept) {sign : SignKeys} {kdf : Kdf}
    {seed : Mnemonic.MasterSeed} {id : KeyId} {ctx : Context}
    {result : (PublicKey × Nat × Mnemonic.MasterSeed) × Heap}
    (ran : heap.deriveKeyPair sign kdf seed id ctx = .ok result) : result.2.Kept := by
  obtain ⟨⟨pk, sk, seed'⟩, _, ran⟩ := bind_eq_ok.mp ran
  obtain ⟨⟨made, middle⟩, read, same⟩ := bind_eq_ok.mp ran
  obtain ⟨content, _, read⟩ := bind_eq_ok.mp read
  rw [create_eq] at read
  cases read
  cases same
  exact kept.created content

theorem Kept.clearGuard (kept : heap.Kept) {guard : Nat} {next : Heap}
    (alive : heap.guards.find guard = some block)
    (ran : heap.clearGuard guard block = .ok next) : next.Kept := by
  obtain ⟨found, at_block, rfl⟩ := clearGuard_ok ran
  exact kept.cleared alive at_block

theorem Kept.step (kept : heap.Kept) {lib : Libsodium} {call : KeyCall} {next : Heap}
    (countable : heap.Countable call) (stepped : heap.keyStep lib call = .ok next) :
    next.Kept := by
  cases call with
  | handle op => exact kept.handleStep countable stepped
  | readFromEncrypted bytes passwd =>
      obtain ⟨result, ran, rfl⟩ := snd_ok stepped
      exact kept.readFromEncrypted ran
  | deriveKeyPair seed id ctx =>
      obtain ⟨result, ran, rfl⟩ := snd_ok stepped
      exact kept.deriveKeyPair ran
  | clearGuard guard =>
      cases alive : heap.guards.find guard with
      | none =>
          simp only [keyStep, alive] at stepped
          cases stepped
          exact kept
      | some block =>
          simp only [keyStep, alive] at stepped
          exact kept.clearGuard alive stepped
  | getEncrypted this passwd random =>
      exact kept.withHandle (fun _ _ ran => kept.getEncrypted ran) stepped
  | getMatchingPublic this => exact kept.withHandle (fun _ _ ran => kept.accessing ran) stepped
  | generateSignature this data => exact kept.withHandle (fun _ _ ran => kept.accessing ran) stepped
  | getPubCipherKey this => exact kept.withHandle (fun _ _ ran => kept.getPubCipherKey ran) stepped
  | decryptData target source this =>
      exact kept.withHandle (fun _ _ ran => kept.openData ran) stepped
  | getPubExchangeKey this =>
      exact kept.withHandle (fun _ _ ran => kept.getPubExchangeKey ran) stepped
  | getClientSessionKeys sessionKeys this serverPk =>
      exact kept.withHandle (fun _ _ ran => kept.getSessionKeys ran) stepped
  | getServerSessionKeys sessionKeys this clientPk =>
      exact kept.withHandle (fun _ _ ran => kept.getSessionKeys ran) stepped
  | access this => exact kept.withHandle (fun _ _ ran => kept.access ran) stepped

/-- Keys are at rest in every state of a run in which no counter overflows. -/
theorem keys_at_rest (lib : Libsodium) (calls : List KeyCall)
    (countable : EveryStep (keyStep lib) Countable empty calls) :
    Always (keyStep lib) AtRest empty calls :=
  (EveryStep.always (fun _ _ _ kept may stepped => kept.step may stepped) empty_kept
    countable).imp fun _ => Kept.atRest

def transparentLib : Libsodium where
  sodium := .transparent
  sign := .transparent
  kdf _ _ seed := seed
  aead := .transparent
  box := ⟨fun seed => some (seed, seed), fun _ _ m => ⟨m ++ List.replicate kSealBytes 0, by
    rw [List.length_append, List.length_replicate]⟩, fun _ _ _ => none⟩

theorem keys_at_rest_after_use : Always (keyStep transparentLib) AtRest empty
    [.handle (.readFromBytes (List.replicate 64 7)), .handle (.copy 0), .getPubExchangeKey 1,
      .getEncrypted 0 (ascii "password") (.replicate _ 1)] :=
  keys_at_rest transparentLib _ (by
    refine ⟨fun _ _ _ from_this => by contradiction, fun _ made => ⟨?_, fun _ _ =>
      ⟨trivial, fun _ _ => ⟨trivial, fun _ _ => trivial⟩⟩⟩⟩
    cases made
    intro this own count from_this live counted
    cases from_this
    cases live
    cases counted
    decide)

/-- A key whose object was assigned to itself. -/
def selfAssigned (content : SecretKey) (count : UInt32) : Heap :=
  { empty.created content with counters := Store.empty.alloc count }

theorem selfAssigned_run (lib : Libsodium) (content : SecretKey) (count : UInt32) (times : Nat) :
    (List.replicate times (KeyCall.handle (.assign 0 0))).foldlM (keyStep lib)
      (selfAssigned content count) = .ok (selfAssigned content (count + UInt32.ofNat times)) := by
  induction times generalizing count with
  | zero =>
      have same : count + UInt32.ofNat 0 = count := UInt32.add_zero count
      rw [same]
      rfl
  | succ times ih =>
      have stepped : keyStep lib (selfAssigned content count) (.handle (.assign 0 0)) =
        .ok (selfAssigned content (count + 1)) := rfl
      rw [List.replicate_succ, foldlM_cons_ok]
      refine ⟨_, stepped, ?_⟩
      rw [ih, UInt32.ofNat_add, UInt32.add_assoc, UInt32.add_comm 1]
      rfl

/-- Once the counter is zero again, the next copy to be destroyed takes the key
with it. -/
theorem wrapped_counter_frees_key (times : Nat) (wrapped : 1 + UInt32.ofNat times = 0) :
    ¬Always (keyStep transparentLib) AtRest empty
      (.handle (.generateWithPair (.replicate _ 7)) ::
        (List.replicate times (.handle (.assign 0 0)) ++
          [.handle (.copy 0), .handle (.destroy 1)])) := by
  intro always
  have made : keyStep transparentLib empty (.handle (.generateWithPair (.replicate _ 7))) =
    .ok (selfAssigned ⟨List.replicate 64 7, rfl⟩ 1) := rfl
  have ran : (List.replicate times (KeyCall.handle (.assign 0 0)) ++
      [KeyCall.handle (.copy 0), KeyCall.handle (.destroy 1)]).foldlM (keyStep transparentLib)
        (selfAssigned ⟨List.replicate 64 7, rfl⟩ 1) =
      .ok ⟨⟨[none]⟩, ⟨[none]⟩, ⟨[some ⟨some 0, 0⟩, none]⟩, .empty,
        [⟨0, 0, ⟨List.replicate 64 7, rfl⟩⟩]⟩ := by
    rw [List.foldlM_append, selfAssigned_run, wrapped]
    rfl
  have atRest : AtRest _ :=
    always_iff_split.mp (always.2 _ made) _ [] _ (List.append_nil _).symm ran
  obtain ⟨ctr, content, _, locked⟩ := atRest (fun _ => rfl) 0 ⟨some 0, 0⟩ 0 rfl rfl
  cases locked

/-- A key that is assigned to itself until the counter is zero again. -/
theorem overflow_frees_key : ¬Always (keyStep transparentLib) AtRest empty
    (.handle (.generateWithPair (.replicate _ 7)) ::
      (List.replicate (2 ^ 32 - 1) (.handle (.assign 0 0)) ++
        [.handle (.copy 0), .handle (.destroy 1)])) :=
  wrapped_counter_frees_key (2 ^ 32 - 1) (by decide)

end Heap

end Cscrypto
