import Cscrypto.Cipher.FailedHash
import Cscrypto.KeyExchange.SessionKeys

namespace Cscrypto.KeyExchange

open Cscrypto.Data
open Cscrypto.Cipher

/-! # Session keys that are made anew

The functions of `keyexchange.cpp` write into the blocks that they are given,
with the protection that was left there, and the functions of `cipher.cpp` lock
every block that they have used.
-/

structure SessionState where
  keys : MemGuard kSessionKeySize × MemGuard kSessionKeySize
  disk : Disk

/-- A call into the pair of keys, or a cipher call with one of them. -/
inductive SessionCall where
  | getClientSessionKeys (clientSk : PrivateKey) (serverPk : PubExchangeKey)
  | getServerSessionKeys (serverSk : PrivateKey) (clientPk : PubExchangeKey)
  | useFirst (call : CipherCall)
  | useSecond (call : CipherCall)

section

variable (sodium : Sodium) (ss : SecretStream) (box : SecretBox)

def sessionStep (state : SessionState) : SessionCall → Except Fault SessionState
  | .getClientSessionKeys clientSk serverPk => do
      let (_, keys) ← getClientSessionKeys sodium state.keys clientSk serverPk
      return { state with keys }
  | .getServerSessionKeys serverSk clientPk => do
      let (_, keys) ← getServerSessionKeys sodium state.keys serverSk clientPk
      return { state with keys }
  | .useFirst call => do
      let ⟨key, disk⟩ ← cipherStep ss box ⟨state.keys.1, state.disk⟩ call
      return ⟨(key, state.keys.2), disk⟩
  | .useSecond call => do
      let ⟨key, disk⟩ ← cipherStep ss box ⟨state.keys.2, state.disk⟩ call
      return ⟨(state.keys.1, key), disk⟩

/-- What the blocks of the two keys contain, whatever their protection. -/
def contents (keys : MemGuard kSessionKeySize × MemGuard kSessionKeySize) :
    Option SessionKey × Option SessionKey :=
  (keys.1.mem.map Block.content, keys.2.mem.map Block.content)

/-- A call that returns without new session keys leaves the bytes of both keys:
one that fails, and every cipher call. -/
def KeepsBytes (state : SessionState) : SessionCall → Prop
  | .getClientSessionKeys clientSk serverPk => ∀ keys,
      getClientSessionKeys sodium state.keys clientSk serverPk = .ok (false, keys) →
        contents keys = contents state.keys
  | .getServerSessionKeys serverSk clientPk => ∀ keys,
      getServerSessionKeys sodium state.keys serverSk clientPk = .ok (false, keys) →
        contents keys = contents state.keys
  | call => ∀ next, sessionStep sodium ss box state call = .ok next →
      contents next.keys = contents state.keys

/-- Every key byte is written to a writable block and read from a readable one,
and no call that fails changes any. -/
def AccessesKeys (state : SessionState) (call : SessionCall) : Prop :=
  sessionStep sodium ss box state call ≠ .error .accessViolation ∧
    KeepsBytes sodium ss box state call

/-- The session keys that libsodium derives, if it does. -/
def derivedKeys (derive : PubExchangeKey → ByteArray kSecretExchangeKeySize → PubExchangeKey →
    Option (SessionKey × SessionKey)) (sk : PrivateKey) (peer : PubExchangeKey) :
    Option (SessionKey × SessionKey) :=
  sk.mem.bind fun secret =>
    (exchangeKeys sodium secret).bind fun (epk, esk) => derive epk esk peer

end

def Writable (key : MemGuard kSessionKeySize) : Prop :=
  ∃ content, key = .holding content .readWrite

/-- The call gets as far as a cipher that needs one of the keys. -/
def UsesKeys (state : SessionState) : SessionCall → Prop
  | .useFirst call => UsesKey ⟨state.keys.1, state.disk⟩ call
  | .useSecond call => UsesKey ⟨state.keys.2, state.disk⟩ call
  | _ => False

/-- libsodium derives session keys for the call. -/
def DerivesKeys (sodium : Sodium) : SessionCall → Prop
  | .getClientSessionKeys clientSk serverPk =>
      (derivedKeys sodium sodium.kxClientSessionKeys clientSk serverPk).isSome
  | .getServerSessionKeys serverSk clientPk =>
      (derivedKeys sodium sodium.kxServerSessionKeys serverSk clientPk).isSome
  | _ => False

/-- In the calls before one that derives keys no cipher call has used a key. -/
def RenewsUnused (sodium : Sodium) (ss : SecretStream) (box : SecretBox) (start : SessionState)
    (calls : List SessionCall) : Prop :=
  ∀ front call back state, calls = front ++ call :: back →
    front.foldlM (sessionStep sodium ss box) start = .ok state → DerivesKeys sodium call →
    EveryStep (sessionStep sodium ss box) (fun state call => ¬UsesKeys state call) start front

/-- Both keys have their blocks. -/
def HasBlocks (state : SessionState) : Prop :=
  ∃ first firstProtection second secondProtection,
    state.keys = (.holding first firstProtection, .holding second secondProtection)

variable {sodium : Sodium} {ss : SecretStream} {box : SecretBox}
  {derive : PubExchangeKey → ByteArray kSecretExchangeKeySize → PubExchangeKey →
    Option (SessionKey × SessionKey)}

theorem writable_holding {content : SessionKey} {protection : Protection} :
    Writable (.holding content protection) ↔ protection = .readWrite := by
  constructor
  · intro given
    obtain ⟨other, same⟩ := given
    cases same
    rfl
  · intro same
    rw [same]
    exact ⟨content, rfl⟩

theorem write_holding (before after : SessionKey) (protection : Protection) :
    (MemGuard.holding before protection).write after =
      if protection = .readWrite then .ok (.holding after .readWrite)
      else .error .accessViolation := by
  cases protection <;> rfl

/-- The protection is looked at only after keys are derived. -/
theorem getSessionKeys_eq (first second : SessionKey) (firstProtection secondProtection : Protection)
    (sk : PrivateKey) (peer : PubExchangeKey) :
    getSessionKeys sodium derive (.holding first firstProtection, .holding second secondProtection)
        sk peer =
      match sk.mem, derivedKeys sodium derive sk peer with
      | none, _ => .error .misuse
      | some _, none => .ok (false, .holding first firstProtection, .holding second secondProtection)
      | some _, some (receive, send) =>
          if firstProtection = .readWrite ∧ secondProtection = .readWrite then
            .ok (true, .holding receive .readWrite, .holding send .readWrite)
          else .error .accessViolation := by
  rcases sk with ⟨_ | secret⟩
  · rfl
  · have exchanged : getExchangeKeysFromPrivate sodium ⟨some secret⟩ =
        .ok (exchangeKeys sodium secret) := getExchangeKeysFromPrivate_holding sodium secret
    rw [getSessionKeys, exchanged, ok_bind, derivedKeys, Option.bind_some]
    rcases exchangeKeys sodium secret with _ | ⟨epk, esk⟩
    · rfl
    · rw [Option.bind_some]
      rcases derived : derive epk esk peer with _ | ⟨receive, send⟩
      · simp only [derived]
        rfl
      · simp only [derived, write_holding]
        cases firstProtection <;> cases secondProtection <;> rfl

/-- A cipher call that gets as far as the key leaves it locked, and another one
leaves it as it is. -/
theorem cipherStep_holding (secret : StreamKey) (protection : Protection) (disk : Disk)
    (call : CipherCall) :
    (UsesKey ⟨.holding secret protection, disk⟩ call →
      Locks secret ((cipherStep ss box ⟨.holding secret protection, disk⟩ call).map
        CipherState.key)) ∧
    (¬UsesKey ⟨.holding secret protection, disk⟩ call →
      (cipherStep ss box ⟨.holding secret protection, disk⟩ call).map CipherState.key =
        .ok (.holding secret protection)) := by
  cases call with
  | encryptFile fuel target source header =>
      refine ⟨fun opens => ?_, fun unopened => ?_⟩
      · exact (encryptFile_used ss fuel secret protection header opens).step fun _ => rfl
      · simp only [cipherStep, encryptFile_unopened ss fuel _ header unopened, ok_bind, pure_eq_ok,
          map_ok]
  | decryptFile fuel target source stack =>
      refine ⟨fun opens => ?_, fun unopened => ?_⟩
      · exact (decryptFile_used ss fuel secret protection stack opens).step fun _ => rfl
      · simp only [cipherStep, decryptFile_unopened ss fuel _ stack unopened, ok_bind, pure_eq_ok,
          map_ok]
  | encryptData nonce source =>
      refine ⟨fun _ => ?_, fun unused => absurd trivial unused⟩
      simp only [cipherStep, encryptData_holding, ok_bind, pure_eq_ok, map_ok]
      exact .locked
  | decryptData target source =>
      refine ⟨fun long => ?_, fun short => ?_⟩
      · exact (decryptData_used box target secret protection long).step fun _ => rfl
      · simp only [cipherStep, decryptData_short box (Nat.lt_of_not_le short), ok_bind, pure_eq_ok,
          map_ok]

theorem cipherStep_kept {secret : StreamKey} {protection : Protection} {disk : Disk}
    {call : CipherCall} {next : CipherState}
    (ran : cipherStep ss box ⟨.holding secret protection, disk⟩ call = .ok next) :
    ∃ after, next.key = .holding secret after := by
  obtain ⟨used, unused⟩ := @cipherStep_holding ss box secret protection disk call
  rw [ran, map_ok] at used unused
  by_cases uses : UsesKey ⟨.holding secret protection, disk⟩ call
  · exact ⟨_, (used uses).key_eq⟩
  · exact ⟨_, Except.ok.inj (unused uses)⟩

theorem cipherStep_no_violation (secret : StreamKey) (protection : Protection) (disk : Disk)
    (call : CipherCall) :
    cipherStep ss box ⟨.holding secret protection, disk⟩ call ≠ .error .accessViolation := by
  intro ran
  obtain ⟨used, unused⟩ := @cipherStep_holding ss box secret protection disk call
  rw [ran] at used unused
  by_cases uses : UsesKey ⟨.holding secret protection, disk⟩ call
  · cases used uses
  · cases unused uses

variable {state next : SessionState}

/-- Both blocks are written, or none is. -/
theorem HasBlocks.getSessionKeys_ok (blocks : HasBlocks state) {made : Bool} {sk : PrivateKey}
    {peer : PubExchangeKey} {keys : MemGuard kSessionKeySize × MemGuard kSessionKeySize}
    (ran : getSessionKeys sodium derive state.keys sk peer = .ok (made, keys)) :
    (made = false ∧ keys = state.keys) ∨ (made = true ∧
      ∃ receive send, keys = (.holding receive .readWrite, .holding send .readWrite)) := by
  obtain ⟨first, firstProtection, second, secondProtection, blocks⟩ := blocks
  rw [blocks, getSessionKeys_eq] at ran
  split at ran
  · contradiction
  · cases ran
    exact .inl ⟨rfl, blocks.symm⟩
  · split at ran
    · cases ran
      exact .inr ⟨rfl, _, _, rfl⟩
    · contradiction

theorem HasBlocks.getSessionKeys_accesses_iff (blocks : HasBlocks state) (sk : PrivateKey)
    (peer : PubExchangeKey) :
    getSessionKeys sodium derive state.keys sk peer ≠ .error .accessViolation ↔
      ((derivedKeys sodium derive sk peer).isSome →
        Writable state.keys.1 ∧ Writable state.keys.2) := by
  obtain ⟨first, firstProtection, second, secondProtection, blocks⟩ := blocks
  rw [blocks, getSessionKeys_eq, writable_holding, writable_holding]
  rcases sk with ⟨_ | secret⟩
  · refine iff_of_true (fun same => by cases same) ?_
    intro derived
    cases derived
  · rcases derivedKeys sodium derive ⟨some secret⟩ peer with _ | ⟨receive, send⟩
    · refine iff_of_true (fun same => by cases same) ?_
      intro derived
      cases derived
    · dsimp only
      split
      · rename_i writable
        exact iff_of_true (fun same => by cases same) (fun _ => writable)
      · rename_i locked
        exact iff_of_false (fun differs => differs rfl) (fun given => locked (given rfl))

/-- A cipher call with one of the keys keeps the bytes of both. -/
theorem HasBlocks.cipher (blocks : HasBlocks state) {call : SessionCall} {cipherCall : CipherCall}
    (uses : call = .useFirst cipherCall ∨ call = .useSecond cipherCall)
    (ran : sessionStep sodium ss box state call = .ok next) :
    HasBlocks next ∧ contents next.keys = contents state.keys := by
  obtain ⟨first, firstProtection, second, secondProtection, keys⟩ := blocks
  rcases uses with rfl | rfl
  · obtain ⟨used, cipher, same⟩ := bind_eq_ok.mp ran
    cases same
    rw [keys] at cipher ⊢
    obtain ⟨after, kept⟩ := cipherStep_kept cipher
    rw [kept]
    exact ⟨⟨first, after, second, secondProtection, rfl⟩, rfl⟩
  · obtain ⟨used, cipher, same⟩ := bind_eq_ok.mp ran
    cases same
    rw [keys] at cipher ⊢
    obtain ⟨after, kept⟩ := cipherStep_kept cipher
    rw [kept]
    exact ⟨⟨first, firstProtection, second, after, rfl⟩, rfl⟩

theorem HasBlocks.derived {keys : MemGuard kSessionKeySize × MemGuard kSessionKeySize}
    (blocks : HasBlocks state) {made : Bool} {sk : PrivateKey} {peer : PubExchangeKey}
    (ran : getSessionKeys sodium derive state.keys sk peer = .ok (made, keys)) :
    HasBlocks { state with keys } := by
  rcases blocks.getSessionKeys_ok ran with ⟨_, rfl⟩ | ⟨_, receive, send, rfl⟩
  · exact blocks
  · exact ⟨_, _, _, _, rfl⟩

theorem HasBlocks.step (blocks : HasBlocks state) {call : SessionCall}
    (ran : sessionStep sodium ss box state call = .ok next) : HasBlocks next := by
  cases call with
  | useFirst call => exact (blocks.cipher (.inl rfl) ran).1
  | useSecond call => exact (blocks.cipher (.inr rfl) ran).1
  | _ =>
      obtain ⟨⟨made, keys⟩, derived, same⟩ := bind_eq_ok.mp ran
      cases same
      exact blocks.derived derived

theorem HasBlocks.keepsBytes (blocks : HasBlocks state) (call : SessionCall) :
    KeepsBytes sodium ss box state call := by
  cases call with
  | useFirst call => exact fun next ran => (blocks.cipher (.inl rfl) ran).2
  | useSecond call => exact fun next ran => (blocks.cipher (.inr rfl) ran).2
  | _ =>
      intro keys failed
      rcases blocks.getSessionKeys_ok failed with ⟨_, rfl⟩ | ⟨made, _⟩
      · rfl
      · contradiction

theorem bind_ne_violation {α β : Type} {call : Except Fault α} {make : α → β} :
    (call >>= fun value => .ok (make value)) ≠ .error .accessViolation ↔
      call ≠ .error .accessViolation := by
  cases call with
  | ok value => exact iff_of_true (fun same => by cases same) (fun same => by cases same)
  | error fault => simp

theorem accessesKeys_iff (blocks : HasBlocks state) (call : SessionCall) :
    AccessesKeys sodium ss box state call ↔
      (DerivesKeys sodium call → Writable state.keys.1 ∧ Writable state.keys.2) := by
  refine (and_iff_left (blocks.keepsBytes call)).trans ?_
  cases call with
  | getClientSessionKeys clientSk serverPk =>
      exact bind_ne_violation.trans (blocks.getSessionKeys_accesses_iff clientSk serverPk)
  | getServerSessionKeys serverSk clientPk =>
      exact bind_ne_violation.trans (blocks.getSessionKeys_accesses_iff serverSk clientPk)
  | useFirst call =>
      obtain ⟨first, firstProtection, second, secondProtection, keys⟩ := blocks
      refine iff_of_true (bind_ne_violation.mpr ?_) False.elim
      rw [keys]
      exact cipherStep_no_violation first firstProtection state.disk call
  | useSecond call =>
      obtain ⟨first, firstProtection, second, secondProtection, keys⟩ := blocks
      refine iff_of_true (bind_ne_violation.mpr ?_) False.elim
      rw [keys]
      exact cipherStep_no_violation second secondProtection state.disk call

theorem HasBlocks.derived_writable (blocks : HasBlocks state) {made : Bool} {sk : PrivateKey}
    {peer : PubExchangeKey} {keys : MemGuard kSessionKeySize × MemGuard kSessionKeySize}
    (ran : getSessionKeys sodium derive state.keys sk peer = .ok (made, keys)) :
    (Writable keys.1 ∧ Writable keys.2) ↔ (Writable state.keys.1 ∧ Writable state.keys.2) := by
  rcases blocks.getSessionKeys_ok ran with ⟨_, rfl⟩ | ⟨rfl, receive, send, rfl⟩
  · rfl
  · refine iff_of_true ⟨⟨_, rfl⟩, ⟨_, rfl⟩⟩ ?_
    obtain ⟨first, firstProtection, second, secondProtection, keys⟩ := blocks
    rw [keys, getSessionKeys_eq] at ran
    rw [keys, writable_holding, writable_holding]
    split at ran
    · contradiction
    · cases ran
    · split at ran
      · assumption
      · contradiction

/-- A cipher call that uses its key locks it. -/
theorem cipherStep_writable {secret : SessionKey} {protection : Protection} {disk : Disk}
    {call : CipherCall} {next : CipherState}
    (ran : cipherStep ss box ⟨.holding secret protection, disk⟩ call = .ok next) :
    Writable next.key ↔ Writable (.holding secret protection) ∧
      ¬UsesKey ⟨.holding secret protection, disk⟩ call := by
  obtain ⟨used, unused⟩ := @cipherStep_holding ss box secret protection disk call
  rw [ran, map_ok] at used unused
  by_cases uses : UsesKey ⟨.holding secret protection, disk⟩ call
  · rw [(used uses).key_eq, writable_holding]
    exact iff_of_false (fun same => by cases same) (fun given => given.2 uses)
  · rw [Except.ok.inj (unused uses)]
    exact (and_iff_left uses).symm

theorem HasBlocks.step_writable (blocks : HasBlocks state) {call : SessionCall}
    (ran : sessionStep sodium ss box state call = .ok next) :
    (Writable next.keys.1 ∧ Writable next.keys.2) ↔
      (Writable state.keys.1 ∧ Writable state.keys.2) ∧ ¬UsesKeys state call := by
  cases call with
  | useFirst call =>
      obtain ⟨first, firstProtection, second, secondProtection, keys⟩ := blocks
      obtain ⟨used, cipher, same⟩ := bind_eq_ok.mp ran
      cases same
      simp only [UsesKeys]
      rw [keys] at cipher ⊢
      rw [cipherStep_writable cipher, and_right_comm]
  | useSecond call =>
      obtain ⟨first, firstProtection, second, secondProtection, keys⟩ := blocks
      obtain ⟨used, cipher, same⟩ := bind_eq_ok.mp ran
      cases same
      simp only [UsesKeys]
      rw [keys] at cipher ⊢
      rw [cipherStep_writable cipher, and_assoc]
  | _ =>
      obtain ⟨⟨made, keys⟩, derived, same⟩ := bind_eq_ok.mp ran
      cases same
      rw [blocks.derived_writable derived]
      exact (and_iff_left False.elim).symm

/-- After a run from new keys the blocks are writable exactly if no call has
used a key. -/
theorem run_writable {disk : Disk} {calls : List SessionCall} {last : SessionState}
    (ran : calls.foldlM (sessionStep sodium ss box) ⟨newKeys, disk⟩ = .ok last) :
    HasBlocks last ∧ ((Writable last.keys.1 ∧ Writable last.keys.2) ↔
      EveryStep (sessionStep sodium ss box) (fun state call => ¬UsesKeys state call)
        ⟨newKeys, disk⟩ calls) := by
  have history := @foldlM_history _ _ _ (sessionStep sodium ss box) (fun past state =>
    past.foldlM (sessionStep sodium ss box) ⟨newKeys, disk⟩ = .ok state ∧ HasBlocks state ∧
      ((Writable state.keys.1 ∧ Writable state.keys.2) ↔
        EveryStep (sessionStep sodium ss box) (fun state call => ¬UsesKeys state call)
          ⟨newKeys, disk⟩ past)) ?_ calls ⟨newKeys, disk⟩ last ?_ ran
  · exact history.2
  · intro past state call next before stepped
    obtain ⟨reached, blocks, writable⟩ := before
    refine ⟨foldlM_concat_ok.mpr ⟨state, reached, stepped⟩, blocks.step stepped, ?_⟩
    rw [blocks.step_writable stepped, writable, everyStep_concat reached]
  · exact ⟨rfl, ⟨_, _, _, _, rfl⟩, iff_of_true ⟨⟨_, rfl⟩, ⟨_, rfl⟩⟩ trivial⟩

/-- Session keys can be made anew exactly as long as no cipher call has used
one of the two before. -/
theorem session_keys_renewed_iff (sodium : Sodium) (ss : SecretStream) (box : SecretBox)
    (disk : Disk) (calls : List SessionCall) :
    EveryStep (sessionStep sodium ss box) (AccessesKeys sodium ss box) ⟨newKeys, disk⟩ calls ↔
      RenewsUnused sodium ss box ⟨newKeys, disk⟩ calls := by
  rw [everyStep_iff_split, RenewsUnused]
  refine forall₄_congr fun front call back state => forall₂_congr fun _ ran => ?_
  obtain ⟨blocks, writable⟩ := run_writable ran
  rw [accessesKeys_iff blocks, writable]

/-- A second exchange into keys of which one has encrypted a message. -/
def secondExchange : List SessionCall := [
  .getClientSessionKeys (.holding (.replicate _ 7)) (.replicate _ 9),
  .useFirst (.encryptData (.replicate _ 1) [104, 105]),
  .getClientSessionKeys (.holding (.replicate _ 7)) (.replicate _ 9)]

theorem used_keys_not_renewed : ¬EveryStep (sessionStep .transparent plainStream .transparent)
    (AccessesKeys .transparent plainStream .transparent)
    ⟨newKeys, ⟨fun _ => none, 0, 0, fun _ => ⟨some 0, false, []⟩⟩⟩ secondExchange := by
  intro every
  exact ((every.2 _ rfl).2 _ rfl).1.1 rfl

end Cscrypto.KeyExchange
