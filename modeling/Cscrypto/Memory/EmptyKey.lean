import Cscrypto.Keys.Validation
import Cscrypto.Memory.KeysAtRest

namespace Cscrypto

open Cscrypto.Data Cscrypto.KeysDerivation Cscrypto.KeyExchange Cscrypto.Cipher

/-! # Empty private keys

Bytes that are no key give an object without a block.  Every operation on it
opens a guard first, and the guard changes the protection of the block before
anything is checked.
-/

/-- The operations that take a private key, with their other arguments. -/
inductive KeyUse where
  | getMatchingPublic
  | validateKeyPair (publicKey : PublicKey)
  | generateSignature (data : Bytes)
  | getEncrypted (passwd : Bytes) (random : ByteArray kNpubBytes)
  | getPubExchangeKey
  | getClientSessionKeys (sessionKeys : ClientKeys) (serverPk : PubExchangeKey)
  | getServerSessionKeys (sessionKeys : ServerKeys) (clientPk : PubExchangeKey)
  | getPubCipherKey
  | decryptData (target source : Bytes)

namespace Heap

def validateKeyPair (sign : SignKeys) (heap : Heap) (publicKey : PublicKey) (own : Handle) :
    Except Fault (Bool × Heap) := do
  let (matching, heap) ← heap.getMatchingPublic sign own
  return (publicKey = matching, heap)

/-- The call, and the result of those that return a `bool`. -/
def useKey (lib : Libsodium) (heap : Heap) (own : Handle) :
    KeyUse → Except Fault (Option Bool × Heap)
  | .getMatchingPublic => do
      let (_, heap) ← heap.getMatchingPublic lib.sign own
      return (none, heap)
  | .validateKeyPair publicKey => do
      let (valid, heap) ← heap.validateKeyPair lib.sign publicKey own
      return (some valid, heap)
  | .generateSignature data => do
      let (_, heap) ← heap.generateSignature lib.sodium own data
      return (none, heap)
  | .getEncrypted passwd random => do
      let (_, heap) ← heap.getEncrypted lib.aead own passwd random
      return (none, heap)
  | .getPubExchangeKey => do
      let (epk, heap) ← heap.getPubExchangeKey lib.sodium own
      return (some epk.isSome, heap)
  | .getClientSessionKeys sessionKeys serverPk => do
      let ((derived, _), heap) ← heap.getClientSessionKeys lib.sodium sessionKeys own serverPk
      return (some derived, heap)
  | .getServerSessionKeys sessionKeys clientPk => do
      let ((derived, _), heap) ← heap.getServerSessionKeys lib.sodium sessionKeys own clientPk
      return (some derived, heap)
  | .getPubCipherKey => do
      let (pk, heap) ← heap.getPubCipherKey lib.sodium lib.box own
      return (some pk.isSome, heap)
  | .decryptData target source => do
      let ((opened, _), heap) ← heap.openData lib.sodium lib.box target source own
      return (some opened, heap)

/-- The call returns, and with `false` if it reports success. -/
def SafeUse (lib : Libsodium) (heap : Heap) (own : Handle) (use : KeyUse) : Prop :=
  ∃ reported next, heap.useKey lib own use = .ok (reported, next) ∧ reported ≠ some true

end Heap

/-- The call returns before it looks at the key. -/
def KeyUse.RefusedFirst : KeyUse → Prop
  | .decryptData _ source => source.length < kSealBytes
  | _ => False

namespace Heap

variable {heap : Heap} {own : Handle}

theorem accessing_empty (empty : own.mem = none) (body : SecretKey → Except Fault α) :
    heap.accessing own body = .error .misuse := by
  simp only [accessing, access, empty, error_bind]

theorem openData_empty (sodium : Sodium) (box : SealedBox) (target : Bytes) {source : Bytes}
    (empty : own.mem = none) (long : kSealBytes ≤ source.length) :
    heap.openData sodium box target source own = .error .misuse := by
  rw [openData, if_neg (Nat.not_lt_of_le long)]
  simp only [getEncryptionKeysFromPrivate, accessing_empty empty, error_bind]

theorem getSessionKeys_empty (sodium : Sodium)
    (derive : PubExchangeKey → ByteArray kSecretExchangeKeySize → PubExchangeKey →
      Option (SessionKey × SessionKey)) (empty : own.mem = none)
    (sessionKeys : KeyExchange.CipherKey × KeyExchange.CipherKey) (peer : PubExchangeKey) :
    heap.getSessionKeys sodium derive sessionKeys own peer = .error .misuse := by
  simp only [getSessionKeys, getExchangeKeysFromPrivate, accessing_empty empty, error_bind]

/-- On an empty key every operation aborts that does not return before it looks
at the key. -/
theorem useKey_empty (lib : Libsodium) (empty : own.mem = none) {use : KeyUse}
    (looks : ¬use.RefusedFirst) : heap.useKey lib own use = .error .misuse := by
  cases use with
  | getMatchingPublic =>
      simp only [useKey, getMatchingPublic, accessing_empty empty, error_bind]
  | validateKeyPair publicKey =>
      simp only [useKey, validateKeyPair, getMatchingPublic, accessing_empty empty, error_bind]
  | generateSignature data =>
      simp only [useKey, generateSignature, accessing_empty empty, error_bind]
  | getEncrypted passwd random =>
      simp only [useKey, getEncrypted, getKeyFromPassword_eq, accessing_empty empty, ok_bind,
        error_bind]
  | getPubExchangeKey =>
      simp only [useKey, getPubExchangeKey, getExchangeKeysFromPrivate, accessing_empty empty,
        error_bind]
  | getClientSessionKeys sessionKeys serverPk =>
      simp only [useKey, getClientSessionKeys, getSessionKeys_empty _ _ empty, error_bind]
  | getServerSessionKeys sessionKeys clientPk =>
      simp only [useKey, getServerSessionKeys, getSessionKeys_empty _ _ empty, error_bind]
  | getPubCipherKey =>
      simp only [useKey, getPubCipherKey, getEncryptionKeysFromPrivate, accessing_empty empty,
        error_bind]
  | decryptData target source =>
      simp only [useKey, openData_empty _ _ target empty (Nat.le_of_not_lt looks), error_bind]

theorem safeUse_empty_iff (lib : Libsodium) (empty : own.mem = none) (use : KeyUse) :
    SafeUse lib heap own use ↔ use.RefusedFirst := by
  constructor
  · intro safe
    obtain ⟨reported, next, ran, _⟩ := safe
    by_contra looks
    cases (useKey_empty lib empty looks).symm.trans ran
  · intro refused
    cases use with
    | decryptData target source =>
        have short : source.length < kSealBytes := refused
        refine ⟨some false, heap, ?_, by decide⟩
        simp only [useKey, openData, if_pos short, ok_bind, pure_eq_ok]
    | _ => exact refused.elim

/-- The object that `readFromBytes` or `readFromEncrypted` returned for bytes
that they rejected. -/
def Rejected (aead : Aead) (heap next : Heap) (own : Handle) : Prop :=
  ∃ result, ((∃ bytes, heap.readFromBytes bytes = .ok (result, next)) ∨
      ∃ bytes passwd, heap.readFromEncrypted aead bytes passwd = .ok (result, next)) ∧
    next.handles.find result = some own ∧ own.mem = none

/-- Bytes of any length but that of a key are rejected. -/
theorem readFromBytes_rejects (aead : Aead) (heap : Heap) {bytes : Bytes}
    (size : bytes.length ≠ kPrivateKeySize) :
    ∃ result next own, heap.readFromBytes bytes = .ok (result, next) ∧
      next.handles.find result = some own ∧ Rejected aead heap next own := by
  have ran : heap.readFromBytes bytes = .ok heap.construct := dif_neg size
  have found : heap.construct.2.handles.find heap.construct.1 =
      some ⟨none, heap.counters.fresh⟩ := Store.find_alloc_fresh
  exact ⟨_, _, _, ran, found, heap.construct.1, .inl ⟨bytes, ran⟩, found, rfl⟩

/-- An empty key is a safe argument of `decryptData` with a source that is too
short for a sealed box, and of nothing else. -/
theorem empty_key_safe_iff (lib : Libsodium) {next : Heap}
    (rejected : Rejected lib.aead heap next own) (use : KeyUse) :
    SafeUse lib next own use ↔ use.RefusedFirst := by
  obtain ⟨_, _, _, empty⟩ := rejected
  exact safeUse_empty_iff lib empty use

/-- Three bytes are no key. -/
theorem empty_key_safe_short : ∃ next own, Rejected transparentLib.aead Heap.empty next own ∧
    SafeUse transparentLib next own (.decryptData [7] [1, 2, 3]) := by
  obtain ⟨result, next, own, _, _, rejected⟩ :=
    @readFromBytes_rejects transparentLib.aead Heap.empty [1, 2, 3] (by decide)
  have short : [1, 2, 3].length < kSealBytes := by decide
  exact ⟨next, own, rejected, (empty_key_safe_iff transparentLib rejected _).mpr short⟩

/-- The public cipher key of three bytes. -/
theorem empty_key_aborts : ∃ next own, Rejected transparentLib.aead Heap.empty next own ∧
    ¬SafeUse transparentLib next own .getPubCipherKey := by
  refine ⟨_, _, ⟨_, .inl ⟨[1, 2, 3], rfl⟩, rfl, rfl⟩, ?_⟩
  intro safe
  obtain ⟨reported, after, ran, _⟩ := safe
  contradiction

end Heap

end Cscrypto
