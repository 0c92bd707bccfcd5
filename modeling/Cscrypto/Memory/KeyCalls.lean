import Cscrypto.Cipher.Data
import Cscrypto.KeyExchange.SessionKeys
import Cscrypto.Memory.KeyEncryption

namespace Cscrypto

open Cscrypto.Data Cscrypto.KeysDerivation Cscrypto.KeyExchange Cscrypto.Cipher

/-! # Calls on private keys in memory

The functions that use a `PrivateKey`, with the guard that each of them opens.
Where the key is locked they compute what the same functions compute of the key
alone.
-/

namespace Heap

def getMatchingPublic (sign : SignKeys) (heap : Heap) (own : Handle) :
    Except Fault (PublicKey × Heap) :=
  heap.accessing own fun secret => return sign.skToPk secret

/-- The mutex of `generateSignature` matters to concurrent calls only. -/
def generateSignature (sodium : Sodium) (heap : Heap) (own : Handle) (data : Bytes) :
    Except Fault (Signature × Heap) :=
  heap.accessing own fun secret => return sodium.signDetached secret data

def getExchangeKeysFromPrivate (sodium : Sodium) (heap : Heap) (own : Handle) :
    Except Fault (Option (PubExchangeKey × ByteArray kSecretExchangeKeySize) × Heap) :=
  heap.accessing own fun secret => return exchangeKeys sodium secret

def getPubExchangeKey (sodium : Sodium) (heap : Heap) (own : Handle) :
    Except Fault (Option PubExchangeKey × Heap) := do
  let (keys, heap) ← heap.getExchangeKeysFromPrivate sodium own
  return (keys.map Prod.fst, heap)

/-- The part that `getClientSessionKeys` and `getServerSessionKeys` share. -/
def getSessionKeys (sodium : Sodium)
    (derive : PubExchangeKey → ByteArray kSecretExchangeKeySize → PubExchangeKey →
      Option (SessionKey × SessionKey))
    (heap : Heap) (sessionKeys : KeyExchange.CipherKey × KeyExchange.CipherKey) (own : Handle)
    (peer : PubExchangeKey) :
    Except Fault ((Bool × KeyExchange.CipherKey × KeyExchange.CipherKey) × Heap) := do
  let (keys, heap) ← heap.getExchangeKeysFromPrivate sodium own
  match keys.bind fun (epk, esk) => derive epk esk peer with
  | none => return ((false, sessionKeys), heap)
  | some (receive, send) =>
      let first ← sessionKeys.1.write receive
      let second ← sessionKeys.2.write send
      return ((true, first, second), heap)

def getClientSessionKeys (sodium : Sodium) :=
  getSessionKeys sodium sodium.kxClientSessionKeys

def getServerSessionKeys (sodium : Sodium) :=
  getSessionKeys sodium sodium.kxServerSessionKeys

def getEncryptionKeysFromPrivate (sodium : Sodium) (box : SealedBox) (heap : Heap) (own : Handle) :
    Except Fault (Option (PubCipherKey × DecryptionSecKey) × Heap) := do
  let (seed, heap) ← heap.accessing own fun secret => return sodium.skToSeed secret
  return (seed.bind box.boxSeedKeypair, heap)

def getPubCipherKey (sodium : Sodium) (box : SealedBox) (heap : Heap) (own : Handle) :
    Except Fault (Option PubCipherKey × Heap) := do
  let (keys, heap) ← heap.getEncryptionKeysFromPrivate sodium box own
  return (keys.map Prod.fst, heap)

/-- `decryptData` with a private key. -/
def openData (sodium : Sodium) (box : SealedBox) (heap : Heap) (target source : Bytes)
    (own : Handle) : Except Fault ((Bool × Bytes) × Heap) :=
  if source.length < kSealBytes then .ok ((false, target), heap)
  else do
    let target := resize target (source.length - kSealBytes)
    let (keys, heap) ← heap.getEncryptionKeysFromPrivate sodium box own
    return (← openSealed box target source keys, heap)

def deriveKeyPair (sign : SignKeys) (kdf : Kdf) (heap : Heap) (seed : Mnemonic.MasterSeed)
    (id : KeyId) (ctx : Context) : Except Fault ((PublicKey × Nat × Mnemonic.MasterSeed) × Heap) := do
  let (pk, sk, seed) ← deriveSigningKeys sign kdf seed id ctx
  let (result, heap) ← heap.readFromGuard sk
  return ((pk, result, seed), heap)

variable {heap : Heap} {own : Handle} {block : Nat}

/-- What a guard that was opened and destroyed leaves. -/
def released (heap : Heap) (block : Nat) (content : SecretKey) : Heap :=
  { heap with
    blocks := heap.blocks.set block ⟨content, .noAccess⟩
    guards := heap.guards.skip }

theorem accessing_eq {found : KeyBlock} (keyed : own.mem = some block)
    (at_block : heap.blocks.find block = some found) (body : SecretKey → Except Fault α) :
    heap.accessing own body =
      body found.content >>= fun result => .ok (result, heap.released block found.content) := by
  have guarded : (heap.accessed block found.content).guards.find heap.guards.fresh = some block :=
    Store.find_alloc_fresh
  have at_guarded : (heap.accessed block found.content).blocks.find block =
      some ⟨found.content, .readOnly⟩ := Store.find_set_self at_block
  have read : (heap.accessed block found.content).readGuard block = .ok found.content :=
    readGuard_eq_ok.mpr ⟨_, at_guarded, by decide⟩
  have closed : (heap.accessed block found.content).clearGuard heap.guards.fresh block =
      .ok (heap.released block found.content) := by
    rw [clearGuard_eq at_guarded]
    simp only [cleared, accessed, released, Store.set_set, Store.free_alloc]
  simp only [accessing, access_eq keyed at_block, ok_bind, guarded, read, closed, pure_eq_ok]

theorem accessing_ok {body : SecretKey → Except Fault α} {result : α × Heap}
    (ran : heap.accessing own body = .ok result) : ∃ block found, own.mem = some block ∧
      heap.blocks.find block = some found ∧ body found.content = .ok result.1 ∧
        result.2 = heap.released block found.content := by
  obtain ⟨opened, accessed, _⟩ := bind_eq_ok.mp ran
  obtain ⟨block, found, keyed, at_block⟩ := access_ok accessed
  rw [accessing_eq keyed at_block] at ran
  obtain ⟨value, computed, same⟩ := bind_eq_ok.mp ran
  cases same
  exact ⟨block, found, keyed, at_block, computed, rfl⟩

/-- The key that an object refers to. -/
def value (heap : Heap) (own : Handle) : PrivateKey :=
  ⟨own.mem.bind fun block => (heap.blocks.find block).map Block.content⟩

/-- The key of an object is locked, or null. -/
def LockedKey (heap : Heap) (own : Handle) : Prop :=
  ∀ block, own.mem = some block → ∃ content, heap.blocks.find block = some ⟨content, .noAccess⟩

/-- A guard that comes and goes. -/
def touched (heap : Heap) : Heap := { heap with guards := heap.guards.skip }

theorem accessing_locked (locked : heap.LockedKey own) (body : SecretKey → Except Fault α) :
    heap.accessing own body =
      ((heap.value own).access >>= body) >>= fun result => .ok (result, heap.touched) := by
  cases keyed : own.mem with
  | none =>
      simp only [accessing, access, keyed, value, Option.bind_none, PrivateKey.access, error_bind]
  | some block =>
      obtain ⟨content, at_block⟩ := locked block keyed
      rw [accessing_eq keyed at_block, released, Store.set_eq_self at_block]
      simp only [value, keyed, Option.bind_some, at_block, Option.map_some, PrivateKey.access,
        ok_bind, touched]

theorem getMatchingPublic_locked (sign : SignKeys) (locked : heap.LockedKey own) :
    heap.getMatchingPublic sign own = KeysDerivation.getMatchingPublic sign (heap.value own) >>=
      fun result => .ok (result, heap.touched) :=
  accessing_locked locked _

theorem generateSignature_locked (sodium : Sodium) (locked : heap.LockedKey own) (data : Bytes) :
    heap.generateSignature sodium own data =
      Cscrypto.generateSignature sodium (heap.value own) data >>=
        fun result => .ok (result, heap.touched) :=
  accessing_locked locked _

theorem getExchangeKeysFromPrivate_locked (sodium : Sodium) (locked : heap.LockedKey own) :
    heap.getExchangeKeysFromPrivate sodium own =
      KeyExchange.getExchangeKeysFromPrivate sodium (heap.value own) >>=
        fun result => .ok (result, heap.touched) := by
  rw [getExchangeKeysFromPrivate, accessing_locked locked, KeyExchange.getExchangeKeysFromPrivate]
  cases (heap.value own).access with
  | error fault => rfl
  | ok secret =>
      simp only [ok_bind, pure_eq_ok, exchangeKeys]
      cases sodium.skToSeed secret <;> rfl

theorem getPubExchangeKey_locked (sodium : Sodium) (locked : heap.LockedKey own) :
    heap.getPubExchangeKey sodium own = KeyExchange.getPubExchangeKey sodium (heap.value own) >>=
      fun result => .ok (result, heap.touched) := by
  rw [getPubExchangeKey, getExchangeKeysFromPrivate_locked sodium locked,
    KeyExchange.getPubExchangeKey]
  cases KeyExchange.getExchangeKeysFromPrivate sodium (heap.value own) <;> rfl

theorem getSessionKeys_locked (sodium : Sodium)
    (derive : PubExchangeKey → ByteArray kSecretExchangeKeySize → PubExchangeKey →
      Option (SessionKey × SessionKey))
    (locked : heap.LockedKey own) (sessionKeys : KeyExchange.CipherKey × KeyExchange.CipherKey)
    (peer : PubExchangeKey) : heap.getSessionKeys sodium derive sessionKeys own peer =
      KeyExchange.getSessionKeys sodium derive sessionKeys (heap.value own) peer >>=
        fun result => .ok (result, heap.touched) := by
  rw [getSessionKeys, getExchangeKeysFromPrivate_locked sodium locked, KeyExchange.getSessionKeys]
  rcases KeyExchange.getExchangeKeysFromPrivate sodium (heap.value own) with fault | (_ | ⟨epk, esk⟩)
  · rfl
  · rfl
  · simp only [ok_bind, Option.bind_some]
    rcases derive epk esk peer with _ | ⟨receive, send⟩
    · rfl
    · cases first : sessionKeys.1.write receive with
      | error fault => simp only [first, error_bind]
      | ok _ =>
          cases second : sessionKeys.2.write send <;>
            simp only [first, second, ok_bind, error_bind, pure_eq_ok]

theorem getEncryptionKeysFromPrivate_locked (sodium : Sodium) (box : SealedBox)
    (locked : heap.LockedKey own) : heap.getEncryptionKeysFromPrivate sodium box own =
      Cipher.getEncryptionKeysFromPrivate sodium box (heap.value own) >>=
        fun result => .ok (result, heap.touched) := by
  rw [getEncryptionKeysFromPrivate, accessing_locked locked, Cipher.getEncryptionKeysFromPrivate,
    extractSeed]
  cases (heap.value own).access with
  | error fault => rfl
  | ok secret =>
      simp only [ok_bind, pure_eq_ok]
      cases sodium.skToSeed secret <;> rfl

theorem getPubCipherKey_locked (sodium : Sodium) (box : SealedBox) (locked : heap.LockedKey own) :
    heap.getPubCipherKey sodium box own = Cipher.getPubCipherKey sodium box (heap.value own) >>=
      fun result => .ok (result, heap.touched) := by
  rw [getPubCipherKey, getEncryptionKeysFromPrivate_locked sodium box locked,
    Cipher.getPubCipherKey]
  cases Cipher.getEncryptionKeysFromPrivate sodium box (heap.value own) <;> rfl

/-- A source that is too short is refused before the key is looked at. -/
theorem openData_locked (sodium : Sodium) (box : SealedBox) (target : Bytes) {source : Bytes}
    (long : kSealBytes ≤ source.length) (locked : heap.LockedKey own) :
    heap.openData sodium box target source own =
      Cipher.openData sodium box target source (heap.value own) >>=
        fun result => .ok (result, heap.touched) := by
  rw [openData, if_neg (Nat.not_lt_of_le long), Cipher.openData, if_neg (Nat.not_lt_of_le long),
    getEncryptionKeysFromPrivate_locked sodium box locked]
  rcases Cipher.getEncryptionKeysFromPrivate sodium box (heap.value own) with fault | keys
  · rfl
  · simp only [ok_bind]
    cases openSealed box (resize target (source.length - kSealBytes)) source keys <;> rfl

end Heap

end Cscrypto
