import Cscrypto.Core.Sodium
import Cscrypto.Memory.Guard

namespace Cscrypto.KeyExchange

/-! # Session keys

`keyexchange.cpp`: the exchange keys are derived from the seed of the signing
key, and the session keys are written into two guarded blocks, receive key
first.
-/

abbrev CipherKey := MemGuard kSessionKeySize
abbrev ClientKeys := CipherKey × CipherKey
abbrev ServerKeys := CipherKey × CipherKey

def newKeys : CipherKey × CipherKey := (.new _, .new _)

def getExchangeKeysFromPrivate (sodium : Sodium) (sk : PrivateKey) :
    Except Fault (Option (PubExchangeKey × ByteArray kSecretExchangeKeySize)) := do
  let secret ← sk.access
  match sodium.skToSeed secret with
  | none => return none
  | some seed => return sodium.kxSeedKeypair seed

def getPubExchangeKey (sodium : Sodium) (sk : PrivateKey) :
    Except Fault (Option PubExchangeKey) := do
  let keys ← getExchangeKeysFromPrivate sodium sk
  return keys.map Prod.fst

/-- The part that `getClientSessionKeys` and `getServerSessionKeys` share. -/
def getSessionKeys (sodium : Sodium)
    (derive : PubExchangeKey → ByteArray kSecretExchangeKeySize → PubExchangeKey →
      Option (SessionKey × SessionKey))
    (sessionKeys : CipherKey × CipherKey) (sk : PrivateKey) (peer : PubExchangeKey) :
    Except Fault (Bool × CipherKey × CipherKey) := do
  match ← getExchangeKeysFromPrivate sodium sk with
  | none => return (false, sessionKeys)
  | some (epk, esk) =>
      match derive epk esk peer with
      | none => return (false, sessionKeys)
      | some (receive, send) =>
          let first ← sessionKeys.1.write receive
          let second ← sessionKeys.2.write send
          return (true, first, second)

def getClientSessionKeys (sodium : Sodium) (sessionKeys : ClientKeys) (clientSk : PrivateKey)
    (serverPk : PubExchangeKey) : Except Fault (Bool × ClientKeys) :=
  getSessionKeys sodium sodium.kxClientSessionKeys sessionKeys clientSk serverPk

def getServerSessionKeys (sodium : Sodium) (sessionKeys : ServerKeys) (serverSk : PrivateKey)
    (clientPk : PubExchangeKey) : Except Fault (Bool × ServerKeys) :=
  getSessionKeys sodium sodium.kxServerSessionKeys sessionKeys serverSk clientPk

def exchangeKeys (sodium : Sodium) (secret : SecretKey) :
    Option (PubExchangeKey × ByteArray kSecretExchangeKeySize) :=
  (sodium.skToSeed secret).bind sodium.kxSeedKeypair

/-- What is documented of the key exchange: keys can be derived from every
signing key, and the two sides of an exchange agree crosswise. -/
structure ExchangeLaws (sodium : Sodium) : Prop where
  derives : ∀ secret, ∃ epk esk, exchangeKeys sodium secret = some (epk, esk)
  crosswise : ∀ {client server clientPk clientSk serverPk serverSk},
    exchangeKeys sodium client = some (clientPk, clientSk) →
    exchangeKeys sodium server = some (serverPk, serverSk) →
    ∃ first second, sodium.kxClientSessionKeys clientPk clientSk serverPk = some (first, second) ∧
      sodium.kxServerSessionKeys serverPk serverSk clientPk = some (second, first)

theorem getExchangeKeysFromPrivate_holding (sodium : Sodium) (secret : SecretKey) :
    getExchangeKeysFromPrivate sodium (.holding secret) = .ok (exchangeKeys sodium secret) := by
  rw [getExchangeKeysFromPrivate, PrivateKey.access_holding, ok_bind, exchangeKeys]
  cases sodium.skToSeed secret <;> rfl

theorem getPubExchangeKey_holding (sodium : Sodium) (secret : SecretKey) :
    getPubExchangeKey sodium (.holding secret) =
      .ok ((exchangeKeys sodium secret).map Prod.fst) := by
  rw [getPubExchangeKey, getExchangeKeysFromPrivate_holding]
  rfl

theorem getSessionKeys_new (sodium : Sodium)
    (derive : PubExchangeKey → ByteArray kSecretExchangeKeySize → PubExchangeKey →
      Option (SessionKey × SessionKey)) (secret : SecretKey) (peer : PubExchangeKey) :
    getSessionKeys sodium derive newKeys (.holding secret) peer =
      .ok (match (exchangeKeys sodium secret).bind (fun (epk, esk) => derive epk esk peer) with
        | none => (false, newKeys)
        | some (receive, send) =>
            (true, .holding receive .readWrite, .holding send .readWrite)) := by
  rw [getSessionKeys, getExchangeKeysFromPrivate_holding, ok_bind]
  rcases exchangeKeys sodium secret with _ | ⟨epk, esk⟩
  · rfl
  · simp only [Option.bind_some]
    rcases derive epk esk peer with _ | ⟨receive, send⟩ <;> rfl

theorem transparent_exchangeLaws : ExchangeLaws Sodium.transparent where
  derives secret := ⟨_, _, rfl⟩
  crosswise := by
    intro client server clientPk clientSk serverPk serverSk first second
    cases first
    cases second
    exact ⟨_, _, rfl, rfl⟩

end Cscrypto.KeyExchange
