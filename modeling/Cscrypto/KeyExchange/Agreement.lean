import Cscrypto.Cipher.Data
import Cscrypto.KeyExchange.SessionKeys
import Cscrypto.Keys.Derivation

namespace Cscrypto.KeyExchange

open Cscrypto.KeysDerivation
open Cscrypto.Cipher (SecretBox Nonce encryptData decryptData)

/-! # Session keys agree

Both sides derive their exchange keys again from the seed of the signing key,
and fill their pair of session keys by position.  What one side encrypts with
its second key the other side decrypts with its first.
-/

/-- Where both sides of an exchange get keys, what one of them sends with is
what the other one receives with. -/
def AgreesCrosswise (sodium : Sodium) : Prop :=
  ∀ {clientSeed serverSeed clientPk clientSk serverPk serverSk clientKeys serverKeys},
    sodium.kxSeedKeypair clientSeed = some (clientPk, clientSk) →
    sodium.kxSeedKeypair serverSeed = some (serverPk, serverSk) →
    sodium.kxClientSessionKeys clientPk clientSk serverPk = some clientKeys →
    sodium.kxServerSessionKeys serverPk serverSk clientPk = some serverKeys →
    clientKeys.2 = serverKeys.1 ∧ serverKeys.2 = clientKeys.1

/-- `crypto_secretbox_open_easy` inverts `crypto_secretbox_easy`. -/
def OpensSealed (box : SecretBox) : Prop :=
  ∀ secret nonce m, ∃ plain,
    box.openEasy secret nonce (box.easy secret nonce m).bytes = some plain ∧ plain.bytes = m

/-- The private keys that `generateKeyPair` and `deriveKeyPair` make. -/
inductive MadeKey (sign : SignKeys) (kdf : Kdf) : PrivateKey → Prop where
  | generated (random : ByteArray kSeedSize) : MadeKey sign kdf (generateKeyPair sign random).2
  | derived {seed : Mnemonic.MasterSeed} {id : KeyId} {ctx : Context} {keys : KeyPair}
      {after : Mnemonic.MasterSeed} (ran : deriveKeyPair sign kdf seed id ctx = .ok (keys, after)) :
      MadeKey sign kdf keys.2

theorem MadeKey.holding {sign : SignKeys} {kdf : Kdf} {key : PrivateKey}
    (made : MadeKey sign kdf key) : ∃ secret, key = .holding secret := by
  cases made with
  | generated random => exact ⟨_, rfl⟩
  | derived ran =>
      rename_i seed id ctx keys after
      rcases seed with ⟨_ | ⟨content, protection⟩⟩
      · contradiction
      · have computed := deriveKeyPair_holding sign kdf content protection id ctx
        rw [MemGuard.holding, ran] at computed
        cases computed
        exact ⟨_, rfl⟩

/-- What a successful call computed. -/
theorem getSessionKeys_true {sodium : Sodium}
    {derive : PubExchangeKey → ByteArray kSecretExchangeKeySize → PubExchangeKey →
      Option (SessionKey × SessionKey)}
    {before after : CipherKey × CipherKey} {secret : SecretKey} {peer : PubExchangeKey}
    (ran : getSessionKeys sodium derive before (.holding secret) peer = .ok (true, after)) :
    ∃ epk esk receive send, exchangeKeys sodium secret = some (epk, esk) ∧
      derive epk esk peer = some (receive, send) ∧
        after = (.holding receive .readWrite, .holding send .readWrite) := by
  rw [getSessionKeys, getExchangeKeysFromPrivate_holding, ok_bind] at ran
  rcases exchanged : exchangeKeys sodium secret with _ | ⟨epk, esk⟩
  · rw [exchanged] at ran
    cases ran
  · rw [exchanged] at ran
    simp only at ran
    rcases derived : derive epk esk peer with _ | ⟨receive, send⟩
    · rw [derived] at ran
      cases ran
    · rw [derived] at ran
      obtain ⟨first, wroteFirst, ran⟩ := bind_eq_ok.mp ran
      obtain ⟨second, wroteSecond, same⟩ := bind_eq_ok.mp ran
      cases same
      rw [MemGuard.eq_of_write wroteFirst, MemGuard.eq_of_write wroteSecond]
      exact ⟨epk, esk, receive, send, rfl, derived, rfl⟩

/-- Whatever one end encrypts, the other end decrypts. -/
def Delivers (box : SecretBox) (send receive : CipherKey) : Prop :=
  ∀ (nonce : Nonce) (source target : Bytes), ∃ message send' receive',
    encryptData box nonce source send = .ok (message, send') ∧
      decryptData box target message receive = .ok (true, source, receive')

theorem delivers_holding {box : SecretBox} (opens : OpensSealed box) (secret : SessionKey)
    (sending receiving : Protection) :
    Delivers box (.holding secret sending) (.holding secret receiving) := by
  intro nonce source target
  obtain ⟨plain, opened, same⟩ := opens secret nonce source
  have long : Cipher.kMacBytes ≤ (box.easy secret nonce source).bytes.length := by
    rw [ByteArray.size_eq]
    exact Nat.le_add_left _ _
  refine ⟨_, _, .holding secret .noAccess, Cipher.encryptData_holding box nonce source secret _, ?_⟩
  rw [Cipher.decryptData_append box target nonce secret _ long, Cipher.openInto_some opened, same]
  rfl

theorem transparent_agreesCrosswise : AgreesCrosswise Sodium.transparent := by
  intro clientSeed serverSeed clientPk clientSk serverPk serverSk clientKeys serverKeys
    clientPair serverPair clientRan serverRan
  cases clientPair
  cases serverPair
  cases clientRan
  cases serverRan
  exact ⟨rfl, rfl⟩

theorem transparent_opensSealed : OpensSealed SecretBox.transparent := by
  intro secret nonce m
  have front : (SecretBox.mac secret nonce m ++ m).take Cipher.kMacBytes =
      SecretBox.mac secret nonce m := List.take_left' (SecretBox.length_mac _ _ _)
  have back : (SecretBox.mac secret nonce m ++ m).drop Cipher.kMacBytes = m :=
    List.drop_left' (SecretBox.length_mac _ _ _)
  exact ⟨⟨_, List.length_drop⟩,
    if_pos (front.trans (congrArg (SecretBox.mac secret nonce) back).symm), back⟩

/-- The session keys of two made keys agree in both directions. -/
theorem session_keys_agree (sodium : Sodium) (sign : SignKeys) (kdf : Kdf) (box : SecretBox)
    (crosswise : AgreesCrosswise sodium) (opens : OpensSealed box)
    {client server : PrivateKey} (clientMade : MadeKey sign kdf client)
    (serverMade : MadeKey sign kdf server) {clientPk serverPk : PubExchangeKey}
    (clientPub : getPubExchangeKey sodium client = .ok (some clientPk))
    (serverPub : getPubExchangeKey sodium server = .ok (some serverPk))
    {clientBefore clientKeys : ClientKeys} {serverBefore serverKeys : ServerKeys}
    (clientRan : getClientSessionKeys sodium clientBefore client serverPk = .ok (true, clientKeys))
    (serverRan : getServerSessionKeys sodium serverBefore server clientPk =
      .ok (true, serverKeys)) :
    Delivers box clientKeys.2 serverKeys.1 ∧ Delivers box serverKeys.2 clientKeys.1 := by
  obtain ⟨clientSecret, rfl⟩ := clientMade.holding
  obtain ⟨serverSecret, rfl⟩ := serverMade.holding
  obtain ⟨clientEpk, clientEsk, clientReceive, clientSend, clientExchange, clientDerived, rfl⟩ :=
    getSessionKeys_true clientRan
  obtain ⟨serverEpk, serverEsk, serverReceive, serverSend, serverExchange, serverDerived, rfl⟩ :=
    getSessionKeys_true serverRan
  rw [getPubExchangeKey_holding, clientExchange] at clientPub
  rw [getPubExchangeKey_holding, serverExchange] at serverPub
  cases clientPub
  cases serverPub
  obtain ⟨clientSeed, _, clientPair⟩ := Option.bind_eq_some_iff.mp clientExchange
  obtain ⟨serverSeed, _, serverPair⟩ := Option.bind_eq_some_iff.mp serverExchange
  obtain ⟨toServer, toClient⟩ := crosswise clientPair serverPair clientDerived serverDerived
  simp only at toServer toClient
  subst toServer toClient
  exact ⟨delivers_holding opens _ _ _, delivers_holding opens _ _ _⟩

theorem session_keys_agree_transparent : ∃ clientPk serverPk clientKeys serverKeys,
    getClientSessionKeys .transparent newKeys (generateKeyPair .transparent (.replicate _ 1)).2
      serverPk = .ok (true, clientKeys) ∧
    getServerSessionKeys .transparent newKeys (generateKeyPair .transparent (.replicate _ 2)).2
      clientPk = .ok (true, serverKeys) ∧
    Delivers .transparent clientKeys.2 serverKeys.1 ∧
      Delivers .transparent serverKeys.2 clientKeys.1 := by
  obtain ⟨clientPk, clientPub⟩ : ∃ pk, getPubExchangeKey .transparent
    (generateKeyPair .transparent (.replicate _ 1)).2 = .ok (some pk) := ⟨_, rfl⟩
  obtain ⟨serverPk, serverPub⟩ : ∃ pk, getPubExchangeKey .transparent
    (generateKeyPair .transparent (.replicate _ 2)).2 = .ok (some pk) := ⟨_, rfl⟩
  obtain ⟨clientKeys, clientRan⟩ : ∃ keys, getClientSessionKeys .transparent newKeys
    (generateKeyPair .transparent (.replicate _ 1)).2 serverPk = .ok (true, keys) := ⟨_, rfl⟩
  obtain ⟨serverKeys, serverRan⟩ : ∃ keys, getServerSessionKeys .transparent newKeys
    (generateKeyPair .transparent (.replicate _ 2)).2 clientPk = .ok (true, keys) := ⟨_, rfl⟩
  exact ⟨clientPk, serverPk, clientKeys, serverKeys, clientRan, serverRan,
    session_keys_agree .transparent .transparent (fun _ _ seed => seed) .transparent
      transparent_agreesCrosswise transparent_opensSealed (.generated _) (.generated _) clientPub
      serverPub clientRan serverRan⟩

end Cscrypto.KeyExchange
