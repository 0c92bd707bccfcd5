import Cscrypto.Keys.Derivation

namespace Cscrypto.KeysDerivation

/-! # Validating key pairs

`validateKeyPair` compares a public key with the one that the private key
carries behind its seed.  Signatures are made with the seed.
-/

def validateKeyPair (sign : SignKeys) (publicKey : PublicKey) (privateKey : PrivateKey) :
    Except Fault Bool := do
  let matching ← getMatchingPublic sign privateKey
  return publicKey = matching

/-- The public key of the seed. -/
def publicOfSeed (sign : SignKeys) (seed : ByteArray kSeedSize) : PublicKey :=
  (sign.seedKeypair seed).1

/-- What is documented of Ed25519: a secret key is the seed with the public key
behind it.  A signature verifies under the public key of the seed that made it,
if the secret key carries that public key, and under no other key. -/
structure Ed25519Laws (sodium : Sodium) (sign : SignKeys) : Prop where
  skToPk : ∀ secret, sign.skToPk secret = Sodium.publicOf secret
  verifies : ∀ secret data, Sodium.publicOf secret = publicOfSeed sign (Sodium.seedOf secret) →
    sodium.verifyDetached (sodium.signDetached secret data) data
      (publicOfSeed sign (Sodium.seedOf secret)) = true
  onlyUnder : ∀ secret data publicKey,
    sodium.verifyDetached (sodium.signDetached secret data) data publicKey = true →
      publicKey = publicOfSeed sign (Sodium.seedOf secret)

theorem readFromBytes_bytes (secret : SecretKey) :
    readFromBytes secret.bytes = .holding secret := dif_pos secret.size_eq

theorem validateKeyPair_holding (sign : SignKeys) (publicKey : PublicKey) (secret : SecretKey) :
    validateKeyPair sign publicKey (.holding secret) =
      .ok (decide (publicKey = sign.skToPk secret)) := rfl

/-- What is signed with the private key is accepted under the public key. -/
def SignsFor (sodium : Sodium) (publicKey : PublicKey) (privateKey : PrivateKey) (data : Bytes) :
    Prop :=
  ∃ signature, generateSignature sodium privateKey data = .ok signature ∧
    verifySignature sodium signature publicKey data = true

theorem signsFor_holding {sodium : Sodium} {publicKey : PublicKey} {secret : SecretKey}
    {data : Bytes} : SignsFor sodium publicKey (.holding secret) data ↔
      sodium.verifyDetached (sodium.signDetached secret data) data publicKey = true := by
  constructor
  · intro given
    obtain ⟨signature, signed, verified⟩ := given
    cases signed
    exact verified
  · intro verified
    exact ⟨_, rfl, verified⟩

/-- A pair of a public key and imported bytes that is called valid has the
public key of the seed in the bytes, and its signatures are accepted. -/
def ValidationSound (sodium : Sodium) (sign : SignKeys) (publicKey : PublicKey)
    (secret : SecretKey) : Prop :=
  validateKeyPair sign publicKey (readFromBytes secret.bytes) = .ok true →
    publicKey = publicOfSeed sign (Sodium.seedOf secret) ∧
      ∀ data, SignsFor sodium publicKey (readFromBytes secret.bytes) data

/-- Validation is sound exactly for the public keys that are not the second half
of the bytes, and for the public key of the first half.  The signatures of any
other pair are never accepted. -/
theorem validation_sound_iff {sodium : Sodium} {sign : SignKeys} (laws : Ed25519Laws sodium sign)
    (publicKey : PublicKey) (secret : SecretKey) :
    (ValidationSound sodium sign publicKey secret ↔
      publicKey ≠ Sodium.publicOf secret ∨
        publicKey = publicOfSeed sign (Sodium.seedOf secret)) ∧
    (publicKey ≠ publicOfSeed sign (Sodium.seedOf secret) →
      ∀ data, ¬SignsFor sodium publicKey (readFromBytes secret.bytes) data) := by
  rw [ValidationSound, readFromBytes_bytes, validateKeyPair_holding, laws.skToPk]
  constructor
  · constructor
    · intro sound
      by_cases carried : publicKey = Sodium.publicOf secret
      · exact .inr (sound (congrArg _ (decide_eq_true carried))).1
      · exact .inl carried
    · intro either valid
      have carried : publicKey = Sodium.publicOf secret :=
        of_decide_eq_true (Except.ok.inj valid)
      have matching : publicKey = publicOfSeed sign (Sodium.seedOf secret) :=
        either.resolve_left (not_not_intro carried)
      refine ⟨matching, fun data => signsFor_holding.mpr ?_⟩
      rw [matching]
      exact laws.verifies secret data (carried.symm.trans matching)
  · intro other data signs
    exact other (laws.onlyUnder secret data publicKey (signsFor_holding.mp signs))

/-- Signatures that show the public key of the seed, over the public key that
the secret key carries. -/
def seedSigner : Sodium where
  __ := Sodium.transparent
  signDetached secret message :=
    Sodium.stamp (Sodium.seedOf secret) ((Sodium.publicOf secret).bytes ++ message)
  verifyDetached signature message publicKey :=
    signature = Sodium.stamp publicKey (publicKey.bytes ++ message)

theorem stamp_injective {publicKey other : PublicKey} {message message' : Bytes}
    (same : Sodium.stamp publicKey message = Sodium.stamp other message') : publicKey = other := by
  have bytes := congrArg ByteArray.bytes same
  exact ByteArray.ext_bytes
    (List.append_inj bytes (by rw [publicKey.size_eq, other.size_eq])).1

theorem seedSigner_laws : Ed25519Laws seedSigner .transparent where
  skToPk _ := rfl
  verifies secret data := by
    intro carried
    have same : Sodium.publicOf secret = Sodium.seedOf secret := carried
    apply decide_eq_true
    show Sodium.stamp (Sodium.seedOf secret) ((Sodium.publicOf secret).bytes ++ data) = _
    rw [same]
    rfl
  onlyUnder secret data publicKey := by
    intro verified
    exact (stamp_injective (of_decide_eq_true verified)).symm

/-- A key whose second half is that of its seed, and one with another second
half. -/
theorem validation_sound_seedSigner :
    ValidationSound seedSigner .transparent (.replicate _ 5) (.replicate _ 5) ∧
      ∀ data, ¬SignsFor seedSigner (.replicate _ 6)
        (readFromBytes (ByteArray.replicate kPrivateKeySize 5).bytes) data :=
  ⟨(validation_sound_iff seedSigner_laws _ _).1.mpr (.inr (by decide)),
    (validation_sound_iff seedSigner_laws _ _).2 (by decide)⟩

/-- Thirty-two zeros with another key behind them, whose public key is the one
of thirty-two zeros. -/
theorem mismatched_halves_validated :
    ¬ValidationSound seedSigner .transparent (.replicate _ 1)
      ⟨List.replicate 32 0 ++ List.replicate 32 1, rfl⟩ := by
  intro sound
  have matching := (sound rfl).1
  contradiction

end Cscrypto.KeysDerivation
