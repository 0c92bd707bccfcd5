import Cscrypto.Core.Types
import Cscrypto.Data.LittleEndian

namespace Cscrypto

/-! # Signatures and keys

`Sodium` collects the libsodium functions that the library calls on keys.  A
function that reports failure by its return code returns `none` then.
-/

abbrev kSeedSize : Nat := 32
abbrev kPubExchangeKeySize : Nat := 32
abbrev kSecretExchangeKeySize : Nat := 32
abbrev kSessionKeySize : Nat := 32

abbrev SecretKey := ByteArray kPrivateKeySize
abbrev PubExchangeKey := ByteArray kPubExchangeKeySize
abbrev SessionKey := ByteArray kSessionKeySize

structure Sodium where
  signDetached : SecretKey → Bytes → Signature
  verifyDetached : Signature → Bytes → PublicKey → Bool
  skToSeed : SecretKey → Option (ByteArray kSeedSize)
  kxSeedKeypair : ByteArray kSeedSize → Option (PubExchangeKey × ByteArray kSecretExchangeKeySize)
  /-- Own keys and the peer's public key give the receive key and the send key. -/
  kxClientSessionKeys : PubExchangeKey → ByteArray kSecretExchangeKeySize → PubExchangeKey →
    Option (SessionKey × SessionKey)
  kxServerSessionKeys : PubExchangeKey → ByteArray kSecretExchangeKeySize → PubExchangeKey →
    Option (SessionKey × SessionKey)

abbrev kPwhashSaltSize : Nat := 16

/-- `crypto_pwhash` for 32 bytes with the limits `OPSLIMIT_SENSITIVE` and
`MEMLIMIT_SENSITIVE` and the algorithm `ALG_DEFAULT`. It fails when there is not
enough memory. -/
abbrev Pwhash := Bytes → ByteArray kPwhashSaltSize → Option (ByteArray 32)

/-- The key behind a handle; `none` is the empty handle. -/
structure PrivateKey where
  mem : Option SecretKey
deriving DecidableEq

/-- Opening a `PrivateKeyGuard` on a null block makes libsodium abort. -/
def PrivateKey.access (key : PrivateKey) : Except Fault SecretKey :=
  match key.mem with
  | some secret => .ok secret
  | none => .error .misuse

def PrivateKey.holding (secret : SecretKey) : PrivateKey := ⟨some secret⟩

@[simp] theorem PrivateKey.access_holding (secret : SecretKey) :
    (PrivateKey.holding secret).access = .ok secret := rfl

abbrev KeyPair := PublicKey × PrivateKey

def generateSignature (sodium : Sodium) (privateKey : PrivateKey) (data : Bytes) :
    Except Fault Signature := do
  let secret ← privateKey.access
  return sodium.signDetached secret data

def verifySignature (sodium : Sodium) (signature : Signature) (publicKey : PublicKey)
    (data : Bytes) : Bool :=
  sodium.verifyDetached signature data publicKey

-- A transparent libsodium: the real layout of a secret key, seed and then public
-- key, but checksums instead of curves.

namespace Sodium

def seedOf (secret : SecretKey) : ByteArray kSeedSize :=
  ⟨secret.bytes.take kSeedSize, by rw [List.length_take, secret.size_eq]; rfl⟩

def publicOf (secret : SecretKey) : PublicKey :=
  ⟨secret.bytes.drop kSeedSize, by rw [List.length_drop, secret.size_eq]; rfl⟩

def checksum (message : Bytes) : ByteArray 32 :=
  ⟨Data.toLittleEndian 32 (Data.littleEndian message % (2 ^ 255 - 19)),
    Data.toLittleEndian_length _ _⟩

def stamp (publicKey : PublicKey) (message : Bytes) : Signature :=
  ⟨publicKey.bytes ++ (checksum message).bytes, by
    rw [List.length_append, publicKey.size_eq, (checksum message).size_eq]⟩

def transparent : Sodium where
  signDetached secret message := stamp (publicOf secret) message
  verifyDetached signature message publicKey := signature = stamp publicKey message
  skToSeed secret := some (seedOf secret)
  kxSeedKeypair seed := some (checksum seed.bytes, seed)
  kxClientSessionKeys own _ peer :=
    some (checksum (0 :: own.bytes ++ peer.bytes), checksum (1 :: own.bytes ++ peer.bytes))
  kxServerSessionKeys own _ peer :=
    some (checksum (1 :: peer.bytes ++ own.bytes), checksum (0 :: peer.bytes ++ own.bytes))

def pairOf (secret : SecretKey) : KeyPair := (publicOf secret, .holding secret)

end Sodium

end Cscrypto
