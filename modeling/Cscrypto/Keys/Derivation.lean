import Cscrypto.Core.Sodium
import Cscrypto.Mnemonic.Words

namespace Cscrypto.KeysDerivation

open Cscrypto.Mnemonic

/-! # Making key pairs

`generateKeyPair`, `readFromBytes` and the functions of `keysderivation.cpp`,
on keys given by their bytes.
-/

abbrev kSeedContextSize : Nat := 8

abbrev KeyId := UInt64
abbrev Context := ByteArray kSeedContextSize

/-- The functions of libsodium that make signing keys. `seedKeypair` is
`crypto_sign_seed_keypair`; `crypto_sign_keypair` calls it with a random seed. -/
structure SignKeys where
  seedKeypair : ByteArray kSeedSize → PublicKey × SecretKey
  skToPk : SecretKey → PublicKey

/-- `crypto_kdf_derive_from_key` for a subkey of `kSeedSize` bytes. -/
abbrev Kdf := KeyId → Context → ByteArray kMasterSeedSize → ByteArray kSeedSize

def zeroContext : Context := .replicate _ 0

def generateKeyPair (sign : SignKeys) (random : ByteArray kSeedSize) : KeyPair :=
  let (publicKey, sk) := sign.seedKeypair random
  (publicKey, .holding sk)

def getMatchingPublic (sign : SignKeys) (privateKey : PrivateKey) : Except Fault PublicKey := do
  let pkg ← privateKey.access
  return sign.skToPk pkg

/-- `readFromBytes(const Bytes&)`. -/
def readFromBytes (bytes : Bytes) : PrivateKey :=
  if size : bytes.length = kPrivateKeySize then .holding ⟨bytes, size⟩ else ⟨none⟩

/-- `readFromBytes(const MemGuard&)`. -/
def readFromGuard (bytes : MemGuard kPrivateKeySize) : Except Fault PrivateKey := do
  let content ← bytes.read
  return .holding content

def generateMasterSeed (random : ByteArray kMasterSeedSize) : Except Fault MasterSeed := do
  let res ← (MemGuard.new kMasterSeedSize).write random
  res.mprotect .noAccess

/-- The new public and private key, the latter still in the guard it was written
to. -/
def deriveSigningKeys (sign : SignKeys) (kdf : Kdf) (seed : MasterSeed) (id : KeyId)
    (ctx : Context) : Except Fault (PublicKey × MemGuard kPrivateKeySize × MasterSeed) := do
  let seed ← seed.mprotect .readOnly
  let content ← seed.read
  let subkey ← (MemGuard.new kSeedSize).write (kdf id ctx content)
  let seed ← seed.mprotect .noAccess
  let subkey ← subkey.read
  let (pk, sk) := sign.seedKeypair subkey
  let sk ← (MemGuard.new kPrivateKeySize).write sk
  return (pk, sk, seed)

def deriveKeyPair (sign : SignKeys) (kdf : Kdf) (seed : MasterSeed) (id : KeyId) (ctx : Context) :
    Except Fault (KeyPair × MasterSeed) := do
  let (pk, sk, seed) ← deriveSigningKeys sign kdf seed id ctx
  let sk ← readFromGuard sk
  return ((pk, sk), seed)

/-- Signing keys in the layout that `crypto_sign` gives them, the seed before
the public key, which here is the seed itself. -/
def SignKeys.transparent : SignKeys where
  seedKeypair seed := (seed, ⟨seed.bytes ++ seed.bytes, by
    rw [List.length_append, seed.size_eq]; rfl⟩)
  skToPk := Sodium.publicOf

theorem deriveKeyPair_holding (sign : SignKeys) (kdf : Kdf) (content : ByteArray kMasterSeedSize)
    (protection : Protection) (id : KeyId) (ctx : Context) :
    deriveKeyPair sign kdf (.holding content protection) id ctx =
      .ok (generateKeyPair sign (kdf id ctx content), .holding content .noAccess) := rfl

end Cscrypto.KeysDerivation
