import Cscrypto.Cipher.File
import Cscrypto.Core.Sodium

namespace Cscrypto.Cipher

/-! # Encrypted data

The symmetric functions of `cipher.cpp` on data in memory, and the functions
that make cipher keys.  Each operation makes the key block readable and locks it
again by hand.
-/

/-- `crypto_secretbox_NONCEBYTES` and `crypto_secretbox_MACBYTES`. -/
abbrev kNonceBytes : Nat := 24
abbrev kMacBytes : Nat := 16

abbrev Nonce := ByteArray kNonceBytes

/-- `crypto_secretbox_easy` and `crypto_secretbox_open_easy`. -/
structure SecretBox where
  easy : StreamKey → Nonce → (m : Bytes) → ByteArray (m.length + kMacBytes)
  openEasy : StreamKey → Nonce → (c : Bytes) → Option (ByteArray (c.length - kMacBytes))

namespace SecretBox

def mac (secret : StreamKey) (nonce : Nonce) (m : Bytes) : Bytes :=
  (Sodium.checksum (secret.bytes ++ nonce.bytes ++ m)).bytes.take kMacBytes

theorem length_mac (secret : StreamKey) (nonce : Nonce) (m : Bytes) :
    (mac secret nonce m).length = kMacBytes := by
  rw [mac, List.length_take, ByteArray.size_eq]
  rfl

/-- A checksum before the message, which is left as it is. -/
def transparent : SecretBox where
  easy secret nonce m := ⟨mac secret nonce m ++ m, by
    rw [List.length_append, length_mac, Nat.add_comm]⟩
  openEasy secret nonce c :=
    if c.take kMacBytes = mac secret nonce (c.drop kMacBytes) then
      some ⟨c.drop kMacBytes, List.length_drop⟩
    else none

end SecretBox

/-- `std::vector::resize`. -/
def resize (bytes : Bytes) (count : Nat) : Bytes :=
  bytes.take count ++ List.replicate (count - bytes.length) 0

theorem length_resize (bytes : Bytes) (count : Nat) : (resize bytes count).length = count := by
  rw [resize, List.length_append, List.length_take, List.length_replicate]
  omega

def generateCipherKey (random : ByteArray kCipherKeySize) : Except Fault CipherKey := do
  let res ← (MemGuard.new kCipherKeySize).write random
  res.mprotect .noAccess

/-- The salt is the start of the hash of the password. -/
def getCipherKeyFromPassword (calculateHash : Bytes → Hash) (pwhash : Pwhash) (pswd : Bytes) :
    Except Fault CipherKey := do
  let res := MemGuard.new kCipherKeySize
  let salt ← copyArray kPwhashSaltSize (calculateHash pswd).bytes 0
  match pwhash pswd salt with
  | none => return res.clear
  | some key => do
      let res ← res.write key
      res.mprotect .noAccess

def encryptData (box : SecretBox) (nonce : Nonce) (source : Bytes) (key : CipherKey) :
    Except Fault (Bytes × CipherKey) := do
  let res := resize [] (source.length + kMacBytes + kNonceBytes)
  let res ← copyInto res 0 nonce.bytes
  let key ← key.mprotect .readOnly
  let secret ← key.read
  let res ← copyInto res kNonceBytes (box.easy secret nonce source).bytes
  let key ← key.mprotect .noAccess
  return (res, key)

/-- `crypto_secretbox_open_easy` into `target`. What is not authentic leaves
the target as it is. -/
def openInto (box : SecretBox) (secret : StreamKey) (nonce : Nonce) (target c : Bytes) :
    Except Fault (Bool × Bytes) :=
  match box.openEasy secret nonce c with
  | none => .ok (false, target)
  | some plain => do
      let target ← copyInto target 0 plain.bytes
      return (true, target)

def decryptData (box : SecretBox) (target source : Bytes) (key : CipherKey) :
    Except Fault (Bool × Bytes × CipherKey) :=
  if source.length < kMacBytes + kNonceBytes then .ok (false, target, key)
  else do
    let nonce ← copyArray kNonceBytes source 0
    let target := resize target (source.length - kMacBytes - kNonceBytes)
    let key ← key.mprotect .readOnly
    let secret ← key.read
    let (opened, target) ← openInto box secret nonce target (source.drop kNonceBytes)
    if opened then return (true, target, ← key.mprotect .noAccess)
    else return (false, target, ← key.mprotect .noAccess)

theorem encryptData_holding (box : SecretBox) (nonce : Nonce) (source : Bytes)
    (secret : StreamKey) (protection : Protection) :
    encryptData box nonce source (.holding secret protection) =
      .ok (nonce.bytes ++ (box.easy secret nonce source).bytes, .holding secret .noAccess) := by
  have blank : resize [] (source.length + kMacBytes + kNonceBytes) =
      List.replicate (source.length + kMacBytes + kNonceBytes) 0 := by
    rw [resize, List.take_nil, List.nil_append, List.length_nil, Nat.sub_zero]
  have first : copyInto ([] ++ List.replicate (source.length + kMacBytes + kNonceBytes) 0) 0
      nonce.bytes = .ok ([] ++ nonce.bytes ++ List.replicate (source.length + kMacBytes) 0) :=
    copyInto_zeros rfl (by rw [nonce.size_eq, Nat.add_comm])
  have second : copyInto (nonce.bytes ++ List.replicate (source.length + kMacBytes) 0) kNonceBytes
      (box.easy secret nonce source).bytes =
        .ok (nonce.bytes ++ (box.easy secret nonce source).bytes ++ List.replicate 0 0) :=
    copyInto_zeros nonce.size_eq (by rw [ByteArray.size_eq, Nat.add_zero])
  rw [List.nil_append, List.nil_append] at first
  simp only [encryptData, blank, first, MemGuard.mprotect_holding, MemGuard.read_readOnly, ok_bind,
    second, pure_eq_ok, List.replicate_zero, List.append_nil]

theorem copyInto_resized {plain : Bytes} {count : Nat} (target : Bytes)
    (size : plain.length = count) : copyInto (resize target count) 0 plain = .ok plain := by
  have length := length_resize target count
  rw [copyInto, if_pos (by rw [length, size, Nat.zero_add]), List.take_zero, List.nil_append,
    Nat.zero_add, List.drop_eq_nil_of_le (by rw [length, size]), List.append_nil]

theorem openInto_none {box : SecretBox} {secret : StreamKey} {nonce : Nonce} {c : Bytes}
    (refused : box.openEasy secret nonce c = none) (target : Bytes) :
    openInto box secret nonce target c = .ok (false, target) := by
  rw [openInto, refused]

theorem openInto_some {box : SecretBox} {secret : StreamKey} {nonce : Nonce} {c : Bytes}
    {plain : ByteArray (c.length - kMacBytes)} (opened : box.openEasy secret nonce c = some plain)
    (target : Bytes) :
    openInto box secret nonce (resize target (c.length - kMacBytes)) c = .ok (true, plain.bytes) := by
  rw [openInto, opened]
  simp only [copyInto_resized target plain.size_eq, ok_bind, pure_eq_ok]

theorem decryptData_append (box : SecretBox) (target : Bytes) (nonce : Nonce) {c : Bytes}
    (secret : StreamKey) (protection : Protection) (long : kMacBytes ≤ c.length) :
    decryptData box target (nonce.bytes ++ c) (.holding secret protection) =
      openInto box secret nonce (resize target (c.length - kMacBytes)) c >>=
        fun (opened, target) => .ok (opened, target, .holding secret .noAccess) := by
  have length : (nonce.bytes ++ c).length = kNonceBytes + c.length := by
    rw [List.length_append, nonce.size_eq]
  have copied : copyArray kNonceBytes ([] ++ nonce.bytes ++ c) 0 = .ok nonce :=
    copyArray_append nonce rfl
  have rest : (nonce.bytes ++ c).drop kNonceBytes = c := List.drop_left' nonce.size_eq
  have resized : kNonceBytes + c.length - kMacBytes - kNonceBytes = c.length - kMacBytes := by omega
  rw [List.nil_append] at copied
  rw [decryptData, if_neg (by rw [length]; omega), copied, rest, length, resized]
  simp only [MemGuard.mprotect_holding, MemGuard.read_readOnly, ok_bind, pure_eq_ok]
  rcases openInto box secret nonce (resize target (c.length - kMacBytes)) c with
    fault | ⟨_ | _, target⟩ <;> rfl

abbrev kSealBytes : Nat := 48

abbrev PubCipherKey := ByteArray 32
abbrev DecryptionSecKey := ByteArray 32

/-- `crypto_box_seed_keypair`, `crypto_box_seal`, which draws a key pair of its
own, and `crypto_box_seal_open`. -/
structure SealedBox where
  boxSeedKeypair : ByteArray kSeedSize → Option (PubCipherKey × DecryptionSecKey)
  boxSeal : ByteArray kSeedSize → PubCipherKey → (m : Bytes) → ByteArray (m.length + kSealBytes)
  boxSealOpen : PubCipherKey → DecryptionSecKey → (c : Bytes) →
    Option (ByteArray (c.length - kSealBytes))

def extractSeed (sodium : Sodium) (privKey : PrivateKey) :
    Except Fault (Option (ByteArray kSeedSize)) := do
  let pkReadable ← privKey.access
  return sodium.skToSeed pkReadable

def getEncryptionKeysFromPrivate (sodium : Sodium) (box : SealedBox) (privKey : PrivateKey) :
    Except Fault (Option (PubCipherKey × DecryptionSecKey)) := do
  match ← extractSeed sodium privKey with
  | none => return none
  | some seed => return box.boxSeedKeypair seed

def getPubCipherKey (sodium : Sodium) (box : SealedBox) (privKey : PrivateKey) :
    Except Fault (Option PubCipherKey) := do
  let keys ← getEncryptionKeysFromPrivate sodium box privKey
  return keys.map Prod.fst

/-- `encryptData` for a public key. -/
def sealData (box : SealedBox) (random : ByteArray kSeedSize) (source : Bytes)
    (key : PubCipherKey) : Bytes := (box.boxSeal random key source).bytes

/-- The end of `openData`, when the keys are derived. -/
def openSealed (box : SealedBox) (target source : Bytes)
    (keys : Option (PubCipherKey × DecryptionSecKey)) : Except Fault (Bool × Bytes) :=
  match keys with
  | none => .ok (false, target)
  | some (pk, sk) =>
      match box.boxSealOpen pk sk source with
      | none => .ok (false, target)
      | some plain => do
          let target ← copyInto target 0 plain.bytes
          return (true, target)

/-- `decryptData` with a private key. -/
def openData (sodium : Sodium) (box : SealedBox) (target source : Bytes) (privKey : PrivateKey) :
    Except Fault (Bool × Bytes) :=
  if source.length < kSealBytes then .ok (false, target)
  else do
    let target := resize target (source.length - kSealBytes)
    let keys ← getEncryptionKeysFromPrivate sodium box privKey
    openSealed box target source keys

end Cscrypto.Cipher
