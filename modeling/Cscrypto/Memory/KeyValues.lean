import Cscrypto.Memory.KeyRoundTrip

namespace Cscrypto

open Cscrypto.Data

/-! # Encrypted keys by value

`getEncrypted` and `readFromEncrypted` on keys given by their bytes, as the
widgets use them.  The functions on the heap compute the same.
-/

namespace Aead

/-- Everything can be encrypted, and what is encrypted can be decrypted. -/
structure Delivers (aead : Aead) : Prop where
  encrypts : ∀ key nonce m, ∃ c, aead.encrypt key nonce m = some c
  opens : ∀ key nonce m c, aead.encrypt key nonce m = some c →
    (aead.decrypt key nonce c.bytes).map ByteArray.bytes = some m

theorem transparent_delivers : transparent.Delivers where
  encrypts _ _ _ := ⟨_, rfl⟩
  opens key nonce m c := by
    intro encrypted
    obtain ⟨size, opened⟩ := transparent_opens encrypted
    rw [opened, Option.map_some]

end Aead

namespace PrivateKey

def getEncrypted (aead : Aead) (key : PrivateKey) (passwd : Bytes)
    (random : ByteArray kNpubBytes) : Except Fault Bytes := do
  let cipherKey ← getKeyFromPassword aead passwd
  let secret ← key.access
  let nonce ← (MemGuard.new kNpubBytes).write random
  let nonce ← nonce.read
  let cipherKey ← cipherKey.read
  match aead.encrypt cipherKey nonce secret.bytes with
  | none => return []
  | some cText => return nonce.bytes ++ cText.bytes

/-- The key that a plaintext is, or an empty one. -/
def ofPlain (plain : Option (ByteArray size)) : PrivateKey :=
  match plain with
  | none => ⟨none⟩
  | some plain => KeysDerivation.readFromBytes plain.bytes

def readFromEncrypted (aead : Aead) (bytes passwd : Bytes) : Except Fault PrivateKey :=
  if bytes.length < kNpubBytes then .ok ⟨none⟩
  else do
    let nonce ← copyArray kNpubBytes bytes 0
    let key ← getKeyFromPassword aead passwd
    let c := bytes.drop kNpubBytes
    if c.length < kAeadABytes then return ⟨none⟩
    else
      let key ← key.read
      if kPrivateKeySize < c.length - kAeadABytes then .error .outOfBounds
      else return ofPlain (aead.decrypt key nonce c)

variable {aead : Aead}

/-- The bytes of the key in front of what the AEAD makes of it. -/
theorem getEncrypted_holding {passwd : Bytes} {key : ByteArray kAeadKeySize} {secret : SecretKey}
    {random : ByteArray kNpubBytes} {c : ByteArray (secret.bytes.length + kAeadABytes)}
    (hashed : aead.pwhash passwd salt = some key)
    (encrypted : aead.encrypt key random secret.bytes = some c) :
    (holding secret).getEncrypted aead passwd random = .ok (random.bytes ++ c.bytes) := by
  simp only [getEncrypted, Heap.getKeyFromPassword_eq, hashed, access_holding,
    MemGuard.new_eq_holding, MemGuard.write_readWrite, MemGuard.read_readWrite, ok_bind, encrypted, pure_eq_ok]

theorem getEncrypted_unhashed {passwd : Bytes} (key : PrivateKey) (random : ByteArray kNpubBytes)
    (failed : aead.pwhash passwd salt = none) :
    ∃ fault, key.getEncrypted aead passwd random = .error fault := by
  rw [getEncrypted, Heap.getKeyFromPassword_eq, failed, ok_bind]
  cases key.access with
  | error fault => exact ⟨fault, rfl⟩
  | ok secret => exact ⟨.accessViolation, rfl⟩

/-- What `readFromEncrypted` computes once the nonce is read, from the outcome
of the password hash. -/
def opening (aead : Aead) (c : Bytes) (nonce : ByteArray kNpubBytes)
    (hash : Option (ByteArray kAeadKeySize)) : Except Fault PrivateKey :=
  if c.length < kAeadABytes then .ok ⟨none⟩
  else match hash with
    | none => .error .accessViolation
    | some key =>
        if kPrivateKeySize < c.length - kAeadABytes then .error .outOfBounds
        else .ok (ofPlain (aead.decrypt key nonce c))

theorem opening_untagged {c : Bytes} (nonce : ByteArray kNpubBytes)
    (hash : Option (ByteArray kAeadKeySize)) (untagged : c.length < kAeadABytes) :
    opening aead c nonce hash = .ok ⟨none⟩ := if_pos untagged

theorem opening_unhashed {c : Bytes} (nonce : ByteArray kNpubBytes)
    (tagged : ¬c.length < kAeadABytes) :
    opening aead c nonce none = .error .accessViolation := if_neg tagged

theorem opening_hashed {c : Bytes} (nonce : ByteArray kNpubBytes) (key : ByteArray kAeadKeySize)
    (tagged : ¬c.length < kAeadABytes) : opening aead c nonce (some key) =
      if kPrivateKeySize < c.length - kAeadABytes then .error .outOfBounds
      else .ok (ofPlain (aead.decrypt key nonce c)) := if_neg tagged

theorem readFromEncrypted_eq (aead : Aead) {bytes : Bytes} (passwd : Bytes)
    (long : kNpubBytes ≤ bytes.length) : readFromEncrypted aead bytes passwd =
      opening aead (bytes.drop kNpubBytes) ⟨bytes.take kNpubBytes, List.length_take_of_le long⟩
        (aead.pwhash passwd salt) := by
  obtain ⟨nonce, copied, front⟩ : ∃ nonce, copyArray kNpubBytes bytes 0 = .ok nonce ∧ _ :=
    copyArray_ok (by omega)
  have same : nonce = ⟨bytes.take kNpubBytes, List.length_take_of_le long⟩ :=
    ByteArray.ext_bytes front
  rw [readFromEncrypted, if_neg (Nat.not_lt_of_le long), copied, ← same,
    Heap.getKeyFromPassword_eq, ok_bind, ok_bind]
  cases aead.pwhash passwd salt with
  | none => rfl
  | some key => rfl

theorem ofPlain_empty {plain : Option (ByteArray size)} (wrong : size ≠ kPrivateKeySize) :
    ofPlain plain = ⟨none⟩ := by
  cases plain with
  | none => rfl
  | some plain =>
      have other : plain.bytes.length ≠ kPrivateKeySize := by rwa [plain.size_eq]
      rw [ofPlain, KeysDerivation.readFromBytes, dif_neg other]

theorem ofPlain_secret {plain : ByteArray size} {secret : SecretKey}
    (same : secret.bytes = plain.bytes) : ofPlain (some plain) = .holding secret := by
  rw [ofPlain, KeysDerivation.readFromBytes, ← same, dif_pos secret.size_eq]

/-- A ciphertext of another size never gives a key. -/
theorem opening_empty {c : Bytes} {nonce : ByteArray kNpubBytes}
    {hash : Option (ByteArray kAeadKeySize)} {key : PrivateKey}
    (wrong : c.length ≠ kPrivateKeySize + kAeadABytes)
    (ran : opening aead c nonce hash = .ok key) : key.mem = none := by
  by_cases untagged : c.length < kAeadABytes
  · rw [opening_untagged nonce hash untagged] at ran
    cases ran
    rfl
  cases hash with
  | none =>
      rw [opening_unhashed nonce untagged] at ran
      contradiction
  | some hash =>
      rw [opening_hashed nonce hash untagged] at ran
      by_cases exceeds : kPrivateKeySize < c.length - kAeadABytes
      · rw [if_pos exceeds] at ran
        contradiction
      · rw [if_neg exceeds, Except.ok.injEq] at ran
        rw [← ran, ofPlain_empty (by omega)]

/-- Bytes of the size of an encrypted key give the key they hold. -/
theorem readFromEncrypted_fitting {bytes passwd : Bytes} {key : ByteArray kAeadKeySize}
    (hashed : aead.pwhash passwd salt = some key)
    (size : bytes.length = kNpubBytes + (kPrivateKeySize + kAeadABytes)) :
    readFromEncrypted aead bytes passwd = .ok ⟨Heap.decryptedKey aead bytes passwd⟩ := by
  have back : (bytes.drop kNpubBytes).length = kPrivateKeySize + kAeadABytes := by
    rw [List.length_drop]
    omega
  have inside : ¬kPrivateKeySize < (bytes.drop kNpubBytes).length - kAeadABytes := by omega
  rw [readFromEncrypted_eq aead passwd (by omega), Heap.decryptedKey, dif_pos size, hashed,
    opening_hashed _ key (by omega), if_neg inside]
  simp only [Option.bind_eq_bind, Option.bind_some]
  cases opened : aead.decrypt key _ (bytes.drop kNpubBytes) with
  | none => rfl
  | some plain =>
      have whole : plain.bytes.length = kPrivateKeySize := by
        rw [plain.size_eq]
        omega
      simp only [ofPlain, KeysDerivation.readFromBytes, dif_pos whole]
      rfl

/-- A key that is read is the one that the bytes hold. -/
theorem mem_readFromEncrypted {bytes passwd : Bytes} {key : PrivateKey}
    (ran : readFromEncrypted aead bytes passwd = .ok key) :
    key.mem = Heap.decryptedKey aead bytes passwd := by
  by_cases size : bytes.length = kNpubBytes + (kPrivateKeySize + kAeadABytes)
  · have long : kNpubBytes ≤ bytes.length := by omega
    cases hashed : aead.pwhash passwd salt with
    | none =>
        have back : ¬(bytes.drop kNpubBytes).length < kAeadABytes := by
          rw [List.length_drop]
          omega
        rw [readFromEncrypted_eq aead passwd long, hashed, opening_unhashed _ back] at ran
        contradiction
    | some found =>
        rw [readFromEncrypted_fitting hashed size] at ran
        cases ran
        rfl
  rw [Heap.decryptedKey, dif_neg size]
  by_cases short : bytes.length < kNpubBytes
  · rw [readFromEncrypted, if_pos short] at ran
    cases ran
    rfl
  rw [readFromEncrypted_eq aead passwd (Nat.le_of_not_lt short)] at ran
  exact opening_empty (by rw [List.length_drop]; omega) ran

end PrivateKey

namespace Heap

variable {heap : Heap} {own : Handle}

theorem getEncrypted_value (aead : Aead) (locked : heap.LockedKey own) (passwd : Bytes)
    (random : ByteArray kNpubBytes) : heap.getEncrypted aead own passwd random =
      (heap.value own).getEncrypted aead passwd random >>=
        fun bytes => .ok (bytes, heap.touched) := by
  rw [getEncrypted, PrivateKey.getEncrypted, getKeyFromPassword_eq, ok_bind, ok_bind]
  exact accessing_locked locked _

/-- The key of the object at `result`. -/
def keyOf (heap : Heap) (result : Nat) : Option PrivateKey :=
  (heap.handles.find result).map heap.value

theorem EmptyKey.keyOf {result : Nat} {next : Heap} (rejected : EmptyKey heap result next) :
    next.keyOf result = some ⟨none⟩ := by
  obtain ⟨ctr, at_result⟩ := rejected.empty
  rw [Heap.keyOf, at_result]
  rfl

theorem KeyAt.keyOf {result : Nat} {secret : SecretKey} (held : heap.KeyAt result secret) :
    heap.keyOf result = some (.holding secret) := by
  obtain ⟨own, at_result, _, holds⟩ := held
  rw [Heap.keyOf, at_result, Option.map_some, holds]

theorem readFromEncrypted_value (aead : Aead) (heap : Heap) (bytes passwd : Bytes) :
    (heap.readFromEncrypted aead bytes passwd).map (fun made => made.2.keyOf made.1) =
      (PrivateKey.readFromEncrypted aead bytes passwd).map some := by
  by_cases short : bytes.length < kNpubBytes
  · rw [readFromEncrypted, if_pos short, PrivateKey.readFromEncrypted, if_pos short]
    exact congrArg _ heap.construct_emptyKey.keyOf
  have long := Nat.le_of_not_lt short
  rw [readFromEncrypted_eq aead heap passwd long, PrivateKey.readFromEncrypted_eq aead passwd long,
    getKeyFromPassword_eq, ok_bind]
  generalize (⟨bytes.take kNpubBytes, List.length_take_of_le long⟩ : ByteArray kNpubBytes) = nonce
  generalize bytes.drop kNpubBytes = c
  by_cases untagged : c.length < kAeadABytes
  · rw [decryptInto_untagged aead heap _ _ untagged, PrivateKey.opening_untagged _ _ untagged]
    exact congrArg _ heap.skipped_emptyKey.keyOf
  have tagged := Nat.le_of_not_lt untagged
  cases aead.pwhash passwd salt with
  | none =>
      rw [decryptInto_without_key aead heap _ tagged, PrivateKey.opening_unhashed _ untagged]
      rfl
  | some key =>
      rw [PrivateKey.opening_hashed _ key untagged]
      by_cases exceeds : kPrivateKeySize < c.length - kAeadABytes
      · rw [decryptInto_long aead heap _ key (by omega), if_pos exceeds]
        rfl
      rw [if_neg exceeds, map_ok]
      rcases decryptInto_fitting aead heap nonce key tagged (by omega) with
        ⟨refused, closed⟩ | ⟨plain, secret, opened, same, made⟩
      · have empty : PrivateKey.ofPlain (aead.decrypt key nonce c) = ⟨none⟩ := by
          by_cases size : c.length = kPrivateKeySize + kAeadABytes
          · rw [closed size]
            rfl
          · exact PrivateKey.ofPlain_empty (by omega)
        rw [refused, empty]
        exact congrArg _ heap.skipped_emptyKey.keyOf
      · rw [made, opened, PrivateKey.ofPlain_secret same]
        exact congrArg _ (heap.created_keyAt secret).keyOf

end Heap

end Cscrypto
