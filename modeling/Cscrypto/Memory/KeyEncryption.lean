import Cscrypto.Memory.AccessGuard

namespace Cscrypto

open Cscrypto.Data

/-! # Encrypted private keys

`getEncrypted` and `readFromEncrypted`.  An encrypted key is a nonce followed by
what the AEAD makes of the 64 bytes of the key.
-/

/-- `crypto_aead_chacha20poly1305_NPUBBYTES`, `_ABYTES` and `_KEYBYTES`. -/
abbrev kNpubBytes : Nat := 8
abbrev kAeadABytes : Nat := 16
abbrev kAeadKeySize : Nat := 32

/-- The plaintext is shorter than the ciphertext by the tag. -/
structure Aead where
  pwhash : Pwhash
  encrypt : ByteArray kAeadKeySize → ByteArray kNpubBytes → (m : Bytes) →
    Option (ByteArray (m.length + kAeadABytes))
  decrypt : ByteArray kAeadKeySize → ByteArray kNpubBytes → (c : Bytes) →
    Option (ByteArray (c.length - kAeadABytes))

namespace Aead

def tag (key : ByteArray kAeadKeySize) (nonce : ByteArray kNpubBytes) (m : Bytes) : Bytes :=
  (Sodium.checksum (key.bytes ++ nonce.bytes ++ m)).bytes.take kAeadABytes

/-- An AEAD with a checksum for a tag, which leaves the plaintext as it is. -/
def transparent : Aead where
  pwhash passwd salt := some (Sodium.checksum (passwd ++ salt.bytes))
  encrypt key nonce m := some ⟨m ++ tag key nonce m, by
    rw [List.length_append, tag, List.length_take, ByteArray.size_eq]; rfl⟩
  decrypt key nonce c :=
    let m := c.take (c.length - kAeadABytes)
    if c.drop (c.length - kAeadABytes) = tag key nonce m then
      some ⟨m, List.length_take_of_le (Nat.sub_le _ _)⟩
    else none

end Aead

def salt : ByteArray kPwhashSaltSize :=
  ⟨[73, 68, 73, 32, 78, 65, 72, 85, 89, 32, 66, 76, 89, 65, 84, 39], rfl⟩

def getKeyFromPassword (aead : Aead) (passwd : Bytes) : Except Fault (MemGuard kAeadKeySize) :=
  match aead.pwhash passwd salt with
  | some key => (MemGuard.new kAeadKeySize).write key
  | none => .ok (MemGuard.new kAeadKeySize).clear

namespace Heap

theorem fill_size {bytes : Bytes} (content : SecretKey) (fits : bytes.length ≤ kPrivateKeySize) :
    (bytes ++ content.bytes.drop bytes.length).length = kPrivateKeySize := by
  rw [List.length_append, List.length_drop, content.size_eq]
  omega

/-- Writing to the start of the block at `mem`. -/
def fill (heap : Heap) (mem : Nat) (bytes : Bytes) : Except Fault Heap :=
  match heap.blocks.find mem with
  | some ⟨content, .readWrite⟩ =>
      if fits : bytes.length ≤ kPrivateKeySize then
        let filled : SecretKey :=
          ⟨bytes ++ content.bytes.drop bytes.length, fill_size content fits⟩
        .ok { heap with blocks := heap.blocks.set mem ⟨filled, .readWrite⟩ }
      else .error .outOfBounds
  | _ => .error .accessViolation

/-- `crypto_aead_chacha20poly1305_decrypt` into the block at `mem` gives the
length of the plaintext. Without a tag nothing is touched; otherwise the key is
read first, and a plaintext that is not authentic is cleared. -/
def aeadDecrypt (aead : Aead) (heap : Heap) (mem : Nat) (c : Bytes) (nonce : MemGuard kNpubBytes)
    (key : MemGuard kAeadKeySize) : Except Fault (Option Nat × Heap) :=
  if c.length < kAeadABytes then .ok (none, heap)
  else do
    let nonce ← nonce.read
    let key ← key.read
    let mlen := c.length - kAeadABytes
    match aead.decrypt key nonce c with
    | none => return (none, ← heap.fill mem (List.replicate mlen 0))
    | some plain => return (some mlen, ← heap.fill mem plain.bytes)

/-- `return PrivateKey()` while the local object `result` is destroyed. -/
def reject (heap : Heap) (result : Nat) : Except Fault (Nat × Heap) := do
  let (returned, heap) := heap.construct
  match heap.handles.find result with
  | none => .error .accessViolation
  | some own => return (returned, ← heap.destroy result own)

def readFromEncrypted (aead : Aead) (heap : Heap) (bytes passwd : Bytes) :
    Except Fault (Nat × Heap) :=
  if bytes.length < kNpubBytes then .ok heap.construct
  else do
    let nonce ← (MemGuard.new kNpubBytes).write (← copyArray kNpubBytes bytes 0)
    let key ← getKeyFromPassword aead passwd
    let (result, mem, heap) ← heap.allocate
    let (decrypted_len, heap) ← heap.aeadDecrypt aead mem (bytes.drop kNpubBytes) nonce key
    if decrypted_len ≠ some kPrivateKeySize then heap.reject result
    else
      let heap ← heap.mprotect .noAccess (some mem)
      return (result, heap.record result)

/-- A guard from `access` to the end of the scope in which `body` reads the
key. -/
def accessing (heap : Heap) (own : Handle) (body : SecretKey → Except Fault α) :
    Except Fault (α × Heap) := do
  let (guard, heap) ← heap.access own
  match heap.guards.find guard with
  | none => .error .accessViolation
  | some block =>
      let secret ← heap.readGuard block
      let result ← body secret
      return (result, ← heap.clearGuard guard block)

def getEncrypted (aead : Aead) (heap : Heap) (own : Handle) (passwd : Bytes)
    (random : ByteArray kNpubBytes) : Except Fault (Bytes × Heap) := do
  let key ← getKeyFromPassword aead passwd
  heap.accessing own fun secret => do
    let nonce ← (MemGuard.new kNpubBytes).write random
    let nonce ← nonce.read
    let key ← key.read
    match aead.encrypt key nonce secret.bytes with
    | none => return []
    | some cText => return nonce.bytes ++ cText.bytes

variable {heap : Heap}

/-- The key that an encrypted key file holds. -/
def decryptedKey (aead : Aead) (bytes passwd : Bytes) : Option SecretKey :=
  if size : bytes.length = kNpubBytes + (kPrivateKeySize + kAeadABytes) then do
    let key ← aead.pwhash passwd salt
    let nonce := ⟨bytes.take kNpubBytes, by rw [List.length_take, size]; rfl⟩
    let plain ← aead.decrypt key nonce (bytes.drop kNpubBytes)
    return ⟨plain.bytes, by rw [plain.size_eq, List.length_drop, size]; rfl⟩
  else none

/-- The heap after the members of a rejected key are freed, before the empty
one is returned. -/
def skipped (heap : Heap) : Heap :=
  { heap with
    blocks := heap.blocks.skip
    counters := heap.counters.skip
    handles := heap.handles.skip }

theorem reject_making (heap : Heap) (block : KeyBlock) :
    (heap.making block).reject heap.handles.fresh = .ok heap.skipped.construct := by
  have live : (heap.making block).construct.2.handles.find heap.handles.fresh =
      some ⟨some heap.blocks.fresh, heap.counters.fresh⟩ :=
    Store.find_alloc_of_find Store.find_alloc_fresh
  have counted : (heap.making block).construct.2.counters.find heap.counters.fresh = some 1 :=
    Store.find_alloc_of_find Store.find_alloc_fresh
  have at_block : (heap.making block).construct.2.blocks.find heap.blocks.fresh = some block :=
    Store.find_alloc_fresh
  simp only [reject, live, destroy, clear, counted, sodiumFree, at_block, ok_bind, pure_eq_ok]
  simp [construct, making, skipped]

theorem fill_making (heap : Heap) (content : SecretKey) {bytes : Bytes}
    (fits : bytes.length ≤ kPrivateKeySize) : ∃ filled : SecretKey,
    (heap.making ⟨content, .readWrite⟩).fill heap.blocks.fresh bytes =
      .ok (heap.making ⟨filled, .readWrite⟩) ∧
      (bytes.length = kPrivateKeySize → filled.bytes = bytes) := by
  refine ⟨⟨bytes ++ content.bytes.drop bytes.length, ?_⟩, ?_, ?_⟩
  · rw [List.length_append, List.length_drop, content.size_eq]
    omega
  · simp only [fill, making, Store.find_alloc_fresh, Store.set_alloc_fresh, dif_pos fits]
  · intro size
    have none_left : content.bytes.drop bytes.length = [] :=
      List.drop_eq_nil_of_le (by rw [content.size_eq, size])
    show bytes ++ content.bytes.drop bytes.length = bytes
    rw [none_left, List.append_nil]

theorem fill_making_long (heap : Heap) (content : SecretKey) {bytes : Bytes}
    (long : kPrivateKeySize < bytes.length) :
    (heap.making ⟨content, .readWrite⟩).fill heap.blocks.fresh bytes = .error .outOfBounds := by
  simp only [fill, making, Store.find_alloc_fresh, dif_neg (Nat.not_le_of_lt long)]

/-- The result is an empty key and no other key is touched. -/
structure EmptyKey (heap : Heap) (result : Nat) (heap' : Heap) : Prop where
  empty : ∃ ctr, heap'.handles.find result = some ⟨none, ctr⟩
  made : heap'.made = heap.made
  blocks : ∀ block, heap'.blocks.find block = heap.blocks.find block

theorem construct_emptyKey (heap : Heap) : EmptyKey heap heap.construct.1 heap.construct.2 :=
  ⟨⟨_, Store.find_alloc_fresh⟩, rfl, fun _ => rfl⟩

theorem skipped_emptyKey (heap : Heap) :
    EmptyKey heap heap.skipped.construct.1 heap.skipped.construct.2 :=
  ⟨⟨_, Store.find_alloc_fresh⟩, rfl, fun _ => Store.find_skip⟩

/-- What `readFromEncrypted` computes once the nonce and the password are read
and the block is allocated. -/
def decryptInto (aead : Aead) (heap : Heap) (c : Bytes) (nonce : ByteArray kNpubBytes)
    (key : MemGuard kAeadKeySize) : Except Fault (Nat × Heap) := do
  let (decrypted_len, making) ← (heap.making ⟨.replicate _ 0xdb, .readWrite⟩).aeadDecrypt aead
    heap.blocks.fresh c (.holding nonce .readWrite) key
  if decrypted_len ≠ some kPrivateKeySize then making.reject heap.handles.fresh
  else
    let making ← making.mprotect .noAccess (some heap.blocks.fresh)
    return (heap.handles.fresh, making.record heap.handles.fresh)

theorem readFromEncrypted_eq (aead : Aead) (heap : Heap) {bytes : Bytes} (passwd : Bytes)
    (long : kNpubBytes ≤ bytes.length) : heap.readFromEncrypted aead bytes passwd =
      getKeyFromPassword aead passwd >>= heap.decryptInto aead (bytes.drop kNpubBytes)
        ⟨bytes.take kNpubBytes, List.length_take_of_le long⟩ := by
  obtain ⟨nonce, copied, front⟩ : ∃ nonce, copyArray kNpubBytes bytes 0 = .ok nonce ∧ _ :=
    copyArray_ok (by omega)
  have same : nonce = ⟨bytes.take kNpubBytes, List.length_take_of_le long⟩ :=
    ByteArray.ext_bytes front
  rw [readFromEncrypted, if_neg (Nat.not_lt_of_le long), copied, ← same]
  simp only [MemGuard.new_eq_holding, MemGuard.write_readWrite, ok_bind, allocate_eq]
  rfl

theorem decryptInto_untagged (aead : Aead) (heap : Heap) {c : Bytes}
    (nonce : ByteArray kNpubBytes) (key : MemGuard kAeadKeySize) (untagged : c.length < kAeadABytes) :
    heap.decryptInto aead c nonce key = .ok heap.skipped.construct := by
  simp only [decryptInto, aeadDecrypt, if_pos untagged, ok_bind, ne_eq, reduceCtorEq,
    not_false_eq_true, if_true, reject_making]

theorem decryptInto_without_key (aead : Aead) (heap : Heap) {c : Bytes}
    (nonce : ByteArray kNpubBytes) (tagged : kAeadABytes ≤ c.length) :
    heap.decryptInto aead c nonce ⟨none⟩ = .error .accessViolation := by
  simp only [decryptInto, aeadDecrypt, if_neg (Nat.not_lt_of_le tagged), MemGuard.read_readWrite,
    ok_bind]
  rfl

theorem decryptInto_long (aead : Aead) (heap : Heap) {c : Bytes} (nonce : ByteArray kNpubBytes)
    (key : ByteArray kAeadKeySize) (long : kPrivateKeySize + kAeadABytes < c.length) :
    heap.decryptInto aead c nonce (.holding key .readWrite) = .error .outOfBounds := by
  have tagged : ¬c.length < kAeadABytes := by omega
  have exceeds : kPrivateKeySize < c.length - kAeadABytes := by omega
  simp only [decryptInto, aeadDecrypt, if_neg tagged, MemGuard.read_readWrite, ok_bind]
  cases aead.decrypt key nonce c with
  | none =>
      have zeros : kPrivateKeySize < (List.replicate (c.length - kAeadABytes) (0 : Byte)).length := by
        rwa [List.length_replicate]
      simp only [fill_making_long heap _ zeros, error_bind]
  | some plain =>
      rw [← plain.size_eq] at exceeds
      simp only [fill_making_long heap _ exceeds, error_bind]

theorem decryptInto_fitting (aead : Aead) (heap : Heap) {c : Bytes} (nonce : ByteArray kNpubBytes)
    (key : ByteArray kAeadKeySize) (tagged : kAeadABytes ≤ c.length)
    (fits : c.length ≤ kPrivateKeySize + kAeadABytes) :
    (heap.decryptInto aead c nonce (.holding key .readWrite) = .ok heap.skipped.construct ∧
      (c.length = kPrivateKeySize + kAeadABytes → aead.decrypt key nonce c = none)) ∨
    ∃ plain secret, aead.decrypt key nonce c = some plain ∧ secret.bytes = plain.bytes ∧
      heap.decryptInto aead c nonce (.holding key .readWrite) =
        .ok (heap.handles.fresh, heap.created secret) := by
  have inside : c.length - kAeadABytes ≤ kPrivateKeySize := by omega
  simp only [decryptInto, aeadDecrypt, if_neg (Nat.not_lt_of_le tagged), MemGuard.read_readWrite,
    ok_bind]
  cases opened : aead.decrypt key nonce c with
  | none =>
      have zeros : (List.replicate (c.length - kAeadABytes) (0 : Byte)).length ≤ kPrivateKeySize := by
        rwa [List.length_replicate]
      obtain ⟨filled, ran, _⟩ := heap.fill_making (.replicate _ 0xdb) zeros
      refine .inl ⟨?_, fun _ => rfl⟩
      simp only [ran, ok_bind, pure_eq_ok, ne_eq, reduceCtorEq, not_false_eq_true, if_true,
        reject_making]
  | some plain =>
      rw [← plain.size_eq] at inside
      obtain ⟨filled, ran, whole⟩ := heap.fill_making (.replicate _ 0xdb) inside
      by_cases size : c.length - kAeadABytes = kPrivateKeySize
      · refine .inr ⟨plain, filled, rfl, whole (by rw [plain.size_eq, size]), ?_⟩
        simp only [ran, ok_bind, pure_eq_ok, size, ne_eq, not_true_eq_false, if_false,
          lock_making, record_making]
      · refine .inl ⟨?_, fun full => absurd (by omega) size⟩
        simp only [ran, ok_bind, pure_eq_ok, Option.some.injEq, ne_eq, size, not_false_eq_true,
          if_true, reject_making]

theorem getKeyFromPassword_eq (aead : Aead) (passwd : Bytes) : getKeyFromPassword aead passwd =
    .ok (match aead.pwhash passwd salt with
      | some key => .holding key .readWrite
      | none => ⟨none⟩) := by
  rw [getKeyFromPassword]
  cases aead.pwhash passwd salt <;> rfl

/-- Reading an encrypted key makes a new key or an empty one. -/
theorem readFromEncrypted_cases {aead : Aead} {bytes passwd : Bytes} {result : Nat × Heap}
    (ran : heap.readFromEncrypted aead bytes passwd = .ok result) :
    result = heap.construct ∨ result = heap.skipped.construct ∨
      ∃ secret, result = (heap.handles.fresh, heap.created secret) := by
  by_cases short : bytes.length < kNpubBytes
  · rw [readFromEncrypted, if_pos short] at ran
    cases ran
    exact .inl rfl
  · rw [readFromEncrypted_eq aead heap passwd (Nat.le_of_not_lt short), getKeyFromPassword_eq,
      ok_bind] at ran
    refine .inr ?_
    by_cases untagged : (bytes.drop kNpubBytes).length < kAeadABytes
    · rw [decryptInto_untagged aead heap _ _ untagged] at ran
      cases ran
      exact .inl rfl
    · have tagged := Nat.le_of_not_lt untagged
      cases hashed : aead.pwhash passwd salt with
      | none =>
          rw [hashed, decryptInto_without_key aead heap _ tagged] at ran
          contradiction
      | some key =>
          rw [hashed] at ran
          by_cases long : kPrivateKeySize + kAeadABytes < (bytes.drop kNpubBytes).length
          · rw [decryptInto_long aead heap _ key long] at ran
            contradiction
          · rcases decryptInto_fitting aead heap _ key tagged (Nat.le_of_not_lt long) with
              ⟨refused, _⟩ | ⟨_, secret, _, _, made⟩
            · rw [refused] at ran
              cases ran
              exact .inl rfl
            · rw [made] at ran
              cases ran
              exact .inr ⟨secret, rfl⟩

/-- Reading stays inside the block, returns, and makes an empty key of a file
that holds none. -/
structure StaysInside (aead : Aead) (heap : Heap) (bytes passwd : Bytes) : Prop where
  inside : bytes.length - kNpubBytes - kAeadABytes ≤ kPrivateKeySize
  returns : ∃ result heap', heap.readFromEncrypted aead bytes passwd = .ok (result, heap') ∧
    (decryptedKey aead bytes passwd = none → EmptyKey heap result heap')

theorem staysInside_untagged (aead : Aead) (heap : Heap) {bytes : Bytes} (passwd : Bytes)
    (untagged : bytes.length < kNpubBytes + kAeadABytes) :
    StaysInside aead heap bytes passwd := by
  refine ⟨by omega, ?_⟩
  by_cases short : bytes.length < kNpubBytes
  · exact ⟨_, _, by rw [readFromEncrypted, if_pos short], fun _ => heap.construct_emptyKey⟩
  · refine ⟨_, _, ?_, fun _ => heap.skipped_emptyKey⟩
    rw [readFromEncrypted_eq aead heap passwd (Nat.le_of_not_lt short), getKeyFromPassword_eq,
      ok_bind, decryptInto_untagged aead heap _ _ (by rw [List.length_drop]; omega)]

theorem staysInside_fitting (aead : Aead) (heap : Heap) {bytes passwd : Bytes}
    {key : ByteArray kAeadKeySize} (tagged : kNpubBytes + kAeadABytes ≤ bytes.length)
    (fits : bytes.length ≤ kNpubBytes + (kPrivateKeySize + kAeadABytes))
    (hashed : aead.pwhash passwd salt = some key) : StaysInside aead heap bytes passwd := by
  refine ⟨by omega, ?_⟩
  have long : kNpubBytes ≤ bytes.length := by omega
  have length : (bytes.drop kNpubBytes).length = bytes.length - kNpubBytes := List.length_drop
  rw [readFromEncrypted_eq aead heap passwd long, getKeyFromPassword_eq, hashed]
  rcases decryptInto_fitting aead heap ⟨_, List.length_take_of_le long⟩ key
      (by rw [length]; omega) (by rw [length]; omega) with
    ⟨ran, refused⟩ | ⟨plain, secret, opened, same, ran⟩
  · exact ⟨_, _, ran, fun _ => heap.skipped_emptyKey⟩
  · refine ⟨_, _, ran, fun malformed => ?_⟩
    have size := secret.size_eq
    rw [same, plain.size_eq, length] at size
    rw [decryptedKey, dif_pos (by omega)] at malformed
    simp [hashed, opened] at malformed

/-- Reading an encrypted key is safe if and only if the file is too short for a
tag, or no longer than an encrypted key while the password can be hashed. -/
theorem staysInside_iff (aead : Aead) (heap : Heap) (bytes passwd : Bytes) :
    StaysInside aead heap bytes passwd ↔
      bytes.length < kNpubBytes + kAeadABytes ∨
        (bytes.length ≤ kNpubBytes + (kPrivateKeySize + kAeadABytes) ∧
          (aead.pwhash passwd salt).isSome) := by
  constructor
  · intro given
    obtain ⟨inside, result, heap', ran, _⟩ := given
    by_cases untagged : bytes.length < kNpubBytes + kAeadABytes
    · exact .inl untagged
    · refine .inr ⟨by omega, ?_⟩
      by_contra unhashed
      rw [Bool.not_eq_true, Option.isSome_eq_false_iff, Option.isNone_iff_eq_none] at unhashed
      rw [readFromEncrypted_eq aead heap passwd (by omega), getKeyFromPassword_eq, unhashed,
        ok_bind, decryptInto_without_key aead heap _ (by rw [List.length_drop]; omega)] at ran
      contradiction
  · intro either
    rcases either with untagged | ⟨fits, hashed⟩
    · exact staysInside_untagged aead heap passwd untagged
    · by_cases untagged : bytes.length < kNpubBytes + kAeadABytes
      · exact staysInside_untagged aead heap passwd untagged
      · obtain ⟨key, hashed⟩ := Option.isSome_iff_exists.mp hashed
        exact staysInside_fitting aead heap (Nat.le_of_not_lt untagged) fits hashed

/-- A file that is one byte longer than an encrypted key. -/
theorem long_key_file_overruns :
    ¬StaysInside .transparent empty (List.replicate 89 0) (ascii "password") := by
  intro stays
  exact absurd stays.inside (by decide)

end Heap

end Cscrypto
