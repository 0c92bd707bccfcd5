import Cscrypto.Memory.KeyCalls
import Mathlib.Data.Set.Basic

namespace Cscrypto

open Cscrypto.Data Cscrypto.KeysDerivation

/-! # Encrypted private keys read back

What `readFromEncrypted` accepts is compared with what `getEncrypted` returned,
for an AEAD that is ideal relative to the calls that were made.
-/

/-- A call of `getEncrypted`, with the nonce that it draws. -/
structure Encryption where
  secret : SecretKey
  passwd : Bytes
  nonce : ByteArray kNpubBytes
deriving DecidableEq

/-- The message of some call was encrypted under this key and nonce. -/
def Sealed (aead : Aead) (calls : Set Encryption) (key : ByteArray kAeadKeySize)
    (nonce : ByteArray kNpubBytes) (m : Bytes) : Prop :=
  ∃ call ∈ calls, aead.pwhash call.passwd salt = some key ∧ call.nonce = nonce ∧
    call.secret.bytes = m

/-- An ideal AEAD relative to the messages that were encrypted: each of them is
delivered, and nothing else is accepted. -/
structure Aead.Ideal (aead : Aead)
    (encrypted : ByteArray kAeadKeySize → ByteArray kNpubBytes → Bytes → Prop) : Prop where
  encrypts : ∀ key nonce m, ∃ c, aead.encrypt key nonce m = some c
  delivers : ∀ key nonce m c, encrypted key nonce m → aead.encrypt key nonce m = some c →
    (aead.decrypt key nonce c.bytes).map ByteArray.bytes = some m
  authentic : ∀ key nonce c plain, aead.decrypt key nonce c = some plain →
    encrypted key nonce plain.bytes ∧
      (aead.encrypt key nonce plain.bytes).map ByteArray.bytes = some c

namespace Heap

variable {aead : Aead} {heap : Heap} {own : Handle}

/-- Some object with the key of the call is asked, and returns the bytes. -/
def Returned (aead : Aead) (call : Encryption) (bytes : Bytes) : Prop :=
  ∃ (heap : Heap) (own : Handle) (next : Heap), heap.LockedKey own ∧
    heap.value own = .holding call.secret ∧
    heap.getEncrypted aead own call.passwd call.nonce = .ok (bytes, next)

/-- The bytes are the key as one of the calls encrypted it under the password. -/
def Written (aead : Aead) (calls : Set Encryption) (passwd bytes : Bytes) (secret : SecretKey) :
    Prop :=
  ∃ call ∈ calls, call.passwd = passwd ∧ call.secret = secret ∧ Returned aead call bytes

theorem getEncrypted_locked {passwd : Bytes} {key : ByteArray kAeadKeySize} {secret : SecretKey}
    {random : ByteArray kNpubBytes} {c : ByteArray (secret.bytes.length + kAeadABytes)}
    (hashed : aead.pwhash passwd salt = some key) (locked : heap.LockedKey own)
    (holds : heap.value own = .holding secret)
    (encrypted : aead.encrypt key random secret.bytes = some c) :
    heap.getEncrypted aead own passwd random = .ok (random.bytes ++ c.bytes, heap.touched) := by
  rw [getEncrypted, getKeyFromPassword_eq, hashed, ok_bind, accessing_locked locked, holds]
  simp only [PrivateKey.access_holding, MemGuard.new_eq_holding, MemGuard.write_readWrite,
    MemGuard.read_readWrite, ok_bind, encrypted, pure_eq_ok]

/-- An encrypted key is the nonce with what the AEAD makes of the key. -/
theorem returned_iff {call : Encryption} {key : ByteArray kAeadKeySize}
    {c : ByteArray (call.secret.bytes.length + kAeadABytes)}
    (hashed : aead.pwhash call.passwd salt = some key)
    (encrypted : aead.encrypt key call.nonce call.secret.bytes = some c) (bytes : Bytes) :
    Returned aead call bytes ↔ bytes = call.nonce.bytes ++ c.bytes := by
  constructor
  · intro given
    obtain ⟨heap, own, next, locked, holds, ran⟩ := given
    rw [getEncrypted_locked hashed locked holds encrypted] at ran
    cases ran
    rfl
  · intro same
    subst same
    have at_block : (empty.created call.secret).blocks.find empty.blocks.fresh =
        some ⟨call.secret, .noAccess⟩ := Store.find_alloc_fresh
    have locked : (empty.created call.secret).LockedKey ⟨some empty.blocks.fresh, 0⟩ := by
      intro block keyed
      cases keyed
      exact ⟨call.secret, at_block⟩
    have holds : (empty.created call.secret).value ⟨some empty.blocks.fresh, 0⟩ =
        .holding call.secret := by
      rw [value, Option.bind_some, at_block]
      rfl
    exact ⟨_, _, _, locked, holds, getEncrypted_locked hashed locked holds encrypted⟩

theorem decrypt_congr {key : ByteArray kAeadKeySize} {nonce nonce' : ByteArray kNpubBytes}
    {c c' : Bytes} (nonces : nonce = nonce') (ciphertexts : c = c') :
    (aead.decrypt key nonce c).map ByteArray.bytes =
      (aead.decrypt key nonce' c').map ByteArray.bytes := by
  subst nonces ciphertexts
  rfl

theorem decryptedKey_append (aead : Aead) (nonce : ByteArray kNpubBytes) {c : Bytes}
    (passwd : Bytes) (size : c.length = kPrivateKeySize + kAeadABytes) :
    (decryptedKey aead (nonce.bytes ++ c) passwd).map ByteArray.bytes =
      (aead.pwhash passwd salt).bind fun key =>
        (aead.decrypt key nonce c).map ByteArray.bytes := by
  have whole : (nonce.bytes ++ c).length = kNpubBytes + (kPrivateKeySize + kAeadABytes) := by
    rw [List.length_append, nonce.size_eq, size]
  have front : (nonce.bytes ++ c).take kNpubBytes = nonce.bytes := List.take_left' nonce.size_eq
  have back : (nonce.bytes ++ c).drop kNpubBytes = c := List.drop_left' nonce.size_eq
  rw [decryptedKey, dif_pos whole]
  cases aead.pwhash passwd salt with
  | none => rfl
  | some key =>
      let nonces : ByteArray kNpubBytes :=
        ⟨(nonce.bytes ++ c).take kNpubBytes, by rw [front, nonce.size_eq]⟩
      have same : nonces = nonce := ByteArray.ext_bytes front
      rw [Option.bind_some, ← decrypt_congr same back]
      simp only [Option.bind_eq_bind, Option.bind_some]
      cases aead.decrypt key nonces ((nonce.bytes ++ c).drop kNpubBytes) <;> rfl

/-- The nonce and a ciphertext that opens to a key. -/
theorem decryptedKey_of_opens {nonce : ByteArray kNpubBytes} {passwd : Bytes}
    {key : ByteArray kAeadKeySize} {secret : SecretKey}
    {c : ByteArray (secret.bytes.length + kAeadABytes)}
    (hashed : aead.pwhash passwd salt = some key)
    (opens : (aead.decrypt key nonce c.bytes).map ByteArray.bytes = some secret.bytes) :
    decryptedKey aead (nonce.bytes ++ c.bytes) passwd = some secret := by
  have size : c.bytes.length = kPrivateKeySize + kAeadABytes := by
    rw [c.size_eq, secret.size_eq]
  have opened := decryptedKey_append aead nonce passwd size
  rw [hashed, Option.bind_some, opens] at opened
  obtain ⟨found, decrypted, same⟩ := Option.map_eq_some_iff.mp opened
  rw [decrypted, ByteArray.ext_bytes same]

theorem decryptedKey_size {bytes passwd : Bytes} {secret : SecretKey}
    (found : decryptedKey aead bytes passwd = some secret) :
    ∃ (nonce : ByteArray kNpubBytes) (c : Bytes), bytes = nonce.bytes ++ c ∧
      c.length = kPrivateKeySize + kAeadABytes := by
  rw [decryptedKey] at found
  split at found
  · rename_i size
    refine ⟨⟨bytes.take kNpubBytes, List.length_take_of_le (by omega)⟩, bytes.drop kNpubBytes,
      (List.take_append_drop _ _).symm, ?_⟩
    rw [List.length_drop]
    omega
  · contradiction

theorem length_of_decryptedKey {bytes passwd : Bytes} {secret : SecretKey}
    (found : decryptedKey aead bytes passwd = some secret) :
    bytes.length = kNpubBytes + (kPrivateKeySize + kAeadABytes) := by
  obtain ⟨nonce, c, whole, size⟩ := decryptedKey_size found
  rw [whole, List.length_append, nonce.size_eq, size]

theorem written_of_decryptedKey {calls : Set Encryption} (ideal : aead.Ideal (Sealed aead calls))
    {bytes passwd : Bytes} {secret : SecretKey}
    (distinct : ∀ call ∈ calls, aead.pwhash call.passwd salt = aead.pwhash passwd salt →
      call.passwd = passwd) (found : decryptedKey aead bytes passwd = some secret) :
    Written aead calls passwd bytes secret := by
  obtain ⟨nonce, c, rfl, size⟩ := decryptedKey_size found
  have opened := decryptedKey_append aead nonce passwd size
  rw [found] at opened
  obtain ⟨key, hashed, opened⟩ := Option.bind_eq_some_iff.mp opened.symm
  obtain ⟨plain, opened, same⟩ := Option.map_eq_some_iff.mp opened
  obtain ⟨⟨call, made, under, nonces, message⟩, boxed⟩ := ideal.authentic key nonce c plain opened
  have secrets : call.secret = secret := ByteArray.ext_bytes (message.trans same)
  subst nonces secrets
  rw [same] at boxed
  obtain ⟨ciphertext, encrypted, rfl⟩ := Option.map_eq_some_iff.mp boxed
  exact ⟨call, made, distinct call made (under.trans hashed.symm), rfl,
    (returned_iff under encrypted _).mpr rfl⟩

theorem decryptedKey_of_written {calls : Set Encryption} (ideal : aead.Ideal (Sealed aead calls))
    {bytes passwd : Bytes} {key : ByteArray kAeadKeySize} {secret : SecretKey}
    (hashed : aead.pwhash passwd salt = some key)
    (written : Written aead calls passwd bytes secret) :
    decryptedKey aead bytes passwd = some secret := by
  obtain ⟨call, made, rfl, rfl, returned⟩ := written
  obtain ⟨c, encrypted⟩ := ideal.encrypts key call.nonce call.secret.bytes
  rw [(returned_iff hashed encrypted bytes).mp returned]
  exact decryptedKey_of_opens hashed
    (ideal.delivers key call.nonce call.secret.bytes c ⟨call, made, hashed, rfl, rfl⟩ encrypted)

/-- The object at `result` has the key, locked. -/
def KeyAt (heap : Heap) (result : Nat) (secret : SecretKey) : Prop :=
  ∃ own, heap.handles.find result = some own ∧ heap.LockedKey own ∧
    heap.value own = .holding secret

theorem created_keyAt (heap : Heap) (secret : SecretKey) :
    KeyAt (heap.created secret) heap.handles.fresh secret := by
  have at_block : (heap.created secret).blocks.find heap.blocks.fresh =
      some ⟨secret, .noAccess⟩ := Store.find_alloc_fresh
  refine ⟨⟨some heap.blocks.fresh, heap.counters.fresh⟩, Store.find_alloc_fresh, ?_, ?_⟩
  · intro block keyed
    cases keyed
    exact ⟨secret, at_block⟩
  · rw [value, Option.bind_some, at_block]
    rfl

theorem KeyAt.unique {result : Nat} {secret other : SecretKey} (held : heap.KeyAt result secret)
    (found : heap.KeyAt result other) : secret = other := by
  obtain ⟨own, at_result, _, holds⟩ := held
  obtain ⟨own', at_result', _, holds'⟩ := found
  cases at_result.symm.trans at_result'
  cases holds.symm.trans holds'
  rfl

theorem EmptyKey.not_keyAt {result : Nat} {next : Heap} (rejected : EmptyKey heap result next)
    (secret : SecretKey) : ¬next.KeyAt result secret := by
  intro held
  obtain ⟨ctr, at_result⟩ := rejected.empty
  obtain ⟨own, found, _, holds⟩ := held
  cases at_result.symm.trans found
  cases holds

/-- `readFromEncrypted` makes the key that the bytes hold, and an empty one if
they hold none. -/
theorem readFromEncrypted_fitting (heap : Heap) {bytes passwd : Bytes}
    {key : ByteArray kAeadKeySize} (hashed : aead.pwhash passwd salt = some key)
    (fits : bytes.length ≤ kNpubBytes + (kPrivateKeySize + kAeadABytes)) :
    ∃ result next, heap.readFromEncrypted aead bytes passwd = .ok (result, next) ∧
      (∀ secret, next.KeyAt result secret ↔ decryptedKey aead bytes passwd = some secret) ∧
      (decryptedKey aead bytes passwd = none → EmptyKey heap result next) := by
  cases found : decryptedKey aead bytes passwd with
  | none =>
      have stays : StaysInside aead heap bytes passwd := by
        by_cases untagged : bytes.length < kNpubBytes + kAeadABytes
        · exact staysInside_untagged aead heap passwd untagged
        · exact staysInside_fitting aead heap (Nat.le_of_not_lt untagged) fits hashed
      obtain ⟨result, next, ran, rejects⟩ := stays.returns
      have rejected := rejects found
      refine ⟨result, next, ran, fun secret => ?_, fun _ => rejected⟩
      exact iff_of_false (rejected.not_keyAt secret) (by simp)
  | some secret =>
      obtain ⟨nonce, c, rfl, size⟩ := decryptedKey_size found
      have opened := decryptedKey_append aead nonce passwd size
      have long : kNpubBytes ≤ (nonce.bytes ++ c).length := by
        rw [List.length_append, nonce.size_eq]
        exact Nat.le_add_right _ _
      have front : (nonce.bytes ++ c).take kNpubBytes = nonce.bytes :=
        List.take_left' nonce.size_eq
      have back : (nonce.bytes ++ c).drop kNpubBytes = c := List.drop_left' nonce.size_eq
      have ran := readFromEncrypted_eq aead heap passwd long
      simp only [getKeyFromPassword_eq, hashed, ok_bind, front, back] at ran
      rw [found, hashed, Option.bind_some] at opened
      obtain ⟨plain, opened, same⟩ := Option.map_eq_some_iff.mp opened.symm
      rcases decryptInto_fitting aead heap nonce key (by omega) size.le with
        ⟨_, refused⟩ | ⟨plain', secret', opened', same', made⟩
      · cases (refused size).symm.trans opened
      · cases opened.symm.trans opened'
        have secrets : secret' = secret := ByteArray.ext_bytes (same'.trans same)
        subst secrets
        refine ⟨heap.handles.fresh, heap.created secret', ran.trans made, ?_, by simp⟩
        intro other
        constructor
        · intro held
          rw [(created_keyAt heap secret').unique held]
        · intro held
          cases held
          exact created_keyAt heap secret'

/-- A key is read back with the password it was encrypted under, and bytes that
no call returned under the password give an empty key. -/
theorem encrypted_keys_exact {calls : Set Encryption} (sign : SignKeys)
    (ideal : aead.Ideal (Sealed aead calls))
    (hashes : ∀ passwd, ∃ key, aead.pwhash passwd salt = some key) :
    (∀ call ∈ calls, ∀ (heap : Heap) (own : Handle), heap.LockedKey own →
      heap.value own = .holding call.secret →
        ∃ bytes next, heap.getEncrypted aead own call.passwd call.nonce = .ok (bytes, next) ∧
          bytes.length = kNpubBytes + (kPrivateKeySize + kAeadABytes) ∧
          ∀ other : Heap, ∃ result read,
            other.readFromEncrypted aead bytes call.passwd = .ok (result, read) ∧
            read.KeyAt result call.secret ∧
            ∀ own', read.handles.find result = some own' →
              (read.getMatchingPublic sign own').map Prod.fst =
                (heap.getMatchingPublic sign own).map Prod.fst) ∧
    ∀ (heap : Heap) (bytes passwd : Bytes),
      bytes.length ≤ kNpubBytes + (kPrivateKeySize + kAeadABytes) →
      (∀ call ∈ calls, aead.pwhash call.passwd salt = aead.pwhash passwd salt →
        call.passwd = passwd) →
      ∃ result next, heap.readFromEncrypted aead bytes passwd = .ok (result, next) ∧
        (∀ secret, next.KeyAt result secret ↔ Written aead calls passwd bytes secret) ∧
        ((∀ secret, ¬Written aead calls passwd bytes secret) → EmptyKey heap result next) := by
  constructor
  · intro call made heap own locked holds
    obtain ⟨key, hashed⟩ := hashes call.passwd
    obtain ⟨c, encrypted⟩ := ideal.encrypts key call.nonce call.secret.bytes
    have returned := getEncrypted_locked hashed locked holds encrypted
    have written : Written aead calls call.passwd (call.nonce.bytes ++ c.bytes) call.secret :=
      ⟨call, made, rfl, rfl, heap, own, _, locked, holds, returned⟩
    have found := decryptedKey_of_written ideal hashed written
    have size : (call.nonce.bytes ++ c.bytes).length =
        kNpubBytes + (kPrivateKeySize + kAeadABytes) := by
      rw [List.length_append, call.nonce.size_eq, c.size_eq, call.secret.size_eq]
    refine ⟨_, _, returned, size, fun other => ?_⟩
    obtain ⟨result, next, ran, reads, _⟩ := other.readFromEncrypted_fitting hashed size.le
    have held := (reads call.secret).mpr found
    refine ⟨result, next, ran, held, fun own' at_result => ?_⟩
    obtain ⟨_, at_result', locked', holds'⟩ := held
    cases at_result.symm.trans at_result'
    rw [getMatchingPublic_locked sign locked', holds', getMatchingPublic_locked sign locked, holds]
    rfl
  · intro heap bytes passwd fits distinct
    obtain ⟨key, hashed⟩ := hashes passwd
    obtain ⟨result, next, ran, reads, rejects⟩ := heap.readFromEncrypted_fitting hashed fits
    have exact (secret : SecretKey) :
        decryptedKey aead bytes passwd = some secret ↔ Written aead calls passwd bytes secret :=
      ⟨written_of_decryptedKey ideal distinct, decryptedKey_of_written ideal hashed⟩
    refine ⟨result, next, ran, fun secret => (reads secret).trans (exact secret), ?_⟩
    intro unwritten
    apply rejects
    rw [Option.eq_none_iff_forall_not_mem]
    intro secret found
    exact unwritten secret ((exact secret).mp found)

end Heap

namespace Aead

theorem transparent_decrypt_iff {key : ByteArray kAeadKeySize} {nonce : ByteArray kNpubBytes}
    {c : Bytes} {plain : ByteArray (c.length - kAeadABytes)} :
    transparent.decrypt key nonce c = some plain ↔
      plain.bytes ++ tag key nonce plain.bytes = c := by
  have size (m : Bytes) : (tag key nonce m).length = kAeadABytes := by
    rw [tag, List.length_take, ByteArray.size_eq]
    rfl
  simp only [transparent]
  constructor
  · intro opened
    split at opened
    · rename_i authentic
      cases opened
      rw [← authentic, List.take_append_drop]
    · contradiction
  · obtain ⟨m, length⟩ := plain
    intro same
    dsimp only at same
    subst same
    have count : (m ++ tag key nonce m).length - kAeadABytes = m.length := by
      rw [List.length_append, size, Nat.add_sub_cancel]
    have front : (m ++ tag key nonce m).take ((m ++ tag key nonce m).length - kAeadABytes) = m := by
      rw [count, List.take_left]
    have back : (m ++ tag key nonce m).drop ((m ++ tag key nonce m).length - kAeadABytes) =
        tag key nonce m := by
      rw [count, List.drop_left]
    rw [if_pos (by rw [back, front])]
    exact congrArg some (ByteArray.ext_bytes front)

theorem transparent_opens {key : ByteArray kAeadKeySize} {nonce : ByteArray kNpubBytes} {m : Bytes}
    {c : ByteArray (m.length + kAeadABytes)} (encrypted : transparent.encrypt key nonce m = some c) :
    ∃ size, transparent.decrypt key nonce c.bytes = some ⟨m, size⟩ := by
  cases encrypted
  have size : m.length = (m ++ tag key nonce m).length - kAeadABytes := by
    rw [List.length_append, tag, List.length_take, ByteArray.size_eq]
    exact (Nat.add_sub_cancel _ _).symm
  exact ⟨size, transparent_decrypt_iff.mpr rfl⟩

/-- The transparent AEAD that opens the messages of the log only. -/
def logged (log : List Encryption) : Aead where
  pwhash := transparent.pwhash
  encrypt := transparent.encrypt
  decrypt key nonce c := (transparent.decrypt key nonce c).filter fun plain =>
    log.any fun call => transparent.pwhash call.passwd salt = some key ∧ call.nonce = nonce ∧
      call.secret.bytes = plain.bytes

theorem logged_ideal (log : List Encryption) :
    (logged log).Ideal (Sealed (logged log) fun call => call ∈ log) where
  encrypts _ _ _ := ⟨_, rfl⟩
  delivers key nonce m c := by
    intro entry encrypted
    obtain ⟨call, made, under, nonces, message⟩ := entry
    obtain ⟨size, opened⟩ := transparent_opens encrypted
    have inside : log.any (fun call => transparent.pwhash call.passwd salt = some key ∧
        call.nonce = nonce ∧ call.secret.bytes = m) = true :=
      List.any_eq_true.mpr ⟨call, made, decide_eq_true ⟨under, nonces, message⟩⟩
    simp only [logged, opened, Option.filter_some, inside, if_true, Option.map_some]
  authentic key nonce c plain := by
    intro opened
    obtain ⟨opened, inside⟩ := Option.filter_eq_some_iff.mp opened
    obtain ⟨call, made, entry⟩ := List.any_eq_true.mp inside
    obtain ⟨under, nonces, message⟩ := of_decide_eq_true entry
    exact ⟨⟨call, made, under, nonces, message⟩,
      congrArg some (transparent_decrypt_iff.mp opened)⟩

end Aead

namespace Heap

/-- One key that was encrypted under one password, read with it and with
another one. -/
theorem encrypted_keys_exact_logged :
    let call : Encryption := ⟨.replicate _ 7, ascii "password", .replicate _ 1⟩
    let aead := Aead.logged [call]
    ∃ bytes, (∃ next, (empty.created call.secret).getEncrypted aead ⟨some 0, 0⟩ call.passwd
          call.nonce = .ok (bytes, next)) ∧
      (∃ result next, empty.readFromEncrypted aead bytes (ascii "password") =
          .ok (result, next) ∧ next.KeyAt result call.secret) ∧
      ∃ result next, empty.readFromEncrypted aead bytes (ascii "passwort") =
          .ok (result, next) ∧ EmptyKey empty result next := by
  intro call aead
  obtain ⟨reads, exacts⟩ := encrypted_keys_exact SignKeys.transparent (Aead.logged_ideal [call])
    fun passwd => ⟨_, rfl⟩
  have locked : (empty.created call.secret).LockedKey ⟨some 0, 0⟩ := by
    intro block keyed
    cases keyed
    exact ⟨call.secret, rfl⟩
  obtain ⟨bytes, next, returned, size, back⟩ :=
    reads call List.mem_cons_self _ ⟨some 0, 0⟩ locked rfl
  obtain ⟨result, read, ran, held, _⟩ := back empty
  have others : ∀ other ∈ [call], other.passwd ≠ ascii "passwort" := by
    intro other made
    rw [List.mem_singleton.mp made]
    decide
  have distinct : ∀ other ∈ [call], aead.pwhash other.passwd salt =
      aead.pwhash (ascii "passwort") salt → other.passwd = ascii "passwort" := by
    intro other made same
    rw [List.mem_singleton.mp made] at same
    exact absurd same (by decide)
  obtain ⟨result', read', ran', _, rejects⟩ :=
    exacts empty bytes (ascii "passwort") size.le distinct
  refine ⟨bytes, ⟨next, returned⟩, ⟨result, read, ran, held⟩, result', read', ran', ?_⟩
  apply rejects
  intro secret written
  obtain ⟨other, made, under, _⟩ := written
  exact others other made under

end Heap

end Cscrypto
