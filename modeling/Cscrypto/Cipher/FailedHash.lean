import Cscrypto.Cipher.FailedData
import Cscrypto.Cipher.KeyAtRest
import Cscrypto.Memory.KeyCalls

namespace Cscrypto

open Cscrypto.Data

/-! # Password hashes that fail

`crypto_pwhash` fails when there is not enough memory.  `getKeyFromPassword` and
`getCipherKeyFromPassword` then return a guard without a block, and none of
their callers looks whether it has one.
-/

/-- A key buffer on its way to the AEAD. -/
def passKey (key : MemGuard kAeadKeySize) : Except Fault (MemGuard kAeadKeySize) :=
  match key.mem with
  | some _ => .ok key
  | none => .error .misuse

namespace Heap

/-- `readFromEncrypted` that stops with a fault where the AEAD is passed a
released key buffer. -/
def readFromEncryptedChecked (aead : Aead) (heap : Heap) (bytes passwd : Bytes) :
    Except Fault (Nat × Heap) :=
  if bytes.length < kNpubBytes then .ok heap.construct
  else do
    let nonce ← (MemGuard.new kNpubBytes).write (← copyArray kNpubBytes bytes 0)
    let key ← getKeyFromPassword aead passwd
    let (result, mem, heap) ← heap.allocate
    let key ← passKey key
    let (decrypted_len, heap) ← heap.aeadDecrypt aead mem (bytes.drop kNpubBytes) nonce key
    if decrypted_len ≠ some kPrivateKeySize then heap.reject result
    else
      let heap ← heap.mprotect .noAccess (some mem)
      return (result, heap.record result)

/-- `getEncrypted` that stops with a fault where the AEAD is passed a released
key buffer. -/
def getEncryptedChecked (aead : Aead) (heap : Heap) (own : Handle) (passwd : Bytes)
    (random : ByteArray kNpubBytes) : Except Fault (Bytes × Heap) := do
  let key ← getKeyFromPassword aead passwd
  heap.accessing own fun secret => do
    let nonce ← (MemGuard.new kNpubBytes).write random
    let nonce ← nonce.read
    let key ← passKey key
    let key ← key.read
    match aead.encrypt key nonce secret.bytes with
    | none => return []
    | some cText => return nonce.bytes ++ cText.bytes

variable {aead : Aead} {heap : Heap} {own : Handle} {bytes passwd : Bytes}

theorem readFromEncryptedChecked_eq {key : ByteArray kAeadKeySize}
    (hashed : aead.pwhash passwd salt = some key) :
    heap.readFromEncryptedChecked aead bytes passwd = heap.readFromEncrypted aead bytes passwd := by
  rw [readFromEncryptedChecked, readFromEncrypted, getKeyFromPassword_eq, hashed]
  rfl

theorem getEncryptedChecked_eq {key : ByteArray kAeadKeySize} (random : ByteArray kNpubBytes)
    (hashed : aead.pwhash passwd salt = some key) :
    heap.getEncryptedChecked aead own passwd random = heap.getEncrypted aead own passwd random := by
  rw [getEncryptedChecked, getEncrypted, getKeyFromPassword_eq, hashed]
  rfl

/-- When the password cannot be hashed, the result is an empty key and the AEAD
is not called. -/
def ReadReportsHash (aead : Aead) (heap : Heap) (bytes passwd : Bytes) : Prop :=
  aead.pwhash passwd salt = none →
    ∃ result next, heap.readFromEncryptedChecked aead bytes passwd = .ok (result, next) ∧
      EmptyKey heap result next

/-- When the password cannot be hashed, nothing is returned and the AEAD is not
called. -/
def WriteReportsHash (aead : Aead) (heap : Heap) (own : Handle) (passwd : Bytes)
    (random : ByteArray kNpubBytes) : Prop :=
  aead.pwhash passwd salt = none →
    ∃ next, heap.getEncryptedChecked aead own passwd random = .ok ([], next)

theorem readReportsHash_iff (aead : Aead) (heap : Heap) (bytes passwd : Bytes) :
    ReadReportsHash aead heap bytes passwd ↔
      bytes.length < kNpubBytes ∨ (aead.pwhash passwd salt).isSome := by
  by_cases short : bytes.length < kNpubBytes
  · refine iff_of_true (fun _ => ⟨_, _, ?_, heap.construct_emptyKey⟩) (.inl short)
    rw [readFromEncryptedChecked, if_pos short]
  simp only [short, false_or]
  cases hashed : aead.pwhash passwd salt with
  | some key => exact iff_of_true (by simp [ReadReportsHash, hashed]) rfl
  | none =>
      refine iff_of_false ?_ (by simp)
      intro reports
      obtain ⟨result, next, ran, _⟩ := reports hashed
      obtain ⟨nonce, copied, _⟩ : ∃ nonce, copyArray kNpubBytes bytes 0 = .ok nonce ∧ _ :=
        copyArray_ok (by omega)
      rw [readFromEncryptedChecked, if_neg short, copied, getKeyFromPassword_eq, hashed,
        allocate_eq] at ran
      cases ran

theorem writeReportsHash_iff (aead : Aead) (heap : Heap) (own : Handle) (passwd : Bytes)
    (random : ByteArray kNpubBytes) :
    WriteReportsHash aead heap own passwd random ↔ (aead.pwhash passwd salt).isSome := by
  cases hashed : aead.pwhash passwd salt with
  | some key => exact iff_of_true (by simp [WriteReportsHash, hashed]) rfl
  | none =>
      refine iff_of_false ?_ (by simp)
      intro reports
      obtain ⟨next, ran⟩ := reports hashed
      rw [getEncryptedChecked, getKeyFromPassword_eq, hashed, ok_bind] at ran
      obtain ⟨block, found, _, _, encrypted, _⟩ := accessing_ok ran
      cases encrypted

end Heap

namespace Cipher

theorem encryptData_null (box : SecretBox) (nonce : Nonce) (source : Bytes) :
    encryptData box nonce source ⟨none⟩ = .error .misuse := by
  have room : 0 + nonce.bytes.length ≤
      (resize [] (source.length + kMacBytes + kNonceBytes)).length := by
    rw [length_resize, nonce.size_eq]
    omega
  rw [encryptData, copyInto, if_pos room]
  rfl

theorem encryptFile_null (ss : SecretStream) (fuel : Nat) {target source : Path} (header : Header)
    {disk : Disk} (opens : disk.SourceOpens source ∧ disk.TargetOpens) :
    encryptFile ss fuel target source ⟨none⟩ header disk = .error .misuse := by
  obtain ⟨opened, created⟩ := @Disk.opening_both _ target _ opens.1 opens.2
  simp only [encryptFile, opened, created]
  rfl

theorem decryptFile_null (ss : SecretStream) (fuel : Nat) {target source : Path} (stack : Header)
    {disk : Disk} (opens : disk.SourceOpens source ∧ disk.TargetOpens) :
    decryptFile ss fuel target source ⟨none⟩ stack disk = .error .misuse := by
  obtain ⟨opened, created⟩ := @Disk.opening_both _ target _ opens.1 opens.2
  simp only [decryptFile, opened, created]
  rfl

/-- A call with a key either keeps it or is still running. -/
inductive KeepsKey (secret : StreamKey) : Except Fault CipherKey → Prop where
  | kept (protection : Protection) : KeepsKey secret (.ok (.holding secret protection))
  | running : KeepsKey secret (.error .outOfFuel)

theorem KeepsKey.holds {secret : StreamKey} {key : CipherKey} (keeps : KeepsKey secret (.ok key)) :
    ∃ protection, key = .holding secret protection := by
  cases keeps
  exact ⟨_, rfl⟩

theorem KeepsKey.fault {secret : StreamKey} {fault : Fault}
    (keeps : KeepsKey secret (.error fault)) : fault ≠ .misuse := by
  cases keeps
  decide

theorem Locks.keeps {secret : StreamKey} {result : Except Fault CipherKey}
    (locks : Locks secret result) : KeepsKey secret result := by
  cases locks with
  | locked => exact .kept _
  | running => exact .running

theorem encryptFile_keeps (ss : SecretStream) (fuel : Nat) (target source : Path)
    (secret : StreamKey) (protection : Protection) (header : Header) (disk : Disk) :
    KeepsKey secret ((encryptFile ss fuel target source (.holding secret protection) header
      disk).map fun result => result.2.1) := by
  by_cases opens : disk.SourceOpens source ∧ disk.TargetOpens
  · exact (encryptFile_used ss fuel secret protection header opens).keeps
  · rw [encryptFile_unopened ss fuel _ header opens]
    exact .kept _

theorem decryptFile_keeps (ss : SecretStream) (fuel : Nat) (target source : Path)
    (secret : StreamKey) (protection : Protection) (stack : Header) (disk : Disk) :
    KeepsKey secret ((decryptFile ss fuel target source (.holding secret protection) stack
      disk).map Decryption.key) := by
  by_cases opens : disk.SourceOpens source ∧ disk.TargetOpens
  · exact (decryptFile_used ss fuel secret protection stack opens).keeps
  · rw [decryptFile_unopened ss fuel _ stack opens]
    exact .kept _

/-- The call gets as far as the key. -/
def UsesKey (state : CipherState) : CipherCall → Prop
  | .encryptFile _ _ source _ => state.disk.SourceOpens source ∧ state.disk.TargetOpens
  | .decryptFile _ _ source _ => state.disk.SourceOpens source ∧ state.disk.TargetOpens
  | .encryptData _ _ => True
  | .decryptData _ source => kMacBytes + kNonceBytes ≤ source.length

/-- Changing the protection of a null block makes libsodium abort. -/
theorem cipherStep_null (ss : SecretStream) (box : SecretBox) (disk : Disk) (call : CipherCall) :
    (UsesKey ⟨⟨none⟩, disk⟩ call → cipherStep ss box ⟨⟨none⟩, disk⟩ call = .error .misuse) ∧
      (¬UsesKey ⟨⟨none⟩, disk⟩ call →
        ∃ disk', cipherStep ss box ⟨⟨none⟩, disk⟩ call = .ok ⟨⟨none⟩, disk'⟩) := by
  cases call with
  | encryptFile fuel target source header =>
      refine ⟨fun opens => ?_, fun unopened => ⟨disk.opening target source, ?_⟩⟩
      · simp only [cipherStep, encryptFile_null ss fuel header opens, error_bind]
      · simp only [cipherStep, encryptFile_unopened ss fuel _ header unopened, ok_bind, pure_eq_ok]
  | decryptFile fuel target source stack =>
      refine ⟨fun opens => ?_, fun unopened => ⟨disk.opening target source, ?_⟩⟩
      · simp only [cipherStep, decryptFile_null ss fuel stack opens, error_bind]
      · simp only [cipherStep, decryptFile_unopened ss fuel _ stack unopened, ok_bind, pure_eq_ok]
  | encryptData nonce source =>
      refine ⟨fun _ => ?_, fun unused => absurd trivial unused⟩
      simp only [cipherStep, encryptData_null, error_bind]
  | decryptData target source =>
      refine ⟨fun long => ?_, fun short => ⟨disk, ?_⟩⟩
      · simp only [cipherStep, decryptData_null long, error_bind]
      · simp only [cipherStep, decryptData_short box (Nat.lt_of_not_le short), ok_bind, pure_eq_ok]

theorem run_null_iff (ss : SecretStream) (box : SecretBox) (calls : List CipherCall) (disk : Disk) :
    calls.foldlM (cipherStep ss box) ⟨⟨none⟩, disk⟩ ≠ .error .misuse ↔
      EveryStep (cipherStep ss box) (fun state call => ¬UsesKey state call) ⟨⟨none⟩, disk⟩
        calls := by
  induction calls generalizing disk with
  | nil => exact iff_of_true (by simp) trivial
  | cons call rest ih =>
      obtain ⟨aborts, goes⟩ := cipherStep_null ss box disk call
      rw [List.foldlM_cons, EveryStep]
      by_cases used : UsesKey ⟨⟨none⟩, disk⟩ call
      · rw [aborts used]
        exact iff_of_false (fun same => same rfl) (fun given => given.1 used)
      · obtain ⟨disk', stepped⟩ := goes used
        rw [stepped, ok_bind, ih disk']
        constructor
        · intro every
          refine ⟨used, fun next same => ?_⟩
          cases same
          exact every
        · intro given
          exact given.2 _ rfl

theorem run_locked (ss : SecretStream) (box : SecretBox) (calls : List CipherCall) (disk : Disk)
    (secret : StreamKey) :
    calls.foldlM (cipherStep ss box) ⟨.holding secret .noAccess, disk⟩ ≠ .error .misuse := by
  intro failed
  have running := foldlM_error (fun _ _ _ => @cipherStep_ok ss box secret _ _ _)
    (fun _ _ _ => @cipherStep_error ss box secret _ _ _) rfl failed
  contradiction

/-- The calls that follow use no null block. -/
theorem run_hashed_iff (ss : SecretStream) (box : SecretBox) (calculateHash : Bytes → Hash)
    (pwhash : Pwhash) (pswd : Bytes) (calls : List CipherCall) (disk : Disk) :
    (do calls.foldlM (cipherStep ss box)
          ⟨← getCipherKeyFromPassword calculateHash pwhash pswd, disk⟩) ≠ .error .misuse ↔
      (pwhash pswd (saltOf calculateHash pswd)).isSome ∨
        EveryStep (cipherStep ss box) (fun state call => ¬UsesKey state call) ⟨⟨none⟩, disk⟩
          calls := by
  rw [getCipherKeyFromPassword_eq, ok_bind]
  cases pwhash pswd (saltOf calculateHash pswd) with
  | none =>
      simp only [keyOfHash, Option.isSome_none, Bool.false_eq_true, false_or]
      exact run_null_iff ss box calls disk
  | some secret => exact iff_of_true (run_locked ss box calls disk secret) (.inl rfl)

end Cipher

end Cscrypto
