import Cscrypto.Cipher.DataFormat
import Cscrypto.Cipher.FileSecurity
import Cscrypto.Cipher.Turns
import Cscrypto.Data.Run

namespace Cscrypto.Cipher

open Cscrypto.Data

/-! # Cipher keys at rest

Whatever happens to the files and the data, an operation that returns leaves
the key locked with the bytes it had.
-/

/-- The only way an operation does not lock the key is that its loop is still
running. -/
inductive Locks (secret : StreamKey) : Except Fault CipherKey → Prop where
  | locked : Locks secret (.ok (.holding secret .noAccess))
  | running : Locks secret (.error .outOfFuel)

theorem Locks.key_eq {secret : StreamKey} {key : CipherKey} (locks : Locks secret (.ok key)) :
    key = .holding secret .noAccess := by
  cases locks
  rfl

section

variable (ss : SecretStream) (fuel : Nat) {target source : Path} (secret : StreamKey)
  (protection : Protection)

theorem encryptFile_used (header : Header) {disk : Disk}
    (opens : disk.SourceOpens source ∧ disk.TargetOpens) :
    Locks secret ((encryptFile ss fuel target source (.holding secret protection) header disk).map
      fun result => result.2.1) := by
  rw [encryptFile_opened ss fuel secret protection header opens.1 opens.2]
  split
  · exact .running
  · exact .locked

theorem decryptFile_used (stack : Header) {disk : Disk}
    (opens : disk.SourceOpens source ∧ disk.TargetOpens) :
    Locks secret ((decryptFile ss fuel target source (.holding secret protection) stack disk).map
      Decryption.key) := by
  rw [decryptFile_opened ss fuel secret protection stack opens.1 opens.2]
  split
  · exact .locked
  · split
    · exact .running
    · exact .locked

end

theorem decryptData_used (box : SecretBox) (target : Bytes) {source : Bytes} (secret : StreamKey)
    (protection : Protection) (long : kMacBytes + kNonceBytes ≤ source.length) :
    Locks secret ((decryptData box target source (.holding secret protection)).map
      fun result => result.2.2) := by
  obtain ⟨nonce, c, boxed, rfl⟩ := cut_nonce long
  rw [decryptData_boxed box secret protection target nonce boxed]
  cases (box.openEasy secret nonce c).map ByteArray.bytes with
  | none => exact .locked
  | some plain => exact .locked

theorem encryptFile_locks (ss : SecretStream) (fuel : Nat) (target source : Path)
    (secret : StreamKey) (header : Header) (disk : Disk) :
    Locks secret ((encryptFile ss fuel target source (.holding secret .noAccess) header disk).map
      fun result => result.2.1) := by
  by_cases opens : disk.SourceOpens source ∧ disk.TargetOpens
  · exact encryptFile_used ss fuel secret .noAccess header opens
  · rw [encryptFile_unopened ss fuel _ header opens]
    exact .locked

theorem decryptFile_locks (ss : SecretStream) (fuel : Nat) (target source : Path)
    (secret : StreamKey) (stack : Header) (disk : Disk) :
    Locks secret ((decryptFile ss fuel target source (.holding secret .noAccess) stack disk).map
      Decryption.key) := by
  by_cases opens : disk.SourceOpens source ∧ disk.TargetOpens
  · exact decryptFile_used ss fuel secret .noAccess stack opens
  · rw [decryptFile_unopened ss fuel _ stack opens]
    exact .locked

theorem encryptData_locks (box : SecretBox) (nonce : Nonce) (source : Bytes) (secret : StreamKey) :
    Locks secret ((encryptData box nonce source (.holding secret .noAccess)).map Prod.snd) := by
  rw [encryptData_holding]
  exact .locked

theorem decryptData_locks (box : SecretBox) (target source : Bytes) (secret : StreamKey) :
    Locks secret ((decryptData box target source (.holding secret .noAccess)).map
      fun result => result.2.2) := by
  by_cases short : source.length < kMacBytes + kNonceBytes
  · rw [decryptData_short box short]
    exact .locked
  · exact decryptData_used box target secret .noAccess (Nat.le_of_not_lt short)

inductive CipherCall where
  | encryptFile (fuel : Nat) (target source : Path) (header : Header)
  | decryptFile (fuel : Nat) (target source : Path) (stack : Header)
  | encryptData (nonce : Nonce) (source : Bytes)
  | decryptData (target source : Bytes)

structure CipherState where
  key : CipherKey
  disk : Disk

def cipherStep (ss : SecretStream) (box : SecretBox) (state : CipherState) :
    CipherCall → Except Fault CipherState
  | .encryptFile fuel target source header => do
      let (_, key, disk) ← encryptFile ss fuel target source state.key header state.disk
      return ⟨key, disk⟩
  | .decryptFile fuel target source stack => do
      let result ← decryptFile ss fuel target source state.key stack state.disk
      return ⟨result.key, result.disk⟩
  | .encryptData nonce source => do
      let (_, key) ← encryptData box nonce source state.key
      return { state with key }
  | .decryptData target source => do
      let (_, _, key) ← decryptData box target source state.key
      return { state with key }

theorem Locks.step {secret : StreamKey} {result : Except Fault α} {key : α → CipherKey}
    {next : α → CipherState} (locks : Locks secret (result.map key))
    (same : ∀ value, (next value).key = key value) :
    Locks secret ((result >>= fun value => .ok (next value)).map CipherState.key) := by
  cases result with
  | error fault => exact locks
  | ok value =>
      show Locks secret (.ok (next value).key)
      rw [same]
      exact locks

theorem cipherStep_locks (ss : SecretStream) (box : SecretBox) (secret : StreamKey) (disk : Disk)
    (call : CipherCall) :
    Locks secret ((cipherStep ss box ⟨.holding secret .noAccess, disk⟩ call).map
      CipherState.key) := by
  cases call with
  | encryptFile fuel target source header =>
      exact (encryptFile_locks ss fuel target source secret header disk).step fun _ => rfl
  | decryptFile fuel target source stack =>
      exact (decryptFile_locks ss fuel target source secret stack disk).step fun _ => rfl
  | encryptData nonce source => exact (encryptData_locks box nonce source secret).step fun _ => rfl
  | decryptData target source => exact (decryptData_locks box target source secret).step fun _ => rfl

theorem cipherStep_ok {ss : SecretStream} {box : SecretBox} {secret : StreamKey}
    {state next : CipherState} {call : CipherCall} (locked : state.key = .holding secret .noAccess)
    (stepped : cipherStep ss box state call = .ok next) : next.key = .holding secret .noAccess := by
  obtain ⟨key, disk⟩ := state
  subst locked
  have locks := cipherStep_locks ss box secret disk call
  rw [stepped] at locks
  exact locks.key_eq

theorem cipherStep_error {ss : SecretStream} {box : SecretBox} {secret : StreamKey}
    {state : CipherState} {call : CipherCall} {fault : Fault}
    (locked : state.key = .holding secret .noAccess)
    (failed : cipherStep ss box state call = .error fault) : fault = .outOfFuel := by
  obtain ⟨key, disk⟩ := state
  subst locked
  have locks := cipherStep_locks ss box secret disk call
  rw [failed] at locks
  cases locks
  rfl

/-- What `getCipherKeyFromPassword` makes of the outcome of the hash. -/
def keyOfHash : Option (ByteArray 32) → CipherKey
  | some secret => .holding secret .noAccess
  | none => ⟨none⟩

/-- The start of the hash of the password. -/
def saltOf (calculateHash : Bytes → Hash) (pswd : Bytes) : ByteArray kPwhashSaltSize :=
  ⟨(calculateHash pswd).bytes.take kPwhashSaltSize,
    List.length_take_of_le (by rw [ByteArray.size_eq]; decide)⟩

theorem getCipherKeyFromPassword_eq (calculateHash : Bytes → Hash) (pwhash : Pwhash)
    (pswd : Bytes) : getCipherKeyFromPassword calculateHash pwhash pswd =
      .ok (keyOfHash (pwhash pswd (saltOf calculateHash pswd))) := by
  obtain ⟨copied, ran, bytes⟩ : ∃ copied,
      copyArray kPwhashSaltSize (calculateHash pswd).bytes 0 = .ok copied ∧ _ :=
    copyArray_ok (by rw [ByteArray.size_eq]; decide)
  have same : copied = saltOf calculateHash pswd := ByteArray.ext_bytes bytes
  rw [getCipherKeyFromPassword, ran, ok_bind, same]
  cases pwhash pswd (saltOf calculateHash pswd) <;> rfl

theorem made_locked {calculateHash : Bytes → Hash} {pwhash : Pwhash} {key : CipherKey}
    (made : (∃ random, generateCipherKey random = .ok key) ∨
      ∃ pswd, getCipherKeyFromPassword calculateHash pwhash pswd = .ok key ∧ key.mem ≠ none) :
    ∃ secret, key = .holding secret .noAccess := by
  rcases made with ⟨random, generated⟩ | ⟨pswd, hashed, nonempty⟩
  · cases generated
    exact ⟨random, rfl⟩
  · rw [getCipherKeyFromPassword_eq] at hashed
    cases derived : pwhash pswd (saltOf calculateHash pswd) with
    | none =>
        rw [derived] at hashed
        cases hashed
        exact absurd rfl nonempty
    | some secret =>
        rw [derived] at hashed
        cases hashed
        exact ⟨secret, rfl⟩

/-- A cipher key is locked with the bytes it was made with after every call of
every sequence, and no call finds it locked when it reads it: the only fault is
a loop that has not come to its end. -/
theorem cipher_key_stays_locked (ss : SecretStream) (box : SecretBox)
    (calculateHash : Bytes → Hash) (pwhash : Pwhash) (key : CipherKey)
    (made : (∃ random, generateCipherKey random = .ok key) ∨
      ∃ pswd, getCipherKeyFromPassword calculateHash pwhash pswd = .ok key ∧ key.mem ≠ none)
    (disk : Disk) (calls : List CipherCall) :
    ∃ secret, Always (cipherStep ss box) (fun state => state.key = .holding secret .noAccess)
        ⟨key, disk⟩ calls ∧
      ∀ fault, calls.foldlM (cipherStep ss box) ⟨key, disk⟩ = .error fault → fault = .outOfFuel := by
  obtain ⟨secret, rfl⟩ := made_locked made
  refine ⟨secret, always_of_invariant (fun _ _ _ => cipherStep_ok) rfl, ?_⟩
  intro fault failed
  exact foldlM_error (fun _ _ _ => cipherStep_ok) (fun _ _ _ => cipherStep_error) rfl failed

/-- Data that is not authentic, and files that cannot be opened. -/
theorem cipher_key_stays_locked_over_failures : ∃ secret,
    Always (cipherStep plainStream .transparent)
        (fun state => state.key = .holding secret .noAccess)
        ⟨.holding (.replicate _ 7) .noAccess, ⟨fun _ => none, 0, 0, fun _ => ⟨some 0, false, []⟩⟩⟩
        [.decryptData [] (List.replicate 50 0), .decryptFile 1 "target" "source" (.replicate _ 0)] ∧
      ∀ fault, [CipherCall.decryptData [] (List.replicate 50 0),
        .decryptFile 1 "target" "source" (.replicate _ 0)].foldlM
          (cipherStep plainStream .transparent)
          ⟨.holding (.replicate _ 7) .noAccess, ⟨fun _ => none, 0, 0, fun _ => ⟨some 0, false, []⟩⟩⟩ =
            .error fault → fault = .outOfFuel :=
  cipher_key_stays_locked plainStream .transparent (fun _ => .replicate _ 0) (fun _ _ => none) _
    (.inl ⟨.replicate _ 7, rfl⟩) _ _

end Cscrypto.Cipher
