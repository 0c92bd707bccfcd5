import Cscrypto.Cipher.FailedHash
import Cscrypto.Gui.KeyListModel

namespace Cscrypto.Gui

open Cscrypto.Base58 Cscrypto.Cipher Cscrypto.Data

/-! # Encrypting files in the window

`CipherWidget::start` makes a cipher key from the password or takes one of the
list, and passes it to the file functions without looking at it.
-/

/-- What `start` reads of the widget, and the status bar. A combo box is given
by its current text. -/
structure CipherWidget where
  useKeysCheckBox : CheckState
  pswdLineEdit : Bytes
  encryptionMode : Bool
  decryptionMode : Bool
  encKeysComboBox : Bytes
  decKeysComboBox : Bytes
  targetFileLbl : Path
  sourceFileLbl : Path
  statusBar : String

/-- What the widget uses that is not part of the repository: the hashes, the
stream with its random header and uninitialised buffer, and the iterations
that a file is given. -/
structure CipherLib where
  calculateHash : Bytes → Hash
  pwhash : Pwhash
  ss : SecretStream
  header : Header
  stack : Header
  fuel : Nat

namespace CipherWidget

variable (lib : CipherLib) (widget : CipherWidget) (disk : Disk)

def toStatusBar (message : String) : CipherWidget := { widget with statusBar := message }

/-- `std::copy` of the decoded key to the start of the new block. -/
def copyKey (keyBytes : Bytes) : Except Fault CipherKey := do
  let cipherKey := MemGuard.new kCipherKeySize
  let content ← cipherKey.read
  if fits : keyBytes.length ≤ kCipherKeySize then
    cipherKey.write ⟨keyBytes ++ content.bytes.drop keyBytes.length, by
      rw [List.length_append, List.length_drop, content.size_eq]
      omega⟩
  else .error .outOfBounds

def encryptFile (cipherKey : CipherKey) : Except Fault (Bool × CipherKey × Disk) :=
  if widget.encryptionMode then
    Cipher.encryptFile lib.ss lib.fuel widget.targetFileLbl widget.sourceFileLbl cipherKey
      lib.header disk
  else .ok (false, cipherKey, disk)

def decryptFile (cipherKey : CipherKey) : Except Fault (Bool × CipherKey × Disk) :=
  if widget.decryptionMode then do
    let result ← Cipher.decryptFile lib.ss lib.fuel widget.targetFileLbl widget.sourceFileLbl
      cipherKey lib.stack disk
    return (result.accepted, result.key, result.disk)
  else .ok (false, cipherKey, disk)

/-- The end of `start`, when the key is there. -/
def process (cipherKey : CipherKey) : Except Fault (CipherWidget × Disk) := do
  let (encrypted, cipherKey, disk) ← widget.encryptFile lib disk cipherKey
  if encrypted then return (widget.toStatusBar "Source file successfully encrypted.", disk)
  else
    let (decrypted, _, disk) ← widget.decryptFile lib disk cipherKey
    if decrypted then return (widget.toStatusBar "Source file successfully decrypted.", disk)
    else return (widget.toStatusBar "Unsuccessfull operation!", disk)

def start : Except Fault (CipherWidget × Disk) :=
  if widget.useKeysCheckBox = .unchecked then
    let pswd := widget.pswdLineEdit
    if pswd = [] then
      .ok (widget.toStatusBar "Password empty! Fill it to encrypt / decrypt.", disk)
    else if pswd.length < kMinPswdSize then
      .ok (widget.toStatusBar "Password is too short!", disk)
    else do
      let cipherKey ← getCipherKeyFromPassword lib.calculateHash lib.pwhash pswd
      widget.process lib disk cipherKey
  else
    let b58Key := if widget.encryptionMode then widget.encKeysComboBox else widget.decKeysComboBox
    match DecodeBase58 b58Key with
    | none => .ok (widget.toStatusBar "Invalid keys!", disk)
    | some keyBytes => do
        let cipherKey ← copyKey keyBytes
        widget.process lib disk cipherKey

variable {lib widget disk}

/-- Neither file function gets as far as the key. -/
def FilesUnopened (widget : CipherWidget) (disk : Disk) : Prop :=
  (widget.encryptionMode = true → ¬(disk.SourceOpens widget.sourceFileLbl ∧ disk.TargetOpens)) ∧
    (widget.decryptionMode = true →
      ¬((if widget.encryptionMode then disk.opening widget.targetFileLbl widget.sourceFileLbl
          else disk).SourceOpens widget.sourceFileLbl ∧
        (if widget.encryptionMode then disk.opening widget.targetFileLbl widget.sourceFileLbl
          else disk).TargetOpens))

theorem encryptFile_null_iff : (widget.encryptFile lib disk ⟨none⟩ = .error .misuse ↔
      widget.encryptionMode = true ∧
        disk.SourceOpens widget.sourceFileLbl ∧ disk.TargetOpens) ∧
    (widget.encryptFile lib disk ⟨none⟩ ≠ .error .misuse →
      widget.encryptFile lib disk ⟨none⟩ = .ok (false, ⟨none⟩,
        if widget.encryptionMode then disk.opening widget.targetFileLbl widget.sourceFileLbl
          else disk)) := by
  rw [encryptFile]
  cases widget.encryptionMode with
  | false => simp
  | true =>
      by_cases opens : disk.SourceOpens widget.sourceFileLbl ∧ disk.TargetOpens
      · simp [encryptFile_null lib.ss lib.fuel lib.header opens, opens]
      · simp [encryptFile_unopened lib.ss lib.fuel _ lib.header opens, opens]

theorem decryptFile_null_iff : (widget.decryptFile lib disk ⟨none⟩ = .error .misuse ↔
      widget.decryptionMode = true ∧
        disk.SourceOpens widget.sourceFileLbl ∧ disk.TargetOpens) ∧
    (widget.decryptFile lib disk ⟨none⟩ ≠ .error .misuse →
      ∃ disk', widget.decryptFile lib disk ⟨none⟩ = .ok (false, ⟨none⟩, disk')) := by
  rw [decryptFile]
  cases widget.decryptionMode with
  | false => simp
  | true =>
      by_cases opens : disk.SourceOpens widget.sourceFileLbl ∧ disk.TargetOpens
      · simp [decryptFile_null lib.ss lib.fuel lib.stack opens, opens]
      · simp [decryptFile_unopened lib.ss lib.fuel _ lib.stack opens, opens]

theorem process_null_iff :
    widget.process lib disk ⟨none⟩ ≠ .error .misuse ↔ widget.FilesUnopened disk := by
  obtain ⟨encrypts, returns⟩ := @encryptFile_null_iff lib widget disk
  by_cases aborts : widget.encryptFile lib disk ⟨none⟩ = .error .misuse
  · obtain ⟨mode, opens⟩ := encrypts.mp aborts
    rw [process, aborts]
    exact iff_of_false (fun same => same rfl) (fun given => given.1 mode opens)
  · have unopened : widget.encryptionMode = true →
        ¬(disk.SourceOpens widget.sourceFileLbl ∧ disk.TargetOpens) :=
      fun mode opens => aborts (encrypts.mpr ⟨mode, opens⟩)
    rw [process, returns aborts, FilesUnopened, and_iff_right unopened]
    simp only [ok_bind, Bool.false_eq_true, if_false]
    obtain ⟨decrypts, ends⟩ := @decryptFile_null_iff lib widget
      (if widget.encryptionMode then disk.opening widget.targetFileLbl widget.sourceFileLbl
        else disk)
    rw [← not_and, ← decrypts]
    by_cases stops : widget.decryptFile lib (if widget.encryptionMode then
        disk.opening widget.targetFileLbl widget.sourceFileLbl else disk) ⟨none⟩ = .error .misuse
    · rw [stops]
      exact iff_of_false (fun same => same rfl) (fun same => same rfl)
    · obtain ⟨disk', ran⟩ := ends stops
      rw [ran]
      exact iff_of_true (by simp) (by simp)

theorem encryptFile_keeps (lib : CipherLib) (widget : CipherWidget) (disk : Disk)
    (secret : StreamKey) (protection : Protection) :
    KeepsKey secret ((widget.encryptFile lib disk (.holding secret protection)).map
      fun result => result.2.1) := by
  rw [encryptFile]
  split
  · exact Cipher.encryptFile_keeps _ _ _ _ _ _ _ _
  · exact .kept _

theorem decryptFile_keeps (lib : CipherLib) (widget : CipherWidget) (disk : Disk)
    (secret : StreamKey) (protection : Protection) :
    KeepsKey secret ((widget.decryptFile lib disk (.holding secret protection)).map
      fun result => result.2.1) := by
  rw [decryptFile]
  split
  · have keeps := Cipher.decryptFile_keeps lib.ss lib.fuel widget.targetFileLbl
      widget.sourceFileLbl secret protection lib.stack disk
    cases ran : Cipher.decryptFile lib.ss lib.fuel widget.targetFileLbl widget.sourceFileLbl
        (.holding secret protection) lib.stack disk with
    | error fault =>
        rw [ran] at keeps
        exact keeps
    | ok result =>
        rw [ran] at keeps
        exact keeps
  · exact .kept _

theorem process_holding (secret : StreamKey) (protection : Protection) :
    widget.process lib disk (.holding secret protection) ≠ .error .misuse := by
  have encrypts := encryptFile_keeps lib widget disk secret protection
  rw [process]
  cases encrypted : widget.encryptFile lib disk (.holding secret protection) with
  | error fault =>
      rw [encrypted] at encrypts
      have fails := encrypts.fault
      simpa using fails
  | ok result =>
      rw [encrypted] at encrypts
      obtain ⟨accepted, key, disk'⟩ := result
      obtain ⟨protection', rfl⟩ := encrypts.holds
      cases accepted with
      | true => simp
      | false =>
          have decrypts := decryptFile_keeps lib widget disk' secret protection'
          simp only [ok_bind, Bool.false_eq_true, if_false]
          cases decrypted : widget.decryptFile lib disk' (.holding secret protection') with
          | error fault =>
              rw [decrypted] at decrypts
              have fails := decrypts.fault
              simpa using fails
          | ok result =>
              obtain ⟨_ | _, key, disk''⟩ := result <;> simp

theorem copyKey_cases (keyBytes : Bytes) : copyKey keyBytes = .error .outOfBounds ∨
    ∃ secret, copyKey keyBytes = .ok (.holding secret .readWrite) := by
  simp only [copyKey, MemGuard.new_eq_holding, MemGuard.read_readWrite, ok_bind]
  split
  · exact .inr ⟨_, rfl⟩
  · exact .inl rfl

/-- The window derives the key from a password. -/
def HashesPassword (widget : CipherWidget) : Prop :=
  widget.useKeysCheckBox = .unchecked ∧ kMinPswdSize ≤ widget.pswdLineEdit.length

theorem start_iff : widget.start lib disk ≠ .error .misuse ↔ ¬widget.HashesPassword ∨
    (lib.pwhash widget.pswdLineEdit (saltOf lib.calculateHash widget.pswdLineEdit)).isSome ∨
      widget.FilesUnopened disk := by
  rw [start]
  by_cases unchecked : widget.useKeysCheckBox = .unchecked
  · simp only [unchecked, HashesPassword, true_and, if_true]
    by_cases short : widget.pswdLineEdit.length < kMinPswdSize
    · refine iff_of_true ?_ (.inl (Nat.not_le_of_lt short))
      by_cases empty : widget.pswdLineEdit = []
      · rw [if_pos empty]
        simp
      · rw [if_neg empty, if_pos short]
        simp
    · have nonempty : widget.pswdLineEdit ≠ [] := by
        intro empty
        rw [empty] at short
        exact short (by decide)
      rw [if_neg nonempty, if_neg short, getCipherKeyFromPassword_eq, ok_bind,
        or_iff_right (not_not_intro (Nat.le_of_not_lt short))]
      cases lib.pwhash widget.pswdLineEdit (saltOf lib.calculateHash widget.pswdLineEdit) with
      | none =>
          simp only [keyOfHash, Option.isSome_none, Bool.false_eq_true, false_or]
          exact process_null_iff
      | some secret => exact iff_of_true (process_holding secret _) (.inl rfl)
  · refine iff_of_true ?_ (.inl fun hashes => unchecked hashes.1)
    simp only [if_neg unchecked]
    cases DecodeBase58 (if widget.encryptionMode then widget.encKeysComboBox
        else widget.decKeysComboBox) with
    | none => simp
    | some keyBytes =>
        dsimp only
        rcases copyKey_cases keyBytes with failed | ⟨secret, copied⟩
        · rw [failed]
          simp
        · rw [copied, ok_bind]
          exact process_holding secret _

/-- A password hash that failed is reported, and no null block is used, exactly
if the hash succeeds or no call gets as far as the key. -/
theorem failed_hash_reported_iff (aead : Aead) (lib : CipherLib) (box : SecretBox)
    (passwd : Bytes) :
    (∀ (heap : Heap) (own : Handle) (random : ByteArray kNpubBytes),
      heap.WriteReportsHash aead own passwd random ↔ (aead.pwhash passwd salt).isSome) ∧
    (∀ (heap : Heap) (bytes : Bytes), heap.ReadReportsHash aead bytes passwd ↔
      bytes.length < kNpubBytes ∨ (aead.pwhash passwd salt).isSome) ∧
    (∀ (calls : List CipherCall) (disk : Disk),
      (do calls.foldlM (cipherStep lib.ss box)
            ⟨← getCipherKeyFromPassword lib.calculateHash lib.pwhash passwd, disk⟩) ≠
          .error .misuse ↔
        (lib.pwhash passwd (saltOf lib.calculateHash passwd)).isSome ∨
          EveryStep (cipherStep lib.ss box) (fun state call => ¬UsesKey state call) ⟨⟨none⟩, disk⟩
            calls) ∧
    ∀ (widget : CipherWidget) (disk : Disk),
      widget.start lib disk ≠ .error .misuse ↔ ¬widget.HashesPassword ∨
        (lib.pwhash widget.pswdLineEdit (saltOf lib.calculateHash widget.pswdLineEdit)).isSome ∨
          widget.FilesUnopened disk := by
  refine ⟨?_, ?_, ?_, ?_⟩
  · exact fun heap own random => Heap.writeReportsHash_iff aead heap own passwd random
  · exact fun heap bytes => Heap.readReportsHash_iff aead heap bytes passwd
  · exact run_hashed_iff lib.ss box lib.calculateHash lib.pwhash passwd
  · exact fun widget disk => start_iff

/-- A hash that fails for every password, on a machine that is short of
memory. -/
theorem failed_hash_passes_null :
    ¬(Heap.empty.created (.replicate _ 7)).WriteReportsHash
        { Aead.transparent with pwhash := fun _ _ => none } ⟨some 0, 0⟩ (ascii "password")
        (.replicate _ 1) ∧
      (do encryptData .transparent (.replicate _ 1) []
            (← getCipherKeyFromPassword (fun _ => .replicate _ 0) (fun _ _ => none)
              (ascii "password"))) = .error .misuse := by
  refine ⟨?_, rfl⟩
  intro reports
  obtain ⟨next, ran⟩ := reports rfl
  contradiction

end CipherWidget

end Cscrypto.Gui
