import Cscrypto.Gui.KeyFiles

namespace Cscrypto.Gui

open Cscrypto.Base58 Cscrypto.Data Cscrypto.KeysDerivation

/-! # Key files read back

A pair that is dumped, clear or with a password, and the events that add it to
the list again.
-/

namespace KeyFilesRun

variable {lib : KeyFilesLib} {run next : KeyFilesRun}

/-- The events end with one file that is written. -/
def Writes (lib : KeyFilesLib) (run : KeyFilesRun) (events : List KeyFileEvent) (file : Bytes) :
    Prop :=
  ∃ dumped, events.foldlM (step lib) run = .ok dumped ∧
    dumped.history = run.history ++ [.dumped file]

/-- The file of the pair, with the bytes on its second line. -/
def fileOf (lib : KeyFilesLib) (secret : SecretKey) (bytes : Bytes) : Bytes :=
  fileText (lib.sign.skToPk secret).bytes bytes

/-- The row is selected and the dialog for writing it opened. -/
def dumping (run : KeyFilesRun) (row : Nat) : KeyFilesRun :=
  run.update fun widget => { widget with
    currentIndex := some row
    keysOperations := true
    encryptionPswdLineEdit := []
    encDialogs := widget.encDialogs + 1 }

variable {secret : SecretKey} {row : Nat} {pswd bytes : Bytes} {random : ByteArray kNpubBytes}
  {key : ByteArray kAeadKeySize}

theorem currentPair_dumping {keys : KeyPair} (listed : run.widget.keys[row]? = some keys) :
    (run.dumping row).currentPair = keys := by
  simp only [currentPair, dumping, update, KeyListModel.getKeyPair, Option.bind_some, listed,
    Option.getD_some]

theorem DumpKeysClear_current (pair : run.currentPair = matchingPair lib secret) :
    run.DumpKeysClear true =
      .ok ((run.toStatusBar "Keys have been saved to file. Private key unencrypted!").record
        (.dumped (fileOf lib secret secret.bytes))) := by
  rw [DumpKeysClear, if_neg (by decide), pair]
  rfl

theorem DumpKeysEncrypted_current (pair : run.currentPair = matchingPair lib secret)
    (long : kMinPswdSize ≤ run.widget.encryptionPswdLineEdit.length) :
    run.DumpKeysEncrypted lib true random =
      (PrivateKey.holding secret).getEncrypted lib.aead run.widget.encryptionPswdLineEdit random >>=
        fun encBytes => .ok ((run.toStatusBar
          "Keys have been saved to file. Private key encrypted.").record
            (.dumped (fileOf lib secret encBytes))) := by
  have filled : run.widget.encryptionPswdLineEdit ≠ [] := by
    intro empty
    rw [empty] at long
    contradiction
  rw [DumpKeysEncrypted, if_neg (Nat.not_lt_of_le long), if_neg (by decide), if_neg filled, pair]
  rfl

theorem step_dumpKeysClear {opened : Bool} (shown : run.widget.encDialogs ≠ 0) :
    step lib run (.dumpKeysClear opened) = run.closeEncDialog.DumpKeysClear opened :=
  if_neg shown

theorem step_dumpKeysEncrypted {opened : Bool} (shown : run.widget.encDialogs ≠ 0) :
    step lib run (.dumpKeysEncrypted opened random) =
      run.closeEncDialog.DumpKeysEncrypted lib opened random :=
  if_neg shown

theorem writes_clear (listed : run.widget.keys[row]? = some (matchingPair lib secret)) :
    Writes lib run [.clicked row, .dumpKeysToFile, .dumpKeysClear true]
      (fileOf lib secret secret.bytes) := by
  have shown : (run.dumping row).widget.encDialogs ≠ 0 := Nat.succ_ne_zero _
  have pair : (run.dumping row).closeEncDialog.currentPair = matchingPair lib secret :=
    currentPair_dumping listed
  have written := DumpKeysClear_current pair
  rw [← @step_dumpKeysClear lib _ _ shown] at written
  exact ⟨_, foldlM_cons_ok.mpr ⟨_, rfl, foldlM_cons_ok.mpr ⟨run.dumping row, rfl,
    foldlM_cons_ok.mpr ⟨_, written, rfl⟩⟩⟩, rfl⟩

/-- The last step of a dump with a password. -/
theorem dumps_encrypted (listed : run.widget.keys[row]? = some (matchingPair lib secret))
    (long : kMinPswdSize ≤ pswd.length) :
    step lib ((run.dumping row).typed pswd) (.dumpKeysEncrypted true random) =
      (PrivateKey.holding secret).getEncrypted lib.aead pswd random >>= fun encBytes =>
        .ok ((((run.dumping row).typed pswd).closeEncDialog.toStatusBar
          "Keys have been saved to file. Private key encrypted.").record
            (.dumped (fileOf lib secret encBytes))) := by
  have shown : ((run.dumping row).typed pswd).widget.encDialogs ≠ 0 := Nat.succ_ne_zero _
  have pair : ((run.dumping row).typed pswd).closeEncDialog.currentPair =
      matchingPair lib secret := currentPair_dumping listed
  exact (step_dumpKeysEncrypted shown).trans (DumpKeysEncrypted_current pair long)

theorem writes_encrypted {c : ByteArray (secret.bytes.length + kAeadABytes)}
    (listed : run.widget.keys[row]? = some (matchingPair lib secret))
    (long : kMinPswdSize ≤ pswd.length) (hashed : lib.aead.pwhash pswd salt = some key)
    (encrypted : lib.aead.encrypt key random secret.bytes = some c) :
    Writes lib run
      [.clicked row, .dumpKeysToFile, .typePassword pswd, .dumpKeysEncrypted true random]
      (fileOf lib secret (random.bytes ++ c.bytes)) := by
  have written := @dumps_encrypted lib run secret row pswd random listed long
  rw [PrivateKey.getEncrypted_holding hashed encrypted, ok_bind] at written
  exact ⟨_, foldlM_cons_ok.mpr ⟨_, rfl, foldlM_cons_ok.mpr ⟨run.dumping row, rfl,
    foldlM_cons_ok.mpr ⟨_, rfl, foldlM_cons_ok.mpr ⟨_, written, rfl⟩⟩⟩⟩, rfl⟩

/-- Without a hash of the password no file is written. -/
theorem writes_nothing (random : ByteArray kNpubBytes)
    (listed : run.widget.keys[row]? = some (matchingPair lib secret))
    (long : kMinPswdSize ≤ pswd.length) (failed : lib.aead.pwhash pswd salt = none) :
    ∃ fault, [.clicked row, .dumpKeysToFile, .typePassword pswd,
      .dumpKeysEncrypted true random].foldlM (step lib) run = .error fault := by
  have refused := @dumps_encrypted lib run secret row pswd random listed long
  obtain ⟨fault, unhashed⟩ := PrivateKey.getEncrypted_unhashed (.holding secret) random failed
  rw [unhashed, error_bind] at refused
  refine ⟨fault, ?_⟩
  show step lib ((run.dumping row).typed pswd) (.dumpKeysEncrypted true random) >>= _ = _
  rw [refused, error_bind]

/-- Whatever was before, the events add the pair. -/
def Reads (lib : KeyFilesLib) (events : List KeyFileEvent) (keys : KeyPair)
    (entries : List KeyFileEntry) : Prop :=
  ∀ run : KeyFilesRun, ∃ last, events.foldlM (step lib) run = .ok last ∧
    last.widget.keys = run.widget.keys ++ [keys] ∧ last.history = run.history ++ entries

theorem loadKeysFromFile_clear (lib : KeyFilesLib) (run : KeyFilesRun) (secret : SecretKey) :
    run.loadKeysFromFile lib (some (fileOf lib secret secret.bytes)) =
      .ok ((run.addKeyPair (matchingPair lib secret)
        (.loaded (fileOf lib secret secret.bytes) (matchingPair lib secret))).toStatusBar
          "Loaded keys are correct. Added to your key list.") := by
  simp only [loadKeysFromFile, fileOf, publicLine_fileText, privateLine_fileText,
    DecodeBase58_EncodeBase58]
  rw [if_neg secret.size_eq.ge.not_gt, if_pos secret.size_eq, readFromBytes, dif_pos secret.size_eq,
    getMatchingPublic, PrivateKey.access_holding, ok_bind, pure_eq_ok, ok_bind,
    if_neg (not_not_intro rfl)]
  rfl

theorem loadKeysFromFile_encrypted (lib : KeyFilesLib) (run : KeyFilesRun) (secret : SecretKey)
    (long : kPrivateKeySize < bytes.length) :
    run.loadKeysFromFile lib (some (fileOf lib secret bytes)) =
      .ok (run.askPassword (fileOf lib secret bytes)
        (EncodeBase58 (lib.sign.skToPk secret).bytes) bytes) := by
  simp only [loadKeysFromFile, fileOf, publicLine_fileText, privateLine_fileText,
    DecodeBase58_EncodeBase58]
  rw [if_neg long.le.not_gt, if_neg long.ne']

theorem reads_clear (lib : KeyFilesLib) (secret : SecretKey) :
    Reads lib [.loadKeysFromFile (some (fileOf lib secret secret.bytes))] (matchingPair lib secret)
      [.loaded (fileOf lib secret secret.bytes) (matchingPair lib secret)] :=
  fun run => ⟨_, foldlM_cons_ok.mpr ⟨_, loadKeysFromFile_clear lib run secret, rfl⟩, rfl, rfl⟩

/-- The password that the key was encrypted with adds the pair. -/
theorem decryptKeys_current (hashed : lib.aead.pwhash pswd salt = some key)
    (found : Heap.decryptedKey lib.aead bytes pswd = some secret)
    (filled : run.widget.encryptionPswdLineEdit = pswd) (nonempty : pswd ≠ [])
    (global : run.widget.keysToDecrypt = (EncodeBase58 (lib.sign.skToPk secret).bytes, bytes)) :
    run.decryptKeys lib = .ok ((run.addKeyPair (matchingPair lib secret)
      (.decrypted (matchingPair lib secret))).toStatusBar "Keys loaded successfully.") := by
  have size := Heap.length_of_decryptedKey found
  rw [decryptKeys, filled, if_neg nonempty, global,
    PrivateKey.readFromEncrypted_fitting hashed size, found, ok_bind, if_neg (by simp),
    getMatchingPublic, PrivateKey.access, ok_bind, pure_eq_ok, ok_bind, if_neg (not_not_intro rfl)]
  rfl

theorem step_decryptKeys (shown : run.widget.decryptDialogs ≠ 0) :
    step lib run .decryptKeys = run.closeDecryptDialog.decryptKeys lib :=
  if_neg shown

theorem reads_encrypted (hashed : lib.aead.pwhash pswd salt = some key)
    (found : Heap.decryptedKey lib.aead bytes pswd = some secret) (nonempty : pswd ≠ []) :
    Reads lib [.loadKeysFromFile (some (fileOf lib secret bytes)), .typePassword pswd, .decryptKeys]
      (matchingPair lib secret)
      [.asked (fileOf lib secret bytes), .decrypted (matchingPair lib secret)] := by
  intro run
  have long : kPrivateKeySize < bytes.length := by
    rw [Heap.length_of_decryptedKey found]
    decide
  have loaded := loadKeysFromFile_encrypted lib run secret long
  generalize asked : run.askPassword (fileOf lib secret bytes)
    (EncodeBase58 (lib.sign.skToPk secret).bytes) bytes = reached at loaded
  have shown : (reached.typed pswd).widget.decryptDialogs ≠ 0 := by
    rw [← asked]
    exact Nat.succ_ne_zero _
  have decrypted := @decryptKeys_current lib (reached.typed pswd).closeDecryptDialog secret pswd
    bytes key hashed found rfl nonempty (by rw [← asked]; rfl)
  rw [← step_decryptKeys shown] at decrypted
  refine ⟨_, foldlM_cons_ok.mpr ⟨_, loaded, foldlM_cons_ok.mpr ⟨_, rfl,
    foldlM_cons_ok.mpr ⟨_, decrypted, rfl⟩⟩⟩, ?_, ?_⟩
  · rw [← asked]
    rfl
  · rw [← asked]
    exact List.append_assoc _ _ _

/-- A file that was written adds its pair when it is read, and no file adds a
pair with a public key of another private key. -/
theorem key_files_exact (delivers : lib.aead.Delivers) :
    (∀ (run : KeyFilesRun) row secret, run.widget.keys[row]? = some (matchingPair lib secret) →
      (∃ file, Writes lib run [.clicked row, .dumpKeysToFile, .dumpKeysClear true] file ∧
        Reads lib [.loadKeysFromFile (some file)] (matchingPair lib secret)
          [.loaded file (matchingPair lib secret)]) ∧
      ∀ (pswd : Bytes) random, kMinPswdSize ≤ pswd.length →
        (lib.aead.pwhash pswd salt = none ∧ ∃ fault, [.clicked row, .dumpKeysToFile,
          .typePassword pswd, .dumpKeysEncrypted true random].foldlM (step lib) run =
            .error fault) ∨
        ∃ file, Writes lib run
            [.clicked row, .dumpKeysToFile, .typePassword pswd, .dumpKeysEncrypted true random]
            file ∧
          Reads lib [.loadKeysFromFile (some file), .typePassword pswd, .decryptKeys]
            (matchingPair lib secret) [.asked file, .decrypted (matchingPair lib secret)]) ∧
    ∀ (events : List KeyFileEvent) last, events.foldlM (step lib) .initial = .ok last →
      Explained (Accounted lib) last.history ∧
        last.widget.keys = last.history.filterMap pairOf := by
  refine ⟨?_, ?_⟩
  · intro run row secret listed
    refine ⟨⟨_, writes_clear listed, reads_clear lib secret⟩, ?_⟩
    intro pswd random long
    cases hashed : lib.aead.pwhash pswd salt with
    | none => exact .inl ⟨rfl, writes_nothing random listed long hashed⟩
    | some key =>
        obtain ⟨c, encrypted⟩ := delivers.encrypts key random secret.bytes
        have found := Heap.decryptedKey_of_opens hashed
          (delivers.opens key random secret.bytes c encrypted)
        have nonempty : pswd ≠ [] := by
          intro empty
          rw [empty] at long
          contradiction
        exact .inr ⟨_, writes_encrypted listed long hashed encrypted,
          reads_encrypted hashed found nonempty⟩
  · intro events last ran
    have tracked : Tracked lib last := foldlM_preserves
      (fun _ _ _ held stepped => step_tracked held stepped) (tracked_initial lib) ran
    exact ⟨tracked.accounted, tracked.listed⟩

/-- One key, dumped and loaded with one password. -/
theorem key_files_exact_transparent :
    let lib : KeyFilesLib := ⟨.transparent, .transparent⟩
    let keys := matchingPair lib (.replicate _ 7)
    ∃ file, Writes lib (initial.addKeyPair keys (.other keys))
        [.clicked 0, .dumpKeysToFile, .typePassword (ascii "password"),
          .dumpKeysEncrypted true (.replicate _ 1)] file ∧
      Reads lib [.loadKeysFromFile (some file), .typePassword (ascii "password"), .decryptKeys] keys
        [.asked file, .decrypted keys] := by
  intro lib keys
  have exact := (@key_files_exact lib Aead.transparent_delivers).1
    (initial.addKeyPair keys (.other keys)) 0 (.replicate _ 7) rfl
  rcases exact.2 (ascii "password") (.replicate _ 1) (by decide) with ⟨failed, _⟩ | written
  · contradiction
  · exact written

end KeyFilesRun

end Cscrypto.Gui
