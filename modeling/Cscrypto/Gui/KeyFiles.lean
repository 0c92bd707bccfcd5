import Cscrypto.Data.History
import Cscrypto.Data.Run
import Cscrypto.Gui.KeyListModel
import Cscrypto.Memory.KeyValues

namespace Cscrypto.Gui

open Cscrypto.Base58 Cscrypto.Data Cscrypto.KeysDerivation

/-! # Key files

Writing a key pair of the list to a file and reading it back.  The second line
of a file is the private key, clear or encrypted; an encrypted one is kept in a
global until the password is typed.
-/

/-- `QTextStream::readLine`, and what is left. The end of the line, a line feed
or a carriage return and a line feed, is dropped. -/
def readLine (text : Bytes) : Bytes × Bytes :=
  let line := text.takeWhile (· ≠ 10)
  (if line.getLast? = some 13 then line.dropLast else line, (text.dropWhile (· ≠ 10)).drop 1)

/-- The two lines that are read of a key file. -/
def publicLine (file : Bytes) : Bytes := (readLine file).1

def privateLine (file : Bytes) : Bytes := (readLine (readLine file).2).1

/-- The list of keys, the members of `KeyGenWidget` that are used with key
files, and the global `keysToDecrypt`. `keysOperations` tells whether a key can
be dumped; the dialogs are not modal, and are counted. -/
structure KeyFilesWidget where
  keys : List KeyPair
  currentIndex : Option Nat
  keysOperations : Bool
  encryptionPswdLineEdit : Bytes
  encDialogs : Nat
  decryptDialogs : Nat
  keysToDecrypt : Bytes × Bytes
  statusBar : String

/-- What happens with key files. `other` is a key pair that another slot adds. -/
inductive KeyFileEntry where
  | other (keys : KeyPair)
  | dumped (file : Bytes)
  | loaded (file : Bytes) (keys : KeyPair)
  | asked (file : Bytes)
  | decrypted (keys : KeyPair)

structure KeyFilesRun where
  widget : KeyFilesWidget
  history : List KeyFileEntry

structure KeyFilesLib where
  sign : SignKeys
  aead : Aead

/-- A file is given by its text, `none` when none was opened. -/
inductive KeyFileEvent where
  | clicked (row : Nat)
  | addKeyPair (keys : KeyPair)
  | typePassword (text : Bytes)
  | dumpKeysToFile
  | dumpKeysEncrypted (opened : Bool) (random : ByteArray kNpubBytes)
  | dumpKeysClear (opened : Bool)
  | loadKeysFromFile (file : Option Bytes)
  | closeDecryptDialog
  | decryptKeys

namespace KeyFilesRun

def initial : KeyFilesRun where
  widget := ⟨[], none, false, [], 0, 0, ([], []), ""⟩
  history := []

def update (run : KeyFilesRun) (change : KeyFilesWidget → KeyFilesWidget) : KeyFilesRun :=
  { run with widget := change run.widget }

def toStatusBar (run : KeyFilesRun) (message : String) : KeyFilesRun :=
  run.update ({ · with statusBar := message })

def record (run : KeyFilesRun) (entry : KeyFileEntry) : KeyFilesRun :=
  { run with history := run.history ++ [entry] }

/-- `keysModel_->addKeyPair(keys)`, with its entry in the history. -/
def addKeyPair (run : KeyFilesRun) (keys : KeyPair) (entry : KeyFileEntry) : KeyFilesRun :=
  (run.update fun widget => { widget with keys := widget.keys ++ [keys] }).record entry

def currentPair (run : KeyFilesRun) : KeyPair :=
  KeyListModel.getKeyPair run.widget.keys run.widget.currentIndex

/-- The two lines of a key file, the second one without an end. -/
def fileText (publicKey privateKey : Bytes) : Bytes :=
  EncodeBase58 publicKey ++ 10 :: EncodeBase58 privateKey

def DumpKeysEncrypted (lib : KeyFilesLib) (run : KeyFilesRun) (opened : Bool)
    (random : ByteArray kNpubBytes) : Except Fault KeyFilesRun :=
  let pswd := run.widget.encryptionPswdLineEdit
  if pswd.length < kMinPswdSize then
    .ok (run.toStatusBar "Password is too short! Try another one.")
  else if !opened then .ok (run.toStatusBar "File to dump keys was not opened!")
  else
    let keyPair := run.currentPair
    if pswd = [] then do
      let sk ← keyPair.2.access
      return (run.toStatusBar
        "Keys have been saved to file. Password empty! Private key unencrypted!").record
          (.dumped (fileText keyPair.1.bytes sk.bytes))
    else do
      let encBytes ← keyPair.2.getEncrypted lib.aead pswd random
      return (run.toStatusBar "Keys have been saved to file. Private key encrypted.").record
        (.dumped (fileText keyPair.1.bytes encBytes))

def DumpKeysClear (run : KeyFilesRun) (opened : Bool) : Except Fault KeyFilesRun :=
  if !opened then .ok (run.toStatusBar "File to dump keys was not opened!")
  else do
    let keyPair := run.currentPair
    let sk ← keyPair.2.access
    return (run.toStatusBar "Keys have been saved to file. Private key unencrypted!").record
      (.dumped (fileText keyPair.1.bytes sk.bytes))

/-- The dialog for the password of an encrypted key. -/
def askPassword (run : KeyFilesRun) (file publicKey privBytes : Bytes) : KeyFilesRun :=
  (run.update fun widget => { widget with
    encryptionPswdLineEdit := []
    decryptDialogs := widget.decryptDialogs + 1
    keysToDecrypt := (publicKey, privBytes) }).record (.asked file)

/-- A private key of the right size is compared at once. A longer one is taken
for an encrypted one, and the password is asked for. -/
def loadKeysFromFile (lib : KeyFilesLib) (run : KeyFilesRun) :
    Option Bytes → Except Fault KeyFilesRun
  | none => .ok (run.toStatusBar "File to load keys from was not opened!")
  | some file =>
      match DecodeBase58 (publicLine file), DecodeBase58 (privateLine file) with
      | some pubBytes, some privBytes =>
          if privBytes.length < kPrivateKeySize then .ok (run.toStatusBar "Invalid keys!")
          else if privBytes.length = kPrivateKeySize then do
            let second := readFromBytes privBytes
            let first ← getMatchingPublic lib.sign second
            if pubBytes ≠ first.bytes then return run.toStatusBar "Invalid keys!"
            else
              return (run.addKeyPair (first, second) (.loaded file (first, second))).toStatusBar
                "Loaded keys are correct. Added to your key list."
          else .ok (run.askPassword file (publicLine file) privBytes)
      | _, _ => .ok (run.toStatusBar "Invalid keys!")

/-- The text of the public key is compared as it was read. -/
def decryptKeys (lib : KeyFilesLib) (run : KeyFilesRun) : Except Fault KeyFilesRun :=
  let pswd := run.widget.encryptionPswdLineEdit
  if pswd = [] then .ok (run.toStatusBar "Password is empty!")
  else do
    let second ← PrivateKey.readFromEncrypted lib.aead run.widget.keysToDecrypt.2 pswd
    if second.mem = none then return run.toStatusBar "Wrong password or corrupted file!"
    else
      let first ← getMatchingPublic lib.sign second
      if run.widget.keysToDecrypt.1 ≠ EncodeBase58 first.bytes then
        return run.toStatusBar "Incorrect key pair!"
      else
        return (run.addKeyPair (first, second) (.decrypted (first, second))).toStatusBar
          "Keys loaded successfully."

/-- The password is typed into whatever dialog has the line edit. -/
def typed (run : KeyFilesRun) (text : Bytes) : KeyFilesRun :=
  run.update ({ · with encryptionPswdLineEdit := text })

def closeEncDialog (run : KeyFilesRun) : KeyFilesRun :=
  run.update fun widget => { widget with encDialogs := widget.encDialogs - 1 }

def closeDecryptDialog (run : KeyFilesRun) : KeyFilesRun :=
  run.update fun widget => { widget with decryptDialogs := widget.decryptDialogs - 1 }

/-- The slots of a dialog are reached once, while it is open. -/
def step (lib : KeyFilesLib) (run : KeyFilesRun) : KeyFileEvent → Except Fault KeyFilesRun
  | .clicked row =>
      .ok (run.update ({ · with currentIndex := some row, keysOperations := true }))
  | .addKeyPair keys => .ok (run.addKeyPair keys (.other keys))
  | .typePassword text => .ok (run.typed text)
  | .dumpKeysToFile =>
      if run.widget.keysOperations then .ok (run.update fun widget => { widget with
        encryptionPswdLineEdit := []
        encDialogs := widget.encDialogs + 1 })
      else .ok run
  | .dumpKeysEncrypted opened random =>
      if run.widget.encDialogs = 0 then .ok run
      else run.closeEncDialog.DumpKeysEncrypted lib opened random
  | .dumpKeysClear opened =>
      if run.widget.encDialogs = 0 then .ok run
      else run.closeEncDialog.DumpKeysClear opened
  | .loadKeysFromFile file => run.loadKeysFromFile lib file
  | .closeDecryptDialog => .ok run.closeDecryptDialog
  | .decryptKeys =>
      if run.widget.decryptDialogs = 0 then .ok run
      else run.closeDecryptDialog.decryptKeys lib

theorem EncodeBase58_line (bytes : Bytes) :
    ∀ character ∈ EncodeBase58 bytes, character ≠ 10 ∧ character ≠ 13 := by
  intro character member
  obtain ⟨letter, _⟩ := EncodeBase58_plain bytes character member
  have ends : Base58.isspace 10 = true ∧ Base58.isspace 13 = true := by decide
  refine ⟨?_, ?_⟩
  · intro same
    rw [same, ends.1] at letter
    contradiction
  · intro same
    rw [same, ends.2] at letter
    contradiction

theorem kept_line {line : Bytes} (kept : ∀ character ∈ line, character ≠ 10 ∧ character ≠ 13) :
    line.getLast? ≠ some 13 := by
  intro last
  exact (kept 13 (List.mem_of_getLast? last)).2 rfl

theorem readLine_append {line : Bytes}
    (kept : ∀ character ∈ line, character ≠ 10 ∧ character ≠ 13) (rest : Bytes) :
    readLine (line ++ 10 :: rest) = (line, rest) := by
  have inside : ∀ character ∈ line, decide (character ≠ 10) = true :=
    fun character member => decide_eq_true (kept character member).1
  have stops : decide ((10 : Byte) ≠ 10) = false := rfl
  simp only [readLine, List.takeWhile_append_of_pos inside, List.dropWhile_append_of_pos inside,
    List.takeWhile_cons, List.dropWhile_cons, stops, Bool.false_eq_true, if_false, List.append_nil,
    if_neg (kept_line kept), List.drop_succ_cons, List.drop_zero]

theorem readLine_last {line : Bytes}
    (kept : ∀ character ∈ line, character ≠ 10 ∧ character ≠ 13) : readLine line = (line, []) := by
  have inside : ∀ character ∈ line, decide (character ≠ 10) = true :=
    fun character member => decide_eq_true (kept character member).1
  have all : line.takeWhile (· ≠ 10) = line := List.takeWhile_eq_self_iff.mpr inside
  have none_left : line.dropWhile (· ≠ 10) = [] := List.dropWhile_eq_nil_iff.mpr inside
  simp only [readLine, all, none_left, if_neg (kept_line kept), List.drop_nil]

theorem publicLine_fileText (publicKey privateKey : Bytes) :
    publicLine (fileText publicKey privateKey) = EncodeBase58 publicKey := by
  rw [publicLine, fileText, readLine_append (EncodeBase58_line publicKey)]

theorem privateLine_fileText (publicKey privateKey : Bytes) :
    privateLine (fileText publicKey privateKey) = EncodeBase58 privateKey := by
  rw [privateLine, fileText, readLine_append (EncodeBase58_line publicKey),
    readLine_last (EncodeBase58_line privateKey)]

/-- The private key belongs to the public key in the file. -/
structure Matches (lib : KeyFilesLib) (file : Bytes) (keys : KeyPair) (secret : SecretKey) :
    Prop where
  holds : keys.2 = .holding secret
  matching : keys.1 = lib.sign.skToPk secret
  written : DecodeBase58 (publicLine file) = some keys.1.bytes

def HoldsClear (file : Bytes) (secret : SecretKey) : Prop :=
  DecodeBase58 (privateLine file) = some secret.bytes

def HoldsEncrypted (lib : KeyFilesLib) (file : Bytes) (secret : SecretKey) : Prop :=
  ∃ bytes passwd, DecodeBase58 (privateLine file) = some bytes ∧
    Heap.decryptedKey lib.aead bytes passwd = some secret

def askedFile : KeyFileEntry → Option Bytes
  | .asked file => some file
  | _ => none

def pairOf : KeyFileEntry → Option KeyPair
  | .other keys => some keys
  | .loaded _ keys => some keys
  | .decrypted keys => some keys
  | _ => none

/-- A pair was added from a file that has its public key, and a password is
asked for only when the private key is too long to be clear. -/
def Accounted (lib : KeyFilesLib) (before : List KeyFileEntry) : KeyFileEntry → Prop
  | .loaded file keys => ∃ secret, Matches lib file keys secret ∧ HoldsClear file secret
  | .asked file => ∃ bytes, DecodeBase58 (privateLine file) = some bytes ∧
      kPrivateKeySize < bytes.length
  | .decrypted keys => ∃ file secret, latest askedFile before = some file ∧
      Matches lib file keys secret ∧ HoldsEncrypted lib file secret
  | _ => True

/-- The list and the global are what the history tells. -/
structure Tracked (lib : KeyFilesLib) (run : KeyFilesRun) : Prop where
  accounted : Explained (Accounted lib) run.history
  listed : run.widget.keys = run.history.filterMap pairOf
  asked : 0 < run.widget.decryptDialogs → ∃ file, latest askedFile run.history = some file ∧
    run.widget.keysToDecrypt.1 = publicLine file ∧
    DecodeBase58 (privateLine file) = some run.widget.keysToDecrypt.2

variable {lib : KeyFilesLib} {run next : KeyFilesRun}

theorem tracked_initial (lib : KeyFilesLib) : Tracked lib .initial where
  accounted := explained_nil
  listed := rfl
  asked := fun open_ => by contradiction

/-- A change of the widget that keeps the list, the global and the dialogs. -/
theorem Tracked.update (tracked : Tracked lib run) {change : KeyFilesWidget → KeyFilesWidget}
    (keys : (change run.widget).keys = run.widget.keys)
    (global : (change run.widget).keysToDecrypt = run.widget.keysToDecrypt)
    (dialogs : (change run.widget).decryptDialogs ≤ run.widget.decryptDialogs) :
    Tracked lib (run.update change) where
  accounted := tracked.accounted
  listed := keys.trans tracked.listed
  asked := by
    intro some_open
    obtain ⟨file, last, line, bytes⟩ := tracked.asked (some_open.trans_le dialogs)
    exact ⟨file, last, (congrArg Prod.fst global).trans line,
      bytes.trans (congrArg (fun keys => some keys.2) global.symm)⟩

theorem Tracked.toStatusBar (tracked : Tracked lib run) (message : String) :
    Tracked lib (run.toStatusBar message) :=
  tracked.update rfl rfl le_rfl

/-- An entry that adds no pair and asks for no password. -/
theorem Tracked.dumped (tracked : Tracked lib run) (file : Bytes) :
    Tracked lib (run.record (.dumped file)) where
  accounted := ExplainedFrom.explained tracked.accounted ⟨trivial, trivial⟩
  listed := by
    rw [record, List.filterMap_append]
    exact tracked.listed.trans (List.append_nil _).symm
  asked := by
    intro some_open
    obtain ⟨asked, last, global⟩ := tracked.asked some_open
    exact ⟨asked, (latest_append_of_none (by simp [askedFile])).trans last, global⟩

theorem Tracked.addKeyPair (tracked : Tracked lib run) {keys : KeyPair} {entry : KeyFileEntry}
    (accounted : Accounted lib run.history entry) (pair : pairOf entry = some keys) :
    Tracked lib (run.addKeyPair keys entry) where
  accounted := ExplainedFrom.explained tracked.accounted ⟨accounted, trivial⟩
  listed := by
    show run.widget.keys ++ [keys] = (run.history ++ [entry]).filterMap pairOf
    rw [List.filterMap_append, List.filterMap_cons_some pair, List.filterMap_nil, tracked.listed]
  asked := by
    intro some_open
    obtain ⟨file, last, global⟩ := tracked.asked some_open
    have silent : askedFile entry = none := by
      cases entry with
      | asked file => contradiction
      | _ => rfl
    refine ⟨file, (latest_append_of_none ?_).trans last, global⟩
    intro other member
    rwa [List.mem_singleton.mp member]

def matchingPair (lib : KeyFilesLib) (secret : SecretKey) : KeyPair :=
  (lib.sign.skToPk secret, .holding secret)

/-- What becomes of a file that is opened. -/
inductive Loads (lib : KeyFilesLib) (run : KeyFilesRun) (file : Bytes) (next : KeyFilesRun) :
    Prop where
  | refused (message : String) (same : next = run.toStatusBar message)
  | loaded (secret : SecretKey)
      (written : DecodeBase58 (publicLine file) = some (lib.sign.skToPk secret).bytes)
      (clear : HoldsClear file secret)
      (same : next = (run.addKeyPair (matchingPair lib secret)
        (.loaded file (matchingPair lib secret))).toStatusBar
          "Loaded keys are correct. Added to your key list.")
  | asked (bytes : Bytes) (read : DecodeBase58 (privateLine file) = some bytes)
      (long : kPrivateKeySize < bytes.length)
      (same : next = run.askPassword file (publicLine file) bytes)

theorem loadKeysFromFile_loads (run : KeyFilesRun) (file : Bytes) :
    ∃ next, run.loadKeysFromFile lib (some file) = .ok next ∧ Loads lib run file next := by
  cases pub : DecodeBase58 (publicLine file) with
  | none =>
      exact ⟨run.toStatusBar "Invalid keys!", by simp only [loadKeysFromFile, pub], .refused _ rfl⟩
  | some pubBytes =>
      cases priv : DecodeBase58 (privateLine file) with
      | none =>
          exact ⟨run.toStatusBar "Invalid keys!", by simp only [loadKeysFromFile, pub, priv],
            .refused _ rfl⟩
      | some privBytes =>
          simp only [loadKeysFromFile, pub, priv]
          by_cases short : privBytes.length < kPrivateKeySize
          · exact ⟨_, by rw [if_pos short], .refused _ rfl⟩
          rw [if_neg short]
          by_cases size : privBytes.length = kPrivateKeySize
          · rw [if_pos size, readFromBytes, dif_pos size, getMatchingPublic,
              PrivateKey.access_holding, ok_bind, pure_eq_ok, ok_bind]
            by_cases same : pubBytes = (lib.sign.skToPk ⟨privBytes, size⟩).bytes
            · exact ⟨_, by rw [if_neg (not_not_intro same)]; rfl,
                .loaded ⟨privBytes, size⟩ (by rw [pub, same]) priv rfl⟩
            · exact ⟨_, by rw [if_pos same]; rfl, .refused _ rfl⟩
          · exact ⟨_, by rw [if_neg size], .asked privBytes priv (by omega) rfl⟩

theorem Loads.tracked {file : Bytes} (loads : Loads lib run file next) (tracked : Tracked lib run) :
    Tracked lib next := by
  cases loads with
  | refused message same => exact same ▸ tracked.toStatusBar message
  | loaded secret written clear same =>
      have accounted : Accounted lib run.history
          (.loaded file (matchingPair lib secret)) :=
        ⟨secret, ⟨rfl, rfl, written⟩, clear⟩
      exact same ▸ (tracked.addKeyPair accounted rfl).toStatusBar _
  | asked bytes read long same =>
      subst same
      exact {
        accounted := ExplainedFrom.explained tracked.accounted ⟨⟨bytes, read, long⟩, trivial⟩
        listed := by
          rw [askPassword, record, List.filterMap_append]
          exact tracked.listed.trans (List.append_nil _).symm
        asked := fun _ => ⟨file, latest_append_cons rfl (fun _ none => absurd none
          List.not_mem_nil), rfl, read⟩ }

/-- What becomes of the bytes that are to be decrypted. -/
inductive Decrypts (lib : KeyFilesLib) (run next : KeyFilesRun) : Prop where
  | refused (message : String) (same : next = run.toStatusBar message)
  | decrypted (secret : SecretKey)
      (found : Heap.decryptedKey lib.aead run.widget.keysToDecrypt.2
        run.widget.encryptionPswdLineEdit = some secret)
      (written : run.widget.keysToDecrypt.1 = EncodeBase58 (lib.sign.skToPk secret).bytes)
      (same : next = (run.addKeyPair (matchingPair lib secret)
        (.decrypted (matchingPair lib secret))).toStatusBar
          "Keys loaded successfully.")

theorem decryptKeys_decrypts (ran : run.decryptKeys lib = .ok next) : Decrypts lib run next := by
  rw [decryptKeys] at ran
  by_cases empty : run.widget.encryptionPswdLineEdit = []
  · rw [if_pos empty] at ran
    cases ran
    exact .refused _ rfl
  rw [if_neg empty] at ran
  obtain ⟨second, read, ran⟩ := bind_eq_ok.mp ran
  have found := PrivateKey.mem_readFromEncrypted read
  obtain ⟨mem⟩ := second
  cases mem with
  | none =>
      cases ran
      exact .refused _ rfl
  | some secret =>
      rw [if_neg (by simp), getMatchingPublic, PrivateKey.access, ok_bind, pure_eq_ok, ok_bind]
        at ran
      by_cases same : run.widget.keysToDecrypt.1 = EncodeBase58 (lib.sign.skToPk secret).bytes
      · rw [if_neg (not_not_intro same)] at ran
        cases ran
        exact .decrypted secret found.symm same rfl
      · rw [if_pos same] at ran
        cases ran
        exact .refused _ rfl

theorem Decrypts.tracked (decrypts : Decrypts lib run next) (tracked : Tracked lib run)
    (asked : ∃ file, latest askedFile run.history = some file ∧
      run.widget.keysToDecrypt.1 = publicLine file ∧
      DecodeBase58 (privateLine file) = some run.widget.keysToDecrypt.2) : Tracked lib next := by
  cases decrypts with
  | refused message same => exact same ▸ tracked.toStatusBar message
  | decrypted secret found written same =>
      obtain ⟨file, last, line, bytes⟩ := asked
      have decoded : DecodeBase58 (publicLine file) = some (lib.sign.skToPk secret).bytes := by
        rw [← line, written, DecodeBase58_EncodeBase58]
      have accounted : Accounted lib run.history
          (.decrypted (matchingPair lib secret)) :=
        ⟨file, secret, last, ⟨rfl, rfl, decoded⟩, _, _, bytes, found⟩
      exact same ▸ (tracked.addKeyPair accounted rfl).toStatusBar _

/-- Writing a file changes nothing else. -/
theorem DumpKeysClear_cases {opened : Bool} (ran : run.DumpKeysClear opened = .ok next) :
    ∃ message, next = run.toStatusBar message ∨
      ∃ file, next = (run.toStatusBar message).record (.dumped file) := by
  cases opened with
  | false =>
      cases ran
      exact ⟨_, .inl rfl⟩
  | true =>
      obtain ⟨sk, _, ran⟩ := bind_eq_ok.mp ran
      cases ran
      exact ⟨_, .inr ⟨_, rfl⟩⟩

theorem DumpKeysEncrypted_cases {opened : Bool} {random : ByteArray kNpubBytes}
    (ran : run.DumpKeysEncrypted lib opened random = .ok next) :
    ∃ message, next = run.toStatusBar message ∨
      ∃ file, next = (run.toStatusBar message).record (.dumped file) := by
  rw [DumpKeysEncrypted] at ran
  by_cases short : run.widget.encryptionPswdLineEdit.length < kMinPswdSize
  · rw [if_pos short] at ran
    cases ran
    exact ⟨_, .inl rfl⟩
  rw [if_neg short] at ran
  cases opened with
  | false =>
      cases ran
      exact ⟨_, .inl rfl⟩
  | true =>
      have filled : run.widget.encryptionPswdLineEdit ≠ [] := by
        intro empty
        rw [empty] at short
        exact short (by decide)
      rw [if_neg (by decide), if_neg filled] at ran
      obtain ⟨encBytes, _, ran⟩ := bind_eq_ok.mp ran
      cases ran
      exact ⟨_, .inr ⟨_, rfl⟩⟩

theorem Tracked.written (tracked : Tracked lib run)
    (cases : ∃ message, next = run.toStatusBar message ∨
      ∃ file, next = (run.toStatusBar message).record (.dumped file)) : Tracked lib next := by
  obtain ⟨message, rfl | ⟨file, rfl⟩⟩ := cases
  · exact tracked.toStatusBar message
  · exact (tracked.toStatusBar message).dumped file

theorem step_tracked (tracked : Tracked lib run) {event : KeyFileEvent}
    (stepped : run.step lib event = .ok next) : Tracked lib next := by
  cases event with
  | clicked row =>
      cases stepped
      exact tracked.update rfl rfl le_rfl
  | addKeyPair keys =>
      cases stepped
      exact tracked.addKeyPair trivial rfl
  | typePassword text =>
      cases stepped
      exact tracked.update rfl rfl le_rfl
  | dumpKeysToFile =>
      rw [step] at stepped
      split at stepped
      · cases stepped
        exact tracked.update rfl rfl le_rfl
      · cases stepped
        exact tracked
  | dumpKeysEncrypted opened random =>
      rw [step] at stepped
      split at stepped
      · cases stepped
        exact tracked
      · exact (tracked.update rfl rfl le_rfl).written (DumpKeysEncrypted_cases stepped)
  | dumpKeysClear opened =>
      rw [step] at stepped
      split at stepped
      · cases stepped
        exact tracked
      · exact (tracked.update rfl rfl le_rfl).written (DumpKeysClear_cases stepped)
  | loadKeysFromFile file =>
      cases file with
      | none =>
          cases stepped
          exact tracked.toStatusBar _
      | some file =>
          obtain ⟨reached, loaded, loads⟩ := @loadKeysFromFile_loads lib run file
          cases loaded.symm.trans stepped
          exact loads.tracked tracked
  | closeDecryptDialog =>
      cases stepped
      exact tracked.update rfl rfl (Nat.sub_le _ _)
  | decryptKeys =>
      rw [step] at stepped
      split at stepped
      · cases stepped
        exact tracked
      · rename_i some_open
        have before := tracked.asked (Nat.pos_of_ne_zero some_open)
        exact (decryptKeys_decrypts stepped).tracked (tracked.update rfl rfl (Nat.sub_le _ _)) before

end KeyFilesRun

end Cscrypto.Gui
