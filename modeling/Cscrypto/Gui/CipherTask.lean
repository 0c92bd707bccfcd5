import Cscrypto.Cipher.ReleasedPlaintext
import Cscrypto.Gui.CipherWindow

namespace Cscrypto.Gui

open Cscrypto.Base58 Cscrypto.Cipher Cscrypto.Data

/-! # What a click on the start button does

The button does the task that the user has chosen, with the key of the one
field that is on the screen.
-/

/-- Where the key comes from. -/
inductive KeyInput where
  | password (text : Bytes)
  | row (text : Bytes)

namespace CipherWindow

/-- The fields that are on the screen. -/
def inputs (window : CipherWindow) : List KeyInput :=
  (if window.pswdVisible then [.password window.pswdLineEdit] else []) ++
    (if window.encKeysComboBox.visible then [.row window.encKeysComboBox.currentText] else []) ++
    (if window.decKeysComboBox.visible then [.row window.decKeysComboBox.currentText] else [])

end CipherWindow

namespace Task

variable (lib : CipherLib) (task : Task) (disk : Disk)

/-- One of the two file functions, with its message. -/
def process (cipherKey : CipherKey) : Except Fault (String × Disk) :=
  match task.mode with
  | .encryption => do
      let (encrypted, _, disk) ←
        encryptFile lib.ss lib.fuel task.target task.source cipherKey lib.header disk
      return (if encrypted then "Source file successfully encrypted."
        else "Unsuccessfull operation!", disk)
  | .decryption => do
      let result ← decryptFile lib.ss lib.fuel task.target task.source cipherKey lib.stack disk
      return (if result.accepted then "Source file successfully decrypted."
        else "Unsuccessfull operation!", result.disk)

/-- The task with a key from the given field. -/
def perform : KeyInput → Except Fault (String × Disk)
  | .password text =>
      if text = [] then .ok ("Password empty! Fill it to encrypt / decrypt.", disk)
      else if text.length < kMinPswdSize then .ok ("Password is too short!", disk)
      else do task.process lib disk (← getCipherKeyFromPassword lib.calculateHash lib.pwhash text)
  | .row text =>
      match DecodeBase58 text with
      | none => .ok ("Invalid keys!", disk)
      | some keyBytes => do task.process lib disk (← CipherWidget.copyKey keyBytes)

end Task

/-- The widget does the task. -/
structure CipherWidget.Does (widget : CipherWidget) (task : Task) : Prop where
  source : widget.sourceFileLbl = task.source
  target : widget.targetFileLbl = task.target
  encryption : widget.encryptionMode = decide (task.mode = .encryption)
  decryption : widget.decryptionMode = decide (task.mode = .decryption)

theorem CipherWidget.Does.process_eq {widget : CipherWidget} {task : Task}
    (does : widget.Does task) (lib : CipherLib) (disk : Disk) (cipherKey : CipherKey) :
    widget.process lib disk cipherKey = (task.process lib disk cipherKey).map
      fun done => (widget.toStatusBar done.1, done.2) := by
  obtain ⟨source, target, encryption, decryption⟩ := does
  cases mode : task.mode with
  | encryption =>
      simp only [CipherWidget.process, CipherWidget.encryptFile, CipherWidget.decryptFile,
        Task.process, source, target, encryption, decryption, mode]
      cases Cipher.encryptFile lib.ss lib.fuel task.target task.source cipherKey lib.header disk with
      | error fault => rfl
      | ok result => obtain ⟨_ | _, key, disk'⟩ := result <;> rfl
  | decryption =>
      simp only [CipherWidget.process, CipherWidget.encryptFile, CipherWidget.decryptFile,
        Task.process, source, target, encryption, decryption, mode]
      cases decrypted : Cipher.decryptFile lib.ss lib.fuel task.target task.source cipherKey lib.stack
          disk with
      | error fault => simp [decrypted, Except.map]
      | ok result => cases accepted : result.accepted <;> simp [decrypted, accepted, Except.map]

namespace CipherWindow

theorem Follows.taskOf_isSome {past : List CipherEvent} {window : CipherWindow}
    (follows : window.Follows past) : window.startEnabled = (taskOf past).isSome := by
  rw [follows.start, follows.source, follows.target, follows.encryption, follows.decryption, taskOf]
  cases chosenName CipherEvent.source? past with
  | none => rfl
  | some source =>
      cases chosenName CipherEvent.target? past with
      | none => rfl
      | some target =>
          cases latest CipherEvent.mode? past with
          | none => rfl
          | some mode => cases mode <;> rfl

theorem Follows.does {past : List CipherEvent} {window : CipherWindow} {task : Task}
    (follows : window.Follows past) (chosen : taskOf past = some task) :
    window.widget.Does task := by
  simp only [taskOf, Option.bind_eq_bind, Option.bind_eq_some_iff] at chosen
  obtain ⟨source, sourceChosen, target, targetChosen, mode, modeChosen, same⟩ := chosen
  cases same
  constructor
  · simp only [widget, follows.sourceLbl, sourceChosen, Option.getD_some]
  · simp only [widget, follows.targetLbl, targetChosen, Option.getD_some]
  · simp only [widget, follows.encryption, modeChosen, Option.some.injEq]
  · simp only [widget, follows.decryption, modeChosen, Option.some.injEq]

/-- Exactly one field is on the screen, and a list is there only with a row of
its own. -/
theorem one_input {past : List CipherEvent} {window : CipherWindow} {task : Task}
    (shows : window.Shows) (lists : window.Lists past) (does : window.widget.Does task) :
    ∃ input, window.inputs = [input] ∧
      (input = .password window.pswdLineEdit ∧ window.useKeysCheckBox = .unchecked ∨
        window.useKeysCheckBox ≠ .unchecked ∧ ∃ text ∈ rowsOf task.mode past, input = .row text ∧
          text = if window.encryptionMode then window.encKeysComboBox.currentText
            else window.decKeysComboBox.currentText) := by
  have encryption : window.encryptionMode = decide (task.mode = .encryption) := does.encryption
  have decryption : window.decryptionMode = decide (task.mode = .decryption) := does.decryption
  rcases shows.states with unchecked | checked
  · refine ⟨.password window.pswdLineEdit, ?_, .inl ⟨rfl, unchecked⟩⟩
    simp [inputs, shows.pswd, shows.enc, shows.dec, unchecked]
  · have different : window.useKeysCheckBox ≠ .unchecked := by rw [checked]; decide
    have rows := lists.enabled.mp (lists.checked different)
    cases mode : task.mode with
    | encryption =>
        refine ⟨.row window.encKeysComboBox.currentText, ?_, .inr ⟨different, _, ?_, rfl, ?_⟩⟩
        · simp [inputs, shows.pswd, shows.enc, shows.dec, checked, encryption, decryption, mode]
        · rw [← lists.encRows]
          exact lists.encSelects.currentText_mem (lists.encRows ▸ rows)
        · simp [encryption, mode]
    | decryption =>
        have others : rowsOf .decryption past ≠ [] := fun empty => rows (rowsOf_eq_nil empty)
        refine ⟨.row window.decKeysComboBox.currentText, ?_, .inr ⟨different, _, ?_, rfl, ?_⟩⟩
        · simp [inputs, shows.pswd, shows.enc, shows.dec, checked, encryption, decryption, mode]
        · rw [← lists.decRows]
          exact lists.decSelects.currentText_mem (lists.decRows ▸ others)
        · simp [encryption, mode]

theorem start_eq_perform {past : List CipherEvent} {window : CipherWindow} {task : Task}
    (shows : window.Shows) (lists : window.Lists past) (does : window.widget.Does task) :
    ∃ input, window.inputs = [input] ∧
      (∀ text, input = .row text → text ∈ rowsOf task.mode past) ∧
      ∀ (lib : CipherLib) (disk : Disk), window.start lib disk =
        (task.perform lib disk input).map fun done => (window.toStatusBar done.1, done.2) := by
  obtain ⟨input, shown, source⟩ := one_input shows lists does
  refine ⟨input, shown, ?_, ?_⟩
  · intro text same
    subst same
    rcases source with ⟨password, _⟩ | ⟨_, other, member, same, _⟩
    · contradiction
    · cases same
      exact member
  · intro lib disk
    rcases source with ⟨rfl, unchecked⟩ | ⟨checked, text, _, rfl, current⟩
    · have unchecked' : window.widget.useKeysCheckBox = .unchecked := unchecked
      have typed : window.widget.pswdLineEdit = window.pswdLineEdit := rfl
      simp only [start, CipherWidget.start, unchecked', if_true, Task.perform, typed]
      by_cases empty : window.pswdLineEdit = []
      · rw [if_pos empty, if_pos empty]
        rfl
      rw [if_neg empty, if_neg empty]
      by_cases short : window.pswdLineEdit.length < kMinPswdSize
      · rw [if_pos short, if_pos short]
        rfl
      · rw [if_neg short, if_neg short, getCipherKeyFromPassword_eq, ok_bind, ok_bind,
          does.process_eq]
        cases task.process lib disk _ <;> rfl
    · have checked' : window.widget.useKeysCheckBox ≠ .unchecked := checked
      have current' : (if window.widget.encryptionMode then window.widget.encKeysComboBox
          else window.widget.decKeysComboBox) = text := current.symm
      simp only [start, CipherWidget.start, if_neg checked', current', Task.perform]
      cases DecodeBase58 text with
      | none => rfl
      | some keyBytes =>
          dsimp only
          cases CipherWidget.copyKey keyBytes with
          | error fault => rfl
          | ok cipherKey =>
              rw [ok_bind, ok_bind, does.process_eq]
              cases task.process lib disk cipherKey <;> rfl

end CipherWindow

/-- The key that a field gives, if it gives one. -/
def KeyInput.secret (lib : CipherLib) : KeyInput → Option StreamKey
  | .password text =>
      if text.length < kMinPswdSize then none
      else lib.pwhash text (saltOf lib.calculateHash text)
  | .row text =>
      (DecodeBase58 text).bind fun keyBytes =>
        if same : keyBytes.length = kCipherKeySize then some ⟨keyBytes, same⟩ else none

theorem CipherWidget.copyKey_eq (secret : StreamKey) :
    copyKey secret.bytes = .ok (.holding secret .readWrite) := by
  have fits : secret.bytes.length ≤ kCipherKeySize := Nat.le_of_eq secret.size_eq
  simp only [copyKey, MemGuard.new_eq_holding, MemGuard.read_readWrite, ok_bind, dif_pos fits,
    MemGuard.write_readWrite]
  congr 2
  apply ByteArray.ext_bytes
  simp only [secret.size_eq]
  rw [List.drop_eq_nil_of_le (Nat.le_of_eq (ByteArray.size_eq _)), List.append_nil]

namespace Task

theorem perform_eq (lib : CipherLib) (task : Task) (disk : Disk) {secret : StreamKey}
    {input : KeyInput} (known : input.secret lib = some secret) :
    ∃ protection, task.perform lib disk input =
      task.process lib disk (.holding secret protection) := by
  cases input with
  | password text =>
      simp only [KeyInput.secret, Option.ite_none_left_eq_some] at known
      obtain ⟨long, hashed⟩ := known
      have nonempty : text ≠ [] := by
        intro empty
        subst empty
        exact long (by decide)
      refine ⟨.noAccess, ?_⟩
      rw [perform, if_neg nonempty, if_neg long, getCipherKeyFromPassword_eq, hashed, ok_bind]
      rfl
  | row text =>
      obtain ⟨keyBytes, decoded, same⟩ := Option.bind_eq_some_iff.mp known
      split at same
      · cases same
        refine ⟨.readWrite, ?_⟩
        simp only [perform, decoded]
        rw [CipherWidget.copyKey_eq ⟨keyBytes, by assumption⟩, ok_bind]
      · contradiction

theorem process_encryption (lib : CipherLib) {task : Task} {disk : Disk} (secret : StreamKey)
    (mode : task.mode = .encryption) {content : Bytes}
    (ready : FilesReady task.target task.source content disk) (protection : Protection)
    (enough : content.length / kChunkSize < lib.fuel) :
    ∃ disk', task.process lib disk (.holding secret protection) =
        .ok ("Source file successfully encrypted.", disk') ∧
      disk'.files task.target = some (streamFile lib.ss secret lib.header (fileMessages content)) ∧
      ∀ path, path ≠ task.target → disk'.files path = disk.files path := by
  obtain ⟨disk', ran, written, others, _⟩ :=
    encryptFile_ready lib.ss ready secret protection lib.header enough
  refine ⟨disk', ?_, written, others⟩
  simp only [process, mode, ran, ok_bind, if_true, pure_eq_ok]

theorem openStream_logged {ss : SecretStream} {contents : StreamKey → Header → Option Bytes}
    (ideal : ss.Ideal (fun secret header => (contents secret header).map fileMessages))
    {sender : StreamKey} {header : Header} {content : Bytes}
    (logged : contents sender header = some content)
    (fresh : ∀ other, other ≠ sender → contents other header = none) (secret : StreamKey)
    (stack : Header) :
    openStream ss secret stack (streamFile ss sender header (fileMessages content)) =
      if secret = sender then some (fileMessages content) else none := by
  split
  · rename_i same
    subst same
    have delivers := ideal.delivers secret header (fileMessages content)
      (by rw [logged, Option.map_some])
    exact openStream_of_blocked ideal.adds delivers (fileMessages_blocked content)
      (tagged_dropLast _) stack
  · rename_i different
    have shape : ∀ secret header chunks, (contents secret header).map fileMessages = some chunks →
        Blocked kChunkSize (chunks.map Prod.fst) := by
      intro secret header chunks sent
      obtain ⟨content, _, rfl⟩ := Option.map_eq_some_iff.mp sent
      exact fileMessages_blocked content
    refine Option.eq_none_iff_forall_ne_some.mpr (fun opened accepted => ?_)
    obtain ⟨header', chunks, sent, same⟩ := eq_streamFile_of_openStream ideal shape accepted
    have headers := congrArg (headerOf stack) same
    rw [headerOf_streamFile, headerOf_streamFile] at headers
    subst headers
    simp only [fresh secret different, Option.map_none, reduceCtorEq] at sent

/-- Under an ideal stream the outcome depends only on whether the source is the
stream of this key. -/
theorem process_decryption {lib : CipherLib} {contents : StreamKey → Header → Option Bytes}
    (ideal : lib.ss.Ideal (fun secret header => (contents secret header).map fileMessages))
    {sender : StreamKey} {header : Header} {content : Bytes}
    (logged : contents sender header = some content)
    (fresh : ∀ other, other ≠ sender → contents other header = none)
    {task : Task} {disk : Disk} (secret : StreamKey) (mode : task.mode = .decryption)
    (ready : FilesReady task.target task.source
      (streamFile lib.ss sender header (fileMessages content)) disk) (protection : Protection)
    (enough : (streamFile lib.ss sender header (fileMessages content)).length /
      (kChunkSize + kABytes) < lib.fuel) :
    ∃ disk', task.process lib disk (.holding secret protection) =
        .ok (if secret = sender then "Source file successfully decrypted."
          else "Unsuccessfull operation!", disk') ∧
      disk'.files task.target = some (if secret = sender then content else []) ∧
      ∀ path, path ≠ task.target → disk'.files path = disk.files path := by
  obtain ⟨result, ran, _, accepted, delivered⟩ :=
    decryptFile_ready lib.ss ready secret protection lib.stack enough
  rw [openStream_logged ideal logged fresh] at accepted delivered
  refine ⟨result.disk, ?_, ?_, decryptFile_others ran⟩
  · have same : result.accepted = decide (secret = sender) := by
      rw [accepted]
      split <;> simp_all
    simp only [process, mode, ran, ok_bind, same, pure_eq_ok, decide_eq_true_eq]
  · split
    · rename_i same
      obtain ⟨_, output⟩ := delivered (fileMessages content) (if_pos same)
      rw [output, fileMessages_flatten]
    · rename_i different
      obtain ⟨stored, found, nothing | ⟨sent, _, pushed, _⟩⟩ :=
        decryptFile_released ideal (ready.reliable.opens ready.stored) ran
      · rw [found, nothing]
      · rw [ready.headerRead_eq, headerOf_streamFile] at pushed
        simp only [fresh secret different, Option.map_none, reduceCtorEq] at pushed

end Task

/-- A hash that depends on the length of the password only, and the stream of
one file. -/
def CipherLib.oneFile : CipherLib where
  calculateHash _ := .replicate _ 0
  pwhash passwd _ := some (.replicate _ (UInt8.ofNat passwd.length))
  ss := idealStream (fun secret header => (Cipher.oneFile secret header).map fileMessages)
  header := .replicate _ 9
  stack := .replicate _ 0
  fuel := 1

/-- The user chooses both files and types a password. -/
def chooses (mode : CipherEvent) (source target : Path) (disk : Disk) : List CipherEvent :=
  [.getSrcFileName source, .getTrgFileName target, mode, .typePassword (ascii "secret!"),
    .changeFiles disk]

namespace CipherRun

variable {lib : CipherLib} {run : CipherRun} {past : List CipherEvent}

/-- A click on the button starts the task that the window shows. -/
theorem step_start (invariant : Invariant past run) {task : Task}
    (chosen : taskOf past = some task) {input : KeyInput} (shown : run.window.inputs = [input])
    {header stack : Header} {fuel : Nat} {status : String} {disk' : Disk}
    (performed : task.perform { lib with header, stack, fuel } run.disk input =
      .ok (status, disk')) :
    run.step lib (.start header stack fuel) = .ok ⟨run.window.toStatusBar status, disk'⟩ := by
  obtain ⟨follows, shows, lists⟩ := invariant
  obtain ⟨other, only, _, starts⟩ :=
    CipherWindow.start_eq_perform shows lists (follows.does chosen)
  cases only.symm.trans shown
  have enabled : run.window.startEnabled = true := by
    rw [follows.taskOf_isSome, chosen]
    rfl
  rw [step, if_pos enabled, starts, performed]
  rfl

/-- What a window is about to do: the task, and the key of the field on the
screen. -/
structure Prepared (lib : CipherLib) (past : List CipherEvent) (run : CipherRun) (task : Task)
    (secret : StreamKey) : Prop where
  invariant : Invariant past run
  chosen : taskOf past = some task
  key : ∃ input, run.window.inputs = [input] ∧ input.secret lib = some secret

theorem Prepared.encrypts {source target : Path} {secret : StreamKey}
    (prepared : Prepared lib past run ⟨source, target, .encryption⟩ secret) {content : Bytes}
    (ready : FilesReady target source content run.disk) (header stack : Header) {fuel : Nat}
    (enough : content.length / kChunkSize < fuel) :
    ∃ encrypted, run.step lib (.start header stack fuel) =
        .ok ⟨run.window.toStatusBar "Source file successfully encrypted.", encrypted⟩ ∧
      encrypted.files target = some (streamFile lib.ss secret header (fileMessages content)) ∧
      ∀ path, path ≠ target → encrypted.files path = run.disk.files path := by
  obtain ⟨invariant, chosen, input, shown, known⟩ := prepared
  obtain ⟨protection, first⟩ := Task.perform_eq { lib with header, stack, fuel }
    ⟨source, target, .encryption⟩ run.disk known
  obtain ⟨encrypted, ran, written, others⟩ := @Task.process_encryption
    { lib with header, stack, fuel } ⟨source, target, .encryption⟩ run.disk secret rfl content
    ready protection enough
  exact ⟨encrypted, step_start invariant chosen shown (first.trans ran), written, others⟩

theorem Prepared.decrypts {contents : StreamKey → Header → Option Bytes}
    (ideal : lib.ss.Ideal (fun secret header => (contents secret header).map fileMessages))
    {sender secret : StreamKey} {header : Header} {content : Bytes}
    (logged : contents sender header = some content)
    (fresh : ∀ other, other ≠ sender → contents other header = none) {source target : Path}
    (prepared : Prepared lib past run ⟨source, target, .decryption⟩ secret)
    (ready : FilesReady target source (streamFile lib.ss sender header (fileMessages content))
      run.disk) (header' stack : Header) {fuel : Nat}
    (enough : (streamFile lib.ss sender header (fileMessages content)).length /
      (kChunkSize + kABytes) < fuel) :
    ∃ decrypted, run.step lib (.start header' stack fuel) =
        .ok ⟨run.window.toStatusBar (if secret = sender
          then "Source file successfully decrypted." else "Unsuccessfull operation!"),
          decrypted⟩ ∧
      decrypted.files target = some (if secret = sender then content else []) ∧
      ∀ path, path ≠ target → decrypted.files path = run.disk.files path := by
  obtain ⟨invariant, chosen, input, shown, known⟩ := prepared
  obtain ⟨protection, first⟩ := Task.perform_eq { lib with header := header', stack, fuel }
    ⟨source, target, .decryption⟩ run.disk known
  obtain ⟨decrypted, ran, output, others⟩ := @Task.process_decryption
    { lib with header := header', stack, fuel } contents ideal sender header content logged fresh
    ⟨source, target, .decryption⟩ run.disk secret rfl ready protection enough
  exact ⟨decrypted, step_start invariant chosen shown (first.trans ran), output, others⟩

end CipherRun

/-- A file that one window has encrypted is decrypted by another one exactly
with the same key; with any other key its target is left empty. -/
theorem file_transfer {lib : CipherLib} {contents : StreamKey → Header → Option Bytes}
    (ideal : lib.ss.Ideal (fun secret header => (contents secret header).map fileMessages))
    {disk disk' : Disk} {sending receiving : List CipherEvent} {sender receiver : CipherRun}
    (sent : (CipherRun.initial disk).steps lib sending = .ok sender)
    (received : (CipherRun.initial disk').steps lib receiving = .ok receiver)
    {source target source' target' : Path}
    (encrypts : taskOf sending = some ⟨source, target, .encryption⟩)
    (decrypts : taskOf receiving = some ⟨source', target', .decryption⟩) {input input' : KeyInput}
    (shown : sender.window.inputs = [input]) (shown' : receiver.window.inputs = [input'])
    {secret secret' : StreamKey} (known : input.secret lib = some secret)
    (known' : input'.secret lib = some secret') {content : Bytes} {header : Header}
    (stack : Header) {fuel : Nat} (ready : FilesReady target source content sender.disk)
    (enough : content.length / kChunkSize < fuel) (logged : contents secret header = some content)
    (fresh : ∀ other, other ≠ secret → contents other header = none) :
    ∃ encrypted image, sender.step lib (.start header stack fuel) =
        .ok ⟨sender.window.toStatusBar "Source file successfully encrypted.", encrypted⟩ ∧
      encrypted.files target = some image ∧
      (∀ path, path ≠ target → encrypted.files path = sender.disk.files path) ∧
      ∀ (header' stack' : Header) (fuel' : Nat), FilesReady target' source' image receiver.disk →
        image.length / (kChunkSize + kABytes) < fuel' →
        ∃ decrypted, receiver.step lib (.start header' stack' fuel') =
            .ok ⟨receiver.window.toStatusBar (if secret' = secret
              then "Source file successfully decrypted." else "Unsuccessfull operation!"),
              decrypted⟩ ∧
          decrypted.files target' = some (if secret' = secret then content else []) ∧
          ∀ path, path ≠ target' → decrypted.files path = receiver.disk.files path := by
  have sending : CipherRun.Prepared lib sending sender ⟨source, target, .encryption⟩ secret :=
    ⟨CipherRun.steps_invariant sent, encrypts, input, shown, known⟩
  have receiving : CipherRun.Prepared lib receiving receiver ⟨source', target', .decryption⟩ secret' :=
    ⟨CipherRun.steps_invariant received, decrypts, input', shown', known'⟩
  obtain ⟨encrypted, ran, written, others⟩ := sending.encrypts ready header stack enough
  exact ⟨encrypted, _, ran, written, others, fun header' stack' fuel' ready' enough' =>
    receiving.decrypts ideal logged fresh ready' header' stack' enough'⟩

theorem file_transfer_password :
    ∃ sender encrypted image receiver decrypted,
      (CipherRun.initial (.single "source" [1, 2, 3])).steps .oneFile
        (chooses .activateEncryptionMode "source" "target" (.single "source" [1, 2, 3])) =
          .ok sender ∧
      sender.step .oneFile (.start (.replicate _ 9) (.replicate _ 0) 1) =
        .ok ⟨sender.window.toStatusBar "Source file successfully encrypted.", encrypted⟩ ∧
      encrypted.files "target" = some image ∧
      (CipherRun.initial (.single "source" [])).steps .oneFile
        (chooses .activateDecryptionMode "source" "target" (.single "source" image)) =
          .ok receiver ∧
      receiver.step .oneFile (.start (.replicate _ 0) (.replicate _ 0) (image.length + 1)) =
        .ok ⟨receiver.window.toStatusBar "Source file successfully decrypted.", decrypted⟩ ∧
      decrypted.files "target" = some [1, 2, 3] := by
  obtain ⟨sender, sent, input, disk⟩ : ∃ sender, (CipherRun.initial (.single "source" [1, 2, 3])).steps
      .oneFile (chooses .activateEncryptionMode "source" "target" (.single "source" [1, 2, 3])) =
        .ok sender ∧ sender.window.inputs = [.password (ascii "secret!")] ∧
      sender.disk = .single "source" [1, 2, 3] := ⟨_, rfl, rfl, rfl⟩
  have receives : ∀ files, ∃ receiver, (CipherRun.initial (.single "source" [])).steps .oneFile
      (chooses .activateDecryptionMode "source" "target" files) = .ok receiver ∧
      receiver.window.inputs = [.password (ascii "secret!")] ∧ receiver.disk = files :=
    fun _ => ⟨_, rfl, rfl, rfl⟩
  have ready : FilesReady "target" "source" [1, 2, 3] sender.disk := disk ▸ ready_single [1, 2, 3]
  have enough : ([1, 2, 3] : Bytes).length / kChunkSize < 1 := by decide
  have fresh : ∀ other, other ≠ ByteArray.replicate kCipherKeySize 7 →
      Cipher.oneFile other (.replicate _ 9) = none := by
    intro other different
    exact if_neg (fun same => different same.1)
  -- The file that has been written, so that the receiver's disk can have it.
  have known : (KeyInput.password (ascii "secret!")).secret .oneFile =
      some (.replicate kCipherKeySize 7) := rfl
  obtain ⟨written, starts, image, _⟩ := (CipherRun.Prepared.mk (CipherRun.steps_invariant sent) rfl
    ⟨_, input, known⟩ : CipherRun.Prepared .oneFile _ sender ⟨"source", "target", .encryption⟩
      _).encrypts ready (.replicate _ 9) (.replicate _ 0) enough
  obtain ⟨receiver, received, input', disk'⟩ := receives (.single "source" _)
  obtain ⟨encrypted, sentImage, ran, stored, _, opens⟩ := file_transfer (idealStream_ideal _) sent
    received rfl rfl input input' known known (.replicate _ 0) ready enough rfl fresh
  cases starts.symm.trans ran
  cases image.symm.trans stored
  obtain ⟨decrypted, opened, plain, _⟩ := opens (.replicate _ 0) (.replicate _ 0) _
    (disk' ▸ ready_single _) (Nat.lt_succ_of_le (Nat.div_le_self _ _))
  rw [if_pos rfl] at opened plain
  exact ⟨sender, written, _, receiver, decrypted, sent, ran, stored, received, opened, plain⟩

end Cscrypto.Gui
