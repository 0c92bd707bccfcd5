import Cscrypto.Gui.KeyListModel
import Cscrypto.Data.Run

namespace Cscrypto.Gui

open Cscrypto.Base58 Cscrypto.Data

/-! # Signing and verifying in the window

`SignWidget` with the events that reach its slots.  A text field holds its
UTF-8 bytes.  The history of a run records every message that is handed to
libsodium, together with the file that was loaded last.
-/

/-- The widget. A button is given by whether it is enabled, an open key dialog
by whether its Ok button is. -/
structure SignWidget where
  statusBar : String
  operatingKeyLine : Bytes
  signingMsg : Bytes
  signatureLine : Bytes
  fileName : String
  fileHash : Bytes
  fileMode : Bool
  keyReadOnly : Bool
  signatureReadOnly : Bool
  chooseEnabled : Bool
  signEnabled : Bool
  verifyEnabled : Bool
  dialogs : List Bool
  keys : List KeyPair
  currentIndex : Option Nat

def SignWidget.initial : SignWidget where
  statusBar := ""
  operatingKeyLine := ascii "Operating key will be displayed here"
  signingMsg := ascii "Type message to sign or verify..."
  signatureLine := []
  fileName := "No file loaded."
  fileHash := []
  fileMode := false
  keyReadOnly := true
  signatureReadOnly := false
  chooseEnabled := false
  signEnabled := false
  verifyEnabled := false
  dialogs := []
  keys := []
  currentIndex := none

structure Use where
  message : Bytes
  fileMode : Bool
  loaded : Option Bytes

inductive Call where
  | signed (use : Use) (publicKey : PublicKey) (signature : Signature)
  | verified (use : Use) (publicKey : PublicKey) (signature : Signature) (accepted : Bool)

def Call.use : Call → Use
  | .signed use _ _ => use
  | .verified use _ _ _ => use

/-- The widget, the content of the file loaded last, and the calls so far. -/
structure SignRun where
  widget : SignWidget
  loaded : Option Bytes
  calls : List Call

namespace SignRun

def initial : SignRun := ⟨.initial, none, []⟩

def update (run : SignRun) (change : SignWidget → SignWidget) : SignRun :=
  { run with widget := change run.widget }

def toStatusBar (run : SignRun) (message : String) : SignRun :=
  run.update ({ · with statusBar := message })

def activateSignMode (run : SignRun) : SignRun :=
  run.update (fun widget => { widget with
    operatingKeyLine := []
    signatureLine := []
    statusBar := if widget.keys = [] then "Sign mode activated. No private keys! Generate first!"
      else "Sign mode activated."
    chooseEnabled := true
    keyReadOnly := true
    signatureReadOnly := true
    verifyEnabled := false })

def activateVerificationMode (run : SignRun) : SignRun :=
  run.update (fun widget => { widget with
    statusBar := "Verification mode activated."
    chooseEnabled := false
    keyReadOnly := false
    signatureReadOnly := false
    signEnabled := false
    verifyEnabled := true
    operatingKeyLine := ascii "Insert public key to verify signature..." })

def activateFileMode (run : SignRun) : CheckState → SignRun
  | .unchecked => run.update ({ · with
      fileMode := false
      statusBar := "File mode deactivated. Type message to sign/verify." })
  | .checked => run.update ({ · with
      fileMode := true
      statusBar := "File mode activated. Load file to sign/verify." })
  | .partiallyChecked => run

def chooseSigningKey (run : SignRun) : SignRun :=
  if run.widget.keys = [] then run
  else run.update (fun widget => { widget with dialogs := widget.dialogs ++ [false] })

/-- A click in the list of the dialog selects a row and enables every open
dialog's Ok button. -/
def signingKeyChosen (run : SignRun) (row : Nat) : SignRun :=
  run.update (fun widget => { widget with
    currentIndex := some row
    dialogs := widget.dialogs.map (fun _ => true) })

/-- Ok in one of the dialogs, which closes it. -/
def setSigningKey (run : SignRun) (dialog : Nat) : SignRun :=
  run.update (fun widget => { widget with
    operatingKeyLine := KeyListModel.data widget.keys widget.currentIndex
    statusBar := "New operating key has been selected."
    signEnabled := true
    dialogs := widget.dialogs.eraseIdx dialog })

/-- The file dialog's answer: no name, or a name and the content if the file
can be opened. `std::copy` runs from `fileHash_` to the new hash. -/
def loadDataFromFile (calculateHash : Bytes → Hash) (run : SignRun) (fileName : String)
    (content : Option Bytes) : SignRun :=
  if fileName = "" then run.toStatusBar "File was not selected!"
  else
    match content with
    | none => run.toStatusBar "Unable to open file!"
    | some data =>
        let hash := calculateHash data
        let fileHash := run.widget.fileHash.take kHashSize ++
          List.replicate (kHashSize - run.widget.fileHash.length) 0
        let _hash := fileHash ++ hash.bytes.drop fileHash.length
        { run.update ({ · with fileHash, statusBar := "File was loaded!", fileName }) with
          loaded := some data }

def message (run : SignRun) : Bytes :=
  if run.widget.fileMode then run.widget.fileHash else run.widget.signingMsg

def use (run : SignRun) : Use := ⟨run.message, run.widget.fileMode, run.loaded⟩

def signMsg (sodium : Sodium) (run : SignRun) : Except Fault SignRun :=
  if run.message = [] then .ok (run.toStatusBar "Signing message is empty! Type it.")
  else do
    let pair := KeyListModel.getKeyPair run.widget.keys run.widget.currentIndex
    let signature ← generateSignature sodium pair.2 run.message
    .ok { run.update ({ · with
        signatureLine := EncodeBase58 signature.bytes
        statusBar := "Message signed. New signature has been generated." }) with
      calls := run.calls ++ [.signed run.use pair.1 signature] }

def decodeArray (size : Nat) (text : Bytes) : Option (ByteArray size) :=
  match DecodeBase58 text with
  | none => none
  | some bytes => if same : bytes.length = size then some ⟨bytes, same⟩ else none

/-- An empty key is reported but does not end the function. -/
def verifySignature (sodium : Sodium) (run : SignRun) : SignRun :=
  if run.widget.signatureLine = [] then
    run.toStatusBar "No singature to verify! Insert signature first!"
  else if run.message = [] then run.toStatusBar "Message is empty! Nothing to verify!"
  else
    let run := if run.widget.operatingKeyLine = [] then
      run.toStatusBar "No public key provided! Insert verification key firts!" else run
    match decodeArray kSignatureSize run.widget.signatureLine with
    | none => run.toStatusBar "Incorrect signature!"
    | some signature =>
        match decodeArray kPublicKeySize run.widget.operatingKeyLine with
        | none => run.toStatusBar "Incorrect signature!"
        | some key =>
            let accepted := Cscrypto.verifySignature sodium signature key run.message
            { run.toStatusBar (if accepted then "Correct signature!"
              else "Incorrect signature!") with
              calls := run.calls ++ [.verified run.use key signature accepted] }

end SignRun

inductive SignEvent where
  | activateSignMode
  | activateVerificationMode
  | activateFileMode (value : CheckState)
  | chooseSigningKey
  | moveCurrentIndex (row : Nat)
  | signingKeyChosen (row : Nat)
  | setSigningKey (dialog : Nat)
  | closeDialog (dialog : Nat)
  | editMessage (text : Bytes)
  | editSignature (text : Bytes)
  | editKey (text : Bytes)
  | loadDataFromFile (fileName : String) (content : Option Bytes)
  | signMsg
  | verifySignature
  | addKeyPair (pair : KeyPair)

section

variable (calculateHash : Bytes → Hash) (sodium : Sodium)

/-- One event. Buttons and fields that are disabled, hidden or read-only do not
react, and the keyboard moves the current row of the list without a click. -/
def SignRun.step (run : SignRun) : SignEvent → Except Fault SignRun
  | .activateSignMode => .ok run.activateSignMode
  | .activateVerificationMode => .ok run.activateVerificationMode
  | .activateFileMode value => .ok (run.activateFileMode value)
  | .chooseSigningKey => .ok (if run.widget.chooseEnabled then run.chooseSigningKey else run)
  | .moveCurrentIndex row =>
      .ok (if run.widget.dialogs ≠ [] ∧ row < run.widget.keys.length then
          run.update ({ · with currentIndex := some row })
        else run)
  | .signingKeyChosen row =>
      .ok (if run.widget.dialogs ≠ [] ∧ row < run.widget.keys.length then run.signingKeyChosen row
        else run)
  | .setSigningKey dialog =>
      .ok (if run.widget.dialogs[dialog]? = some true then run.setSigningKey dialog else run)
  | .closeDialog dialog =>
      .ok (run.update (fun widget => { widget with dialogs := widget.dialogs.eraseIdx dialog }))
  | .editMessage text =>
      .ok (if run.widget.fileMode then run else run.update ({ · with signingMsg := text }))
  | .editSignature text =>
      .ok (if run.widget.signatureReadOnly then run
          else run.update ({ · with signatureLine := text }))
  | .editKey text =>
      .ok (if run.widget.keyReadOnly then run else run.update ({ · with operatingKeyLine := text }))
  | .loadDataFromFile fileName content =>
      .ok (if run.widget.fileMode then run.loadDataFromFile calculateHash fileName content else run)
  | .signMsg => if run.widget.signEnabled then run.signMsg sodium else .ok run
  | .verifySignature => .ok (if run.widget.verifyEnabled then run.verifySignature sodium else run)
  | .addKeyPair pair => .ok (run.update (fun widget =>
      { widget with keys := widget.keys ++ [pair] }))

def SignRun.steps (run : SignRun) (events : List SignEvent) : Except Fault SignRun :=
  events.foldlM (fun run event => run.step calculateHash sodium event) run

end

inductive SignRun.Effect (run run' : SignRun) : Prop where
  | kept (fileHash : run'.widget.fileHash = run.widget.fileHash) (loaded : run'.loaded = run.loaded)
      (calls : run'.calls = run.calls)
  | load (content : Bytes) (fileHash : run'.widget.fileHash = run.widget.fileHash.take kHashSize ++
        List.replicate (kHashSize - run.widget.fileHash.length) 0)
      (loaded : run'.loaded = some content) (calls : run'.calls = run.calls)
  | call (call : Call) (used : call.use = run.use) (nonempty : run.message ≠ [])
      (fileHash : run'.widget.fileHash = run.widget.fileHash) (loaded : run'.loaded = run.loaded)
      (calls : run'.calls = run.calls ++ [call])

theorem SignRun.Effect.of_ite {run left right : SignRun} {condition : Prop} [Decidable condition]
    (yes : Effect run left) (no : Effect run right) :
    Effect run (if condition then left else right) := by
  split
  · exact yes
  · exact no

theorem SignRun.loadDataFromFile_effect (calculateHash : Bytes → Hash) (run : SignRun)
    (fileName : String) (content : Option Bytes) :
    Effect run (run.loadDataFromFile calculateHash fileName content) := by
  unfold loadDataFromFile
  split
  · exact .kept rfl rfl rfl
  · cases content with
    | none => exact .kept rfl rfl rfl
    | some data => exact .load data rfl rfl rfl

theorem SignRun.signMsg_effect {sodium : Sodium} {run run' : SignRun}
    (ran : run.signMsg sodium = .ok run') : Effect run run' := by
  unfold signMsg at ran
  split at ran
  · cases ran
    exact .kept rfl rfl rfl
  · obtain ⟨signature, _, ran⟩ := bind_eq_ok.mp ran
    cases ran
    exact .call _ rfl ‹_› rfl rfl rfl

theorem SignRun.verifySignature_effect (sodium : Sodium) (run : SignRun) :
    Effect run (run.verifySignature sodium) := by
  unfold verifySignature
  split
  · exact .kept rfl rfl rfl
  split
  · exact .kept rfl rfl rfl
  · rename_i nonempty
    split
    all_goals
      dsimp only
      split
      · exact .kept rfl rfl rfl
      split
      · exact .kept rfl rfl rfl
      · exact .call _ rfl nonempty rfl rfl rfl

theorem SignRun.step_effect {calculateHash : Bytes → Hash} {sodium : Sodium} {run run' : SignRun}
    {event : SignEvent} (ran : run.step calculateHash sodium event = .ok run') :
    Effect run run' := by
  have idle : Effect run run := .kept rfl rfl rfl
  cases event with
  | signMsg =>
      simp only [step] at ran
      split at ran
      · exact signMsg_effect ran
      · cases ran
        exact idle
  | activateFileMode value =>
      cases ran
      cases value with
      | unchecked => exact .kept rfl rfl rfl
      | checked => exact .kept rfl rfl rfl
      | partiallyChecked => exact idle
  | loadDataFromFile fileName content =>
      cases ran
      exact .of_ite (loadDataFromFile_effect calculateHash run fileName content) idle
  | verifySignature =>
      cases ran
      exact .of_ite (verifySignature_effect sodium run) idle
  | chooseSigningKey =>
      cases ran
      exact .of_ite (.of_ite idle (.kept rfl rfl rfl)) idle
  | activateSignMode =>
      cases ran
      exact .kept rfl rfl rfl
  | activateVerificationMode =>
      cases ran
      exact .kept rfl rfl rfl
  | moveCurrentIndex row =>
      cases ran
      exact .of_ite (.kept rfl rfl rfl) idle
  | signingKeyChosen row =>
      cases ran
      exact .of_ite (.kept rfl rfl rfl) idle
  | setSigningKey dialog =>
      cases ran
      exact .of_ite (.kept rfl rfl rfl) idle
  | closeDialog dialog =>
      cases ran
      exact .kept rfl rfl rfl
  | editMessage text =>
      cases ran
      exact .of_ite idle (.kept rfl rfl rfl)
  | editSignature text =>
      cases ran
      exact .of_ite idle (.kept rfl rfl rfl)
  | editKey text =>
      cases ran
      exact .of_ite idle (.kept rfl rfl rfl)
  | addKeyPair pair =>
      cases ran
      exact .kept rfl rfl rfl

/-- The stored hash is all zeros as soon as a file was loaded, and so is every
message that was signed or verified in file mode. -/
structure SignRun.Invariant (run : SignRun) : Prop where
  file : (run.loaded = none ∧ run.widget.fileHash = []) ∨
    ((∃ content, run.loaded = some content) ∧ run.widget.fileHash = List.replicate kHashSize 0)
  calls : ∀ call ∈ run.calls, call.use.fileMode = true →
    (∃ content, call.use.loaded = some content) ∧ call.use.message = List.replicate kHashSize 0

theorem SignRun.Invariant.step {run run' : SignRun} (invariant : Invariant run)
    (effect : Effect run run') : Invariant run' := by
  cases effect with
  | kept fileHash loaded calls =>
      exact ⟨by rw [fileHash, loaded]; exact invariant.file, by rw [calls]; exact invariant.calls⟩
  | load content fileHash loaded calls =>
      refine ⟨.inr ⟨⟨content, loaded⟩, ?_⟩, by rw [calls]; exact invariant.calls⟩
      rw [fileHash]
      rcases invariant.file with ⟨_, before⟩ | ⟨_, before⟩ <;> rw [before] <;> rfl
  | call call used nonempty fileHash loaded calls =>
      refine ⟨by rw [fileHash, loaded]; exact invariant.file, ?_⟩
      intro other member inFile
      rw [calls, List.mem_append, List.mem_singleton] at member
      rcases member with earlier | rfl
      · exact invariant.calls other earlier inFile
      · rw [used] at inFile ⊢
        have fileMode : run.widget.fileMode = true := inFile
        have message : run.message = run.widget.fileHash := if_pos fileMode
        rcases invariant.file with ⟨_, before⟩ | ⟨loaded, before⟩
        · exact absurd (message.trans before) nonempty
        · exact ⟨loaded, message.trans before⟩

theorem SignRun.invariant_steps {calculateHash : Bytes → Hash} {sodium : Sodium}
    {events : List SignEvent} {run : SignRun}
    (ran : SignRun.initial.steps calculateHash sodium events = .ok run) : Invariant run :=
  foldlM_preserves (fun _ _ _ invariant stepped => invariant.step (step_effect stepped))
    ⟨.inl ⟨rfl, rfl⟩, fun _ member => absurd member List.not_mem_nil⟩ ran

/-- In file mode the message is the hash of the file loaded last, and a
signature made after one file is accepted after another one only if the two
have the same hash. -/
structure BindsContent (calculateHash : Bytes → Hash) (calls : List Call) : Prop where
  message : ∀ call ∈ calls, call.use.fileMode = true →
    ∃ content, call.use.loaded = some content ∧ call.use.message = (calculateHash content).bytes
  signatures : ∀ left right publicKey signature, .signed left publicKey signature ∈ calls →
    .verified right publicKey signature true ∈ calls → left.fileMode = true →
    right.fileMode = true →
    (left.loaded.map calculateHash) = right.loaded.map calculateHash

/-- `loadDataFromFile` copies in the wrong direction, so that only files whose
hash is the zero hash are bound. -/
theorem bindsContent_iff (calculateHash : Bytes → Hash) (sodium : Sodium) (events : List SignEvent)
    {run : SignRun} (ran : SignRun.initial.steps calculateHash sodium events = .ok run) :
    BindsContent calculateHash run.calls ↔
      ∀ call ∈ run.calls, call.use.fileMode = true → ∀ content, call.use.loaded = some content →
        calculateHash content = .replicate kHashSize 0 := by
  have invariant := SignRun.invariant_steps ran
  constructor
  · intro binds call member inFile content loaded
    obtain ⟨other, same, message⟩ := binds.message call member inFile
    cases loaded.symm.trans same
    exact ByteArray.ext_bytes (message.symm.trans (invariant.calls call member inFile).2)
  · intro zero
    refine ⟨?_, ?_⟩
    · intro call member inFile
      obtain ⟨⟨content, loaded⟩, message⟩ := invariant.calls call member inFile
      exact ⟨content, loaded, by rw [zero call member inFile content loaded]; exact message⟩
    · intro left right publicKey signature signed verified leftFile rightFile
      obtain ⟨⟨leftContent, leftLoaded⟩, _⟩ := invariant.calls _ signed leftFile
      obtain ⟨⟨rightContent, rightLoaded⟩, _⟩ := invariant.calls _ verified rightFile
      have leftLoaded' : left.loaded = some leftContent := leftLoaded
      have rightLoaded' : right.loaded = some rightContent := rightLoaded
      rw [leftLoaded', rightLoaded', Option.map_some, Option.map_some,
        zero _ signed leftFile leftContent leftLoaded,
        zero _ verified rightFile rightContent rightLoaded]

def signTwoFiles : List SignEvent := [
  .addKeyPair (.replicate 32 1, .holding (.replicate 64 1)), .activateSignMode, .chooseSigningKey,
  .signingKeyChosen 0, .setSigningKey 0, .activateFileMode .checked,
  .loadDataFromFile "empty.txt" (some []), .signMsg,
  .loadDataFromFile "abc.txt" (some [97, 98, 99]), .signMsg]

/-- BLAKE2s-256 of the empty string and of `abc`. -/
def hashOfSample (data : Bytes) : Hash :=
  if data = [97, 98, 99] then
    ⟨[80, 140, 94, 140, 50, 124, 20, 226, 225, 167, 43, 163, 78, 235, 69, 47,
      55, 69, 139, 32, 158, 214, 58, 41, 77, 153, 155, 76, 134, 103, 89, 130], rfl⟩
  else
    ⟨[105, 33, 122, 48, 121, 144, 128, 148, 225, 17, 33, 208, 66, 53, 74, 124,
      31, 85, 182, 72, 44, 161, 165, 30, 27, 37, 13, 253, 30, 208, 238, 249], rfl⟩

theorem bindsContent_iff_signTwoFiles :
    ∃ run, SignRun.initial.steps hashOfSample .transparent signTwoFiles = .ok run ∧
      (BindsContent hashOfSample run.calls ↔
        ∀ call ∈ run.calls, call.use.fileMode = true → ∀ content, call.use.loaded = some content →
          hashOfSample content = .replicate kHashSize 0) :=
  ⟨_, rfl, bindsContent_iff hashOfSample .transparent signTwoFiles rfl⟩

theorem signed_files_not_bound :
    ∃ run, SignRun.initial.steps hashOfSample .transparent signTwoFiles = .ok run ∧
      run.calls.map (fun call => (call.use.loaded, call.use.message)) =
        [(some [], List.replicate 32 0), (some [97, 98, 99], List.replicate 32 0)] ∧
      ¬BindsContent hashOfSample run.calls := by
  refine ⟨_, rfl, rfl, ?_⟩
  intro binds
  obtain ⟨content, loaded, message⟩ := binds.message _ List.mem_cons_self rfl
  cases loaded
  contradiction

end Cscrypto.Gui
