import Cscrypto.Data.History
import Cscrypto.Data.Run
import Cscrypto.Gui.CipherWidget

namespace Cscrypto.Gui

open Cscrypto.Base58 Cscrypto.Cipher Cscrypto.Data

/-! # The window of the file cipher

Every slot of `CipherWidget` with the parts of the window that the slots show,
hide and enable, over any run of events.  The two lists of keys are filled from
outside.
-/

/-- A combo box over a list of keys. -/
structure ComboBox where
  model : List Bytes
  index : Option Nat
  visible : Bool

namespace ComboBox

def empty : ComboBox := ⟨[], none, false⟩

def currentText (box : ComboBox) : Bytes := (box.index.bind (box.model[·]?)).getD []

/-- A new last row of the model. The first row of an empty combo box becomes
the current one. -/
def insertRow (box : ComboBox) (text : Bytes) : ComboBox :=
  { box with
    model := box.model ++ [text]
    index := if box.model = [] then some 0 else box.index }

def setVisible (box : ComboBox) (visible : Bool) : ComboBox := { box with visible }

/-- The user selects a row of a combo box that is on the screen. -/
def choose (box : ComboBox) (row : Nat) : ComboBox :=
  if box.visible && row < box.model.length then { box with index := some row } else box

end ComboBox

/-- The two radio buttons. -/
inductive Mode where
  | encryption
  | decryption
deriving DecidableEq

structure CipherWindow where
  sourceFileLbl : Path
  targetFileLbl : Path
  sourceFileLoaded : Bool
  targetFileLoaded : Bool
  encryptionMode : Bool
  decryptionMode : Bool
  startEnabled : Bool
  useKeysEnabled : Bool
  useKeysCheckBox : CheckState
  encKeysComboBox : ComboBox
  decKeysComboBox : ComboBox
  pswdLineEdit : Bytes
  pswdVisible : Bool
  statusBar : String

/-- What reaches the window. The name that a file dialog returns is empty when
the user cancels it. -/
inductive CipherEvent where
  | getSrcFileName (fileName : Path)
  | getTrgFileName (fileName : Path)
  | activateEncryptionMode
  | activateDecryptionMode
  | clickUseKeys
  | chooseEncKey (row : Nat)
  | chooseDecKey (row : Nat)
  | typePassword (text : Bytes)
  | newKeys (b58SendSk b58ReceiveSk : Bytes)
  | changeFiles (disk : Disk)
  | start (header stack : Header) (fuel : Nat)

namespace CipherWindow

def initial : CipherWindow where
  sourceFileLbl := "No source file loaded"
  targetFileLbl := "No target file loaded"
  sourceFileLoaded := false
  targetFileLoaded := false
  encryptionMode := false
  decryptionMode := false
  startEnabled := false
  useKeysEnabled := false
  useKeysCheckBox := .unchecked
  encKeysComboBox := .empty
  decKeysComboBox := .empty
  pswdLineEdit := []
  pswdVisible := true
  statusBar := ""

def toStatusBar (window : CipherWindow) (message : String) : CipherWindow :=
  { window with statusBar := message }

def canStart (window : CipherWindow) (enabled : Bool) : CipherWindow :=
  { window with startEnabled := enabled }

def getSrcFileName (window : CipherWindow) (fileName : Path) : CipherWindow :=
  if fileName = "" then
    ({ window with
      sourceFileLbl := "No source file loaded"
      sourceFileLoaded := false }.toStatusBar "No file selected!").canStart false
  else
    let window := { window with sourceFileLbl := fileName, sourceFileLoaded := true }
    if window.targetFileLoaded && (window.encryptionMode || window.decryptionMode) then
      window.canStart true
    else window

def getTrgFileName (window : CipherWindow) (fileName : Path) : CipherWindow :=
  if fileName = "" then
    ({ window with
      targetFileLbl := "No target file loaded"
      targetFileLoaded := false }.toStatusBar "No file selected!").canStart false
  else
    let window := { window with targetFileLbl := fileName, targetFileLoaded := true }
    if window.sourceFileLoaded && (window.encryptionMode || window.decryptionMode) then
      window.canStart true
    else window

def analyzeUseKeysStatus (window : CipherWindow) : CheckState → CipherWindow
  | .checked =>
      let window := { window with pswdVisible := false }
      if window.encryptionMode then
        { window with
          encKeysComboBox := window.encKeysComboBox.setVisible true
          decKeysComboBox := window.decKeysComboBox.setVisible false }
      else if window.decryptionMode then
        { window with
          encKeysComboBox := window.encKeysComboBox.setVisible false
          decKeysComboBox := window.decKeysComboBox.setVisible true }
      else window.toStatusBar "Check mode to start encryption / decryption!"
  | _ => { window with
      pswdVisible := true
      encKeysComboBox := window.encKeysComboBox.setVisible false
      decKeysComboBox := window.decKeysComboBox.setVisible false }

def setMode (window : CipherWindow) (mode : Mode) : CipherWindow :=
  { window with encryptionMode := mode = .encryption, decryptionMode := mode = .decryption }

/-- The slots of the two radio buttons. -/
def activateMode (window : CipherWindow) (mode : Mode) (message : String) : CipherWindow :=
  let window := (window.toStatusBar message).setMode mode
  let window := window.analyzeUseKeysStatus window.useKeysCheckBox
  if window.targetFileLoaded && window.sourceFileLoaded then window.canStart true else window

def activateEncryptionMode (window : CipherWindow) : CipherWindow :=
  window.activateMode .encryption "Encryption mode activated."

def activateDecryptionMode (window : CipherWindow) : CipherWindow :=
  window.activateMode .decryption "Decryption mode activated."

/-- `stateChanged` is emitted for a new state only. -/
def setCheckState (window : CipherWindow) (state : CheckState) : CipherWindow :=
  if state = window.useKeysCheckBox then window
  else { window with useKeysCheckBox := state }.analyzeUseKeysStatus state

def updateUseKeysCheckBox (window : CipherWindow) : CipherWindow :=
  if window.encKeysComboBox.model.length > 0 then { window with useKeysEnabled := true }
  else { window with useKeysEnabled := false }.setCheckState .unchecked

/-- `KeyExchangeWidget` adds a row to the first list, which reports its data
changed, and then one to the second. -/
def newKeys (window : CipherWindow) (b58SendSk b58ReceiveSk : Bytes) : CipherWindow :=
  let window := { window with encKeysComboBox := window.encKeysComboBox.insertRow b58SendSk }
  let window := window.updateUseKeysCheckBox
  { window with decKeysComboBox := window.decKeysComboBox.insertRow b58ReceiveSk }

/-- A click on the check box, which has two states for the user. -/
def clickUseKeys (window : CipherWindow) : CipherWindow :=
  if window.useKeysEnabled then
    window.setCheckState (if window.useKeysCheckBox = .unchecked then .checked else .unchecked)
  else window

/-- The part of the window that `start` reads. -/
def widget (window : CipherWindow) : CipherWidget where
  useKeysCheckBox := window.useKeysCheckBox
  pswdLineEdit := window.pswdLineEdit
  encryptionMode := window.encryptionMode
  decryptionMode := window.decryptionMode
  encKeysComboBox := window.encKeysComboBox.currentText
  decKeysComboBox := window.decKeysComboBox.currentText
  targetFileLbl := window.targetFileLbl
  sourceFileLbl := window.sourceFileLbl
  statusBar := window.statusBar

def start (lib : CipherLib) (window : CipherWindow) (disk : Disk) :
    Except Fault (CipherWindow × Disk) := do
  let (widget, disk) ← window.widget.start lib disk
  return (window.toStatusBar widget.statusBar, disk)

end CipherWindow

/-- The window and the files, which other programs change too. -/
structure CipherRun where
  window : CipherWindow
  disk : Disk

namespace CipherRun

def initial (disk : Disk) : CipherRun := ⟨.initial, disk⟩

def update (run : CipherRun) (change : CipherWindow → CipherWindow) : CipherRun :=
  { run with window := change run.window }

/-- One event. A disabled button and a hidden field do not react. -/
def step (lib : CipherLib) (run : CipherRun) : CipherEvent → Except Fault CipherRun
  | .getSrcFileName fileName => .ok (run.update (·.getSrcFileName fileName))
  | .getTrgFileName fileName => .ok (run.update (·.getTrgFileName fileName))
  | .activateEncryptionMode => .ok (run.update (·.activateEncryptionMode))
  | .activateDecryptionMode => .ok (run.update (·.activateDecryptionMode))
  | .clickUseKeys => .ok (run.update (·.clickUseKeys))
  | .chooseEncKey row => .ok (run.update (fun window =>
      { window with encKeysComboBox := window.encKeysComboBox.choose row }))
  | .chooseDecKey row => .ok (run.update (fun window =>
      { window with decKeysComboBox := window.decKeysComboBox.choose row }))
  | .typePassword text => .ok (run.update (fun window =>
      if window.pswdVisible then { window with pswdLineEdit := text } else window))
  | .newKeys b58SendSk b58ReceiveSk => .ok (run.update (·.newKeys b58SendSk b58ReceiveSk))
  | .changeFiles disk => .ok { run with disk }
  | .start header stack fuel =>
      if run.window.startEnabled then do
        let (window, disk) ← run.window.start { lib with header, stack, fuel } run.disk
        return ⟨window, disk⟩
      else .ok run

def steps (lib : CipherLib) (run : CipherRun) (events : List CipherEvent) :
    Except Fault CipherRun :=
  events.foldlM (step lib) run

end CipherRun

/-- What `start` is to do. -/
structure Task where
  source : Path
  target : Path
  mode : Mode

namespace CipherEvent

def source? : CipherEvent → Option Path
  | .getSrcFileName fileName => some fileName
  | _ => none

def target? : CipherEvent → Option Path
  | .getTrgFileName fileName => some fileName
  | _ => none

def mode? : CipherEvent → Option Mode
  | .activateEncryptionMode => some .encryption
  | .activateDecryptionMode => some .decryption
  | _ => none

def row? (mode : Mode) : CipherEvent → Option Bytes
  | .newKeys b58SendSk b58ReceiveSk =>
      some (match mode with | .encryption => b58SendSk | .decryption => b58ReceiveSk)
  | _ => none

end CipherEvent

/-- The name chosen last, unless that choice was cancelled. -/
def chosenName (select : CipherEvent → Option Path) (past : List CipherEvent) : Option Path :=
  (latest select past).filter (· ≠ "")

def taskOf (past : List CipherEvent) : Option Task := do
  let source ← chosenName CipherEvent.source? past
  let target ← chosenName CipherEvent.target? past
  let mode ← latest CipherEvent.mode? past
  return ⟨source, target, mode⟩

/-- The rows that one of the two lists has received. -/
def rowsOf (mode : Mode) (past : List CipherEvent) : List Bytes :=
  past.filterMap (CipherEvent.row? mode)

theorem chosenName_concat (select : CipherEvent → Option Path) (past : List CipherEvent)
    (event : CipherEvent) : chosenName select (past ++ [event]) =
      match select event with
      | some fileName => if fileName = "" then none else some fileName
      | none => chosenName select past := by
  rw [chosenName, latest_concat]
  cases select event with
  | none => rfl
  | some fileName => simp [Option.filter_some]

theorem rowsOf_concat (mode : Mode) (past : List CipherEvent) (event : CipherEvent) :
    rowsOf mode (past ++ [event]) = rowsOf mode past ++ (event.row? mode).toList := by
  rw [rowsOf, List.filterMap_append, rowsOf]
  cases selected : event.row? mode with
  | none => simp [selected]
  | some row => simp [selected]

/-- The two lists grow together. -/
theorem rowsOf_eq_nil {mode other : Mode} {past : List CipherEvent}
    (empty : rowsOf mode past = []) : rowsOf other past = [] := by
  rw [rowsOf, List.filterMap_eq_nil_iff] at empty ⊢
  intro event member
  have silent := empty event member
  cases event <;> simp_all [CipherEvent.row?]

/-- A combo box with rows has a current one. -/
def ComboBox.Selects (box : ComboBox) : Prop :=
  box.model ≠ [] → ∃ row, box.index = some row ∧ row < box.model.length

theorem ComboBox.empty_selects : empty.Selects := fun rows => absurd rfl rows

theorem ComboBox.insertRow_selects {box : ComboBox} (selects : box.Selects) (text : Bytes) :
    (box.insertRow text).Selects := by
  intro _
  simp only [insertRow, List.length_append, List.length_singleton]
  by_cases rows : box.model = []
  · exact ⟨0, if_pos rows, Nat.succ_pos _⟩
  · obtain ⟨row, current, below⟩ := selects rows
    exact ⟨row, (if_neg rows).trans current, Nat.lt_succ_of_lt below⟩

theorem ComboBox.choose_selects {box : ComboBox} (selects : box.Selects) (row : Nat) :
    (box.choose row).Selects := by
  unfold choose
  split
  · rename_i chosen
    exact fun _ => ⟨row, rfl, of_decide_eq_true (Bool.and_eq_true_iff.mp chosen).2⟩
  · exact selects

@[simp] theorem ComboBox.choose_model (box : ComboBox) (row : Nat) :
    (box.choose row).model = box.model := by
  unfold choose
  split <;> rfl

@[simp] theorem ComboBox.choose_visible (box : ComboBox) (row : Nat) :
    (box.choose row).visible = box.visible := by
  unfold choose
  split <;> rfl

theorem ComboBox.choose_currentText {box : ComboBox} {row : Nat} {text : Bytes}
    (visible : box.visible = true) (listed : box.model[row]? = some text) :
    (box.choose row).currentText = text := by
  obtain ⟨below, same⟩ := List.getElem?_eq_some_iff.mp listed
  simp [choose, currentText, visible, below, same]

theorem ComboBox.Selects.currentText_mem {box : ComboBox} (selects : box.Selects)
    (rows : box.model ≠ []) : box.currentText ∈ box.model := by
  obtain ⟨row, current, below⟩ := selects rows
  rw [currentText, current, Option.bind_some, List.getElem?_eq_getElem below, Option.getD_some]
  exact List.getElem_mem below

namespace CipherWindow

/-- The files, the mode and the button follow from what has been chosen. -/
structure Follows (past : List CipherEvent) (window : CipherWindow) : Prop where
  source : window.sourceFileLoaded = (chosenName CipherEvent.source? past).isSome
  sourceLbl : window.sourceFileLbl =
    (chosenName CipherEvent.source? past).getD "No source file loaded"
  target : window.targetFileLoaded = (chosenName CipherEvent.target? past).isSome
  targetLbl : window.targetFileLbl =
    (chosenName CipherEvent.target? past).getD "No target file loaded"
  encryption : window.encryptionMode = decide (latest CipherEvent.mode? past = some .encryption)
  decryption : window.decryptionMode = decide (latest CipherEvent.mode? past = some .decryption)
  start : window.startEnabled = (window.sourceFileLoaded && window.targetFileLoaded &&
    (window.encryptionMode || window.decryptionMode))

/-- The field that is shown is the one that `start` takes the key from. -/
structure Shows (window : CipherWindow) : Prop where
  modes : window.encryptionMode = true → window.decryptionMode = false
  states : window.useKeysCheckBox = .unchecked ∨ window.useKeysCheckBox = .checked
  pswd : window.pswdVisible = decide (window.useKeysCheckBox = .unchecked)
  enc : window.encKeysComboBox.visible =
    (decide (window.useKeysCheckBox = .checked) && window.encryptionMode)
  dec : window.decKeysComboBox.visible =
    (decide (window.useKeysCheckBox = .checked) && window.decryptionMode)

/-- The lists hold what was added, and the check box can be clicked when there
are rows and checked only then. -/
structure Lists (past : List CipherEvent) (window : CipherWindow) : Prop where
  encRows : window.encKeysComboBox.model = rowsOf .encryption past
  decRows : window.decKeysComboBox.model = rowsOf .decryption past
  encSelects : window.encKeysComboBox.Selects
  decSelects : window.decKeysComboBox.Selects
  enabled : window.useKeysEnabled = true ↔ rowsOf .encryption past ≠ []
  checked : window.useKeysCheckBox ≠ .unchecked → window.useKeysEnabled = true

theorem analyzeUseKeysStatus_eq (window : CipherWindow) (state : CheckState) :
    ∃ pswdVisible encVisible decVisible statusBar, window.analyzeUseKeysStatus state =
      { window with
        pswdVisible, statusBar
        encKeysComboBox := window.encKeysComboBox.setVisible encVisible
        decKeysComboBox := window.decKeysComboBox.setVisible decVisible } := by
  cases state with
  | unchecked => exact ⟨true, false, false, window.statusBar, rfl⟩
  | partiallyChecked => exact ⟨true, false, false, window.statusBar, rfl⟩
  | checked =>
      simp only [analyzeUseKeysStatus]
      split
      · exact ⟨false, true, false, window.statusBar, rfl⟩
      split
      · exact ⟨false, false, true, window.statusBar, rfl⟩
      · exact ⟨false, window.encKeysComboBox.visible, window.decKeysComboBox.visible, _, rfl⟩

/-- A check box in state `state`, and the right field, whatever was shown
before when a mode is active. -/
theorem analyzeUseKeysStatus_shows {window : CipherWindow} {state : CheckState}
    (current : window.useKeysCheckBox = state) (states : state = .unchecked ∨ state = .checked)
    (modes : window.encryptionMode = true → window.decryptionMode = false)
    (hidden : window.encryptionMode = false → window.decryptionMode = false →
      window.encKeysComboBox.visible = false ∧ window.decKeysComboBox.visible = false) :
    (window.analyzeUseKeysStatus state).Shows := by
  rcases states with rfl | rfl
  · exact ⟨modes, .inl current, by simp [analyzeUseKeysStatus, current],
      by simp [analyzeUseKeysStatus, ComboBox.setVisible, current],
      by simp [analyzeUseKeysStatus, ComboBox.setVisible, current]⟩
  · cases encryption : window.encryptionMode with
    | true =>
        have other := modes encryption
        constructor <;>
          simp [analyzeUseKeysStatus, ComboBox.setVisible, current, encryption, other]
    | false =>
        cases decryption : window.decryptionMode with
        | true =>
            constructor <;>
              simp [analyzeUseKeysStatus, ComboBox.setVisible, current, encryption, decryption]
        | false =>
            obtain ⟨enc, dec⟩ := hidden encryption decryption
            constructor <;>
              simp [analyzeUseKeysStatus, toStatusBar, current, encryption, decryption, enc, dec]

theorem setCheckState_eq (window : CipherWindow) (state : CheckState) :
    ∃ pswdVisible encVisible decVisible statusBar, window.setCheckState state =
      { window with
        useKeysCheckBox := state
        pswdVisible, statusBar
        encKeysComboBox := window.encKeysComboBox.setVisible encVisible
        decKeysComboBox := window.decKeysComboBox.setVisible decVisible } := by
  unfold setCheckState
  split
  · rename_i same
    subst same
    exact ⟨window.pswdVisible, window.encKeysComboBox.visible, window.decKeysComboBox.visible,
      window.statusBar, rfl⟩
  · exact analyzeUseKeysStatus_eq _ state

theorem Shows.setCheckState {window : CipherWindow} (shows : window.Shows) {state : CheckState}
    (states : state = .unchecked ∨ state = .checked) : (window.setCheckState state).Shows := by
  unfold CipherWindow.setCheckState
  split
  · exact shows
  · refine analyzeUseKeysStatus_shows rfl states shows.modes ?_
    intro encryption decryption
    exact ⟨by rw [shows.enc, encryption, Bool.and_false],
      by rw [shows.dec, decryption, Bool.and_false]⟩

theorem newKeys_eq (window : CipherWindow) (b58SendSk b58ReceiveSk : Bytes) :
    window.newKeys b58SendSk b58ReceiveSk = { window with
      useKeysEnabled := true
      encKeysComboBox := window.encKeysComboBox.insertRow b58SendSk
      decKeysComboBox := window.decKeysComboBox.insertRow b58ReceiveSk } := by
  have rows : (window.encKeysComboBox.insertRow b58SendSk).model.length > 0 := by
    simp [ComboBox.insertRow]
  simp only [newKeys, updateUseKeysCheckBox, rows, if_true]

theorem clickUseKeys_eq (window : CipherWindow) : window.clickUseKeys = window ∨
    (window.useKeysEnabled = true ∧ ∃ state, (state = .unchecked ∨ state = .checked) ∧
      window.clickUseKeys = window.setCheckState state) := by
  unfold clickUseKeys
  split
  · rename_i enabled
    refine .inr ⟨enabled, _, ?_, rfl⟩
    split
    · exact .inr rfl
    · exact .inl rfl
  · exact .inl rfl

theorem canStart_if (window : CipherWindow) (ready : Bool) :
    (if ready then window.canStart true else window) =
      { window with startEnabled := window.startEnabled || ready } := by
  cases ready with
  | true => simp [canStart]
  | false => simp

/-- Choosing a mode enables the button if both files are there. -/
theorem activateMode_eq (window : CipherWindow) (mode : Mode) (message : String) :
    ∃ pswdVisible encVisible decVisible statusBar, window.activateMode mode message =
      { window with
        encryptionMode := decide (mode = .encryption)
        decryptionMode := decide (mode = .decryption)
        startEnabled := window.startEnabled || (window.targetFileLoaded && window.sourceFileLoaded)
        pswdVisible, statusBar
        encKeysComboBox := window.encKeysComboBox.setVisible encVisible
        decKeysComboBox := window.decKeysComboBox.setVisible decVisible } := by
  obtain ⟨pswdVisible, encVisible, decVisible, statusBar, analyzed⟩ :=
    analyzeUseKeysStatus_eq ((window.toStatusBar message).setMode mode) window.useKeysCheckBox
  refine ⟨pswdVisible, encVisible, decVisible, statusBar, ?_⟩
  simp only [activateMode, canStart_if]
  dsimp only [toStatusBar, setMode] at analyzed ⊢
  rw [analyzed]

theorem Shows.activateMode {window : CipherWindow} (shows : window.Shows) (mode : Mode)
    (message : String) : (window.activateMode mode message).Shows := by
  have analyzed : (((window.toStatusBar message).setMode mode).analyzeUseKeysStatus
      window.useKeysCheckBox).Shows := by
    refine analyzeUseKeysStatus_shows rfl shows.states ?_ ?_
    · cases mode <;> simp [setMode]
    · cases mode <;> simp [setMode]
  simp only [CipherWindow.activateMode, canStart_if]
  exact ⟨analyzed.modes, analyzed.states, analyzed.pswd, analyzed.enc, analyzed.dec⟩

/-- Both file dialogs leave what is shown and listed alone. -/
theorem getSrcFileName_eq (window : CipherWindow) (fileName : Path) :
    ∃ statusBar, window.getSrcFileName fileName = { window with
      statusBar
      sourceFileLbl := if fileName = "" then "No source file loaded" else fileName
      sourceFileLoaded := decide (fileName ≠ "")
      startEnabled := decide (fileName ≠ "") && (window.startEnabled ||
        (window.targetFileLoaded && (window.encryptionMode || window.decryptionMode))) } := by
  unfold getSrcFileName
  split
  · rename_i cancelled
    exact ⟨"No file selected!", by simp [cancelled, toStatusBar, canStart]⟩
  · rename_i named
    simp only [canStart_if]
    exact ⟨window.statusBar, by simp [named]⟩

theorem getTrgFileName_eq (window : CipherWindow) (fileName : Path) :
    ∃ statusBar, window.getTrgFileName fileName = { window with
      statusBar
      targetFileLbl := if fileName = "" then "No target file loaded" else fileName
      targetFileLoaded := decide (fileName ≠ "")
      startEnabled := decide (fileName ≠ "") && (window.startEnabled ||
        (window.sourceFileLoaded && (window.encryptionMode || window.decryptionMode))) } := by
  unfold getTrgFileName
  split
  · rename_i cancelled
    exact ⟨"No file selected!", by simp [cancelled, toStatusBar, canStart]⟩
  · rename_i named
    simp only [canStart_if]
    exact ⟨window.statusBar, by simp [named]⟩

end CipherWindow

namespace CipherRun

variable {lib : CipherLib} {past : List CipherEvent} {run next : CipherRun}

/-- `start` changes nothing in the window but the message. -/
theorem step_start_window {header stack : Header} {fuel : Nat}
    (ran : run.step lib (.start header stack fuel) = .ok next) :
    ∃ statusBar, next.window = { run.window with statusBar } := by
  simp only [step] at ran
  split at ran
  · obtain ⟨⟨window, disk⟩, started, ran⟩ := bind_eq_ok.mp ran
    obtain ⟨⟨widget, disk'⟩, _, started⟩ := bind_eq_ok.mp started
    cases ran
    cases started
    exact ⟨widget.statusBar, rfl⟩
  · cases ran
    exact ⟨run.window.statusBar, rfl⟩

/-- An event that chooses neither a file nor a mode. -/
theorem follows_of_silent {window window' : CipherWindow} {event : CipherEvent}
    (follows : window.Follows past) (source : event.source? = none) (target : event.target? = none)
    (mode : event.mode? = none)
    (same : window' = { window with
      statusBar := window'.statusBar
      useKeysEnabled := window'.useKeysEnabled
      useKeysCheckBox := window'.useKeysCheckBox
      encKeysComboBox := window'.encKeysComboBox
      decKeysComboBox := window'.decKeysComboBox
      pswdLineEdit := window'.pswdLineEdit
      pswdVisible := window'.pswdVisible }) : window'.Follows (past ++ [event]) := by
  rw [same]
  constructor <;>
    simp only [chosenName_concat, latest_concat, source, target, mode, Option.none_or]
  · exact follows.source
  · exact follows.sourceLbl
  · exact follows.target
  · exact follows.targetLbl
  · exact follows.encryption
  · exact follows.decryption
  · exact follows.start

theorem activateMode_follows {window : CipherWindow} {event : CipherEvent} {mode : Mode}
    (follows : window.Follows past) (source : event.source? = none) (target : event.target? = none)
    (chosen : event.mode? = some mode) (message : String) :
    (window.activateMode mode message).Follows (past ++ [event]) := by
  obtain ⟨pswdVisible, encVisible, decVisible, statusBar, changed⟩ :=
    window.activateMode_eq mode message
  rw [changed]
  constructor <;>
    simp only [chosenName_concat, latest_concat, source, target, chosen, Option.some_or,
      Option.some.injEq]
  · exact follows.source
  · exact follows.sourceLbl
  · exact follows.target
  · exact follows.targetLbl
  · rw [follows.start]
    cases mode <;> simp <;> grind

theorem step_follows {event : CipherEvent} (follows : run.window.Follows past)
    (ran : run.step lib event = .ok next) : next.window.Follows (past ++ [event]) := by
  cases event with
  | getSrcFileName fileName =>
      cases ran
      obtain ⟨statusBar, changed⟩ := run.window.getSrcFileName_eq fileName
      simp only [update, changed]
      constructor <;> simp only [chosenName_concat, latest_concat, CipherEvent.source?,
        CipherEvent.target?, CipherEvent.mode?, Option.none_or]
      · by_cases cancelled : fileName = "" <;> simp [cancelled]
      · by_cases cancelled : fileName = "" <;> simp [cancelled]
      · exact follows.target
      · exact follows.targetLbl
      · exact follows.encryption
      · exact follows.decryption
      · rw [follows.start]
        by_cases cancelled : fileName = "" <;> simp [cancelled]
        grind
  | getTrgFileName fileName =>
      cases ran
      obtain ⟨statusBar, changed⟩ := run.window.getTrgFileName_eq fileName
      simp only [update, changed]
      constructor <;> simp only [chosenName_concat, latest_concat, CipherEvent.source?,
        CipherEvent.target?, CipherEvent.mode?, Option.none_or]
      · exact follows.source
      · exact follows.sourceLbl
      · by_cases cancelled : fileName = "" <;> simp [cancelled]
      · by_cases cancelled : fileName = "" <;> simp [cancelled]
      · exact follows.encryption
      · exact follows.decryption
      · rw [follows.start]
        by_cases cancelled : fileName = "" <;> simp [cancelled]
        grind
  | activateEncryptionMode =>
      cases ran
      exact activateMode_follows follows rfl rfl rfl _
  | activateDecryptionMode =>
      cases ran
      exact activateMode_follows follows rfl rfl rfl _
  | clickUseKeys =>
      cases ran
      refine follows_of_silent follows rfl rfl rfl ?_
      rcases run.window.clickUseKeys_eq with same | ⟨_, state, _, same⟩
      · simp only [update, same]
      · obtain ⟨pswdVisible, encVisible, decVisible, statusBar, changed⟩ :=
          run.window.setCheckState_eq state
        simp only [update, same, changed]
  | chooseEncKey row =>
      cases ran
      exact follows_of_silent follows rfl rfl rfl rfl
  | chooseDecKey row =>
      cases ran
      exact follows_of_silent follows rfl rfl rfl rfl
  | typePassword text =>
      cases ran
      refine follows_of_silent follows rfl rfl rfl ?_
      simp only [update]
      split <;> rfl
  | newKeys b58SendSk b58ReceiveSk =>
      cases ran
      refine follows_of_silent follows rfl rfl rfl ?_
      simp only [update, CipherWindow.newKeys_eq]
  | changeFiles disk =>
      cases ran
      exact follows_of_silent follows rfl rfl rfl rfl
  | start header stack fuel =>
      obtain ⟨statusBar, same⟩ := step_start_window ran
      exact follows_of_silent follows rfl rfl rfl (by rw [same])

theorem step_shows {event : CipherEvent} (shows : run.window.Shows)
    (ran : run.step lib event = .ok next) : next.window.Shows := by
  cases event with
  | getSrcFileName fileName =>
      cases ran
      obtain ⟨statusBar, changed⟩ := run.window.getSrcFileName_eq fileName
      simp only [update, changed]
      exact ⟨shows.modes, shows.states, shows.pswd, shows.enc, shows.dec⟩
  | getTrgFileName fileName =>
      cases ran
      obtain ⟨statusBar, changed⟩ := run.window.getTrgFileName_eq fileName
      simp only [update, changed]
      exact ⟨shows.modes, shows.states, shows.pswd, shows.enc, shows.dec⟩
  | activateEncryptionMode =>
      cases ran
      exact shows.activateMode .encryption _
  | activateDecryptionMode =>
      cases ran
      exact shows.activateMode .decryption _
  | clickUseKeys =>
      cases ran
      rcases run.window.clickUseKeys_eq with same | ⟨_, state, states, same⟩
      · simp only [update, same]
        exact shows
      · simp only [update, same]
        exact shows.setCheckState states
  | chooseEncKey row =>
      cases ran
      exact ⟨shows.modes, shows.states, shows.pswd,
        (ComboBox.choose_visible _ row).trans shows.enc, shows.dec⟩
  | chooseDecKey row =>
      cases ran
      exact ⟨shows.modes, shows.states, shows.pswd, shows.enc,
        (ComboBox.choose_visible _ row).trans shows.dec⟩
  | typePassword text =>
      cases ran
      simp only [update]
      split
      · exact ⟨shows.modes, shows.states, shows.pswd, shows.enc, shows.dec⟩
      · exact shows
  | newKeys b58SendSk b58ReceiveSk =>
      cases ran
      simp only [update, CipherWindow.newKeys_eq]
      exact ⟨shows.modes, shows.states, shows.pswd, shows.enc, shows.dec⟩
  | changeFiles disk =>
      cases ran
      exact shows
  | start header stack fuel =>
      obtain ⟨statusBar, same⟩ := step_start_window ran
      rw [same]
      exact ⟨shows.modes, shows.states, shows.pswd, shows.enc, shows.dec⟩

/-- An event without new keys, after which the same rows are there and selected. -/
theorem lists_of_silent {window window' : CipherWindow} {event : CipherEvent}
    (lists : window.Lists past) (silent : ∀ mode, event.row? mode = none)
    (enc : window'.encKeysComboBox.model = window.encKeysComboBox.model ∧
      window'.encKeysComboBox.Selects)
    (dec : window'.decKeysComboBox.model = window.decKeysComboBox.model ∧
      window'.decKeysComboBox.Selects)
    (enabled : window'.useKeysEnabled = window.useKeysEnabled)
    (checked : window'.useKeysCheckBox = window.useKeysCheckBox ∨
      window.useKeysEnabled = true) : window'.Lists (past ++ [event]) := by
  have rows : ∀ mode, rowsOf mode (past ++ [event]) = rowsOf mode past := by
    intro mode
    rw [rowsOf_concat, silent, Option.toList_none, List.append_nil]
  refine ⟨?_, ?_, enc.2, dec.2, ?_, ?_⟩
  · rw [rows]
    exact enc.1.trans lists.encRows
  · rw [rows]
    exact dec.1.trans lists.decRows
  · rw [rows, enabled]
    exact lists.enabled
  · intro state
    rw [enabled]
    rcases checked with same | enabled
    · exact lists.checked (same ▸ state)
    · exact enabled

theorem step_lists {event : CipherEvent} (lists : run.window.Lists past)
    (ran : run.step lib event = .ok next) : next.window.Lists (past ++ [event]) := by
  have enc := lists.encSelects
  have dec := lists.decSelects
  cases event with
  | getSrcFileName fileName =>
      cases ran
      obtain ⟨statusBar, changed⟩ := run.window.getSrcFileName_eq fileName
      simp only [update, changed]
      exact lists_of_silent lists (fun _ => rfl) ⟨rfl, enc⟩ ⟨rfl, dec⟩ rfl (.inl rfl)
  | getTrgFileName fileName =>
      cases ran
      obtain ⟨statusBar, changed⟩ := run.window.getTrgFileName_eq fileName
      simp only [update, changed]
      exact lists_of_silent lists (fun _ => rfl) ⟨rfl, enc⟩ ⟨rfl, dec⟩ rfl (.inl rfl)
  | activateEncryptionMode =>
      cases ran
      obtain ⟨pswdVisible, encVisible, decVisible, statusBar, changed⟩ :=
        run.window.activateMode_eq .encryption "Encryption mode activated."
      simp only [update, CipherWindow.activateEncryptionMode, changed]
      exact lists_of_silent lists (fun _ => rfl) ⟨rfl, enc⟩ ⟨rfl, dec⟩ rfl (.inl rfl)
  | activateDecryptionMode =>
      cases ran
      obtain ⟨pswdVisible, encVisible, decVisible, statusBar, changed⟩ :=
        run.window.activateMode_eq .decryption "Decryption mode activated."
      simp only [update, CipherWindow.activateDecryptionMode, changed]
      exact lists_of_silent lists (fun _ => rfl) ⟨rfl, enc⟩ ⟨rfl, dec⟩ rfl (.inl rfl)
  | clickUseKeys =>
      cases ran
      rcases run.window.clickUseKeys_eq with same | ⟨enabled, state, _, same⟩
      · simp only [update, same]
        exact lists_of_silent lists (fun _ => rfl) ⟨rfl, enc⟩ ⟨rfl, dec⟩ rfl (.inl rfl)
      · obtain ⟨pswdVisible, encVisible, decVisible, statusBar, changed⟩ :=
          run.window.setCheckState_eq state
        simp only [update, same, changed]
        exact lists_of_silent lists (fun _ => rfl) ⟨rfl, enc⟩ ⟨rfl, dec⟩ rfl (.inr enabled)
  | chooseEncKey row =>
      cases ran
      exact lists_of_silent lists (fun _ => rfl)
        ⟨ComboBox.choose_model _ row, ComboBox.choose_selects enc row⟩ ⟨rfl, dec⟩ rfl (.inl rfl)
  | chooseDecKey row =>
      cases ran
      exact lists_of_silent lists (fun _ => rfl) ⟨rfl, enc⟩
        ⟨ComboBox.choose_model _ row, ComboBox.choose_selects dec row⟩ rfl (.inl rfl)
  | typePassword text =>
      cases ran
      simp only [update]
      split
      · exact lists_of_silent lists (fun _ => rfl) ⟨rfl, enc⟩ ⟨rfl, dec⟩ rfl (.inl rfl)
      · exact lists_of_silent lists (fun _ => rfl) ⟨rfl, enc⟩ ⟨rfl, dec⟩ rfl (.inl rfl)
  | newKeys b58SendSk b58ReceiveSk =>
      cases ran
      simp only [update, CipherWindow.newKeys_eq]
      constructor <;>
        simp only [rowsOf_concat, CipherEvent.row?, Option.toList_some, ComboBox.insertRow]
      · rw [lists.encRows]
      · rw [lists.decRows]
      · exact ComboBox.insertRow_selects enc b58SendSk
      · exact ComboBox.insertRow_selects dec b58ReceiveSk
      · exact iff_of_true trivial (List.append_ne_nil_of_right_ne_nil _ (List.cons_ne_nil _ _))
      · exact fun _ => trivial
  | changeFiles disk =>
      cases ran
      exact lists_of_silent lists (fun _ => rfl) ⟨rfl, enc⟩ ⟨rfl, dec⟩ rfl (.inl rfl)
  | start header stack fuel =>
      obtain ⟨statusBar, same⟩ := step_start_window ran
      rw [same]
      exact lists_of_silent lists (fun _ => rfl) ⟨rfl, enc⟩ ⟨rfl, dec⟩ rfl (.inl rfl)

theorem initial_follows (disk : Disk) : (initial disk).window.Follows [] := by
  constructor <;> rfl

theorem initial_shows (disk : Disk) : (initial disk).window.Shows := by
  constructor <;> simp [initial, CipherWindow.initial, ComboBox.empty]

theorem initial_lists (disk : Disk) : (initial disk).window.Lists [] := by
  refine ⟨rfl, rfl, ComboBox.empty_selects, ComboBox.empty_selects, ?_, ?_⟩
  · exact iff_of_false Bool.false_ne_true (absurd rfl)
  · exact fun checked => absurd rfl checked

structure Invariant (past : List CipherEvent) (run : CipherRun) : Prop where
  follows : run.window.Follows past
  shows : run.window.Shows
  lists : run.window.Lists past

theorem initial_invariant (disk : Disk) : Invariant [] (initial disk) :=
  ⟨initial_follows disk, initial_shows disk, initial_lists disk⟩

theorem steps_invariant {disk : Disk} {events : List CipherEvent}
    (ran : (initial disk).steps lib events = .ok run) : Invariant events run := by
  have preserves : ∀ past run event next, Invariant past run → run.step lib event = .ok next →
      Invariant (past ++ [event]) next := by
    intro past run event next invariant stepped
    obtain ⟨follows, shows, lists⟩ := invariant
    exact ⟨step_follows follows stepped, step_shows shows stepped, step_lists lists stepped⟩
  exact foldlM_history preserves (initial_invariant disk) ran

end CipherRun

end Cscrypto.Gui
