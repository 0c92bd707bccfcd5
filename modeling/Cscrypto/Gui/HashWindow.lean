import Cscrypto.Data.History
import Cscrypto.Data.Run
import Cscrypto.Gui.HashWidget

namespace Cscrypto.Gui

open Cscrypto.Base58 Cscrypto.Data

/-! # The window for hashes

`HashWidget` with all its slots.  The history of a run records what was chosen,
typed and loaded, and every hash that was shown.
-/

/-- The widget, its check box, and which of its parts are enabled. The load
button and the name of the file go together. -/
structure HashWindow where
  widget : HashWidget
  loadedFileName : String
  hmacBtn : CheckState
  messageEnabled : Bool
  fileEnabled : Bool
  hashEnabled : Bool

inductive HashEntry where
  | mode (file : Bool)
  | typed (text : Bytes)
  | loaded (fileName : String) (content : Bytes)
  | hmac (active : Bool)
  | key (text : Bytes)
  | hashed (text : Bytes)

structure HashRun where
  window : HashWindow
  history : List HashEntry

/-- The name that the file dialog returns is empty when the user cancels it,
and the content is there if the file can be opened. -/
inductive HashEvent where
  | activateMessageMode
  | activateFileMode
  | clickHmac
  | editMessage (text : Bytes)
  | editKey (text : Bytes)
  | loadHashingFile (fileName : String) (content : Option Bytes)
  | calculateHash (memory : Hash)

namespace HashWindow

def noMessage : Bytes := ascii "Type message to hash..."

def noKey : Bytes := ascii "Insert HMAC key..."

def noHash : Bytes := ascii "Calculated hash will be displayed here"

def initial : HashWindow where
  widget := ⟨false, false, noMessage, [], noKey, noHash, ""⟩
  loadedFileName := "No file loaded."
  hmacBtn := .unchecked
  messageEnabled := false
  fileEnabled := false
  hashEnabled := false

def activateMessageMode (window : HashWindow) : HashWindow where
  widget := { window.widget with
    fileMode := false
    statusBar := "Message mode activated. Type message to hash."
    genHashLineEdit := noHash }
  loadedFileName := window.loadedFileName
  hmacBtn := window.hmacBtn
  messageEnabled := true
  fileEnabled := false
  hashEnabled := true

def activateFileMode (window : HashWindow) : HashWindow where
  widget := { window.widget with
    fileMode := true
    statusBar := "File mode activated. Load file to hash."
    genHashLineEdit := noHash }
  loadedFileName := "No loaded file"
  hmacBtn := window.hmacBtn
  messageEnabled := false
  fileEnabled := true
  hashEnabled := false

def activateHmac (window : HashWindow) : CheckState → HashWindow
  | .checked => { window with widget := { window.widget with
      hmacMode := true
      statusBar := "HMAC mode activated. You may hash data with key."
      hmacKeyLineEdit := noKey } }
  | .unchecked => { window with widget := { window.widget with
      hmacMode := false
      statusBar := "HMAC mode deactivated." } }
  | .partiallyChecked => window

end HashWindow

namespace HashRun

def initial : HashRun := ⟨.initial, []⟩

def update (run : HashRun) (change : HashWindow → HashWindow) (entry : HashEntry) : HashRun :=
  ⟨change run.window, run.history ++ [entry]⟩

def toStatusBar (run : HashRun) (message : String) : HashRun :=
  { run with window := { run.window with
      widget := { run.window.widget with statusBar := message } } }

/-- A click on the check box, which has two states for the user. -/
def clickHmac (run : HashRun) : HashRun :=
  let status := if run.window.hmacBtn = .unchecked then CheckState.checked else .unchecked
  run.update (fun window => { window with hmacBtn := status }.activateHmac status)
    (.hmac (status = .checked))

def loadHashingFile (run : HashRun) (fileName : String) (content : Option Bytes) : HashRun :=
  if fileName = "" then run.toStatusBar "No file chosen!"
  else
    match content with
    | none => run.toStatusBar "Unable to open file!"
    | some s => run.update (fun window => { window with
        widget := { window.widget with hashingData := s, statusBar := "File loaded." }
        loadedFileName := fileName
        hashEnabled := true }) (.loaded fileName s)

def calculateHash (blake2s : Blake) (run : HashRun) (memory : Hash) : HashRun :=
  let widget := run.window.widget.calculateHash blake2s memory
  run.update ({ · with widget }) (.hashed widget.genHashLineEdit)

/-- One event. Buttons and fields that are disabled do not react. -/
def step (blake2s : Blake) (run : HashRun) : HashEvent → HashRun
  | .activateMessageMode => run.update (·.activateMessageMode) (.mode false)
  | .activateFileMode => run.update (·.activateFileMode) (.mode true)
  | .clickHmac => run.clickHmac
  | .editMessage text =>
      if run.window.messageEnabled then run.update (fun window => { window with
        widget := { window.widget with hashingMsg := text } }) (.typed text)
      else run
  | .editKey text =>
      if run.window.widget.hmacMode then run.update (fun window => { window with
        widget := { window.widget with hmacKeyLineEdit := text } }) (.key text)
      else run
  | .loadHashingFile fileName content =>
      if run.window.fileEnabled then run.loadHashingFile fileName content else run
  | .calculateHash memory =>
      if run.window.hashEnabled then run.calculateHash blake2s memory else run

def steps (blake2s : Blake) (run : HashRun) (events : List HashEvent) : HashRun :=
  events.foldl (step blake2s) run

end HashRun

namespace HashEntry

def mode? : HashEntry → Option Bool
  | .mode file => some file
  | _ => none

def typed? : HashEntry → Option Bytes
  | .typed text => some text
  | _ => none

/-- A file that was loaded is forgotten when file mode is chosen again. -/
def loaded? : HashEntry → Option (Option (String × Bytes))
  | .mode true => some none
  | .loaded fileName content => some (some (fileName, content))
  | _ => none

/-- The key field starts with its own hint, and keeps it until it is edited. -/
def key? : HashEntry → Option (Option Bytes)
  | .hmac true => some (some HashWindow.noKey)
  | .hmac false => some none
  | .key text => some (some text)
  | _ => none

def shown? : HashEntry → Option Bytes
  | .mode _ => some HashWindow.noHash
  | .hashed text => some text
  | _ => none

end HashEntry

def chosenFile (past : List HashEntry) : Option (String × Bytes) :=
  (latest HashEntry.loaded? past).join

/-- What is to be hashed, if anything. -/
def chosenData (past : List HashEntry) : Option Bytes :=
  match latest HashEntry.mode? past with
  | none => none
  | some false => some ((latest HashEntry.typed? past).getD HashWindow.noMessage)
  | some true => (chosenFile past).map Prod.snd

def chosenKey (past : List HashEntry) : Bytes := (latest HashEntry.key? past).join.getD []

/-- A hash that was shown is the one of what was chosen before. -/
def HashAccounted (blake2s : Blake) (before : List HashEntry) : HashEntry → Prop
  | .hashed text => ∃ data memory, chosenData before = some data ∧
      text = EncodeBase58 (Cscrypto.calculateHash blake2s memory data (chosenKey before)).bytes
  | _ => True

namespace HashWindow

/-- The window follows from what has been chosen. -/
structure Follows (past : List HashEntry) (window : HashWindow) : Prop where
  mode : window.widget.fileMode = (latest HashEntry.mode? past).getD false
  message : window.messageEnabled = decide (latest HashEntry.mode? past = some false)
  file : window.fileEnabled = decide (latest HashEntry.mode? past = some true)
  hash : window.hashEnabled = (chosenData past).isSome
  typed : window.widget.hashingMsg = (latest HashEntry.typed? past).getD noMessage
  loaded : latest HashEntry.mode? past = some true → ∀ file, chosenFile past = some file →
    window.loadedFileName = file.1 ∧ window.widget.hashingData = file.2
  hmac : window.widget.hmacMode = (latest HashEntry.key? past).join.isSome
  box : window.hmacBtn = if window.widget.hmacMode then .checked else .unchecked
  key : window.widget.hmacMode = true → window.widget.hmacKeyLineEdit = chosenKey past
  shown : window.widget.genHashLineEdit = (latest HashEntry.shown? past).getD noHash

theorem initial_follows : Follows [] initial where
  mode := rfl
  message := rfl
  file := rfl
  hash := rfl
  typed := rfl
  loaded := fun active => by contradiction
  hmac := rfl
  box := rfl
  key := fun active => by contradiction
  shown := rfl

/-- The data and the key of a hash are the ones that were chosen. -/
theorem Follows.data {past : List HashEntry} {window : HashWindow} (follows : window.Follows past)
    {data : Bytes} (chosen : chosenData past = some data) : window.widget.data = data := by
  rw [chosenData] at chosen
  rw [HashWidget.data, follows.mode]
  cases mode : latest HashEntry.mode? past with
  | none => simp [mode] at chosen
  | some file =>
      simp only [mode] at chosen
      cases file with
      | false =>
          cases chosen
          exact follows.typed
      | true =>
          obtain ⟨file, found, same⟩ := Option.map_eq_some_iff.mp chosen
          exact (follows.loaded mode file found).2.trans same

theorem Follows.key_eq {past : List HashEntry} {window : HashWindow}
    (follows : window.Follows past) : window.widget.key = chosenKey past := by
  rw [HashWidget.key]
  split
  · rename_i active
    exact follows.key active
  · rename_i inactive
    rw [follows.hmac] at inactive
    rw [chosenKey, Option.not_isSome_iff_eq_none.mp inactive]
    rfl

end HashWindow

namespace HashRun

variable {blake2s : Blake}

/-- The window and its history. -/
structure Tracked (blake2s : Blake) (run : HashRun) : Prop where
  follows : run.window.Follows run.history
  accounted : Explained (HashAccounted blake2s) run.history

theorem initial_tracked (blake2s : Blake) : Tracked blake2s .initial :=
  ⟨HashWindow.initial_follows, explained_nil⟩

theorem Tracked.toStatusBar {run : HashRun} (tracked : Tracked blake2s run) (message : String) :
    Tracked blake2s (run.toStatusBar message) := by
  obtain ⟨⟨mode, message', file, hash, typed, loaded, hmac, box, key, shown⟩, accounted⟩ := tracked
  exact ⟨⟨mode, message', file, hash, typed, loaded, hmac, box, key, shown⟩, accounted⟩

theorem Tracked.update {run : HashRun} (tracked : Tracked blake2s run)
    {change : HashWindow → HashWindow} {entry : HashEntry}
    (follows : (change run.window).Follows (run.history ++ [entry]))
    (accounted : HashAccounted blake2s run.history entry) :
    Tracked blake2s (run.update change entry) :=
  ⟨follows, ExplainedFrom.explained tracked.accounted ⟨accounted, trivial⟩⟩

/-- What was chosen, after one more entry. -/
theorem chosenFile_concat (past : List HashEntry) (entry : HashEntry) :
    chosenFile (past ++ [entry]) = (entry.loaded?.or (latest HashEntry.loaded? past)).join := by
  rw [chosenFile, latest_concat]

theorem chosenKey_concat (past : List HashEntry) (entry : HashEntry) :
    chosenKey (past ++ [entry]) =
      (entry.key?.or (latest HashEntry.key? past)).join.getD [] := by
  rw [chosenKey, latest_concat]

theorem chosenData_concat (past : List HashEntry) (entry : HashEntry) :
    chosenData (past ++ [entry]) =
      match entry.mode?.or (latest HashEntry.mode? past) with
      | none => none
      | some false => some ((entry.typed?.or (latest HashEntry.typed? past)).getD
          HashWindow.noMessage)
      | some true =>
          ((entry.loaded?.or (latest HashEntry.loaded? past)).join).map Prod.snd := by
  rw [chosenData, chosenFile_concat, latest_concat, latest_concat]

/-- An entry that is no choice of a mode or of a file. -/
theorem loaded_concat {past : List HashEntry} {window : HashWindow}
    (follows : window.Follows past) (entry : HashEntry) (mode : entry.mode? = none)
    (silent : entry.loaded? = none) :
    latest HashEntry.mode? (past ++ [entry]) = some true → ∀ file,
      chosenFile (past ++ [entry]) = some file →
        window.loadedFileName = file.1 ∧ window.widget.hashingData = file.2 := by
  rw [latest_concat, chosenFile_concat, mode, silent, Option.none_or, Option.none_or]
  exact follows.loaded

theorem hash_concat {past : List HashEntry} {window : HashWindow}
    (follows : window.Follows past) (entry : HashEntry) (mode : entry.mode? = none)
    (silent : entry.loaded? = none) :
    window.hashEnabled = (chosenData (past ++ [entry])).isSome := by
  rw [follows.hash, chosenData_concat, chosenData, chosenFile, mode, silent, Option.none_or,
    Option.none_or]
  cases latest HashEntry.mode? past with
  | none => rfl
  | some file => cases file <;> rfl

theorem activateMessageMode_follows {past : List HashEntry} {window : HashWindow}
    (follows : window.Follows past) :
    window.activateMessageMode.Follows (past ++ [.mode false]) where
  mode := by rw [latest_concat]; rfl
  message := by rw [latest_concat]; rfl
  file := by rw [latest_concat]; rfl
  hash := by rw [chosenData_concat]; rfl
  typed := by rw [latest_concat]; exact follows.typed
  loaded := by
    intro active
    rw [latest_concat] at active
    exact absurd (Option.some.inj active) Bool.false_ne_true
  hmac := by rw [latest_concat]; exact follows.hmac
  box := follows.box
  key := by rw [chosenKey_concat]; exact follows.key
  shown := by rw [latest_concat]; rfl

theorem activateFileMode_follows {past : List HashEntry} {window : HashWindow}
    (follows : window.Follows past) :
    window.activateFileMode.Follows (past ++ [.mode true]) where
  mode := by rw [latest_concat]; rfl
  message := by rw [latest_concat]; rfl
  file := by rw [latest_concat]; rfl
  hash := by rw [chosenData_concat]; rfl
  typed := by rw [latest_concat]; exact follows.typed
  loaded := by
    intro _ file found
    rw [chosenFile_concat] at found
    contradiction
  hmac := by rw [latest_concat]; exact follows.hmac
  box := follows.box
  key := by rw [chosenKey_concat]; exact follows.key
  shown := by rw [latest_concat]; rfl

theorem activateHmac_follows {past : List HashEntry} {window : HashWindow}
    (follows : window.Follows past) {active : Bool} {status : CheckState}
    (same : status = if active then .checked else .unchecked) :
    HashWindow.Follows (past ++ [.hmac active])
      ({ window with hmacBtn := status }.activateHmac status) := by
  subst same
  cases active with
  | false => exact {
      mode := by rw [latest_concat]; exact follows.mode
      message := by rw [latest_concat]; exact follows.message
      file := by rw [latest_concat]; exact follows.file
      hash := hash_concat follows (.hmac false) rfl rfl
      typed := by rw [latest_concat]; exact follows.typed
      loaded := loaded_concat follows (.hmac false) rfl rfl
      hmac := by rw [latest_concat]; rfl
      box := rfl
      key := fun active => by contradiction
      shown := by rw [latest_concat]; exact follows.shown }
  | true => exact {
      mode := by rw [latest_concat]; exact follows.mode
      message := by rw [latest_concat]; exact follows.message
      file := by rw [latest_concat]; exact follows.file
      hash := hash_concat follows (.hmac true) rfl rfl
      typed := by rw [latest_concat]; exact follows.typed
      loaded := loaded_concat follows (.hmac true) rfl rfl
      hmac := by rw [latest_concat]; rfl
      box := rfl
      key := fun _ => by rw [chosenKey_concat]; rfl
      shown := by rw [latest_concat]; exact follows.shown }

theorem editMessage_follows {past : List HashEntry} {window : HashWindow}
    (follows : window.Follows past) (text : Bytes) :
    HashWindow.Follows (past ++ [.typed text])
      { window with widget := { window.widget with hashingMsg := text } } where
  mode := by rw [latest_concat]; exact follows.mode
  message := by rw [latest_concat]; exact follows.message
  file := by rw [latest_concat]; exact follows.file
  hash := hash_concat follows (.typed text) rfl rfl
  typed := by rw [latest_concat]; rfl
  loaded := loaded_concat follows (.typed text) rfl rfl
  hmac := by rw [latest_concat]; exact follows.hmac
  box := follows.box
  key := by rw [chosenKey_concat]; exact follows.key
  shown := by rw [latest_concat]; exact follows.shown

theorem editKey_follows {past : List HashEntry} {window : HashWindow}
    (follows : window.Follows past) (active : window.widget.hmacMode = true) (text : Bytes) :
    HashWindow.Follows (past ++ [.key text])
      { window with widget := { window.widget with hmacKeyLineEdit := text } } where
  mode := by rw [latest_concat]; exact follows.mode
  message := by rw [latest_concat]; exact follows.message
  file := by rw [latest_concat]; exact follows.file
  hash := hash_concat follows (.key text) rfl rfl
  typed := by rw [latest_concat]; exact follows.typed
  loaded := loaded_concat follows (.key text) rfl rfl
  hmac := by rw [latest_concat]; exact active
  box := follows.box
  key := fun _ => by rw [chosenKey_concat]; rfl
  shown := by rw [latest_concat]; exact follows.shown

theorem loadHashingFile_follows {past : List HashEntry} {window : HashWindow}
    (follows : window.Follows past) (enabled : window.fileEnabled = true) (fileName : String)
    (content : Bytes) :
    HashWindow.Follows (past ++ [.loaded fileName content])
      { window with
        widget := { window.widget with hashingData := content, statusBar := "File loaded." }
        loadedFileName := fileName
        hashEnabled := true } where
  mode := by rw [latest_concat]; exact follows.mode
  message := by rw [latest_concat]; exact follows.message
  file := by rw [latest_concat]; exact follows.file
  hash := by
    have active : latest HashEntry.mode? past = some true := by
      rw [follows.file] at enabled
      exact of_decide_eq_true enabled
    rw [chosenData_concat, active]
    rfl
  typed := by rw [latest_concat]; exact follows.typed
  loaded := by
    intro _ file found
    rw [chosenFile_concat] at found
    cases found
    exact ⟨rfl, rfl⟩
  hmac := by rw [latest_concat]; exact follows.hmac
  box := follows.box
  key := by rw [chosenKey_concat]; exact follows.key
  shown := by rw [latest_concat]; exact follows.shown

/-- The data that was hashed stays, and no choice changes. -/
theorem calculateHash_follows {past : List HashEntry} {window : HashWindow}
    (follows : window.Follows past) (memory : Hash) :
    HashWindow.Follows
      (past ++ [.hashed (window.widget.calculateHash blake2s memory).genHashLineEdit])
      { window with widget := window.widget.calculateHash blake2s memory } where
  mode := by rw [latest_concat]; exact follows.mode
  message := by rw [latest_concat]; exact follows.message
  file := by rw [latest_concat]; exact follows.file
  hash := hash_concat follows (.hashed _) rfl rfl
  typed := by rw [latest_concat]; exact follows.typed
  loaded := by
    intro active chosen found
    obtain ⟨name, data⟩ := loaded_concat follows (.hashed _) rfl rfl active chosen found
    have fileMode : window.widget.fileMode = true := by
      rw [latest_concat] at active
      have active : latest HashEntry.mode? past = some true := active
      rw [follows.mode, active]
      rfl
    exact ⟨name, (if_pos fileMode).trans data⟩
  hmac := by rw [latest_concat]; exact follows.hmac
  box := follows.box
  key := by rw [chosenKey_concat]; exact follows.key
  shown := by rw [latest_concat]; rfl

/-- The hash is the one of what was chosen. -/
theorem calculateHash_accounted {past : List HashEntry} {window : HashWindow}
    (follows : window.Follows past) (enabled : window.hashEnabled = true) (memory : Hash) :
    HashAccounted blake2s past
      (.hashed (window.widget.calculateHash blake2s memory).genHashLineEdit) := by
  rw [follows.hash] at enabled
  obtain ⟨data, chosen⟩ := Option.isSome_iff_exists.mp enabled
  refine ⟨data, memory, chosen, ?_⟩
  rw [HashWidget.calculateHash, follows.data chosen, follows.key_eq]

theorem Tracked.clickHmac {run : HashRun} (tracked : Tracked blake2s run) :
    Tracked blake2s run.clickHmac := by
  constructor
  · refine activateHmac_follows tracked.follows ?_
    split <;> rfl
  · exact ExplainedFrom.explained tracked.accounted ⟨trivial, trivial⟩

theorem Tracked.calculateHash {run : HashRun} (tracked : Tracked blake2s run)
    (enabled : run.window.hashEnabled = true) (memory : Hash) :
    Tracked blake2s (run.calculateHash blake2s memory) where
  follows := calculateHash_follows tracked.follows memory
  accounted := ExplainedFrom.explained tracked.accounted
    ⟨calculateHash_accounted tracked.follows enabled memory, trivial⟩

theorem Tracked.loadHashingFile {run : HashRun} (tracked : Tracked blake2s run)
    (enabled : run.window.fileEnabled = true) (fileName : String) (content : Option Bytes) :
    Tracked blake2s (run.loadHashingFile fileName content) := by
  unfold HashRun.loadHashingFile
  split
  · exact tracked.toStatusBar _
  · cases content with
    | none => exact tracked.toStatusBar _
    | some s =>
        exact tracked.update (loadHashingFile_follows tracked.follows enabled fileName s) trivial

theorem Tracked.step {run : HashRun} (tracked : Tracked blake2s run) (event : HashEvent) :
    Tracked blake2s (run.step blake2s event) := by
  have follows := tracked.follows
  cases event with
  | activateMessageMode => exact tracked.update (activateMessageMode_follows follows) trivial
  | activateFileMode => exact tracked.update (activateFileMode_follows follows) trivial
  | clickHmac => exact tracked.clickHmac
  | editMessage text =>
      simp only [HashRun.step]
      split
      · exact tracked.update (editMessage_follows follows text) trivial
      · exact tracked
  | editKey text =>
      simp only [HashRun.step]
      split
      · rename_i active
        exact tracked.update (editKey_follows follows active text) trivial
      · exact tracked
  | loadHashingFile fileName content =>
      simp only [HashRun.step]
      split
      · rename_i enabled
        exact tracked.loadHashingFile enabled fileName content
      · exact tracked
  | calculateHash memory =>
      simp only [HashRun.step]
      split
      · rename_i enabled
        exact tracked.calculateHash enabled memory
      · exact tracked

theorem steps_tracked (blake2s : Blake) (events : List HashEvent) :
    Tracked blake2s (HashRun.initial.steps blake2s events) :=
  foldl_preserves (fun _ event tracked => tracked.step event) events (initial_tracked blake2s)

end HashRun

/-- Whatever the user does, the text in the result field is its hint, or the
hash of the message that was typed last or of the file that was loaded last in
this mode, with the key of that moment. -/
theorem hashes_of_what_was_chosen {blake2s : Blake} (laws : BlakeLaws blake2s)
    (events : List HashEvent) :
    (HashRun.initial.steps blake2s events).window.widget.genHashLineEdit =
        (latest HashEntry.shown? (HashRun.initial.steps blake2s events).history).getD
          HashWindow.noHash ∧
      ∀ before text after,
        (HashRun.initial.steps blake2s events).history = before ++ .hashed text :: after →
        ∃ data, chosenData before = some data ∧ ((chosenKey before).length ≤ kBlakeKeySize →
          ∃ hash, blake2s data (chosenKey before) = some hash ∧ text = EncodeBase58 hash.bytes) := by
  obtain ⟨follows, accounted⟩ := HashRun.steps_tracked blake2s events
  refine ⟨follows.shown, ?_⟩
  intro before text after split
  obtain ⟨data, memory, chosen, shown⟩ := accounted before _ after split
  refine ⟨data, chosen, fun short => ?_⟩
  obtain ⟨hash, hashed⟩ := laws.hashes data _ short
  exact ⟨hash, hashed, by rw [shown, calculateHash_some hashed]⟩

theorem hashes_of_what_was_chosen_message :
    ∃ hash, checksumBlake [1, 2, 3] [] = some hash ∧
      (HashRun.initial.steps checksumBlake [.activateMessageMode, .editMessage [1, 2, 3],
        .calculateHash (.replicate _ 0)]).window.widget.genHashLineEdit =
        EncodeBase58 hash.bytes := by
  obtain ⟨shown, every⟩ := hashes_of_what_was_chosen checksumBlake_laws
    [.activateMessageMode, .editMessage [1, 2, 3], .calculateHash (.replicate _ 0)]
  obtain ⟨data, chosen, hashed⟩ := every [.mode false, .typed [1, 2, 3]] _ [] rfl
  cases chosen
  obtain ⟨hash, found, text⟩ := hashed (by decide)
  exact ⟨hash, found, shown.trans text⟩

end Cscrypto.Gui
