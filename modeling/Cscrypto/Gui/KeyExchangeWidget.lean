import Cscrypto.Gui.Client

namespace Cscrypto.Gui

/-! # The key exchange window

`KeyExchangeWidget` up to the calls that it makes on the network object.
-/

/-- The widget and its two buttons; `dialog` holds while the modal host name
dialog is open, and the message boxes are those for new keys, the newest first. -/
structure KeyExchangeWidget where
  statusBar : String
  keys : List KeyPair
  currentIndex : Option Nat
  ownKeySelectedLbl : Bytes
  importedKeySelectedLbl : Bytes
  importedKey : Bytes
  hostName : String
  ownKeyOk : Bool
  importedKeyOk : Bool
  canEnableIncomingConnections : Bool
  requestEnabled : Bool
  serverEnabled : Bool
  dialog : Bool
  messageBoxes : List (Bytes × Bytes)
  encryptionKeys : List Bytes
  decryptionKeys : List Bytes

/-- What the user does. The result of the query for the typed id is part of
the event, and the keyboard moves the current row without a click. -/
inductive WidgetEvent where
  | addKeyPair (pair : KeyPair)
  | moveCurrentIndex (row : Nat)
  | setOwnKey (row : Nat)
  | inspectKeyIdText (found : Option Record)
  | hostNameEnterDialog
  | setHostName (text : String)
  | sendKeyExchangeRequest
  | closeDialog
  | closeMessageBox
  | enableIncomingConnections

/-- What an open message box does not hold up: its own button, and the pairs of
the list that all tabs share. -/
def WidgetEvent.passes : WidgetEvent → Bool
  | .addKeyPair _ | .closeMessageBox => true
  | _ => false

inductive NetCall where
  | sendKeyExchangeRequest (hostName : String) (ownKeys : KeyPair)
  | createServer (serverKeys : KeyPair)

namespace KeyExchangeWidget

def initial : KeyExchangeWidget where
  statusBar := ""
  keys := []
  currentIndex := none
  ownKeySelectedLbl := ascii "Own key: not selected"
  importedKeySelectedLbl := ascii "Imported key: not selected"
  importedKey := []
  hostName := ""
  ownKeyOk := false
  importedKeyOk := false
  canEnableIncomingConnections := true
  requestEnabled := false
  serverEnabled := false
  dialog := false
  messageBoxes := []
  encryptionKeys := []
  decryptionKeys := []

def inspectKeyIdText (widget : KeyExchangeWidget) : Option Record → KeyExchangeWidget
  | some record => { widget with
      importedKey := record.importedKey
      statusBar := "New imported key for exchange has been selected."
      importedKeyOk := true
      importedKeySelectedLbl := ascii "Imported key: " ++ record.importedKey
      requestEnabled := widget.requestEnabled || widget.ownKeyOk }
  | none => { widget with
      statusBar := "Incorrect imported key id!"
      importedKeyOk := false
      importedKeySelectedLbl := ascii "Imported key: not selected"
      requestEnabled := false }

def setOwnKey (widget : KeyExchangeWidget) (row : Nat) : KeyExchangeWidget :=
  { widget with
    currentIndex := some row
    ownKeySelectedLbl := ascii "Own key: " ++ KeyListModel.data widget.keys (some row)
    statusBar := "New own key for key exchange has been selected."
    ownKeyOk := true
    serverEnabled := widget.serverEnabled || widget.canEnableIncomingConnections
    canEnableIncomingConnections := false
    requestEnabled := widget.requestEnabled || widget.importedKeyOk }

def ownKeys (widget : KeyExchangeWidget) : KeyPair :=
  KeyListModel.getKeyPair widget.keys widget.currentIndex

/-- The imported key is not among the arguments of the request. The button's
second slot closes the dialog. -/
def sendKeyExchangeRequest (widget : KeyExchangeWidget) : KeyExchangeWidget × Option NetCall :=
  if widget.hostName = "" then
    ({ widget with
      statusBar := "Host name is empty. Connection will not be established!"
      dialog := false }, none)
  else ({ widget with dialog := false },
    some (.sendKeyExchangeRequest widget.hostName widget.ownKeys))

/-- Up to `QMessageBox::information`, whose event loop can bring the next keys. -/
def newKeysHandler (widget : KeyExchangeWidget) (b58SendSk b58ReceiveSk : Bytes) :
    KeyExchangeWidget :=
  { widget with messageBoxes := (b58SendSk, b58ReceiveSk) :: widget.messageBoxes }

/-- The rest of `newKeysHandler`: a new row in each of the two key lists. Only
the newest box reacts, since every box is modal. -/
def closeMessageBox (widget : KeyExchangeWidget) : KeyExchangeWidget :=
  match widget.messageBoxes with
  | [] => widget
  | (b58SendSk, b58ReceiveSk) :: messageBoxes => { widget with
      messageBoxes
      encryptionKeys := widget.encryptionKeys ++ [b58SendSk]
      decryptionKeys := widget.decryptionKeys ++ [b58ReceiveSk] }

def networkMessageHandler (widget : KeyExchangeWidget) (message : String) : KeyExchangeWidget :=
  { widget with statusBar := message }

/-- The modal dialog blocks the rest of the window, and a disabled button does
not react. -/
def slot (widget : KeyExchangeWidget) : WidgetEvent → KeyExchangeWidget × Option NetCall
  | .addKeyPair pair => ({ widget with keys := widget.keys ++ [pair] }, none)
  | .moveCurrentIndex row =>
      (if !widget.dialog && row < widget.keys.length then { widget with currentIndex := some row }
        else widget, none)
  | .setOwnKey row =>
      (if !widget.dialog && row < widget.keys.length then widget.setOwnKey row else widget, none)
  | .inspectKeyIdText found =>
      (if widget.dialog then widget else widget.inspectKeyIdText found, none)
  | .hostNameEnterDialog =>
      (if widget.requestEnabled && !widget.dialog then
          { widget with hostName := "", dialog := true }
        else widget, none)
  | .setHostName text => (if widget.dialog then { widget with hostName := text } else widget, none)
  | .sendKeyExchangeRequest =>
      if widget.dialog then widget.sendKeyExchangeRequest else (widget, none)
  | .closeDialog => ({ widget with dialog := false }, none)
  | .closeMessageBox => (widget.closeMessageBox, none)
  | .enableIncomingConnections =>
      if widget.serverEnabled && !widget.dialog then
        ({ widget with serverEnabled := false }, some (.createServer widget.ownKeys))
      else (widget, none)

/-- One event. An open message box blocks the window and the dialog. -/
def step (widget : KeyExchangeWidget) (event : WidgetEvent) : KeyExchangeWidget × Option NetCall :=
  if widget.messageBoxes ≠ [] && !event.passes then (widget, none) else widget.slot event

theorem step_cases (widget : KeyExchangeWidget) (event : WidgetEvent) :
    widget.step event = (widget, none) ∨ widget.step event = widget.slot event := by
  unfold step
  split
  · exact .inl rfl
  · exact .inr rfl

theorem step_addKeyPair (widget : KeyExchangeWidget) (pair : KeyPair) :
    widget.step (.addKeyPair pair) = ({ widget with keys := widget.keys ++ [pair] }, none) := by
  simp [step, WidgetEvent.passes, slot]

theorem step_closeMessageBox (widget : KeyExchangeWidget) :
    widget.step .closeMessageBox = (widget.closeMessageBox, none) := by
  simp [step, WidgetEvent.passes, slot]

def selected (widget : KeyExchangeWidget) : Option Bytes :=
  if widget.importedKeyOk then some widget.importedKey else none

structure Consistent (widget : KeyExchangeWidget) : Prop where
  button : widget.requestEnabled = true → widget.importedKeyOk = true
  dialog : widget.dialog = true → widget.importedKeyOk = true

end KeyExchangeWidget

end Cscrypto.Gui
