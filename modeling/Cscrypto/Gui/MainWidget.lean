import Cscrypto.Gui.CipherTask
import Cscrypto.Gui.HashWindow
import Cscrypto.Gui.KeyFiles
import Cscrypto.Gui.KeyGenWidget
import Cscrypto.Gui.SessionKeyLists
import Cscrypto.Gui.SignWidget
import Cscrypto.Gui.StorageWidget

namespace Cscrypto.Gui

open Cscrypto.Base58 Cscrypto.Cipher Cscrypto.Data Cscrypto.KeysDerivation

/-! # The main window

`MainWidget` puts the tabs together.  They share the list of own keys, the two
lists of session keys and the table of imported keys, and a process has one
window.  A system is any number of processes over one network, each with a
database of its own.
-/

/-- The dialogs for a private key. They are not modal, and the member
`privateKeyLineEdit_` is the line of the newest one. -/
structure PrivateKeyDialogs where
  count : Nat
  privateKeyLineEdit : Bytes

/-- `handlePrivKeyLine`; `none` when the text is not a private key. -/
def handlePrivKeyLine (sign : SignKeys) (privStr : Bytes) : Except Fault (Option KeyPair) :=
  match DecodeBase58 privStr with
  | none => .ok none
  | some vecPriv =>
      if vecPriv.length ≠ kPrivateKeySize then .ok none
      else do
        let second := readFromBytes vecPriv
        let first ← getMatchingPublic sign second
        return some (first, second)

/-- What the window uses that is not part of the repository, and the English
dictionary. -/
structure MainLib where
  sign : SignKeys
  kdf : Kdf
  blake2s : Blake
  en : Mnemonic.Dictionary
  aead : Aead
  sodium : Sodium
  pwhash : Pwhash
  ss : SecretStream

namespace MainLib

/-- Without a key `blake2s` does not fail, and what the memory of the result
held does not matter. -/
def calculateHash (lib : MainLib) (data : Bytes) : Hash :=
  Cscrypto.calculateHash lib.blake2s (.replicate _ 0) data []

def keygen (lib : MainLib) : KeyGenLib := ⟨lib.sign, lib.kdf, lib.calculateHash, lib.en⟩

def keyFiles (lib : MainLib) : KeyFilesLib := ⟨lib.sign, lib.aead⟩

/-- The header, the stack and the fuel come with every start. -/
def cipher (lib : MainLib) : CipherLib :=
  ⟨lib.calculateHash, lib.pwhash, lib.ss, .replicate _ 0, .replicate _ 0, 0⟩

end MainLib

/-- A row that the user has edited in the table of the key exchange tab, when it
is submitted. The table of the storage tab has no edit triggers. -/
def updateRowInTable (table : Table) (row : Nat) (writable : Bool) (record : Record) : Table :=
  if writable = true ∧ ∀ other ∈ table.eraseIdx row, other.id ≠ record.id then table.set row record
  else table

/-- The tabs of a process. The list of own keys is the one of `keyFiles`, and
the key exchange is part of the network. `dbOpener` tells whether the database
was opened. -/
structure MainWidget where
  dbOpener : Bool
  keygen : KeyGenRun
  keyFiles : KeyFilesRun
  privateKeys : PrivateKeyDialogs
  sign : SignRun
  hash : HashRun
  cipher : CipherRun
  storage : StorageWidget
  ended : Bool

/-- What the user and the network do. -/
inductive MainEvent where
  | keygen (event : KeyGenEvent)
  | keyFiles (event : KeyFileEvent)
  | genPublicFromPrivateDialog
  | typePrivateKey (text : Bytes)
  | handlePrivKeyLine
  | sign (event : SignEvent)
  | hash (event : HashEvent)
  | cipher (event : CipherEvent)
  | storage (action : StorageWidget.Action)
  | updateRowInTable (row : Nat) (writable : Bool) (record : Record)
  | exchange (act : NodeAction)

namespace MainWidget

/-- `records` is the table in the database file, `none` if it does not open. -/
def initial (disk : Disk) (records : Option Table) : MainWidget where
  dbOpener := records.isSome
  keygen := .initial
  keyFiles := .initial
  privateKeys := ⟨0, []⟩
  sign := .initial
  hash := .initial
  cipher := .initial disk
  storage := .setUpModel (records.getD [])
  ended := false

/-- What can happen: a row that is clicked exists, and the shared lists are
changed by the tabs and not by the user. -/
def takes (window : MainWidget) : MainEvent → Bool
  | .keyFiles (.clicked row) => row < window.keyFiles.widget.keys.length
  | .keyFiles (.addKeyPair _) => false
  | .sign (.addKeyPair _) => false
  | .cipher (.newKeys _ _) => false
  | .exchange (.widget (.addKeyPair _)) => false
  | _ => true

/-- A slot of a tab, with the key pairs that it adds to the list. -/
def slot (lib : MainLib) (window : MainWidget) : MainEvent → Except Fault (MainWidget × List KeyPair)
  | .keygen event => do
      let keygen ← window.keygen.step lib.keygen event
      return ({ window with keygen },
        keygen.widget.keys.drop window.keygen.widget.keys.length)
  | .genPublicFromPrivateDialog =>
      .ok ({ window with privateKeys := ⟨window.privateKeys.count + 1, []⟩ }, [])
  | .typePrivateKey text =>
      .ok (if window.privateKeys.count = 0 then window
        else { window with privateKeys.privateKeyLineEdit := text }, [])
  | .handlePrivKeyLine =>
      if window.privateKeys.count = 0 then .ok (window, [])
      else do
        let keys ← Gui.handlePrivKeyLine lib.sign window.privateKeys.privateKeyLineEdit
        return ({ window with privateKeys.count := window.privateKeys.count - 1 }, keys.toList)
  | .sign event => do
      let sign ← window.sign.step lib.calculateHash lib.sodium event
      return ({ window with sign }, [])
  | .hash event => .ok ({ window with hash := window.hash.step lib.blake2s event }, [])
  | .cipher event => do
      let cipher ← window.cipher.step lib.cipher event
      return ({ window with cipher }, [])
  | .storage action =>
      .ok (if window.dbOpener then { window with storage := window.storage.step action }
        else window, [])
  | .updateRowInTable row writable record =>
      .ok (if window.dbOpener then
          { window with
            storage.table := Gui.updateRowInTable window.storage.table row writable record }
        else window, [])
  | .keyFiles _ | .exchange _ => .ok (window, [])

/-- A pair that another tab has added is seen in the key files tab and in the
sign tab. -/
def addToKeyFiles (lib : MainLib) (window : MainWidget) (pairs : List KeyPair) :
    Except Fault MainWidget := do
  let keyFiles ← pairs.foldlM (fun run pair => run.step lib.keyFiles (.addKeyPair pair))
    window.keyFiles
  return { window with keyFiles }

def addToSign (lib : MainLib) (window : MainWidget) (pairs : List KeyPair) :
    Except Fault MainWidget := do
  let sign ← pairs.foldlM
    (fun run pair => run.step lib.calculateHash lib.sodium (.addKeyPair pair)) window.sign
  return { window with sign }

/-- One event outside of the network, with the pairs that it adds to the list. -/
def step (lib : MainLib) (window : MainWidget) (event : MainEvent) :
    Except Fault (MainWidget × List KeyPair) :=
  match event with
  | .keyFiles event => do
      let keyFiles ← window.keyFiles.step lib.keyFiles event
      let pairs := keyFiles.widget.keys.drop window.keyFiles.widget.keys.length
      let window ← { window with keyFiles }.addToSign lib pairs
      return (window, pairs)
  | event => do
      let (window, pairs) ← window.slot lib event
      let window ← window.addToKeyFiles lib pairs
      let window ← window.addToSign lib pairs
      return (window, pairs)

/-- The query for a sender fails or sees the records that are stored. -/
def observed (window : MainWidget) : NodeAction → NodeAction
  | .receive env bytes =>
      .receive { env with table := env.table.map fun _ => window.storage.table } bytes
  | .incoming env memory arrivals =>
      .incoming { env with table := env.table.map fun _ => window.storage.table } memory arrivals
  | act => act

/-- The rows that the key exchange adds are seen in the cipher tab. -/
def receiveKeys (lib : MainLib) (window : MainWidget) (keys : List (Bytes × Bytes)) :
    Except Fault MainWidget := do
  let cipher ← keys.foldlM (fun run key => run.step lib.cipher (.newKeys key.1 key.2)) window.cipher
  return { window with cipher }

end MainWidget

/-- The processes and the network. -/
structure System where
  windows : Nat → MainWidget
  network : World

/-- Something happens in one process. -/
structure Happening where
  name : Nat
  event : MainEvent

namespace System

def initial (memory : Nat → Memory) (disks : Nat → Disk) (records : Nat → Option Table) :
    System where
  windows name := .initial (disks name) (records name)
  network := .initial memory

def setWindow (system : System) (name : Nat) (window : MainWidget) : System :=
  { system with windows := Function.update system.windows name window }

/-- The process has crashed, in one of its tabs or in the key exchange. -/
def down (system : System) (name : Nat) : Bool :=
  (system.windows name).ended || (system.network.nodes name).crashed

variable (lib : MainLib)

/-- An event of the key exchange, which is there only with the database. -/
def exchange (system : System) (name : Nat) (act : NodeAction) : System :=
  let window := system.windows name
  if window.dbOpener then
    let network := system.network.step lib.sodium ⟨name, window.observed act⟩
    let keys := (network.nodes name).widget.rows.drop (system.network.nodes name).widget.rows.length
    match window.receiveKeys lib keys with
    | .error _ => { system with network }.setWindow name { window with ended := true }
    | .ok window => { system with network }.setWindow name window
  else system

/-- Any other event, with the pairs that it adds to the list of the key exchange. -/
def tab (system : System) (name : Nat) (event : MainEvent) : System :=
  let window := system.windows name
  match window.step lib event with
  | .error _ => system.setWindow name { window with ended := true }
  | .ok (window, pairs) =>
      { system.setWindow name window with
        network := system.network.run lib.sodium
          (pairs.map fun pair => ⟨name, .widget (.addKeyPair pair)⟩) }

def step (system : System) (happening : Happening) : System :=
  if system.down happening.name || !(system.windows happening.name).takes happening.event then system
  else
    match happening.event with
    | .exchange act => system.exchange lib happening.name act
    | event => system.tab lib happening.name event

def run (system : System) (happenings : List Happening) : System :=
  happenings.foldl (step lib) system

end System

end Cscrypto.Gui
