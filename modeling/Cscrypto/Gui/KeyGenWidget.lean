import Cscrypto.Gui.KeyListModel
import Cscrypto.Keys.Derivation

namespace Cscrypto.Gui

open Cscrypto.KeysDerivation Cscrypto.Mnemonic

/-! # Generating keys in the window

`KeyGenWidget` with the events on its master seed.  The English dictionary is a
parameter.  The history of a run records every seed that is made current and
every key pair that is generated.
-/

def cStr (word : Bytes) : CString where
  bytes := word.takeWhile (· ≠ 0)
  noNul := by
    intro nul
    have kept := List.mem_takeWhile_imp (p := fun byte : Byte => byte ≠ 0) nul
    exact absurd rfl (of_decide_eq_true kept)

/-- The loop of `findWordInDictionary`, which goes on after a match. -/
def findWord (word : CString) : List CString → Nat → Option Nat → Option Nat
  | [], _, found => found
  | entry :: rest, i, found =>
      findWord word rest (i + 1) (if strcmp word.bytes entry.bytes = 0 then some i else found)

def findWordInDictionary (en : Dictionary) (word : CString) : Option Nat :=
  findWord word en.strings 0 none

def isspace (byte : Byte) : Bool := byte = 32 ∨ (9 ≤ byte ∧ byte ≤ 13)

/-- What is left in a string stream, and whether reading from it has failed. -/
structure IStringStream where
  rest : Bytes
  failed : Bool

/-- `ss >> word` fails at the end of the text and leaves the word empty. -/
def IStringStream.word (ss : IStringStream) : Bytes × IStringStream :=
  let text := ss.rest.dropWhile isspace
  if text = [] then ([], ⟨[], true⟩)
  else (text.takeWhile (!isspace ·), ⟨text.dropWhile (!isspace ·), false⟩)

theorem length_cons_strings (entry : CString) (words : StringArray size) :
    (entry :: words.strings).length = size + 1 :=
  congrArg (· + 1) words.size_eq

/-- The loop over the words of the phrase; `none` when not all are valid. -/
def readWords (en : Dictionary) :
    (remaining : Nat) → IStringStream → Except Fault (Option (StringArray remaining))
  | 0, _ => .ok (some ⟨[], List.length_nil⟩)
  | remaining + 1, ss =>
      if ss.failed then .ok none
      else
        let (word, ss) := ss.word
        match findWordInDictionary en (cStr word) with
        | none => .ok none
        | some index =>
            match en.strings[index]? with
            | none => .error .outOfBounds
            | some entry => do
                let rest ← readWords en remaining ss
                return rest.map fun words =>
                  ⟨entry :: words.strings, length_cons_strings entry words⟩

/-- `newSeed` and `keyGen` tell which buttons are enabled. The dialog for a
seed phrase is not modal. -/
structure KeyGenWidget where
  masterSeed : MasterSeed
  nextKeyId : KeyId
  newSeed : Bool
  keyGen : Bool
  typeSeedDialog : Bool
  seedMsBox : Bytes
  statusBar : String
  keys : List KeyPair

def KeyGenWidget.initial : KeyGenWidget where
  masterSeed := .new kMasterSeedSize
  nextKeyId := 0
  newSeed := true
  keyGen := false
  typeSeedDialog := false
  seedMsBox := []
  statusBar := ""
  keys := []

inductive KeyGenEntry where
  | seed (content : ByteArray kMasterSeedSize)
  | pair (keys : KeyPair)

structure KeyGenRun where
  widget : KeyGenWidget
  history : List KeyGenEntry

/-- What the widget uses that is not part of the repository, and the English
dictionary. -/
structure KeyGenLib where
  sign : SignKeys
  kdf : Kdf
  calculateHash : Bytes → Hash
  en : Dictionary

inductive KeyGenEvent where
  | genNewSeed (random : ByteArray kMasterSeedSize)
  | showTypeSeedDialog
  | closeTypeSeedDialog
  | handleInputSeed (text : Bytes)
  | loadSeedFromFile (text : Option Bytes)
  | disableKeyGen
  | genKeyPair
  | setSeedOnMsBox
  | saveSeedToFile (opened : Bool)

namespace KeyGenRun

def initial : KeyGenRun := ⟨.initial, []⟩

def update (run : KeyGenRun) (change : KeyGenWidget → KeyGenWidget) : KeyGenRun :=
  { run with widget := change run.widget }

def toStatusBar (run : KeyGenRun) (message : String) : KeyGenRun :=
  run.update ({ · with statusBar := message })

/-- `masterSeed_ = seed`, with its entry in the history. -/
def setMasterSeed (run : KeyGenRun) (seed : MasterSeed) : KeyGenRun where
  widget := { run.widget with masterSeed := seed }
  history := match seed.mem with
    | some block => run.history ++ [.seed block.content]
    | none => run.history

def enable (run : KeyGenRun) (newSeed keyGen : Bool) : KeyGenRun :=
  run.update ({ · with newSeed, keyGen })

def genNewSeed (run : KeyGenRun) (random : ByteArray kMasterSeedSize) : Except Fault KeyGenRun := do
  let run := run.setMasterSeed (← generateMasterSeed random)
  return (run.enable false true).toStatusBar
    "New seed has been generated! Save it to restore your keys in future."

def disableKeyGen (run : KeyGenRun) : KeyGenRun := run.enable true false

def fillMasterSeedFromString (lib : KeyGenLib) (run : KeyGenRun) (s : Bytes) :
    Except Fault KeyGenRun := do
  match ← readWords lib.en kNumWords ⟨s, false⟩ with
  | some res =>
      let run := (run.enable false true).toStatusBar "Seed phrase is correct."
      let result ← wordsToMasterSeed res lib.en false
      return run.setMasterSeed result.seed
  | none => return (run.toStatusBar "Incorrect seed phrase!").disableKeyGen

def loadSeedFromFile (lib : KeyGenLib) (run : KeyGenRun) : Option Bytes → Except Fault KeyGenRun
  | none => .ok (run.toStatusBar "File to load seed from was not opened!")
  | some text => run.fillMasterSeedFromString lib text

def genKeyPair (lib : KeyGenLib) (run : KeyGenRun) : Except Fault KeyGenRun := do
  let (newPair, masterSeed) ←
    deriveKeyPair lib.sign lib.kdf run.widget.masterSeed run.widget.nextKeyId zeroContext
  return {
    widget := { run.widget with
      masterSeed
      nextKeyId := run.widget.nextKeyId + 1
      keys := run.widget.keys ++ [newPair] }
    history := run.history ++ [.pair newPair] }

/-- The words of the seed, each with a space after it. -/
def getSeedString (lib : KeyGenLib) (run : KeyGenRun) : Except Fault (Bytes × KeyGenRun) := do
  let (words, masterSeed) ← masterSeedToWords lib.calculateHash run.widget.masterSeed lib.en
  return (words.strings.flatMap (fun word => word.bytes ++ [32]), run.update ({ · with masterSeed }))

def setSeedOnMsBox (lib : KeyGenLib) (run : KeyGenRun) : Except Fault KeyGenRun := do
  let (s, run) ← run.getSeedString lib
  return run.update ({ · with seedMsBox := s })

def saveSeedToFile (lib : KeyGenLib) (run : KeyGenRun) (opened : Bool) : Except Fault KeyGenRun :=
  if opened then do
    let (_, run) ← run.getSeedString lib
    return run.toStatusBar "Seed saved to file."
  else .ok (run.toStatusBar "File to save seed was not opened!")

/-- An event reaches its slot only through a button that is enabled, or through
the open dialog. -/
def step (lib : KeyGenLib) (run : KeyGenRun) : KeyGenEvent → Except Fault KeyGenRun
  | .genNewSeed random => if run.widget.newSeed then run.genNewSeed random else .ok run
  | .showTypeSeedDialog =>
      .ok (if run.widget.newSeed then run.update ({ · with typeSeedDialog := true }) else run)
  | .closeTypeSeedDialog => .ok (run.update ({ · with typeSeedDialog := false }))
  | .handleInputSeed text =>
      if run.widget.typeSeedDialog then
        (run.update ({ · with typeSeedDialog := false })).fillMasterSeedFromString lib text
      else .ok run
  | .loadSeedFromFile text =>
      if run.widget.newSeed then run.loadSeedFromFile lib text else .ok run
  | .disableKeyGen => .ok (if run.widget.keyGen then run.disableKeyGen else run)
  | .genKeyPair => if run.widget.keyGen then run.genKeyPair lib else .ok run
  | .setSeedOnMsBox => if run.widget.keyGen then run.setSeedOnMsBox lib else .ok run
  | .saveSeedToFile opened =>
      if run.widget.keyGen then run.saveSeedToFile lib opened else .ok run

end KeyGenRun

end Cscrypto.Gui
