import Cscrypto.Core.Hash
import Cscrypto.Gui.KeyListModel

namespace Cscrypto.Gui

open Cscrypto.Base58

/-! # Hashing in the window

`HashWidget::calculateHash`, which shows what `calculateHash` returns.
-/

/-- What the slot reads and writes of the widget. `hashingData` keeps the file
that was loaded, or the last message. -/
structure HashWidget where
  fileMode : Bool
  hmacMode : Bool
  hashingMsg : Bytes
  hashingData : Bytes
  hmacKeyLineEdit : Bytes
  genHashLineEdit : Bytes
  statusBar : String

namespace HashWidget

/-- The data that is hashed. -/
def data (widget : HashWidget) : Bytes :=
  if widget.fileMode then widget.hashingData else widget.hashingMsg

/-- The key that is passed, `nullptr` and zero in the default arguments. -/
def key (widget : HashWidget) : Bytes := if widget.hmacMode then widget.hmacKeyLineEdit else []

def calculateHash (blake2s : Blake) (memory : Hash) (widget : HashWidget) : HashWidget :=
  let hash := Cscrypto.calculateHash blake2s memory widget.data widget.key
  { widget with
    hashingData := widget.data
    genHashLineEdit := EncodeBase58 hash.bytes
    statusBar := "Hash has been calculated." }

/-- The text that is shown does not depend on the memory of the result. -/
def ShowsHash (blake2s : Blake) (widget : HashWidget) : Prop :=
  ∀ memory other, (widget.calculateHash blake2s memory).genHashLineEdit =
    (widget.calculateHash blake2s other).genHashLineEdit

theorem showsHash_iff {blake2s : Blake} (laws : BlakeLaws blake2s) (widget : HashWidget) :
    widget.ShowsHash blake2s ↔ widget.key.length ≤ kBlakeKeySize := by
  constructor
  · intro shows
    by_contra long
    have failed := laws.refuses widget.data widget.key (Nat.lt_of_not_le long)
    have texts := shows (.replicate _ 0) (.replicate _ 1)
    have hashes := EncodeBase58_injective texts
    rw [calculateHash_none failed, calculateHash_none failed] at hashes
    contradiction
  · intro short memory other
    have same := ((hashDefined_iff laws widget.data widget.key).mpr short).same memory other
    simp only [calculateHash, same]

/-- A hash is one that `blake2s` wrote, whatever was in memory before, exactly
for the keys of at most 32 bytes. -/
theorem hash_defined_iff {blake2s : Blake} (laws : BlakeLaws blake2s) :
    (∀ data key, HashDefined blake2s data key ↔ key.length ≤ kBlakeKeySize) ∧
      ∀ widget : HashWidget, widget.ShowsHash blake2s ↔ widget.key.length ≤ kBlakeKeySize :=
  ⟨hashDefined_iff laws, showsHash_iff laws⟩

theorem hash_defined_checksum : HashDefined checksumBlake [1, 2, 3] (ascii "secret") :=
  ((hash_defined_iff checksumBlake_laws).1 _ _).mpr (by decide)

/-- A key of 33 zeros. -/
theorem long_key_shows_memory : ¬HashDefined checksumBlake [] (List.replicate 33 0) := by
  intro defined
  have same := defined.same (.replicate _ 0) (.replicate _ 1)
  contradiction

end HashWidget

end Cscrypto.Gui
