import Cscrypto.Base58.Codec
import Cscrypto.Core.Sodium

namespace Cscrypto.Gui

open Cscrypto.Base58

/-! # What the widgets share

`KeyListModel`, the list of own keys, with the current index of a view, and the
shortest password.
-/

abbrev kMinPswdSize : Nat := 3

/-- `KeyPair()`, which the model returns for an invalid index. -/
def KeyListModel.missing : KeyPair := (.replicate kPublicKeySize 0, ⟨none⟩)

def KeyListModel.getKeyPair (keys : List KeyPair) (index : Option Nat) : KeyPair :=
  (index.bind (keys[·]?)).getD missing

def KeyListModel.data (keys : List KeyPair) (index : Option Nat) : Bytes :=
  match index.bind (keys[·]?) with
  | some pair => EncodeBase58 pair.1.bytes
  | none => []

/-- The state of a check box. -/
inductive CheckState where
  | unchecked
  | partiallyChecked
  | checked
deriving DecidableEq

end Cscrypto.Gui
