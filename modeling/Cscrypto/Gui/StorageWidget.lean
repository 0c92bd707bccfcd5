import Cscrypto.Data.Run
import Cscrypto.Gui.Database
import Cscrypto.Gui.KeyListModel

namespace Cscrypto.Gui

open Cscrypto.Base58 Cscrypto.Data

/-! # Importing keys

`StorageWidget` fills the table of imported keys.  It decodes a typed text only
to check it, and stores the text itself, while the key exchange looks a sender
up by the encoding of its key.
-/

structure StorageWidget where
  recordId : Int
  table : Table
  statusBar : List String

/-- The fields of the import dialog when its button is pressed, and whether
the database can be written then. -/
structure ImportDialog where
  importedKey : Bytes
  trustedKey : CheckState
  writable : Bool

/-- The field of the removal dialog, and which records SQLite selects when the
text stands after `WHERE ID=`: `none` if the statement fails. -/
structure RemoveDialog where
  idToRemove : Bytes
  selected : Option (Record → Bool)

namespace StorageWidget

/-- The loop over the stored records that sets `recordId_`. -/
def nextRecordId (records : Table) : Int :=
  records.foldl (fun recordId record =>
    if recordId > record.id then recordId else record.id + 1) 0

def setUpModel (records : Table) : StorageWidget := ⟨nextRecordId records, records, []⟩

def toStatusBar (widget : StorageWidget) (message : String) : StorageWidget :=
  { widget with statusBar := widget.statusBar ++ [message] }

/-- `INSERT INTO publicKeys`: the `ID` is the primary key. -/
def insertRecord (table : Table) (writable : Bool) (record : Record) : Table :=
  if writable = true ∧ ∀ other ∈ table, other.id ≠ record.id then table ++ [record] else table

/-- The result of the statement is not looked at. -/
def addKeyToDatabase (widget : StorageWidget) (dialog : ImportDialog) : StorageWidget :=
  let key58 := dialog.importedKey
  if key58 = [] then widget.toStatusBar "Empty public key!"
  else
    match DecodeBase58 key58 with
    | none => widget.toStatusBar "Invalid public key!"
    | some pubBytes =>
        if pubBytes.length ≠ kPublicKeySize then widget.toStatusBar "Invalid public key!"
        else
          let trusted := if dialog.trustedKey = .checked then "yes" else "no"
          { widget with
            recordId := widget.recordId + 1
            table := insertRecord widget.table dialog.writable ⟨widget.recordId, key58, trusted⟩ }

def removeKeyFromDatabase (widget : StorageWidget) (dialog : RemoveDialog) : StorageWidget :=
  if dialog.idToRemove = [] then widget.toStatusBar "Empty id field!"
  else
    match dialog.selected with
    | none => widget.toStatusBar "Invalid id. No keys removed."
    | some selected => { widget with table := widget.table.filter (!selected ·) }

theorem nextRecordId_bounds (records : Table) (start : Int) :
    start ≤ records.foldl (fun recordId record =>
        if recordId > record.id then recordId else record.id + 1) start ∧
      ∀ record ∈ records, record.id < records.foldl (fun recordId record =>
        if recordId > record.id then recordId else record.id + 1) start := by
  induction records generalizing start with
  | nil => simp
  | cons record rest ih =>
      rw [List.foldl_cons]
      obtain ⟨grows, above⟩ := ih (if start > record.id then start else record.id + 1)
      have first : start ≤ (if start > record.id then start else record.id + 1) ∧
          record.id < (if start > record.id then start else record.id + 1) := by
        split <;> omega
      refine ⟨first.1.trans grows, ?_⟩
      intro other member
      rcases List.mem_cons.mp member with rfl | later
      · exact first.2.trans_le grows
      · exact above other later

/-- The next identifier is above those of all records. -/
def NextIsFree (widget : StorageWidget) : Prop :=
  ∀ record ∈ widget.table, record.id < widget.recordId

theorem setUpModel_nextIsFree (records : Table) : (setUpModel records).NextIsFree :=
  (nextRecordId_bounds records 0).2

inductive Action where
  | add (dialog : ImportDialog)
  | remove (dialog : RemoveDialog)

def step (widget : StorageWidget) : Action → StorageWidget
  | .add dialog => widget.addKeyToDatabase dialog
  | .remove dialog => widget.removeKeyFromDatabase dialog

theorem addKeyToDatabase_nextIsFree {widget : StorageWidget} (free : widget.NextIsFree)
    (dialog : ImportDialog) : (widget.addKeyToDatabase dialog).NextIsFree := by
  unfold addKeyToDatabase
  dsimp only
  split
  · exact free
  split
  · exact free
  split
  · exact free
  intro record member
  dsimp only [insertRecord] at member ⊢
  split at member
  · rcases List.mem_append.mp member with earlier | last
    · exact (free record earlier).trans (Int.lt_succ _)
    · rw [List.mem_singleton.mp last]
      exact Int.lt_succ _
  · exact (free record member).trans (Int.lt_succ _)

theorem removeKeyFromDatabase_nextIsFree {widget : StorageWidget} (free : widget.NextIsFree)
    (dialog : RemoveDialog) : (widget.removeKeyFromDatabase dialog).NextIsFree := by
  unfold removeKeyFromDatabase
  split
  · exact free
  split
  · exact free
  · intro record member
    exact free record (List.mem_filter.mp member).1

theorem step_nextIsFree {widget : StorageWidget} (free : widget.NextIsFree) (action : Action) :
    (widget.step action).NextIsFree := by
  cases action with
  | add dialog => exact addKeyToDatabase_nextIsFree free dialog
  | remove dialog => exact removeKeyFromDatabase_nextIsFree free dialog

theorem addKeyToDatabase_accepted {widget : StorageWidget} {dialog : ImportDialog} {key : PublicKey}
    (accepted : DecodeBase58 dialog.importedKey = some key.bytes) :
    (widget.addKeyToDatabase dialog).table = insertRecord widget.table dialog.writable
      ⟨widget.recordId, dialog.importedKey,
        if dialog.trustedKey = .checked then "yes" else "no"⟩ := by
  have nonempty : dialog.importedKey ≠ [] := by
    intro empty
    rw [empty] at accepted
    have sizes := congrArg List.length (Option.some.inj accepted)
    rw [key.size_eq] at sizes
    contradiction
  simp only [addKeyToDatabase, if_neg nonempty, accepted, key.size_eq]
  rfl

/-- Whatever was imported and removed before, a writable database stores an
accepted text. -/
theorem addKeyToDatabase_stores {widget : StorageWidget} {dialog : ImportDialog} {key : PublicKey}
    (free : widget.NextIsFree) (accepted : DecodeBase58 dialog.importedKey = some key.bytes)
    (writable : dialog.writable = true) :
    ∃ record, (widget.addKeyToDatabase dialog).table = widget.table ++ [record] := by
  rw [addKeyToDatabase_accepted accepted, insertRecord, if_pos]
  · exact ⟨_, rfl⟩
  · exact ⟨writable, fun record member => (free record member).ne⟩

theorem stored_record {widget : StorageWidget} {dialog : ImportDialog} {key : PublicKey}
    {record : Record} (accepted : DecodeBase58 dialog.importedKey = some key.bytes)
    (checked : dialog.trustedKey = .checked)
    (stored : (widget.addKeyToDatabase dialog).table = widget.table ++ [record]) :
    record = ⟨widget.recordId, dialog.importedKey, "yes"⟩ := by
  rw [addKeyToDatabase_accepted accepted, if_pos checked, insertRecord] at stored
  split at stored
  · exact (List.singleton_inj.mp (List.append_cancel_left stored)).symm
  · simp at stored

theorem isTrusted_append_other {text : Bytes} {record : Record}
    (different : record.importedKey ≠ text) (table : Table) :
    isTrusted text (table ++ [record]) = isTrusted text table := by
  induction table with
  | nil => simp [isTrusted, different]
  | cons first rest ih => simp [isTrusted, ih]

theorem isTrusted_append_unlisted {text : Bytes} {table : Table}
    (unlisted : ∀ other ∈ table, other.importedKey ≠ text) (record : Record) :
    isTrusted text (table ++ [record]) =
      decide (record.importedKey = text ∧ record.trusted = "yes") := by
  induction table with
  | nil => by_cases same : record.importedKey = text <;> simp [isTrusted, same]
  | cons first rest ih =>
      have different : first.importedKey ≠ text := unlisted first List.mem_cons_self
      rw [List.cons_append, isTrusted, if_neg different]
      exact ih (fun other member => unlisted other (List.mem_cons_of_mem _ member))

theorem imported_unlisted {table : Table} {key : PublicKey}
    (only : ∀ record ∈ table, DecodeBase58 record.importedKey ≠ some key.bytes) :
    ∀ record ∈ table, record.importedKey ≠ EncodeBase58 key.bytes := by
  intro record member same
  refine only record member ?_
  rw [same, DecodeBase58_EncodeBase58]

theorem verify_imported {widget : StorageWidget} {dialog : ImportDialog} {key : PublicKey}
    {thread : Thread} {process : Process} {record : Record}
    (accepted : DecodeBase58 dialog.importedKey = some key.bytes)
    (checked : dialog.trustedKey = .checked)
    (stored : (widget.addKeyToDatabase dialog).table = widget.table ++ [record])
    (only : ∀ record ∈ widget.table, DecodeBase58 record.importedKey ≠ some key.bytes)
    (connected : process.connected thread = true) :
    verifySenderPublicKey (some (widget.addKeyToDatabase dialog).table) thread process key = true ↔
      Plain dialog.importedKey := by
  rw [← EncodeBase58_eq_iff_plain accepted, verifySenderPublicKey, if_pos connected, stored,
    stored_record accepted checked stored]
  simp only [isTrusted_append_unlisted (imported_unlisted only), and_true, decide_eq_true_eq]
  exact eq_comm

theorem verify_other {widget : StorageWidget} {dialog : ImportDialog} {key other : PublicKey}
    {record : Record} (thread : Thread) (process : Process)
    (accepted : DecodeBase58 dialog.importedKey = some key.bytes)
    (checked : dialog.trustedKey = .checked)
    (stored : (widget.addKeyToDatabase dialog).table = widget.table ++ [record])
    (different : other ≠ key) :
    verifySenderPublicKey (some (widget.addKeyToDatabase dialog).table) thread process other =
      verifySenderPublicKey (some widget.table) thread process other := by
  have text : record.importedKey ≠ EncodeBase58 other.bytes := by
    rw [stored_record accepted checked stored]
    intro same
    rw [show dialog.importedKey = EncodeBase58 other.bytes from same,
      DecodeBase58_EncodeBase58] at accepted
    exact different (ByteArray.ext_bytes (Option.some.inj accepted))
  rw [verifySenderPublicKey, verifySenderPublicKey, stored]
  simp only [isTrusted_append_other text]

/-- A stored text makes its own key trusted, and no other, exactly if it is
what the exchange compares with. -/
theorem imported_key_recognised_iff {widget : StorageWidget} {dialog : ImportDialog}
    {key : PublicKey} {thread : Thread} {process : Process}
    (accepted : DecodeBase58 dialog.importedKey = some key.bytes)
    (checked : dialog.trustedKey = .checked)
    (stored : ∃ record, (widget.addKeyToDatabase dialog).table = widget.table ++ [record])
    (only : ∀ record ∈ widget.table, DecodeBase58 record.importedKey ≠ some key.bytes)
    (connected : process.connected thread = true) :
    verifySenderPublicKey (some (widget.addKeyToDatabase dialog).table) thread process key = true ∧
        (∀ other, other ≠ key →
          verifySenderPublicKey (some (widget.addKeyToDatabase dialog).table) thread process other =
            verifySenderPublicKey (some widget.table) thread process other) ↔
      Plain dialog.importedKey := by
  obtain ⟨record, stored⟩ := stored
  rw [verify_imported accepted checked stored only connected]
  exact and_iff_left (fun other different =>
    verify_other thread process accepted checked stored different)

def someKey : PublicKey := .replicate kPublicKeySize 1

def importOf (text : Bytes) : ImportDialog where
  importedKey := text
  trustedKey := .checked
  writable := true

def openProcess : Process := ⟨some 7, [7], fun _ => .main⟩

theorem imported_key_recognised_encoded :
    Plain (EncodeBase58 someKey.bytes) ∧
      (verifySenderPublicKey (some ((setUpModel []).addKeyToDatabase
          (importOf (EncodeBase58 someKey.bytes))).table) .main openProcess someKey = true ∧
        ∀ other, other ≠ someKey →
          verifySenderPublicKey (some ((setUpModel []).addKeyToDatabase
              (importOf (EncodeBase58 someKey.bytes))).table) .main openProcess other =
            verifySenderPublicKey (some []) .main openProcess other) := by
  have accepted := DecodeBase58_EncodeBase58 someKey.bytes
  have plain := EncodeBase58_plain someKey.bytes
  have stored := @addKeyToDatabase_stores (setUpModel [])
    (importOf (EncodeBase58 someKey.bytes)) someKey (setUpModel_nextIsFree []) accepted rfl
  exact ⟨plain, (imported_key_recognised_iff accepted rfl stored (by simp [setUpModel]) rfl).mpr
    plain⟩

theorem DecodeBase58_trailing_space (bytes : Bytes) :
    DecodeBase58 (EncodeBase58 bytes ++ [32]) = some bytes := by
  have ended : cStr (EncodeBase58 bytes ++ [32]) = EncodeBase58 bytes ++ [32] := by
    rw [cStr, List.takeWhile_eq_self_iff]
    intro character member
    rcases List.mem_append.mp member with coded | last
    · simpa using (EncodeBase58_plain bytes character coded).2
    · rw [List.mem_singleton.mp last]
      decide
  have space : isspace 32 = true := rfl
  exact DecodeBase58_eq_some_iff.mpr ⟨[], [32], by simp, by simp [space], by rw [ended]; simp⟩

/-- A key with a space after it is accepted and never recognised. -/
theorem spaced_key_not_recognised :
    ¬∀ (widget : StorageWidget) (dialog : ImportDialog) (key : PublicKey) (thread : Thread)
      (process : Process),
      DecodeBase58 dialog.importedKey = some key.bytes → dialog.trustedKey = .checked →
      (∃ record, (widget.addKeyToDatabase dialog).table = widget.table ++ [record]) →
      (∀ record ∈ widget.table, DecodeBase58 record.importedKey ≠ some key.bytes) →
      process.connected thread = true →
        verifySenderPublicKey (some (widget.addKeyToDatabase dialog).table) thread process
            key = true ∧
          ∀ other, other ≠ key →
            verifySenderPublicKey (some (widget.addKeyToDatabase dialog).table) thread process
                other =
              verifySenderPublicKey (some widget.table) thread process other := by
  intro recognised
  have accepted := DecodeBase58_trailing_space someKey.bytes
  have stored := @addKeyToDatabase_stores (setUpModel [])
    (importOf (EncodeBase58 someKey.bytes ++ [32])) someKey (setUpModel_nextIsFree []) accepted rfl
  have only : ∀ record ∈ (setUpModel []).table,
      DecodeBase58 record.importedKey ≠ some someKey.bytes := by simp [setUpModel]
  have found := (recognised (setUpModel []) (importOf (EncodeBase58 someKey.bytes ++ [32])) someKey
    .main openProcess accepted rfl stored only rfl).1
  obtain ⟨record, stored⟩ := stored
  have plain : Plain (EncodeBase58 someKey.bytes ++ [32]) :=
    (@verify_imported (setUpModel []) (importOf (EncodeBase58 someKey.bytes ++ [32])) someKey
      .main openProcess record accepted rfl stored only rfl).mp found
  have space : isspace 32 = false := (plain 32 (by simp)).1
  contradiction

end StorageWidget

end Cscrypto.Gui
