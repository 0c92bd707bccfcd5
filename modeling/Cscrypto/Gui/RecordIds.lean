import Cscrypto.Gui.StorageWidget

namespace Cscrypto.Gui.StorageWidget

open Cscrypto.Base58 Cscrypto.Data

/-! # Record identifiers over restarts

The counter `recordId_` lives as long as the window.  A new window counts on
from the largest identifier in the table, in whatever order the rows are read.
-/

/-- The largest `int`. -/
def kIntMax : Int := 2 ^ 31 - 1

/-- `recordId_` is counted up beyond the largest `int`. -/
inductive Overflow where
  | recordId

/-- An import or a removal in the window, or a new start of the application,
which reads the rows of the table in some order. -/
inductive StorageEvent where
  | act (action : Action)
  | restart (rows : Table)

def checked (widget : StorageWidget) : Except Overflow StorageWidget :=
  if widget.recordId ≤ kIntMax then .ok widget else .error .recordId

def onEvent (widget : StorageWidget) : StorageEvent → Except Overflow StorageWidget
  | .act action => (widget.step action).checked
  | .restart rows => if rows.Perm widget.table then (setUpModel rows).checked else .ok widget

/-- The text of the import dialog is a public key. -/
def Accepted (dialog : ImportDialog) : Prop :=
  ∃ key : PublicKey, DecodeBase58 dialog.importedKey = some key.bytes

/-- An accepted import adds a row with an identifier that no row has, unless
the database cannot be written. -/
def KeepsImport (widget : StorageWidget) : StorageEvent → Prop
  | .act (.add dialog) => Accepted dialog →
      (∀ record ∈ widget.table, record.id ≠ widget.recordId) ∧
        (widget.step (.add dialog)).table =
          if dialog.writable then widget.table ++ [⟨widget.recordId, dialog.importedKey,
            if dialog.trustedKey = .checked then "yes" else "no"⟩]
          else widget.table
  | _ => True

/-- The counter is an `int` above all identifiers, which are distinct. -/
structure IdsUnique (widget : StorageWidget) : Prop where
  free : widget.NextIsFree
  distinct : (widget.table.map Record.id).Nodup
  bounded : widget.recordId ≤ kIntMax

variable {widget next : StorageWidget}

theorem checked_ok (ran : widget.checked = .ok next) : next = widget ∧ widget.recordId ≤ kIntMax := by
  unfold checked at ran
  split at ran
  · cases ran
    exact ⟨rfl, by assumption⟩
  · contradiction

theorem insertRecord_distinct {table : Table} (distinct : (table.map Record.id).Nodup)
    (writable : Bool) (record : Record) :
    ((insertRecord table writable record).map Record.id).Nodup := by
  unfold insertRecord
  split
  · rename_i unused
    rw [List.map_append, List.map_singleton, List.nodup_append]
    refine ⟨distinct, List.nodup_singleton _, ?_⟩
    intro id member other same
    obtain ⟨found, inside, rfl⟩ := List.mem_map.mp member
    rw [List.mem_singleton.mp same]
    exact unused.2 found inside
  · exact distinct

theorem step_distinct (distinct : (widget.table.map Record.id).Nodup) (action : Action) :
    ((widget.step action).table.map Record.id).Nodup := by
  cases action with
  | add dialog =>
      rw [step, addKeyToDatabase]
      dsimp only
      split
      · exact distinct
      split
      · exact distinct
      split
      · exact distinct
      · exact insertRecord_distinct distinct _ _
  | remove dialog =>
      rw [step, removeKeyFromDatabase]
      split
      · exact distinct
      split
      · exact distinct
      · exact distinct.sublist (List.filter_sublist.map Record.id)

theorem IdsUnique.onEvent (unique : widget.IdsUnique) {event : StorageEvent}
    (ran : widget.onEvent event = .ok next) : next.IdsUnique := by
  cases event with
  | act action =>
      obtain ⟨rfl, bounded⟩ := checked_ok ran
      exact ⟨step_nextIsFree unique.free action, step_distinct unique.distinct action, bounded⟩
  | restart rows =>
      rw [StorageWidget.onEvent] at ran
      split at ran
      · rename_i same
        obtain ⟨rfl, bounded⟩ := checked_ok ran
        exact ⟨setUpModel_nextIsFree rows,
          (same.map Record.id).nodup_iff.mpr unique.distinct, bounded⟩
      · cases ran
        exact unique

/-- A free identifier is no primary key conflict. -/
theorem IdsUnique.keepsImport (unique : widget.IdsUnique) (event : StorageEvent) :
    widget.KeepsImport event := by
  cases event with
  | restart rows => trivial
  | act action =>
      cases action with
      | remove dialog => trivial
      | add dialog =>
          intro accepted
          obtain ⟨key, decoded⟩ := accepted
          have free : ∀ record ∈ widget.table, record.id ≠ widget.recordId :=
            fun record member => (unique.free record member).ne
          refine ⟨free, ?_⟩
          rw [step, addKeyToDatabase_accepted decoded, insertRecord]
          by_cases writable : dialog.writable = true
          · rw [if_pos ⟨writable, free⟩, if_pos writable]
          · rw [if_neg (fun given => writable given.1), if_neg writable]

theorem setUpModel_idsUnique {records : Table} (distinct : (records.map Record.id).Nodup)
    (below : ∀ record ∈ records, record.id < kIntMax) : (setUpModel records).IdsUnique := by
  refine ⟨setUpModel_nextIsFree records, distinct, ?_⟩
  have bounded : ∀ start ≤ kIntMax, records.foldl (fun recordId record =>
      if recordId > record.id then recordId else record.id + 1) start ≤ kIntMax := by
    clear distinct
    induction records with
    | nil => exact fun _ small => small
    | cons record rest ih =>
        intro start small
        have first := below record List.mem_cons_self
        refine ih (fun other inside => below other (List.mem_cons_of_mem _ inside)) _ ?_
        dsimp only
        split <;> omega
  exact bounded 0 (by decide)

/-- In every history, as long as the counter stays an `int`, it is above every
identifier in the table, and an accepted key meets no row with its identifier. -/
theorem record_ids_stay_unique (records : Table) (distinct : (records.map Record.id).Nodup)
    (below : ∀ record ∈ records, record.id < kIntMax) (events : List StorageEvent) :
    Always onEvent IdsUnique (setUpModel records) events ∧
      EveryStep onEvent KeepsImport (setUpModel records) events := by
  have start := setUpModel_idsUnique distinct below
  exact ⟨always_of_invariant (fun _ _ _ unique ran => unique.onEvent ran) start,
    everyStep_of_invariant (fun _ _ _ unique ran => unique.onEvent ran)
      (fun _ event unique => unique.keepsImport event) events start⟩

/-- Two rows, the larger identifier first, a removal of it and a new start. -/
def reusedId : List StorageEvent := [
  .act (.add (importOf (EncodeBase58 someKey.bytes))),
  .act (.remove ⟨ascii "5", some fun record => record.id = 5⟩),
  .restart [⟨1, [], "yes"⟩, ⟨4, [], "no"⟩],
  .act (.add (importOf (EncodeBase58 someKey.bytes)))]

theorem record_ids_stay_unique_reusedId :
    Always onEvent IdsUnique (setUpModel [⟨4, [], "no"⟩, ⟨1, [], "yes"⟩]) reusedId ∧
      EveryStep onEvent KeepsImport (setUpModel [⟨4, [], "no"⟩, ⟨1, [], "yes"⟩]) reusedId :=
  record_ids_stay_unique _ (by decide) (by decide) reusedId

end Cscrypto.Gui.StorageWidget
