import Cscrypto.Gui.Composition
import Cscrypto.Gui.ListedKeys

namespace Cscrypto.Gui

open Cscrypto.Base58 Cscrypto.Cipher Cscrypto.Data Cscrypto.KeyExchange Cscrypto.KeysDerivation

/-! # Senders that the user has imported

A session key in a window leads back to a key pair of the same process and to a
message that was checked there.  Its sender is one that the user has imported
with the box for trust checked, or has typed into the table of the key exchange
tab, or that was in the database before.
-/

/-- The records that a query of this action sees. -/
def NodeAction.table : NodeAction → Option Table
  | .receive env _ => env.table
  | .incoming env _ _ => env.table
  | _ => none

theorem Client.receive_validating {sodium : Sodium} {env : Environment} {client : Client}
    {process : Process} {bytes : Bytes} {result : Client × Process × List Event}
    (ran : client.receive sodium env process bytes = .ok result) {type : RequestType}
    {request : Bytes} {table : Option Table}
    (member : .validating type request table ∈ result.2.2) : table = env.table := by
  cases receive_reads ran with
  | none _ _ events => exact absurd (events _ member) (by simp [invalidData])
  | message type' request' rest validation _ known validated _ _ events =>
      have called : .validating type request table ∈ validation.events := by
        rw [events] at member
        split at member
        · exact member
        · exact (List.mem_append.mp member).resolve_right (by simp [invalidData])
      obtain ⟨_, _, _, outcome⟩ := RequestMaster.validate_ok known validated
      rcases outcome with ⟨_, refused⟩ | ⟨_, _, _, _, keys, formed, accepted⟩
      · rw [refused] at called
        cases List.mem_singleton.mp called
        rfl
      · rw [accepted] at called
        rcases List.mem_cons.mp called with same | later
        · cases same
          rfl
        · rcases RequestMaster.keysOnReply_ok formed with ⟨_, rfl⟩ | ⟨_, secret, _, rfl⟩
          · contradiction
          · obtain ⟨_, _, same, _⟩ := mem_emittedKeys later
            contradiction

theorem IncomingConnectionHandler.run_validating {sodium : Sodium} {env : Environment}
    {ownKeys : KeyPair} {memory : Memory} {process : Process} {arrivals : List Bytes}
    {outcome : Outcome} (ran : run sodium env ownKeys memory process arrivals = .ok outcome)
    {type : RequestType} {request : Bytes} {table : Option Table}
    (member : .validating type request table ∈ outcome.events) : table = env.table := by
  have serves := run_serves ran
  generalize outcome.events = events at member serves
  cases serves with
  | failed message => simp at member
  | rejected type' request' message =>
      simp only [List.mem_cons, Event.validating.injEq, reduceCtorEq, List.not_mem_nil, or_false]
        at member
      exact member.2.2
  | answered type' request' sender exchange keys answer valid keysOf answers =>
      rcases List.mem_cons.mp member with same | later
      · cases same
        rfl
      · rcases accepted_rest keysOf (.inr ⟨rfl, answers⟩) _ later with
          ⟨_, _, _, _, other, _⟩ | ⟨_, other⟩ | ⟨_, _, _, _, _, _, other⟩
        all_goals contradiction

theorem Node.step_validating {sodium : Sodium} {node next : Node} {act : NodeAction}
    {events : List Event} (ran : node.step sodium act = .ok (next, events)) {type : RequestType}
    {request : Bytes} {table : Option Table} (member : .validating type request table ∈ events) :
    table = act.table := by
  have plain {events : List Event} (all : ∀ event ∈ events, event.Plain)
      (member : .validating type request table ∈ events) : table = act.table :=
    absurd (all _ member) id
  cases step_steps ran with
  | ignored _ _ => contradiction
  | widget event => exact plain (node.onWidget_plain event) member
  | connected client _ _ formed => exact plain (Client.onConnected_effect formed).2 member
  | receive env bytes client process _ _ received => exact Client.receive_validating received member
  | socketError errorType => exact plain (node.client.socketErrorHandler_plain errorType).2 member
  | incoming env memory arrivals ownKeys outcome _ served =>
      exact IncomingConnectionHandler.run_validating served member

/-- The messages that an action adds to the log are checked with its table. -/
theorem World.step_validating {sodium : Sodium} (world : World) (action : Action) :
    ∃ added, (world.step sodium action).log = world.log ++ added ∧
      ∀ entry ∈ added, ∀ type request table, entry.event = .validating type request table →
        entry.party.node = action.node ∧ table = action.act.table := by
  have silent {next : World} (log : next.log = world.log) :
      ∃ added, next.log = world.log ++ added ∧
        ∀ entry ∈ added, ∀ type request table, entry.event = .validating type request table →
          entry.party.node = action.node ∧ table = action.act.table :=
    ⟨[], log.trans (List.append_nil _).symm, by simp⟩
  cases crashed : (world.nodes action.node).crashed with
  | true =>
      refine silent ?_
      simp only [World.step, crashed, if_true]
  | false =>
      rcases ran : (world.nodes action.node).step sodium action.act with fault | ⟨node, events⟩
      · exact silent (step_crash crashed ran).2.2
      · refine ⟨_, (step_ok crashed ran).2.2, ?_⟩
        intro entry member type request table checked
        obtain ⟨event, inside, rfl⟩ := List.mem_map.mp member
        dsimp only at checked
        subst checked
        exact ⟨Node.party_node _ _ _, Node.step_validating ran inside⟩

/-- The record was there at the start, or the user has entered its text, with
the box checked if the record says that the key is trusted, or he has typed the
whole record. -/
def Recorded (records : Option Table) (name : Nat) (past : List Happening) (record : Record) :
    Prop :=
  record ∈ records.getD [] ∨
    (∃ dialog, ⟨name, .storage (.add dialog)⟩ ∈ past ∧ record.importedKey = dialog.importedKey ∧
      (record.trusted = "yes" → dialog.trustedKey = .checked)) ∨
    ∃ row writable, ⟨name, .updateRowInTable row writable record⟩ ∈ past

theorem Recorded.later {records : Option Table} {name : Nat} {past more : List Happening}
    {record : Record} (recorded : Recorded records name past record) :
    Recorded records name (past ++ more) record := by
  rcases recorded with before | ⟨dialog, imported, text⟩ | ⟨row, writable, typed⟩
  · exact .inl before
  · exact .inr (.inl ⟨dialog, List.mem_append_left _ imported, text⟩)
  · exact .inr (.inr ⟨row, writable, List.mem_append_left _ typed⟩)

/-- What the user does to the database, and the table after it. -/
inductive MainEvent.Stores : MainEvent → StorageWidget → StorageWidget → Prop
  | storage (action : StorageWidget.Action) (widget : StorageWidget) :
      Stores (.storage action) widget (widget.step action)
  | updateRowInTable (row : Nat) (writable : Bool) (record : Record) (widget : StorageWidget) :
      Stores (.updateRowInTable row writable record) widget
        { widget with table := Gui.updateRowInTable widget.table row writable record }

theorem StorageWidget.mem_step {widget : StorageWidget} {action : StorageWidget.Action}
    {record : Record} (member : record ∈ (widget.step action).table) :
    record ∈ widget.table ∨ ∃ dialog, action = .add dialog ∧
      record.importedKey = dialog.importedKey ∧
      (record.trusted = "yes" → dialog.trustedKey = .checked) := by
  cases action with
  | add dialog =>
      simp only [step, addKeyToDatabase] at member
      split at member
      · exact .inl member
      split at member
      · exact .inl member
      split at member
      · exact .inl member
      · dsimp only [insertRecord] at member
        split at member
        · rcases List.mem_append.mp member with before | new
          · exact .inl before
          · rw [List.mem_singleton.mp new]
            refine .inr ⟨dialog, rfl, rfl, fun trusted => ?_⟩
            by_contra unchecked
            simp [unchecked] at trusted
        · exact .inl member
  | remove dialog =>
      simp only [step, removeKeyFromDatabase] at member
      split at member
      · exact .inl member
      split at member
      · exact .inl member
      · exact .inl (List.mem_filter.mp member).1

theorem mem_updateRowInTable {table : Table} {row : Nat} {writable : Bool} {record other : Record}
    (member : other ∈ updateRowInTable table row writable record) :
    other ∈ table ∨ other = record := by
  unfold updateRowInTable at member
  split at member
  · exact List.mem_or_eq_of_mem_set member
  · exact .inl member

theorem MainEvent.Stores.recorded {records : Option Table} {name : Nat} {past : List Happening}
    {event : MainEvent} {widget next : StorageWidget} (stores : event.Stores widget next)
    (every : ∀ record ∈ widget.table, Recorded records name past record) :
    ∀ record ∈ next.table, Recorded records name (past ++ [⟨name, event⟩]) record := by
  intro record member
  have here : (⟨name, event⟩ : Happening) ∈ past ++ [⟨name, event⟩] :=
    List.mem_append_right _ List.mem_cons_self
  cases stores with
  | storage action =>
      rcases StorageWidget.mem_step member with before | ⟨dialog, rfl, text⟩
      · exact (every record before).later
      · exact .inr (.inl ⟨dialog, here, text⟩)
  | updateRowInTable row writable typed =>
      rcases mem_updateRowInTable member with before | rfl
      · exact (every record before).later
      · exact .inr (.inr ⟨row, writable, here⟩)

theorem exists_record {text : Bytes} {table : Table} (trusted : isTrusted text table = true) :
    ∃ record ∈ table, record.importedKey = text ∧ record.trusted = "yes" := by
  induction table with
  | nil => contradiction
  | cons record rest ih =>
      rw [isTrusted] at trusted
      split at trusted
      · rename_i same
        exact ⟨record, List.mem_cons_self, same, of_decide_eq_true trusted⟩
      · obtain ⟨found, member, named⟩ := ih trusted
        exact ⟨found, .tail _ member, named⟩

namespace MainWidget

variable {lib : MainLib} {window next : MainWidget} {event : MainEvent} {pairs : List KeyPair}

theorem slot_storage (ran : window.slot lib event = .ok (next, pairs)) :
    next.storage = window.storage ∨ event.Stores window.storage next.storage := by
  cases event with
  | storage action =>
      cases ran
      split
      · exact .inr (.storage action window.storage)
      · exact .inl rfl
  | updateRowInTable row writable record =>
      cases ran
      split
      · exact .inr (.updateRowInTable row writable record window.storage)
      · exact .inl rfl
  | keygen event | sign event | cipher event =>
      obtain ⟨_, _, ran⟩ := bind_eq_ok.mp ran
      cases ran
      exact .inl rfl
  | typePrivateKey text =>
      cases ran
      split <;> exact .inl rfl
  | handlePrivKeyLine =>
      simp only [MainWidget.slot] at ran
      split at ran
      · cases ran
        exact .inl rfl
      · obtain ⟨_, _, ran⟩ := bind_eq_ok.mp ran
        cases ran
        exact .inl rfl
  | genPublicFromPrivateDialog | hash event | keyFiles event | exchange act =>
      cases ran
      exact .inl rfl

theorem step_storage (ran : window.step lib event = .ok (next, pairs)) :
    next.storage = window.storage ∨ event.Stores window.storage next.storage := by
  cases step_steps ran with
  | keyFiles event keyFiles sign stepped signs => exact .inl rfl
  | slot event middle pairs keyFiles sign slot reaches keys chosen signs =>
      have stored := slot_storage slot
      exact stored

end MainWidget

namespace System

/-- What happens in one process leaves the window of another as it is. -/
theorem step_windows (lib : MainLib) (system : System) (happening : Happening) {other : Nat}
    (different : other ≠ happening.name) :
    (system.step lib happening).windows other = system.windows other := by
  obtain ⟨name, event⟩ := happening
  unfold System.step
  split
  · rfl
  · cases event with
    | exchange act =>
        rcases exchange_cases lib system name act with ⟨_, next⟩ | ⟨_, cipher, next⟩
        · exact congrArg (System.windows · other) next
        · exact (congrArg (System.windows · other) next).trans (Function.update_of_ne different _ _)
    | _ =>
        simp only [System.tab]
        split <;> exact Function.update_of_ne different _ _

/-- The database of a process changes by what its own user does. -/
theorem step_storage (lib : MainLib) (system : System) (happening : Happening) (name : Nat) :
    ((system.step lib happening).windows name).storage = (system.windows name).storage ∨
      happening.name = name ∧ happening.event.Stores (system.windows name).storage
        ((system.step lib happening).windows name).storage := by
  by_cases own : name = happening.name
  · obtain ⟨_, event⟩ := happening
    subst own
    have tab (event : MainEvent) :
        ((system.tab lib name event).windows name).storage = (system.windows name).storage ∨
          event.Stores (system.windows name).storage
            ((system.tab lib name event).windows name).storage := by
      rcases ran : (system.windows name).step lib event with fault | ⟨window, pairs⟩
      · refine .inl ?_
        simp only [System.tab, ran, System.setWindow, Function.update_self]
      · have stored := MainWidget.step_storage ran
        simp only [System.tab, ran, System.setWindow, Function.update_self]
        exact stored
    unfold System.step
    split
    · exact .inl rfl
    · cases event with
      | exchange act =>
          refine .inl ?_
          dsimp only
          rcases exchange_cases lib system name act with ⟨_, next⟩ | ⟨_, cipher, next⟩
          · rw [next]
          · rw [next]
            simp only [System.setWindow, Function.update_self]
      | _ => exact (tab _).imp_right fun stores => ⟨rfl, stores⟩
  · rw [step_windows lib system happening own]
    exact .inl rfl

/-- The log of the network only grows, and a message is checked with the records
that the process has then. -/
theorem step_validating (lib : MainLib) (system : System) (happening : Happening) :
    ∃ added, (system.step lib happening).network.log = system.network.log ++ added ∧
      ∀ entry ∈ added, ∀ type request records,
        entry.event = .validating type request (some records) →
        entry.party.node = happening.name ∧
          records = (system.windows happening.name).storage.table := by
  obtain ⟨name, event⟩ := happening
  have silent {next : System} (log : next.network.log = system.network.log) :
      ∃ added, next.network.log = system.network.log ++ added ∧
        ∀ entry ∈ added, ∀ type request records,
          entry.event = .validating type request (some records) →
          entry.party.node = name ∧ records = (system.windows name).storage.table :=
    ⟨[], log.trans (List.append_nil _).symm, by simp⟩
  unfold System.step
  split
  · exact silent rfl
  · rename_i possible
    simp only [Bool.or_eq_true, not_or, Bool.not_eq_true] at possible
    have running := (Bool.or_eq_false_iff.mp possible.1).2
    cases event with
    | exchange act =>
        dsimp only
        rcases exchange_cases lib system name act with ⟨_, next⟩ | ⟨_, cipher, next⟩
        · exact silent (by rw [next])
        · obtain ⟨added, log, checked⟩ := @World.step_validating lib.sodium system.network
            ⟨name, (system.windows name).observed act⟩
          refine ⟨added, by rw [next]; exact log, ?_⟩
          intro entry member type request records validating
          obtain ⟨own, table⟩ := checked entry member type request _ validating
          refine ⟨own, ?_⟩
          cases act with
          | receive env bytes | incoming env memory arrivals =>
              obtain ⟨_, _, same⟩ := Option.map_eq_some_iff.mp table.symm
              exact same.symm
          | widget event | connected | socketError errorType => contradiction
    | _ =>
        simp only [System.tab]
        split
        · exact silent rfl
        · rename_i window pairs _
          obtain ⟨_, told, _⟩ :=
            @World.run_addKeyPairs lib.sodium system.network name running pairs
          exact silent (by rw [told])

theorem run_concat (lib : MainLib) (start : System) (past : List Happening)
    (happening : Happening) :
    start.run lib (past ++ [happening]) = (start.run lib past).step lib happening :=
  List.foldl_concat _ _ _ _

theorem run_recorded (lib : MainLib) (memory : Nat → Memory) (disks : Nat → Disk)
    (records : Nat → Option Table) (happenings : List Happening) (name : Nat) :
    ∀ record ∈ (((initial memory disks records).run lib happenings).windows name).storage.table,
      Recorded (records name) name happenings record := by
  induction happenings using List.reverseRecOn with
  | nil => exact fun _ member => .inl member
  | append_singleton past happening ih =>
      rw [run_concat]
      rcases step_storage lib ((initial memory disks records).run lib past) happening name with
        same | ⟨rfl, stores⟩
      · rw [same]
        exact fun record member => (ih record member).later
      · exact stores.recorded ih

/-- What the network has logged after some happenings. -/
def logged (lib : MainLib) (start : System) (happenings : List Happening) : List Entry :=
  (start.run lib happenings).network.log

theorem logged_grows (lib : MainLib) (start : System) (past : List Happening)
    (happening : Happening) : ∃ added,
      logged lib start (past ++ [happening]) = logged lib start past ++ added ∧
        ∀ entry ∈ added, ∀ type request records,
          entry.event = .validating type request (some records) →
          entry.party.node = happening.name ∧
            records = ((start.run lib past).windows happening.name).storage.table := by
  rw [logged, run_concat]
  exact step_validating lib (start.run lib past) happening

/-- One of some records makes a sender trusted, and the user has put it there. -/
structure ImportedSender (records : Option Table) (name : Nat) (past : List Happening)
    (table : Table) (sender : PublicKey) : Prop where
  record : ∃ record ∈ table, record.importedKey = EncodeBase58 sender.bytes ∧
    record.trusted = "yes" ∧ Recorded records name past record

/-- Where a session key of a process comes from. A party of the process has
emitted it, right after the message that it has checked last. The happening after
`front` has brought that message, which met all checks with the records that the
process had then, from a sender that its user had put there as trusted. The key is
computed from the exchange key in the message and from a pair of the list. -/
structure RowImported (lib : MainLib) (start : System) (records : Option Table)
    (happenings : List Happening) (name : Nat) (row : Bytes × Bytes) : Prop where
  origin : ∃ party before between after front event secret type request table sender exchange,
    party.node = name ∧
    logged lib start happenings = before ++ ⟨party, .validating type request (some table)⟩ ::
      (between ++ ⟨party, .emitted (lib.sign.skToPk secret, .holding secret) row.1 row.2⟩ ::
        after) ∧
    (∀ entry ∈ between, messageOf party entry = none) ∧
    Writes (logged lib start) happenings front ⟨name, event⟩ before
      ⟨party, .validating type request (some table)⟩ ∧
    table = ((start.run lib front).windows name).storage.table ∧
    Accepts lib.sodium (some table) type request sender exchange ∧
    ImportedSender records name front table sender ∧
    (lib.sign.skToPk secret, .holding secret) ∈
      ((start.run lib happenings).windows name).keyFiles.widget.keys ∧
    commonKeys lib.sodium party.serverSide secret exchange = some row

theorem messageOf_eq_some {party : Party} {entry : Entry} {message : Message}
    (selected : messageOf party entry = some message) :
    entry = ⟨party, .validating message.type message.request message.table⟩ := by
  obtain ⟨other, event⟩ := entry
  cases event with
  | validating type request table =>
      simp only [messageOf] at selected
      split at selected
      · rename_i same
        cases same
        cases selected
        rfl
      · contradiction
  | _ => contradiction

theorem Composed.rowImported {lib : MainLib} {memory : Nat → Memory} {disks : Nat → Disk}
    {records : Nat → Option Table} {happenings : List Happening}
    (composed : Composed lib memory disks ((initial memory disks records).run lib happenings))
    {name : Nat} {row : Bytes × Bytes}
    (member : row ∈ (((initial memory disks records).run lib happenings).network.nodes
      name).widget.rows) :
    RowImported lib (initial memory disks records) (records name) happenings name row := by
  obtain ⟨actions, reached⟩ := composed.network
  have explained := run_keysExplained lib.sodium memory actions
  have listed := World.run_usesListed lib.sodium memory actions
  have kept := World.run_listed lib.sodium memory actions name
  rw [← reached] at explained listed kept
  obtain ⟨_, before, party, own, after, message, log, here, last, justified⟩ :=
    rowExplained_of_mem explained (kept.stacked.mem_of_popped member)
  obtain ⟨sender, exchange, secret, accepts, holds, computed⟩ := justified
  -- The pair is one of the list, which is the same in all tabs.
  have used := listed.emitted ⟨party, .emitted own row.1 row.2⟩
    (by rw [log]; exact List.mem_append_cons_self) own row.1 row.2 rfl
  dsimp only at used
  rw [here, (composed.windows name).exchangeKeys] at used
  obtain ⟨secret', pair⟩ := (composed.windows name).held own used
  obtain rfl : secret' = secret := by
    rw [pair] at holds
    exact Option.some.inj (PrivateKey.mk.inj holds)
  subst pair
  -- The message stands in the log before the keys.
  obtain ⟨before, entry, between, rfl, selected, silent⟩ := exists_of_latest last
  obtain rfl := messageOf_eq_some selected
  obtain ⟨table, asked, trusted⟩ := accepts.trusted
  rw [asked] at log accepts
  rw [List.append_assoc, List.cons_append] at log
  -- It was logged when it was checked, with the table of that moment.
  have grows : ∀ front happening, logged lib (initial memory disks records) front <+:
      logged lib (initial memory disks records) (front ++ [happening]) := by
    intro front happening
    obtain ⟨added, extended, _⟩ := logged_grows lib (initial memory disks records) front happening
    exact ⟨added, extended.symm⟩
  obtain ⟨front, ⟨other, event⟩, writes⟩ := exists_writes rfl grows log
  obtain ⟨added, extended, checked⟩ := logged_grows lib (initial memory disks records) front
    ⟨other, event⟩
  obtain ⟨own, now⟩ := checked _ (writes.mem extended) message.type message.request table rfl
  dsimp only at own now
  obtain rfl : other = name := own.symm.trans here
  obtain ⟨record, stored, text, yes⟩ := exists_record trusted
  refine ⟨party, before, between, after, front, event, secret', message.type, message.request,
    table, sender, exchange, here, log, silent, writes, now, accepts,
    ⟨record, stored, text, yes, ?_⟩, used, computed⟩
  exact run_recorded lib memory disks records front other record (now ▸ stored)

end System

/-- In any run of any number of processes every session key that a window
offers was computed from one of its own pairs and from the signed message that
the run shows, whose sender was trusted in the database of that moment because
the user had imported that key with the box checked or typed its record, or it
was there at the start. -/
theorem session_keys_from_imported_senders {lib : MainLib} (carries : Carries lib.sign)
    (memory : Nat → Memory) (disks : Nat → Disk) (records : Nat → Option Table)
    (happenings : List Happening) (name : Nat) :
    ∃ rows : List (Bytes × Bytes),
      (((System.initial memory disks records).run lib happenings).windows
        name).cipher.window.encKeysComboBox.model = rows.map Prod.fst ∧
      (((System.initial memory disks records).run lib happenings).windows
        name).cipher.window.decKeysComboBox.model = rows.map Prod.snd ∧
      ∀ row ∈ rows, System.RowImported lib (System.initial memory disks records) (records name)
        happenings name row := by
  have composed := System.run_composed carries memory disks records happenings
  obtain ⟨events, steps, first, second⟩ := (composed.windows name).cipher
  obtain ⟨_, _, lists⟩ := CipherRun.steps_invariant steps
  exact ⟨_, lists.encRows.trans first, lists.decRows.trans second,
    fun row member => composed.rowImported member⟩

/-- The first process imports a key and serves its owner. -/
def servesImported : List Happening := twoPairs ++ [
  ⟨0, .storage (.add (StorageWidget.importOf
    (EncodeBase58 (Sodium.publicOf clientSecret).bytes)))⟩,
  ⟨0, .exchange (.widget (.setOwnKey 0))⟩,
  ⟨0, .exchange (.widget .enableIncomingConnections)⟩,
  ⟨0, .exchange (.incoming (trusting []) someMemory [sentBy clientSecret keyExchangeQuery])⟩,
  ⟨0, .exchange (.widget .closeMessageBox)⟩]

theorem session_keys_from_imported_senders_query :
    ∃ row, ((freshSystem.run .transparent servesImported).windows
        0).cipher.window.encKeysComboBox.model = [row.1] ∧
      ((freshSystem.run .transparent servesImported).windows
        0).cipher.window.decKeysComboBox.model = [row.2] ∧
      System.RowImported .transparent freshSystem (some []) servesImported 0 row := by
  obtain ⟨rows, first, second, imported⟩ := session_keys_from_imported_senders carries_transparent
    (fun _ => someMemory) (fun _ => .single "source" [1, 2, 3]) (fun _ => some []) servesImported 0
  rw [← freshSystem] at first second imported
  have one : ((freshSystem.run .transparent servesImported).windows
      0).cipher.window.encKeysComboBox.model.length = 1 := by decide +kernel
  rw [first, List.length_map] at one
  obtain ⟨row, rfl⟩ := List.length_eq_one_iff.mp one
  exact ⟨row, first, second, imported row List.mem_cons_self⟩

end Cscrypto.Gui
