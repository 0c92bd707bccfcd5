import Cscrypto.Data.Stack
import Cscrypto.Gui.Authentication

namespace Cscrypto.Gui

open Cscrypto.Base58 Cscrypto.Data Cscrypto.KeyExchange

/-! # The lists of session keys

What the network hands to a user is shown in a message box, and ends up in two
lists of his window, which the file cipher reads, when he closes the box.  Over
any run the rows and the open boxes are what the log of the node reports.
-/

def Party.node : Party → Nat
  | .client node => node
  | .handler node _ => node

def Event.keys? : Event → Option (Bytes × Bytes)
  | .emitted _ b58SendSk b58ReceiveSk => some (b58SendSk, b58ReceiveSk)
  | _ => none

theorem Event.Plain.keys_eq_none {event : Event} (plain : event.Plain) : event.keys? = none := by
  cases event with
  | emitted _ _ _ => exact plain.elim
  | _ => rfl

theorem keys_eq_nil_of_plain {events : List Event} (plain : ∀ event ∈ events, event.Plain) :
    events.filterMap Event.keys? = [] :=
  List.filterMap_eq_nil_iff.mpr fun event member => (plain event member).keys_eq_none

/-- The keys that an entry brings to the window of a node. -/
def keysAt (name : Nat) (entry : Entry) : Option (Bytes × Bytes) :=
  if entry.party.node = name then entry.event.keys? else none

theorem filterMap_keysAt (name : Nat) (party : Party) (events : List Event) :
    (events.map (Entry.mk party)).filterMap (keysAt name) =
      if party.node = name then events.filterMap Event.keys? else [] := by
  rw [List.filterMap_map]
  split
  · rename_i own
    exact List.filterMap_congr fun event _ => if_pos own
  · rename_i foreign
    exact List.filterMap_eq_nil_iff.mpr fun event _ => if_neg foreign

/-- The pairs in the two lists, row by row. -/
def KeyExchangeWidget.rows (widget : KeyExchangeWidget) : List (Bytes × Bytes) :=
  widget.encryptionKeys.zip widget.decryptionKeys

/-- Of the pairs that were reported to a user some have a row, in the order in
which he has closed their message boxes, and all others have an open one. -/
structure KeyExchangeWidget.Keeps (widget : KeyExchangeWidget) (reported : List (Bytes × Bytes)) :
    Prop where
  encryption : widget.encryptionKeys = widget.rows.map Prod.fst
  decryption : widget.decryptionKeys = widget.rows.map Prod.snd
  stacked : Stacked reported widget.rows widget.messageBoxes

/-- Some pairs were reported, and no row has gone. -/
structure Grows (before after : KeyExchangeWidget) (pairs : List (Bytes × Bytes)) : Prop where
  keeps : ∀ reported, before.Keeps reported → after.Keeps (reported ++ pairs)
  rows : ∀ reported, before.Keeps reported → before.rows <+: after.rows

/-- Message boxes for some pairs have come up, and nothing else. -/
structure Shows (before after : KeyExchangeWidget) (pairs : List (Bytes × Bytes)) : Prop where
  messageBoxes : after.messageBoxes = pairs.reverse ++ before.messageBoxes
  encryption : after.encryptionKeys = before.encryptionKeys
  decryption : after.decryptionKeys = before.decryptionKeys

theorem Shows.refl (widget : KeyExchangeWidget) : Shows widget widget [] := ⟨rfl, rfl, rfl⟩

theorem Shows.trans {first second third : KeyExchangeWidget} {pairs pairs' : List (Bytes × Bytes)}
    (before : Shows first second pairs) (after : Shows second third pairs') :
    Shows first third (pairs ++ pairs') where
  messageBoxes := by
    rw [after.messageBoxes, before.messageBoxes, List.reverse_append, List.append_assoc]
  encryption := after.encryption.trans before.encryption
  decryption := after.decryption.trans before.decryption

theorem Shows.rows {before after : KeyExchangeWidget} {pairs : List (Bytes × Bytes)}
    (shows : Shows before after pairs) : after.rows = before.rows := by
  rw [KeyExchangeWidget.rows, shows.encryption, shows.decryption, ← KeyExchangeWidget.rows]

theorem Shows.grows {before after : KeyExchangeWidget} {pairs : List (Bytes × Bytes)}
    (shows : Shows before after pairs) : Grows before after pairs where
  keeps reported kept := by
    obtain ⟨encryption, decryption, stacked⟩ := kept
    constructor
    · rw [shows.rows, shows.encryption, encryption]
    · rw [shows.rows, shows.decryption, decryption]
    · rw [shows.rows, shows.messageBoxes]
      exact stacked.pushes pairs
  rows _ _ := by rw [shows.rows]

namespace KeyExchangeWidget

variable {widget : KeyExchangeWidget} {reported : List (Bytes × Bytes)}

theorem initial_keeps : initial.Keeps [] := ⟨rfl, rfl, .empty⟩

/-- The newest box becomes a row. -/
theorem closeMessageBox_rows (kept : widget.Keeps reported) {pair : Bytes × Bytes}
    {messageBoxes : List (Bytes × Bytes)} (shown : widget.messageBoxes = pair :: messageBoxes) :
    widget.closeMessageBox.rows = widget.rows ++ [pair] := by
  have lengths : widget.encryptionKeys.length = widget.decryptionKeys.length := by
    rw [kept.encryption, kept.decryption, List.length_map, List.length_map]
  rw [closeMessageBox, shown]
  exact List.zip_append lengths

theorem closeMessageBox_grows (widget : KeyExchangeWidget) :
    Grows widget widget.closeMessageBox [] := by
  rcases shown : widget.messageBoxes with _ | ⟨pair, messageBoxes⟩
  · have same : widget.closeMessageBox = widget := by rw [closeMessageBox, shown]
    rw [same]
    exact (Shows.refl widget).grows
  · refine ⟨fun reported kept => ?_, fun reported kept => ?_⟩
    · have rows := closeMessageBox_rows kept shown
      obtain ⟨encryption, decryption, stacked⟩ := kept
      rw [shown] at stacked
      rw [List.append_nil]
      constructor
      · rw [rows, List.map_append, ← encryption, closeMessageBox, shown]
        rfl
      · rw [rows, List.map_append, ← decryption, closeMessageBox, shown]
        rfl
      · rw [rows, closeMessageBox, shown]
        exact stacked.pop
    · rw [closeMessageBox_rows kept shown]
      exact List.prefix_append _ _

theorem slot_grows (widget : KeyExchangeWidget) (event : WidgetEvent) :
    Grows widget (widget.slot event).1 [] := by
  have unchanged {other : KeyExchangeWidget}
      (messageBoxes : other.messageBoxes = widget.messageBoxes)
      (encryption : other.encryptionKeys = widget.encryptionKeys)
      (decryption : other.decryptionKeys = widget.decryptionKeys) : Grows widget other [] :=
    Shows.grows ⟨messageBoxes, encryption, decryption⟩
  cases event with
  | closeMessageBox => exact widget.closeMessageBox_grows
  | inspectKeyIdText found =>
      simp only [slot]
      split
      · exact unchanged rfl rfl rfl
      · cases found <;> exact unchanged rfl rfl rfl
  | sendKeyExchangeRequest =>
      simp only [slot, KeyExchangeWidget.sendKeyExchangeRequest]
      split
      · split <;> exact unchanged rfl rfl rfl
      · exact unchanged rfl rfl rfl
  | addKeyPair pair => exact unchanged rfl rfl rfl
  | closeDialog => exact unchanged rfl rfl rfl
  | moveCurrentIndex row => simp only [slot]; split <;> exact unchanged rfl rfl rfl
  | setOwnKey row => simp only [slot]; split <;> exact unchanged rfl rfl rfl
  | hostNameEnterDialog => simp only [slot]; split <;> exact unchanged rfl rfl rfl
  | setHostName text => simp only [slot]; split <;> exact unchanged rfl rfl rfl
  | enableIncomingConnections => simp only [slot]; split <;> exact unchanged rfl rfl rfl

theorem step_grows (widget : KeyExchangeWidget) (event : WidgetEvent) :
    Grows widget (widget.step event).1 [] := by
  rcases widget.step_cases event with blocked | taken
  · rw [blocked]
    exact (Shows.refl widget).grows
  · rw [taken]
    exact widget.slot_grows event

end KeyExchangeWidget

namespace Node

theorem notify_shows (source : String) (widget : KeyExchangeWidget) (event : Event) :
    Shows widget (notify source widget event) event.keys?.toList := by
  cases event with
  | emitted own b58SendSk b58ReceiveSk => exact ⟨rfl, rfl, rfl⟩
  | _ => exact ⟨rfl, rfl, rfl⟩

theorem foldl_notify_shows (source : String) (events : List Event) (widget : KeyExchangeWidget) :
    Shows widget (events.foldl (notify source) widget) (events.filterMap Event.keys?) := by
  induction events generalizing widget with
  | nil => exact .refl widget
  | cons event rest ih =>
      have whole := (notify_shows source widget event).trans (ih (notify source widget event))
      cases keys : event.keys? with
      | none =>
          rw [keys] at whole
          rwa [List.filterMap_cons_none keys]
      | some pair =>
          rw [keys] at whole
          rwa [List.filterMap_cons_some keys]

theorem step_closeMessageBox (sodium : Sodium) (node : Node) :
    node.step sodium (.widget .closeMessageBox) =
      .ok ({ node with widget := node.widget.closeMessageBox }, []) := by
  rw [step, onWidget, KeyExchangeWidget.step_closeMessageBox]

theorem onWidget_grows (node : Node) (event : WidgetEvent) :
    Grows node.widget (node.onWidget event).1.widget [] := by
  have grows := node.widget.step_grows event
  unfold onWidget
  rcases stepped : node.widget.step event with ⟨widget, _ | ⟨hostName, ownKeys⟩ | serverKeys⟩
  all_goals
    rw [stepped] at grows
    exact grows

/-- The network reports keys and closes no message box. -/
theorem step_shows {sodium : Sodium} {node node' : Node} {act : NodeAction} {events : List Event}
    (ran : node.step sodium act = .ok (node', events)) (network : ∀ event, act ≠ .widget event) :
    Shows node.widget node'.widget (events.filterMap Event.keys?) := by
  cases step_steps ran with
  | ignored _ _ => exact .refl node.widget
  | widget event => exact absurd rfl (network event)
  | connected client _ _ formed =>
      rw [keys_eq_nil_of_plain (Client.onConnected_effect formed).2]
      exact .refl node.widget
  | receive env bytes client process _ _ _ => exact foldl_notify_shows "" events node.widget
  | socketError errorType => exact foldl_notify_shows "" _ node.widget
  | incoming env memory arrivals ownKeys outcome _ _ =>
      exact foldl_notify_shows "Server error: " _ node.widget

theorem step_grows {sodium : Sodium} {node node' : Node} {act : NodeAction} {events : List Event}
    (ran : node.step sodium act = .ok (node', events)) :
    Grows node.widget node'.widget (events.filterMap Event.keys?) := by
  by_cases widget : ∃ event, act = .widget event
  · obtain ⟨event, rfl⟩ := widget
    have same : node.onWidget event = (node', events) := Except.ok.inj ran
    have grows := node.onWidget_grows event
    have plain := node.onWidget_plain event
    rw [same] at grows plain
    rwa [keys_eq_nil_of_plain plain]
  · exact (step_shows ran fun event same => widget ⟨event, same⟩).grows

theorem party_node (name : Nat) (node : Node) (act : NodeAction) :
    (node.party name act).node = name := by
  cases act <;> rfl

end Node

namespace World

variable {sodium : Sodium}

/-- What an action adds to the log is what it reports to the windows. -/
theorem step_window (world : World) (action : Action) (name : Nat) :
    ∃ added, (world.step sodium action).log = world.log ++ added ∧
      Grows (world.nodes name).widget ((world.step sodium action).nodes name).widget
        (added.filterMap (keysAt name)) ∧
      ((∀ event, action.act ≠ .widget event) → Shows (world.nodes name).widget
        ((world.step sodium action).nodes name).widget (added.filterMap (keysAt name))) := by
  have silent {next : World} (log : next.log = world.log)
      (same : (next.nodes name).widget = (world.nodes name).widget) :
      ∃ added, next.log = world.log ++ added ∧
        Grows (world.nodes name).widget (next.nodes name).widget (added.filterMap (keysAt name)) ∧
        ((∀ event, action.act ≠ .widget event) → Shows (world.nodes name).widget
          (next.nodes name).widget (added.filterMap (keysAt name))) := by
    have shows : Shows (world.nodes name).widget (next.nodes name).widget [] := by
      rw [same]
      exact .refl _
    exact ⟨[], log.trans (List.append_nil _).symm, shows.grows, fun _ => shows⟩
  cases crashed : (world.nodes action.node).crashed with
  | true =>
      have same : world.step sodium action = world := by
        simp only [World.step, crashed, if_true]
      exact silent (congrArg World.log same) (by rw [same])
  | false =>
      rcases ran : (world.nodes action.node).step sodium action.act with fault | ⟨node, events⟩
      · obtain ⟨self, others, log⟩ := step_crash crashed ran
        refine silent log ?_
        by_cases same : name = action.node
        · subst same
          rw [self]
        · rw [others name same]
      · obtain ⟨self, others, log⟩ := step_ok crashed ran
        refine ⟨_, log, ?_⟩
        rw [filterMap_keysAt, Node.party_node]
        by_cases same : name = action.node
        · subst same
          rw [self, if_pos rfl]
          exact ⟨Node.step_grows ran, Node.step_shows ran⟩
        · rw [others name same, if_neg (Ne.symm same)]
          exact ⟨(Shows.refl _).grows, fun _ => .refl _⟩

/-- The window of a node has, or shows in message boxes, what its part of the
log reports. -/
def Listed (name : Nat) (world : World) : Prop :=
  (world.nodes name).widget.Keeps (world.log.filterMap (keysAt name))

theorem initial_listed (memory : Nat → Memory) (name : Nat) : Listed name (initial memory) :=
  KeyExchangeWidget.initial_keeps

theorem Listed.step {name : Nat} {world : World} (listed : Listed name world) (action : Action) :
    Listed name (world.step sodium action) := by
  obtain ⟨added, log, grows, _⟩ := @step_window sodium world action name
  rw [Listed, log, List.filterMap_append]
  exact grows.keeps _ listed

theorem Listed.step_rows {name : Nat} {world : World} (listed : Listed name world)
    (action : Action) : (world.nodes name).widget.rows <+:
      ((world.step sodium action).nodes name).widget.rows := by
  obtain ⟨added, _, grows, _⟩ := @step_window sodium world action name
  exact grows.rows _ listed

/-- While only the network acts, message boxes come up. -/
theorem run_shows (world : World) {actions : List Action}
    (network : ∀ action ∈ actions, ∀ event, action.act ≠ .widget event) (name : Nat) :
    ∃ added, (world.run sodium actions).log = world.log ++ added ∧
      Shows (world.nodes name).widget ((world.run sodium actions).nodes name).widget
        (added.filterMap (keysAt name)) := by
  induction actions generalizing world with
  | nil => exact ⟨[], (List.append_nil _).symm, .refl _⟩
  | cons action rest ih =>
      obtain ⟨added, log, _, shows⟩ := @step_window sodium world action name
      obtain ⟨later, log', shows'⟩ := ih (world.step sodium action)
        fun other member => network other (.tail _ member)
      refine ⟨added ++ later, ?_, ?_⟩
      · rw [run, List.foldl_cons, ← run, log', log, List.append_assoc]
      · rw [List.filterMap_append]
        exact (shows (network action List.mem_cons_self)).trans shows'

theorem run_listed (sodium : Sodium) (memory : Nat → Memory) (actions : List Action) (name : Nat) :
    Listed name ((initial memory).run sodium actions) :=
  foldl_preserves (fun _ action listed => listed.step action) actions (initial_listed memory name)

end World

theorem commonKeys_texts {sodium : Sodium} {serverSide : Bool} {secret : SecretKey}
    {peer : PubExchangeKey} {send receive : Bytes}
    (computed : commonKeys sodium serverSide secret peer = some (send, receive)) :
    ∃ sendKey receiveKey : SessionKey, send = EncodeBase58 sendKey.bytes ∧
      receive = EncodeBase58 receiveKey.bytes := by
  obtain ⟨⟨receiveKey, sendKey⟩, _, same⟩ := Option.map_eq_some_iff.mp computed
  cases same
  exact ⟨sendKey, receiveKey, rfl, rfl⟩

theorem keysAt_eq_some {name : Nat} {entry : Entry} {pair : Bytes × Bytes} :
    keysAt name entry = some pair ↔
      entry.party.node = name ∧ ∃ own, entry.event = .emitted own pair.1 pair.2 := by
  obtain ⟨party, event⟩ := entry
  simp only [keysAt]
  split
  · rename_i own
    cases event <;> simp [Event.keys?, own, Prod.ext_iff, eq_comm]
  · rename_i foreign
    simp [foreign]

/-- Row by row the two lists of a node hold the texts of two 32-byte keys that
its log shows: computed from the node's own key and from the message which that
party checked last, and which met all the checks. -/
structure RowExplained (sodium : Sodium) (name : Nat) (log : List Entry)
    (send receive : Bytes) : Prop where
  keys : ∃ sendKey receiveKey : SessionKey, send = EncodeBase58 sendKey.bytes ∧
    receive = EncodeBase58 receiveKey.bytes
  origin : ∃ before party own after message,
    log = before ++ ⟨party, .emitted own send receive⟩ :: after ∧ party.node = name ∧
    latest (messageOf party) before = some message ∧
    Justifies sodium party.serverSide message own send receive

theorem rowExplained_of_mem {sodium : Sodium} {log : List Entry} {name : Nat}
    (explained : Explained (KeysExplained sodium) log) {pair : Bytes × Bytes}
    (member : pair ∈ log.filterMap (keysAt name)) :
    RowExplained sodium name log pair.1 pair.2 := by
  obtain ⟨entry, inside, keys⟩ := List.mem_filterMap.mp member
  obtain ⟨here, keyPair, emitted⟩ := keysAt_eq_some.mp keys
  obtain ⟨before, after, split⟩ := List.append_of_mem inside
  obtain ⟨message, checked, justified, _⟩ :=
    explained before entry after split keyPair pair.1 pair.2 emitted
  obtain ⟨party, event⟩ := entry
  subst emitted
  refine ⟨?_, before, party, keyPair, after, message, split, here, checked, justified⟩
  obtain ⟨_, _, secret, _, _, computed⟩ := justified
  exact commonKeys_texts computed

/-- Over any run the two lists of a node grow together, and every pair of keys
that was handed to its user is in one row or in one open message box. The user
closes the newest box first. -/
theorem session_rows_authenticated (sodium : Sodium) (memory : Nat → Memory)
    (actions : List Action) (name : Nat) :
    ∃ pairs boxes reported : List (Bytes × Bytes),
      (((World.initial memory).run sodium actions).nodes name).widget.encryptionKeys =
        pairs.map Prod.fst ∧
      (((World.initial memory).run sodium actions).nodes name).widget.decryptionKeys =
        pairs.map Prod.snd ∧
      (((World.initial memory).run sodium actions).nodes name).widget.messageBoxes = boxes ∧
      reported = ((World.initial memory).run sodium actions).log.filterMap (keysAt name) ∧
      Stacked reported pairs boxes ∧ (pairs ++ boxes).Perm reported ∧
      ∀ pair ∈ reported,
        RowExplained sodium name ((World.initial memory).run sodium actions).log pair.1 pair.2 := by
  obtain ⟨encryption, decryption, stacked⟩ := World.run_listed sodium memory actions name
  have explained := run_keysExplained sodium memory actions
  exact ⟨_, _, _, encryption, decryption, rfl, rfl, stacked, stacked.perm,
    fun pair member => rowExplained_of_mem explained member⟩

end Cscrypto.Gui
