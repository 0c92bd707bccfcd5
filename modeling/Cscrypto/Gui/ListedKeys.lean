import Cscrypto.Gui.ClientInput
import Cscrypto.Gui.OwnKeys

namespace Cscrypto.Gui

open Cscrypto.Data Cscrypto.KeyExchange Cscrypto.KeysDerivation

/-! # The keys that the exchange uses

The client and the server of a process work with pairs of its list, and such a
pair has a private key.  What is left that can end the process is a first byte
that is no type of a message.
-/

namespace KeyExchangeWidget

/-- What can be clicked needs an own key, which is a row of the list. -/
structure Selects (widget : KeyExchangeWidget) : Prop where
  row : widget.ownKeyOk = true →
    ∃ row, widget.currentIndex = some row ∧ row < widget.keys.length
  request : widget.requestEnabled = true → widget.ownKeyOk = true
  server : widget.serverEnabled = true → widget.ownKeyOk = true
  dialog : widget.dialog = true → widget.ownKeyOk = true

theorem initial_selects : initial.Selects := ⟨by simp [initial], by simp [initial],
  by simp [initial], by simp [initial]⟩

theorem slot_selects {widget : KeyExchangeWidget} (selects : widget.Selects)
    (event : WidgetEvent) : (widget.slot event).1.Selects := by
  obtain ⟨row, request, server, dialog⟩ := selects
  cases event with
  | addKeyPair pair =>
      refine ⟨fun chosen => ?_, request, server, dialog⟩
      obtain ⟨current, index, below⟩ := row chosen
      exact ⟨current, index, by simp only [slot, List.length_append]; omega⟩
  | moveCurrentIndex other =>
      simp only [slot]
      split
      · rename_i inside
        simp only [Bool.and_eq_true, decide_eq_true_eq] at inside
        exact ⟨fun _ => ⟨other, rfl, inside.2⟩, request, server, dialog⟩
      · exact ⟨row, request, server, dialog⟩
  | setOwnKey other =>
      simp only [slot]
      split
      · rename_i inside
        simp only [Bool.and_eq_true, decide_eq_true_eq] at inside
        exact ⟨fun _ => ⟨other, rfl, inside.2⟩, fun _ => rfl, fun _ => rfl, fun _ => rfl⟩
      · exact ⟨row, request, server, dialog⟩
  | inspectKeyIdText found =>
      simp only [slot]
      split
      · exact ⟨row, request, server, dialog⟩
      · cases found with
        | some record =>
            exact ⟨row, fun enabled => (Bool.or_eq_true_iff.mp enabled).elim request id, server,
              dialog⟩
        | none => exact ⟨row, by simp [inspectKeyIdText], server, dialog⟩
  | hostNameEnterDialog =>
      simp only [slot]
      split
      · rename_i enabled
        exact ⟨row, request, server, fun _ => request (Bool.and_eq_true_iff.mp enabled).1⟩
      · exact ⟨row, request, server, dialog⟩
  | setHostName text =>
      simp only [slot]
      split
      · exact ⟨row, request, server, dialog⟩
      · exact ⟨row, request, server, dialog⟩
  | sendKeyExchangeRequest =>
      simp only [slot, sendKeyExchangeRequest]
      split
      · split
        · exact ⟨row, request, server, by simp⟩
        · exact ⟨row, request, server, by simp⟩
      · exact ⟨row, request, server, dialog⟩
  | closeDialog => exact ⟨row, request, server, by simp [slot]⟩
  | closeMessageBox =>
      simp only [slot, closeMessageBox]
      split
      · exact ⟨row, request, server, dialog⟩
      · exact ⟨row, request, server, dialog⟩
  | enableIncomingConnections =>
      simp only [slot]
      split
      · exact ⟨row, request, by simp, dialog⟩
      · exact ⟨row, request, server, dialog⟩

theorem step_selects {widget : KeyExchangeWidget} (selects : widget.Selects)
    (event : WidgetEvent) : (widget.step event).1.Selects := by
  rcases widget.step_cases event with blocked | taken
  · rwa [blocked]
  · rw [taken]
    exact slot_selects selects event

theorem ownKeys_mem {widget : KeyExchangeWidget} (selects : widget.Selects)
    (chosen : widget.ownKeyOk = true) : widget.ownKeys ∈ widget.keys := by
  obtain ⟨row, index, below⟩ := selects.row chosen
  rw [ownKeys, KeyListModel.getKeyPair, index, Option.bind_some, List.getElem?_eq_getElem below,
    Option.getD_some]
  exact List.getElem_mem below

/-- The pair that a call on the network takes. -/
def NetCall.keys : NetCall → KeyPair
  | .sendKeyExchangeRequest _ ownKeys => ownKeys
  | .createServer serverKeys => serverKeys

theorem call_mem_of_slot {widget : KeyExchangeWidget} (selects : widget.Selects)
    {event : WidgetEvent} {netCall : NetCall} (called : (widget.slot event).2 = some netCall) :
    NetCall.keys netCall ∈ widget.keys := by
  cases event with
  | sendKeyExchangeRequest =>
      simp only [slot] at called
      split at called
      · rename_i opened
        simp only [sendKeyExchangeRequest] at called
        split at called
        · contradiction
        · cases called
          exact ownKeys_mem selects (selects.dialog opened)
      · contradiction
  | enableIncomingConnections =>
      simp only [slot] at called
      split at called
      · rename_i enabled
        cases called
        exact ownKeys_mem selects (selects.server (Bool.and_eq_true_iff.mp enabled).1)
      · contradiction
  | addKeyPair _ | moveCurrentIndex _ | setOwnKey _ | inspectKeyIdText _ | hostNameEnterDialog
      | setHostName _ | closeDialog | closeMessageBox => contradiction

theorem call_mem {widget : KeyExchangeWidget} (selects : widget.Selects) {event : WidgetEvent}
    {netCall : NetCall} (called : (widget.step event).2 = some netCall) :
    NetCall.keys netCall ∈ widget.keys := by
  rcases widget.step_cases event with blocked | taken
  · rw [blocked] at called
    contradiction
  · rw [taken] at called
    exact call_mem_of_slot selects called

end KeyExchangeWidget

/-- Emitted keys come from the own pair, whose private key is there. -/
theorem Effect.emitted_own {sodium : Sodium} {serverSide : Bool} {own own' : KeyPair}
    {events : List Event} {send receive : Bytes} (effect : Effect sodium serverSide own events)
    (member : .emitted own' send receive ∈ events) :
    own' = own ∧ ∃ secret, own.2 = .holding secret := by
  cases effect with
  | plain _ all => exact absurd (all _ member) id
  | rejected type request table message => simp at member
  | accepted type request table sender exchange keys answer accepts keysOf answers =>
      have later := (List.mem_cons.mp member).resolve_left (by simp)
      rcases accepted_rest keysOf answers _ later with
        ⟨secret, _, _, holds, emitted, _⟩ | ⟨_, other⟩ | ⟨_, _, _, _, _, _, other⟩
      · cases emitted
        exact ⟨rfl, secret, holds⟩
      · contradiction
      · contradiction

namespace Node

/-- The client and the server have pairs of the list. A client that was asked
for nothing has none. -/
structure UsesListed (node : Node) : Prop where
  selects : node.widget.Selects
  role : node.client.requestMaster.serverSide = false
  client : (node.client.requestMaster.ownKeys = KeyListModel.missing ∧
      node.client.requestMaster.validOwnKeys = false) ∨
    node.client.requestMaster.ownKeys ∈ node.widget.keys
  server : ∀ own, node.server = some own → own ∈ node.widget.keys

theorem initial_usesListed (memory : Memory) : (initial memory).UsesListed where
  selects := KeyExchangeWidget.initial_selects
  role := rfl
  client := .inl ⟨rfl, rfl⟩
  server := by simp [initial]

theorem notify_selects (source : String) (events : List Event) {widget : KeyExchangeWidget}
    (selects : widget.Selects) : (events.foldl (notify source) widget).Selects := by
  induction events generalizing widget with
  | nil => exact selects
  | cons event rest ih =>
      refine ih ?_
      obtain ⟨row, request, server, dialog⟩ := selects
      cases event <;> exact ⟨row, request, server, dialog⟩

theorem onWidget_usesListed {node : Node} (listed : node.UsesListed) (event : WidgetEvent) :
    (node.onWidget event).1.UsesListed := by
  have selects := KeyExchangeWidget.step_selects listed.selects event
  have called := fun netCall => @KeyExchangeWidget.call_mem _ listed.selects event netCall
  have grown : ∀ pair ∈ node.widget.keys, pair ∈ (node.widget.step event).1.keys := by
    intro pair member
    by_cases added : ∃ other, event = .addKeyPair other
    · obtain ⟨other, rfl⟩ := added
      rw [KeyExchangeWidget.step_addKeyPair]
      exact List.mem_append_left _ member
    · rw [KeyExchangeWidget.step_keys _ fun other same => added ⟨other, same⟩]
      exact member
  unfold onWidget
  rcases stepped : node.widget.step event with ⟨widget, _ | ⟨hostName, ownKeys⟩ | serverKeys⟩
  all_goals
    rw [stepped] at selects called grown
    dsimp only at selects called grown
  · exact ⟨selects, listed.role, listed.client.imp_right (grown _),
      fun own serving => grown own (listed.server own serving)⟩
  · exact ⟨selects, listed.role, .inr (grown _ (called _ rfl)),
      fun own serving => grown own (listed.server own serving)⟩
  · refine ⟨selects, listed.role, listed.client.imp_right (grown _), ?_⟩
    intro own serving
    cases serving
    exact grown _ (called _ rfl)

/-- A step keeps to the pairs of the list, and so do the keys that it emits. -/
theorem step_usesListed {sodium : Sodium} {node next : Node} {act : NodeAction}
    {events : List Event} (listed : node.UsesListed) (ran : node.step sodium act = .ok (next, events)) :
    next.UsesListed ∧ ∀ own send receive, .emitted own send receive ∈ events →
      own ∈ next.widget.keys := by
  have plain {events : List Event} {keys : List KeyPair} (all : ∀ event ∈ events, event.Plain) :
      ∀ own send receive, .emitted own send receive ∈ events → own ∈ keys :=
    fun own send receive member => absurd (all _ member) id
  cases step_steps ran with
  | ignored _ _ => exact ⟨listed, by simp⟩
  | widget event =>
      exact ⟨onWidget_usesListed listed event, plain (node.onWidget_plain event)⟩
  | connected client _ _ formed =>
      obtain ⟨same, all⟩ := Client.onConnected_effect formed
      dsimp only at same
      exact ⟨⟨listed.selects, by rw [same]; exact listed.role, by rw [same]; exact listed.client,
        listed.server⟩, plain all⟩
  | receive env bytes client process _ _ received =>
      obtain ⟨own, role, valid, effect⟩ := Client.receive_effect listed.role received
      dsimp only at own role valid effect
      have keys := notify_keys "" events node.widget
      refine ⟨⟨notify_selects "" events listed.selects, role, ?_, ?_⟩, ?_⟩
      · dsimp only
        rw [own, valid, keys]
        exact listed.client
      · intro other serving
        dsimp only
        rw [keys]
        exact listed.server other serving
      · intro own' send receive member
        obtain ⟨rfl, secret, holds⟩ := effect.emitted_own member
        dsimp only
        rw [keys]
        refine listed.client.resolve_left (fun none => ?_)
        rw [none.1, KeyListModel.missing, PrivateKey.holding] at holds
        cases holds
  | socketError errorType =>
      obtain ⟨same, all⟩ := node.client.socketErrorHandler_plain errorType
      have keys := notify_keys "" (node.client.socketErrorHandler errorType).2 node.widget
      refine ⟨⟨notify_selects "" _ listed.selects, ?_, ?_, ?_⟩, plain all⟩
      · dsimp only
        rw [same]
        exact listed.role
      · dsimp only
        rw [same, keys]
        exact listed.client
      · intro own serving
        dsimp only
        rw [keys]
        exact listed.server own serving
  | incoming env memory arrivals ownKeys outcome serving served =>
      have keys := notify_keys "Server error: " outcome.events node.widget
      refine ⟨⟨notify_selects "Server error: " _ listed.selects, listed.role, ?_, ?_⟩, ?_⟩
      · dsimp only
        rw [keys]
        exact listed.client
      · intro own serving
        dsimp only
        rw [keys]
        exact listed.server own serving
      · intro own send receive member
        obtain ⟨rfl, _⟩ := (IncomingConnectionHandler.run_effect served).emitted_own member
        dsimp only
        rw [keys]
        exact listed.server _ serving

end Node

namespace World

variable {sodium : Sodium}

/-- Every node keeps to the pairs of its list, and so did all keys that were
emitted. -/
structure UsesListed (world : World) : Prop where
  nodes : ∀ name, (world.nodes name).UsesListed
  emitted : ∀ entry ∈ world.log, ∀ own send receive, entry.event = .emitted own send receive →
    own ∈ (world.nodes entry.party.node).widget.keys

theorem initial_usesListed (memory : Nat → Memory) : (initial memory).UsesListed where
  nodes name := Node.initial_usesListed (memory name)
  emitted := by simp [initial]

/-- The list of a node only grows. -/
theorem step_keys_mem (world : World) (action : Action) (name : Nat) {pair : KeyPair}
    (member : pair ∈ (world.nodes name).widget.keys) :
    pair ∈ ((world.step sodium action).nodes name).widget.keys := by
  by_cases added : ∃ other, action.act = .widget (.addKeyPair other)
  · by_cases same : name = action.node
    · subst same
      obtain ⟨other, act⟩ := added
      cases crashed : (world.nodes action.node).crashed with
      | true =>
          simp only [World.step, crashed, if_true]
          exact member
      | false =>
          have ran := (world.nodes action.node).step_addKeyPair sodium other
          rw [← act] at ran
          rw [(step_ok crashed ran).1]
          exact List.mem_append_left _ member
    · rw [(@step_frame sodium world action).1 name same]
      exact member
  · rw [step_keys world (fun other same => added ⟨other, same⟩) name]
    exact member

theorem UsesListed.step {world : World} (listed : world.UsesListed) (action : Action) :
    (world.step sodium action).UsesListed := by
  have grown := @step_keys_mem sodium world action
  cases crashed : (world.nodes action.node).crashed with
  | true =>
      have same : world.step sodium action = world := by
        simp only [World.step, crashed, if_true]
      rwa [same]
  | false =>
      rcases ran : (world.nodes action.node).step sodium action.act with fault | ⟨node, events⟩
      · obtain ⟨self, others, log⟩ := step_crash crashed ran
        constructor
        · intro name
          by_cases same : name = action.node
          · subst same
            rw [self]
            obtain ⟨selects, role, client, server⟩ := listed.nodes action.node
            exact ⟨selects, role, client, server⟩
          · rw [others name same]
            exact listed.nodes name
        · rw [log]
          intro entry member own send receive emitted
          exact grown _ (listed.emitted entry member own send receive emitted)
      · obtain ⟨self, others, log⟩ := step_ok crashed ran
        obtain ⟨kept, own⟩ := Node.step_usesListed (listed.nodes action.node) ran
        constructor
        · intro name
          by_cases same : name = action.node
          · subst same
            rw [self]
            exact kept
          · rw [others name same]
            exact listed.nodes name
        · rw [log]
          intro entry member pair send receive emitted
          rcases List.mem_append.mp member with before | new
          · exact grown _ (listed.emitted entry before pair send receive emitted)
          · obtain ⟨event, inside, rfl⟩ := List.mem_map.mp new
            dsimp only at emitted ⊢
            subst emitted
            rw [Node.party_node, self]
            exact own pair send receive inside

theorem run_usesListed (sodium : Sodium) (memory : Nat → Memory) (actions : List Action) :
    ((initial memory).run sodium actions).UsesListed :=
  foldl_preserves (fun _ action listed => listed.step action) actions (initial_usesListed memory)

end World

end Cscrypto.Gui
