import Cscrypto.Data.History
import Cscrypto.Data.Run
import Cscrypto.Gui.IncomingConnectionHandler
import Cscrypto.Gui.KeyExchangeWidget

namespace Cscrypto.Gui

open Cscrypto.Data

/-! # Any number of communicating processes

Every node is one process with its window, its client and, once it was
enabled, a server whose handlers run one after another.  The adversary is the
network: an action delivers arbitrary bytes to a node, and the bytes that nodes
send only enter the log.  The log is the history of the run.
-/

structure Node where
  widget : KeyExchangeWidget
  client : Client
  server : Option KeyPair
  handlers : Nat
  process : Process
  crashed : Bool

/-- Who an entry of the log belongs to: the client of a node, or one of the
connection handlers of its server. -/
inductive Party where
  | client (node : Nat)
  | handler (node index : Nat)
deriving DecidableEq

def Party.serverSide : Party → Bool
  | .client _ => false
  | .handler _ _ => true

structure Entry where
  party : Party
  event : Event

structure World where
  nodes : Nat → Node
  log : List Entry

inductive NodeAction where
  | widget (event : WidgetEvent)
  | connected
  | receive (env : Environment) (bytes : Bytes)
  | socketError (errorType : SocketError)
  | incoming (env : Environment) (memory : Memory) (arrivals : List Bytes)

structure Action where
  node : Nat
  act : NodeAction

namespace Node

def initial (memory : Memory) : Node where
  widget := .initial
  client := .new memory
  server := none
  handlers := 0
  process := .fresh
  crashed := false

/-- The slots of the window that listen to the network. `source` is what the
server adds to the errors of its handlers. -/
def notify (source : String) (widget : KeyExchangeWidget) : Event → KeyExchangeWidget
  | .emitted _ b58SendSk b58ReceiveSk => widget.newKeysHandler b58SendSk b58ReceiveSk
  | .error message => widget.networkMessageHandler ("Network error: " ++ source ++ message)
  | _ => widget

def call (node : Node) (selected : Option Bytes) : NetCall → Node × List Event
  | .sendKeyExchangeRequest _ ownKeys =>
      ({ node with client := node.client.sendKeyExchangeRequest ownKeys },
        match selected with
        | some importedKey => [.requested importedKey]
        | none => [])
  | .createServer serverKeys => ({ node with server := some serverKeys }, [])

def onWidget (node : Node) (event : WidgetEvent) : Node × List Event :=
  let (widget, netCall) := node.widget.step event
  match netCall with
  | none => ({ node with widget }, [])
  | some netCall => { node with widget }.call widget.selected netCall

variable (sodium : Sodium)

def step (node : Node) : NodeAction → Except Fault (Node × List Event)
  | .widget event => .ok (node.onWidget event)
  | .connected =>
      if node.client.socket = .connecting then do
        let (client, events) ← node.client.onConnected sodium
        return ({ node with client }, events)
      else .ok (node, [])
  | .receive env bytes =>
      if node.client.socket = .connected then do
        let (client, process, events) ← node.client.receive sodium env node.process bytes
        return ({ node with client, process, widget := events.foldl (notify "") node.widget },
          events)
      else .ok (node, [])
  | .socketError errorType =>
      let (client, events) := node.client.socketErrorHandler errorType
      .ok ({ node with client, widget := events.foldl (notify "") node.widget }, events)
  | .incoming env memory arrivals =>
      match node.server with
      | none => .ok (node, [])
      | some ownKeys => do
          let outcome ← IncomingConnectionHandler.run sodium env ownKeys memory
              node.process arrivals
          return ({ node with
            handlers := node.handlers + 1
            process := outcome.process
            widget := outcome.events.foldl (notify "Server error: ") node.widget }, outcome.events)

def party (name : Nat) (node : Node) : NodeAction → Party
  | .incoming _ _ _ => .handler name node.handlers
  | _ => .client name

end Node

namespace World

def initial (memory : Nat → Memory) : World := ⟨fun name => .initial (memory name), []⟩

variable (sodium : Sodium)

def step (world : World) (action : Action) : World :=
  let node := world.nodes action.node
  if node.crashed then world
  else
    match node.step sodium action.act with
    | .error _ => { world with
        nodes := Function.update world.nodes action.node { node with crashed := true } }
    | .ok (node', events) =>
        { nodes := Function.update world.nodes action.node node'
          log := world.log ++ events.map (fun event => ⟨node.party action.node action.act, event⟩) }

def run (world : World) (actions : List Action) : World := actions.foldl (step sodium) world

end World

/-- A message that was handed to `validate`, with the table of that moment. -/
structure Message where
  type : RequestType
  request : Bytes
  table : Option Table

def messageOf (party : Party) (entry : Entry) : Option Message :=
  match entry.event with
  | .validating type request table =>
      if entry.party = party then some ⟨type, request, table⟩ else none
  | _ => none

theorem latest_messageOf (before : List Entry) (party : Party) (type : RequestType)
    (request : Bytes) (table : Option Table) :
    latest (messageOf party) (before ++ [⟨party, .validating type request table⟩]) =
      some ⟨type, request, table⟩ :=
  latest_append_cons (if_pos rfl) (by simp)

/-- The key that was selected when the client of a node was asked to send a
request. -/
def requestOf (name : Nat) (entry : Entry) : Option Bytes :=
  match entry.event with
  | .requested importedKey => if entry.party = .client name then some importedKey else none
  | _ => none

theorem Node.onWidget_plain (node : Node) (event : WidgetEvent) :
    ∀ seen ∈ (node.onWidget event).2, seen.Plain := by
  unfold onWidget
  rcases node.widget.step event with ⟨widget, _ | ⟨hostName, ownKeys⟩ | serverKeys⟩
  · simp
  · cases chosen : widget.selected <;> simp [call, chosen, Event.Plain]
  · simp [call]

theorem Node.onWidget_role (node : Node) (event : WidgetEvent) :
    (node.onWidget event).1.client.requestMaster.serverSide =
      node.client.requestMaster.serverSide := by
  unfold onWidget
  rcases node.widget.step event with ⟨widget, _ | ⟨hostName, ownKeys⟩ | serverKeys⟩ <;> rfl

theorem Client.socketErrorHandler_plain (client : Client) (errorType : SocketError) :
    (client.socketErrorHandler errorType).1.requestMaster = client.requestMaster ∧
      ∀ seen ∈ (client.socketErrorHandler errorType).2, seen.Plain := by
  cases errorType <;> simp [socketErrorHandler, Event.Plain]

/-- What a node has to be ready for: an action that does not concern it changes
nothing. -/
def Node.Ready (node : Node) : NodeAction → Prop
  | .connected => node.client.socket = .connecting
  | .receive _ _ => node.client.socket = .connected
  | .incoming _ _ _ => node.server ≠ none
  | _ => True

/-- The ways in which a node takes a step. -/
inductive Node.Steps (sodium : Sodium) (node : Node) : NodeAction → Node → List Event → Prop
  | ignored (act : NodeAction) (idle : ¬node.Ready act) : Steps sodium node act node []
  | widget (event : WidgetEvent) :
      Steps sodium node (.widget event) (node.onWidget event).1 (node.onWidget event).2
  | connected (client : Client) (events : List Event) (ready : node.Ready .connected)
      (formed : node.client.onConnected sodium = .ok (client, events)) :
      Steps sodium node .connected { node with client } events
  | receive (env : Environment) (bytes : Bytes) (client : Client) (process : Process)
      (events : List Event) (ready : node.Ready (.receive env bytes))
      (received : node.client.receive sodium env node.process bytes =
        .ok (client, process, events)) :
      Steps sodium node (.receive env bytes)
        { node with client, process, widget := events.foldl (notify "") node.widget } events
  | socketError (errorType : SocketError) :
      Steps sodium node (.socketError errorType)
        { node with
          client := (node.client.socketErrorHandler errorType).1
          widget := (node.client.socketErrorHandler errorType).2.foldl (notify "") node.widget }
        (node.client.socketErrorHandler errorType).2
  | incoming (env : Environment) (memory : Memory) (arrivals : List Bytes) (ownKeys : KeyPair)
      (outcome : IncomingConnectionHandler.Outcome) (serving : node.server = some ownKeys)
      (served : IncomingConnectionHandler.run sodium env ownKeys memory node.process arrivals =
        .ok outcome) :
      Steps sodium node (.incoming env memory arrivals)
        { node with
          handlers := node.handlers + 1
          process := outcome.process
          widget := outcome.events.foldl (notify "Server error: ") node.widget } outcome.events

theorem Node.step_steps {sodium : Sodium} {node node' : Node} {act : NodeAction}
    {events : List Event} (ran : node.step sodium act = .ok (node', events)) :
    node.Steps sodium act node' events := by
  cases act with
  | widget event =>
      have same : node.onWidget event = (node', events) := Except.ok.inj ran
      have taken : node.Steps sodium (.widget event) (node.onWidget event).1
          (node.onWidget event).2 := .widget event
      rwa [same] at taken
  | connected =>
      simp only [step] at ran
      split at ran
      · rename_i ready
        obtain ⟨⟨client, more⟩, formed, ran⟩ := bind_eq_ok.mp ran
        cases ran
        exact .connected client more ready formed
      · rename_i idle
        cases ran
        exact .ignored _ idle
  | receive env bytes =>
      simp only [step] at ran
      split at ran
      · rename_i ready
        obtain ⟨⟨client, process, more⟩, received, ran⟩ := bind_eq_ok.mp ran
        cases ran
        exact .receive env bytes client process more ready received
      · rename_i idle
        cases ran
        exact .ignored _ idle
  | socketError errorType =>
      cases ran
      exact .socketError errorType
  | incoming env memory arrivals =>
      simp only [step] at ran
      split at ran
      · rename_i none
        cases ran
        exact .ignored _ (not_not.mpr none)
      · rename_i ownKeys serving
        obtain ⟨outcome, served, ran⟩ := bind_eq_ok.mp ran
        cases ran
        exact .incoming env memory arrivals ownKeys outcome serving served

theorem Node.step_effect {sodium : Sodium} {node node' : Node} {act : NodeAction}
    {events : List Event} (role : node.client.requestMaster.serverSide = false)
    (ran : node.step sodium act = .ok (node', events)) (name : Nat) :
    node'.client.requestMaster.serverSide = false ∧
      ∃ own, Effect sodium (node.party name act).serverSide own events := by
  cases step_steps ran with
  | ignored _ _ => exact ⟨role, KeyListModel.missing, .plain [] (by simp)⟩
  | widget event =>
      exact ⟨(node.onWidget_role event).trans role,
        KeyListModel.missing, .plain _ (node.onWidget_plain event)⟩
  | connected client _ _ formed =>
      obtain ⟨same, all⟩ := Client.onConnected_effect formed
      exact ⟨(congrArg RequestMaster.serverSide same).trans role,
        KeyListModel.missing, .plain _ all⟩
  | receive env bytes client process _ _ received =>
      obtain ⟨_, side, _, effect⟩ := Client.receive_effect role received
      exact ⟨side, _, effect⟩
  | socketError errorType =>
      obtain ⟨same, all⟩ := node.client.socketErrorHandler_plain errorType
      exact ⟨(congrArg RequestMaster.serverSide same).trans role,
        KeyListModel.missing, .plain _ all⟩
  | incoming env memory arrivals ownKeys outcome _ served =>
      exact ⟨role, _, IncomingConnectionHandler.run_effect served⟩

theorem Node.step_receive {sodium : Sodium} {node : Node} {env : Environment} {bytes : Bytes}
    {client : Client} {process : Process} {events : List Event}
    (socket : node.client.socket = .connected)
    (received : node.client.receive sodium env node.process bytes = .ok (client, process, events)) :
    node.step sodium (.receive env bytes) =
      .ok ({ node with client, process, widget := events.foldl (notify "") node.widget },
        events) := by
  rw [step, if_pos socket, received]
  rfl

namespace World

variable {sodium : Sodium}

theorem run_append (world : World) (first second : List Action) :
    world.run sodium (first ++ second) = (world.run sodium first).run sodium second :=
  List.foldl_append

theorem step_ok {world : World} {name : Nat} {act : NodeAction} {node : Node} {events : List Event}
    (running : (world.nodes name).crashed = false)
    (ran : (world.nodes name).step sodium act = .ok (node, events)) :
    (world.step sodium ⟨name, act⟩).nodes name = node ∧
      (∀ other, other ≠ name → (world.step sodium ⟨name, act⟩).nodes other = world.nodes other) ∧
      (world.step sodium ⟨name, act⟩).log =
        world.log ++ events.map (Entry.mk ((world.nodes name).party name act)) := by
  simp only [step, running, Bool.false_eq_true, if_false, ran, Function.update_self,
    true_and, and_true]
  exact fun _ different => Function.update_of_ne different _ _

theorem step_crash {world : World} {name : Nat} {act : NodeAction} {fault : Fault}
    (running : (world.nodes name).crashed = false)
    (ran : (world.nodes name).step sodium act = .error fault) :
    (world.step sodium ⟨name, act⟩).nodes name = { world.nodes name with crashed := true } ∧
      (∀ other, other ≠ name → (world.step sodium ⟨name, act⟩).nodes other = world.nodes other) ∧
      (world.step sodium ⟨name, act⟩).log = world.log := by
  simp only [step, running, Bool.false_eq_true, if_false, ran, Function.update_self,
    true_and, and_true]
  exact fun _ different => Function.update_of_ne different _ _

theorem step_keeps {name : Nat} {property : Node → Prop} {world : World} {action : Action}
    (crash : ∀ node, property node → property { node with crashed := true })
    (preserves : ∀ node events, action.node = name →
      (world.nodes name).step sodium action.act = .ok (node, events) → property node)
    (holds : property (world.nodes name)) : property ((world.step sodium action).nodes name) := by
  by_cases same : action.node = name
  · subst same
    simp only [step]
    split
    · exact holds
    rcases ran : (world.nodes action.node).step sodium action.act with fault | ⟨node, events⟩
    · simp only [Function.update_self]
      exact crash _ holds
    · simp only [Function.update_self]
      exact preserves node events rfl ran
  · simp only [step]
    split
    · exact holds
    · split
      · simp only [Function.update_of_ne (Ne.symm same)]
        exact holds
      · simp only [Function.update_of_ne (Ne.symm same)]
        exact holds

def ClientSide (node : Node) : Prop := node.client.requestMaster.serverSide = false

def Roles (world : World) : Prop := ∀ name, ClientSide (world.nodes name)

theorem initial_roles (memory : Nat → Memory) : Roles (initial memory) := fun _ => rfl

/-- One step adds the observable part of one step of one party. -/
theorem step_log (sodium : Sodium) {world : World} (roles : Roles world) (action : Action) :
    Roles (world.step sodium action) ∧ ∃ party own events,
      (world.step sodium action).log = world.log ++ events.map (Entry.mk party) ∧
      Effect sodium party.serverSide own events := by
  have idle : ∃ party own events, world.log = world.log ++ events.map (Entry.mk party) ∧
      Effect sodium party.serverSide own events :=
    ⟨.client 0, KeyListModel.missing, [], (List.append_nil _).symm, .plain [] (by simp)⟩
  have kept : Roles (world.step sodium action) := by
    intro name
    refine step_keeps (fun _ role => role) ?_ (roles name)
    intro node events _ ran
    exact (Node.step_effect (roles name) ran name).1
  refine ⟨kept, ?_⟩
  simp only [step]
  split
  · exact idle
  rcases ran : (world.nodes action.node).step sodium action.act with fault | ⟨node, events⟩
  · exact idle
  · obtain ⟨_, own, effect⟩ := Node.step_effect (roles action.node) ran action.node
    exact ⟨_, own, events, rfl, effect⟩

end World

end Cscrypto.Gui
