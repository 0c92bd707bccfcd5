import Cscrypto.Gui.SessionFiles

namespace Cscrypto.Gui

open Cscrypto.Base58 Cscrypto.Data

/-! # Members without an initial value

A new `RequestMaster` does not initialise the sender's key, the exchange key
and the signature, and the one of a client keeps those of its last message.
Every function writes them before it reads them, so that a run does not depend
on what was there.
-/

namespace RequestMaster

/-- What is there without the three members. -/
def forget (master : RequestMaster) : RequestMaster :=
  { master with
    senderPubKey := .replicate _ 0
    exchangePubKey := .replicate _ 0
    signature := .replicate _ 0 }

end RequestMaster

/-- An accepted message has filled the members. -/
def Validation.forget (result : Validation) : Validation :=
  { result with master := if result.accepted then result.master else result.master.forget }

def Client.forget (client : Client) : Client :=
  { client with requestMaster := client.requestMaster.forget }

def Node.forget (node : Node) : Node := { node with client := node.client.forget }

/-- The memory in which the request master of a connection is made. -/
def NodeAction.forget : NodeAction → NodeAction
  | .incoming env _ arrivals => .incoming env someMemory arrivals
  | act => act

def World.forget (world : World) : World :=
  { world with nodes := fun name => (world.nodes name).forget }

def MainEvent.forget : MainEvent → MainEvent
  | .exchange act => .exchange act.forget
  | event => event

def System.forget (system : System) : System :=
  { system with network := system.network.forget }

def Happening.forget (happening : Happening) : Happening :=
  { happening with event := happening.event.forget }

variable (sodium : Sodium)

namespace RequestMaster

theorem validate_forget (master : RequestMaster) (env : Environment) (process : Process)
    (type : RequestType) (request : Bytes) :
    (master.forget.validate sodium env process type request).map Validation.forget =
      (master.validate sodium env process type request).map Validation.forget := by
  unfold validate
  dsimp only
  rw [show master.forget.thread env = master.thread env from rfl, forget]
  dsimp only
  by_cases missing : (!master.validOwnKeys) = true
  · rw [if_pos missing, if_pos missing]
    rfl
  by_cases other : request.length ≠ sizeT (requestSize type)
  · rw [if_neg missing, if_neg missing, if_pos other, if_pos other]
    rfl
  rw [if_neg missing, if_neg missing, if_neg other, if_neg other]
  cases copyArray kPublicKeySize request 0 with
  | error fault => rfl
  | ok senderPubKey =>
      simp only [ok_bind]
      by_cases unopened : (!(connection env master process).1) = true
      · rw [if_pos unopened, if_pos unopened]
        rfl
      rw [if_neg unopened, if_neg unopened]
      by_cases untrusted : (!verifySenderPublicKey env.table (master.thread env)
          (env.others (connection env master process).2) senderPubKey) = true
      · rw [if_pos untrusted, if_pos untrusted]
        rfl
      -- From here on all three members are written.
      rw [if_neg untrusted, if_neg untrusted]

/-- A query is formed without the members. -/
theorem form_query_forget (master : RequestMaster) :
    master.forget.form sodium keyExchangeQuery = master.form sodium keyExchangeQuery := by
  rfl

end RequestMaster

theorem Validation.forget_eq {result result' : Validation} (same : result.forget = result'.forget) :
    result.accepted = result'.accepted ∧ result.process = result'.process ∧
      result.events = result'.events ∧ result.master.forget = result'.master.forget ∧
      (result.accepted = true → result.master = result'.master) := by
  obtain ⟨accepted, master, process, events⟩ := result
  obtain ⟨accepted', master', process', events'⟩ := result'
  obtain ⟨rfl, masters, rfl, rfl⟩ := Validation.mk.inj same
  refine ⟨rfl, rfl, rfl, ?_, ?_⟩
  · cases accepted with
    | false => exact masters
    | true => exact congrArg RequestMaster.forget masters
  · rintro rfl
    exact masters

namespace Client

theorem onConnected_forget (client : Client) :
    (client.forget.onConnected sodium).map (Prod.map forget id) =
      (client.onConnected sodium).map (Prod.map forget id) := by
  unfold onConnected forget
  rw [RequestMaster.form_query_forget]
  cases client.requestMaster.form sodium keyExchangeQuery <;> rfl

theorem readReply_forget (client : Client) (env : Environment) (process : Process) :
    (client.forget.readReply sodium env process).map (Prod.map forget id) =
      (client.readReply sodium env process).map (Prod.map forget id) := by
  rw [forget]
  unfold readReply
  dsimp only
  by_cases short : client.available.length < requestSize client.serverReqType
  · rw [if_pos short, if_pos short]
    rfl
  by_cases negative : requestSize client.serverReqType < 0
  · rw [if_neg short, if_neg short, if_pos negative, if_pos negative]
  rw [if_neg short, if_neg short, if_neg negative, if_neg negative, map_bind, map_bind]
  have same := client.requestMaster.validate_forget sodium env process client.serverReqType
    (client.available.take (requestSize client.serverReqType).toNat)
  refine bind_congr_of_map same ?_
  intro result result' agree
  obtain ⟨accepted, processes, events, masters, _⟩ := Validation.forget_eq agree
  simp only [pure_eq_ok, map_ok, Prod.map_apply, forget, accepted, processes, events, masters]

theorem onReadyRead_forget (client : Client) (env : Environment) (process : Process) :
    (client.forget.onReadyRead sodium env process).map (Prod.map forget id) =
      (client.onReadyRead sodium env process).map (Prod.map forget id) := by
  unfold onReadyRead
  by_cases first : client.serverReqType = unknown
  · rw [if_pos first, if_pos (show client.forget.serverReqType = unknown from first)]
    obtain ⟨socket, available, master, serverReqType⟩ := client
    cases available with
    | nil => rfl
    | cons type available =>
        dsimp only [forget]
        split
        · rfl
        · exact readReply_forget sodium ⟨socket, available, master, type⟩ env process
  · rw [if_neg first, if_neg (show client.forget.serverReqType ≠ unknown from first)]
    exact readReply_forget sodium client env process

theorem receive_forget (client : Client) (env : Environment) (process : Process) (bytes : Bytes) :
    (client.forget.receive sodium env process bytes).map (Prod.map forget id) =
      (client.receive sodium env process bytes).map (Prod.map forget id) :=
  onReadyRead_forget sodium { client with available := client.available ++ bytes } env process

end Client

namespace IncomingConnectionHandler

theorem readRequest_forget (master : RequestMaster) (env : Environment) (process : Process)
    (arrivals : List Bytes) :
    readRequest sodium env master.forget process arrivals =
      readRequest sodium env master process arrivals := by
  unfold readRequest
  split
  · rfl
  · rfl
  · dsimp only
    split
    · rfl
    · split
      · rfl
      · refine bind_congr_of_map (master.validate_forget sodium env process _ _) ?_
        intro result result' agree
        obtain ⟨accepted, processes, events, _, masters⟩ := Validation.forget_eq agree
        rw [processes, events, accepted]
        split
        · rename_i valid
          rw [masters (accepted.trans valid)]
        · rfl

/-- The reply is formed with the members that the query has filled. -/
theorem run_memory (env : Environment) (ownKeys : KeyPair) (memory : Memory) (process : Process)
    (arrivals : List Bytes) :
    run sodium env ownKeys memory process arrivals =
      run sodium env ownKeys someMemory process arrivals := by
  have read := readRequest_forget sodium ⟨memory.senderPubKey, memory.exchangePubKey,
    memory.signature, ownKeys, true, true, false⟩ env process arrivals
  unfold run
  dsimp only
  rw [← read]
  rfl

end IncomingConnectionHandler

namespace Node

theorem onWidget_forget (node : Node) (event : WidgetEvent) :
    Prod.map forget id (node.forget.onWidget event) = Prod.map forget id (node.onWidget event) := by
  unfold onWidget
  dsimp only [forget]
  rcases node.widget.step event with ⟨widget, _ | ⟨hostName, ownKeys⟩ | serverKeys⟩ <;> rfl

theorem step_forget (node : Node) (act : NodeAction) :
    (node.forget.step sodium act).map (Prod.map forget id) =
      (node.step sodium act).map (Prod.map forget id) := by
  cases act with
  | widget event => exact congrArg Except.ok (onWidget_forget node event)
  | connected =>
      have same := node.client.onConnected_forget sodium
      simp only [step]
      by_cases connecting : node.client.socket = .connecting
      · rw [if_pos connecting, if_pos (show node.forget.client.socket = .connecting from connecting),
          map_bind, map_bind]
        refine bind_congr_of_map same ?_
        rintro ⟨client, events⟩ ⟨client', events'⟩ agree
        obtain ⟨clients, rfl⟩ := Prod.mk.inj agree
        simp only [pure_eq_ok, map_ok, Prod.map_apply, forget, clients, id]
      · rw [if_neg connecting, if_neg (show node.forget.client.socket ≠ .connecting from connecting)]
        rfl
  | receive env bytes =>
      have same := node.client.receive_forget sodium env node.process bytes
      simp only [step]
      by_cases connected : node.client.socket = .connected
      · rw [if_pos connected, if_pos (show node.forget.client.socket = .connected from connected),
          map_bind, map_bind]
        refine bind_congr_of_map same ?_
        rintro ⟨client, process, events⟩ ⟨client', other⟩ agree
        obtain ⟨clients, rfl⟩ := Prod.mk.inj agree
        simp only [pure_eq_ok, map_ok, Prod.map_apply, forget, clients, id]
      · rw [if_neg connected, if_neg (show node.forget.client.socket ≠ .connected from connected)]
        rfl
  | socketError errorType => cases errorType <;> rfl
  | incoming env memory arrivals =>
      obtain ⟨widget, client, server, handlers, process, crashed⟩ := node
      simp only [step, forget]
      cases server with
      | none => rfl
      | some ownKeys =>
          dsimp only
          cases IncomingConnectionHandler.run sodium env ownKeys memory process arrivals <;> rfl

theorem step_memory (node : Node) (act : NodeAction) :
    node.step sodium act.forget = node.step sodium act := by
  cases act with
  | incoming env memory arrivals =>
      simp only [NodeAction.forget, step]
      cases node.server with
      | none => rfl
      | some ownKeys =>
          dsimp only
          rw [IncomingConnectionHandler.run_memory sodium env ownKeys memory]
  | _ => rfl

end Node

namespace World

/-- Two worlds agree if they do in the node that took a step. -/
theorem forget_congr {left right start : World} {name : Nat}
    (own : (left.nodes name).forget = (right.nodes name).forget)
    (others : ∀ other, other ≠ name → left.nodes other = (start.nodes other).forget)
    (others' : ∀ other, other ≠ name → right.nodes other = start.nodes other)
    (log : left.log = right.log) : left.forget = right.forget := by
  have nodes : ∀ other, (left.nodes other).forget = (right.nodes other).forget := by
    intro other
    by_cases same : other = name
    · subst same
      exact own
    · rw [others other same, others' other same]
      rfl
  rw [forget, forget, log, funext nodes]

theorem step_forget (world : World) (action : Action) :
    (world.forget.step sodium action).forget = (world.step sodium action).forget := by
  obtain ⟨name, act⟩ := action
  cases crashed : (world.nodes name).crashed with
  | true =>
      have stays : (world.nodes name).forget.crashed = true := crashed
      simp only [step, forget, crashed, stays, if_true]
      rfl
  | false =>
      have running : (world.forget.nodes name).crashed = false := crashed
      have same := (world.nodes name).step_forget sodium act
      rcases ran : (world.nodes name).step sodium act with fault | ⟨node, events⟩
      · rcases ran' : (world.forget.nodes name).step sodium act with fault' | result
        · obtain ⟨own, others, log⟩ := step_crash crashed ran
          obtain ⟨own', others', log'⟩ := step_crash running ran'
          refine forget_congr ?_ others' others (log'.trans log.symm)
          rw [own, own']
          rfl
        · rw [ran, show (world.nodes name).forget.step sodium act = .ok result from ran'] at same
          contradiction
      · rw [ran] at same
        obtain ⟨⟨node', events'⟩, ran', agree⟩ := map_eq_ok.mp same
        obtain ⟨nodes, rfl⟩ := Prod.mk.inj agree
        obtain ⟨own, others, log⟩ := step_ok crashed ran
        obtain ⟨own', others', log'⟩ := step_ok running ran'
        refine forget_congr ?_ others' others (log'.trans log.symm)
        rw [own, own', nodes]

theorem run_forget (world : World) (actions : List Action) :
    (world.forget.run sodium actions).forget = (world.run sodium actions).forget :=
  @foldl_view _ _ (step sodium) forget (fun _ => rfl) (step_forget sodium) actions world

theorem step_memory (world : World) (name : Nat) (act : NodeAction) :
    world.step sodium ⟨name, act.forget⟩ = world.step sodium ⟨name, act⟩ := by
  have party : (world.nodes name).party name act.forget = (world.nodes name).party name act := by
    cases act <;> rfl
  simp only [step, Node.step_memory, party]

end World

namespace System

variable (lib : MainLib)

/-- The next window and the next network go into the system alike. -/
theorem setWindow_forget {windows : Nat → MainWidget} {network network' : World} (name : Nat)
    (window : MainWidget) (same : network.forget = network'.forget) :
    ((System.mk windows network).setWindow name window).forget =
      ((System.mk windows network').setWindow name window).forget := by
  simp only [setWindow, forget, same]

theorem exchange_forget (system : System) (name : Nat) (act : NodeAction) :
    (system.forget.exchange lib name act).forget = (system.exchange lib name act).forget := by
  obtain ⟨windows, network⟩ := system
  have same := network.step_forget lib.sodium ⟨name, (windows name).observed act⟩
  have widgets := congrArg (fun world => (world.nodes name).widget) same
  change ((System.mk windows network.forget).exchange lib name act).forget = _
  unfold exchange
  dsimp only
  generalize network.forget.step lib.sodium ⟨name, (windows name).observed act⟩ = left
    at same widgets ⊢
  generalize network.step lib.sodium ⟨name, (windows name).observed act⟩ = right
    at same widgets ⊢
  rw [show (left.nodes name).widget = (right.nodes name).widget from widgets,
    show (network.forget.nodes name).widget = (network.nodes name).widget from rfl]
  split
  · cases (windows name).receiveKeys lib
        ((right.nodes name).widget.rows.drop (network.nodes name).widget.rows.length) with
    | error fault => exact setWindow_forget name _ same
    | ok window => exact setWindow_forget name _ same
  · rfl

theorem tab_forget (system : System) (name : Nat) (event : MainEvent) :
    (system.forget.tab lib name event).forget = (system.tab lib name event).forget := by
  obtain ⟨windows, network⟩ := system
  change ((System.mk windows network.forget).tab lib name event).forget = _
  unfold tab
  dsimp only
  cases (windows name).step lib event with
  | error fault => rfl
  | ok result =>
      have same := network.run_forget lib.sodium
        (result.2.map fun pair => ⟨name, .widget (.addKeyPair pair)⟩)
      exact setWindow_forget name result.1 same

theorem step_forget (system : System) (happening : Happening) :
    (system.forget.step lib happening).forget = (system.step lib happening).forget := by
  obtain ⟨name, event⟩ := happening
  unfold step
  dsimp only
  by_cases idle : (system.down name || !(system.windows name).takes event) = true
  · rw [if_pos idle, if_pos (show (system.forget.down name ||
      !(system.forget.windows name).takes event) = true from idle)]
    rfl
  · rw [if_neg idle, if_neg (show ¬(system.forget.down name ||
      !(system.forget.windows name).takes event) = true from idle)]
    cases event with
    | exchange act => exact exchange_forget lib system name act
    | _ => exact tab_forget lib system name _

theorem run_forget (system : System) (happenings : List Happening) :
    (system.forget.run lib happenings).forget = (system.run lib happenings).forget :=
  @foldl_view _ _ (step lib) forget (fun _ => rfl) (step_forget lib) happenings system

theorem step_memory (system : System) (happening : Happening) :
    system.step lib happening.forget = system.step lib happening := by
  obtain ⟨name, event⟩ := happening
  cases event with
  | exchange act =>
      have observed : (system.windows name).observed act.forget =
          ((system.windows name).observed act).forget := by cases act <;> rfl
      have takes : (system.windows name).takes (.exchange act.forget) =
          (system.windows name).takes (.exchange act) := by cases act <;> rfl
      simp only [Happening.forget, MainEvent.forget, step, takes, exchange, observed,
        World.step_memory]
  | _ => rfl

theorem run_memory (system : System) (happenings : List Happening) :
    system.run lib (happenings.map Happening.forget) = system.run lib happenings := by
  simp only [run, List.foldl_map, step_memory]

end System

/-- What the three members held in any two states does not matter later: two
systems that agree in the rest, under the same happenings, show the same in all
windows, write the same to the network, and agree in the rest again. -/
theorem uninitialised_members_unseen (lib : MainLib) {system system' : System}
    {happenings happenings' : List Happening} (alike : system.forget = system'.forget)
    (same : happenings.map Happening.forget = happenings'.map Happening.forget) :
    (system.run lib happenings).windows = (system'.run lib happenings').windows ∧
      (system.run lib happenings).network.log = (system'.run lib happenings').network.log ∧
      ∀ name, ((system.run lib happenings).network.nodes name).forget =
        ((system'.run lib happenings').network.nodes name).forget := by
  have runs : (system.run lib happenings).forget = (system'.run lib happenings').forget := by
    rw [← System.run_forget, alike, System.run_forget, ← System.run_memory, same, System.run_memory]
  obtain ⟨windows, networks⟩ := System.mk.inj runs
  obtain ⟨nodes, log⟩ := World.mk.inj networks
  exact ⟨windows, log, congrFun nodes⟩

def otherMemory : Memory := ⟨.replicate _ 7, .replicate _ 8, .replicate _ 9⟩

/-- The exchange of two processes, with the handler made in other memory. -/
def exchangesElsewhere : List Happening := connects ++ [
  ⟨0, .exchange (.incoming (trusting []) otherMemory [writtenAfter connects (.client 1)])⟩,
  ⟨1, .exchange (.receive (trusting []) (writtenAfter answers (.handler 0 0)))⟩,
  ⟨1, .exchange (.widget .closeMessageBox)⟩, ⟨0, .exchange (.widget .closeMessageBox)⟩]

theorem uninitialised_members_unseen_exchange :
    (((System.initial (fun _ => otherMemory) (fun _ => .single "source" [1, 2, 3])
      (fun _ => some [])).run .sendsFile exchangesElsewhere).windows 1).cipher.window.rows[0]? =
        some exchangedKeys.swap := by
  obtain ⟨windows, _⟩ := @uninitialised_members_unseen .sendsFile freshSystem
    (.initial (fun _ => otherMemory) (fun _ => .single "source" [1, 2, 3]) (fun _ => some []))
    exchanges exchangesElsewhere rfl rfl
  rw [← windows]
  exact exchanges_rows.2.2.2

end Cscrypto.Gui
