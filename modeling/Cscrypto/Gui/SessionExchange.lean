import Cscrypto.Gui.ClientInput
import Cscrypto.Gui.Crashes
import Cscrypto.Gui.HonestExchange
import Cscrypto.Gui.SessionFiles

namespace Cscrypto.Gui

open Cscrypto.Base58 Cscrypto.Cipher Cscrypto.Data Cscrypto.KeyExchange Cscrypto.KeysDerivation

/-! # An exchange in the whole program

A client that connects and a server that waits, each with the key of the other
one among its imported keys.  When the query and the reply are delivered, and both
users close the message boxes, they find the new keys in the lists of the file
cipher.
-/

namespace Client

variable {sodium : Sodium} {client : Client} {env : Environment} {process : Process}
  {bytes rest : Bytes} {result : Client × Process × List Event}

/-- While a client connects it has own keys, and nothing has arrived. -/
def Opening (client : Client) : Prop :=
  client.socket = .connecting → client.available = [] ∧ client.requestMaster.validOwnKeys = true

theorem Opening.request (opening : client.Opening) (connecting : client.socket = .connecting) :
    client = client.sendKeyExchangeRequest client.requestMaster.ownKeys := by
  obtain ⟨nothing, valid⟩ := opening connecting
  obtain ⟨socket, available, master, serverReqType⟩ := client
  obtain ⟨sender, exchange, signature, own, side, validOwnKeys, established⟩ := master
  cases connecting
  cases nothing
  cases valid
  rfl

theorem readReply_socket {result : Client × Process × List Event}
    (ran : client.readReply sodium env process = .ok result) :
    result.1.socket = client.socket := by
  unfold readReply at ran
  dsimp only at ran
  split at ran
  · cases ran
    rfl
  split at ran
  · contradiction
  obtain ⟨validation, _, ran⟩ := bind_eq_ok.mp ran
  cases ran
  rfl

theorem receive_socket (connected : client.socket = .connected)
    (ran : client.receive sodium env process bytes = .ok result) :
    result.1.socket ≠ .connecting := by
  unfold receive onReadyRead at ran
  dsimp only at ran
  split at ran
  · split at ran
    · cases ran
      simp [connected]
    split at ran
    · cases ran
      simp
    · rw [readReply_socket ran]
      simp [connected]
  · rw [readReply_socket ran]
    simp [connected]

theorem unread_append (client : Client) (bytes rest : Bytes) :
    client.unread (bytes ++ rest) = client.unread bytes ++ rest := by
  unfold unread
  split
  · rw [List.append_assoc]
  · rw [List.cons_append, List.append_assoc]

/-- The type that has been read stays with the client. -/
theorem receive_begins (ran : client.receive sodium env process bytes = .ok result)
    (begins : ∀ type ∈ (client.unread (bytes ++ rest)).head?, requestSize type = 128) :
    ∀ type ∈ (result.1.unread rest).head?, requestSize type = 128 := by
  rw [unread_append] at begins
  cases arrived : client.unread bytes with
  | nil =>
      have first := unread_eq_nil arrived
      rw [receive_nothing first arrived] at ran
      cases ran
      rw [arrived] at begins
      rw [unread, if_pos first]
      exact begins
  | cons type available =>
      rw [arrived] at begins
      have known := begins type rfl
      have kept : result.1.serverReqType = type := by
        rw [receive_known known arrived] at ran
        split at ran
        · cases ran
          rfl
        · obtain ⟨validation, _, same⟩ := map_eq_ok.mp ran
          rw [← same]
          rfl
      rw [unread, kept, if_neg (ne_unknown_of_size known)]
      rintro _ ⟨⟩
      exact known

end Client

namespace Node

variable {sodium : Sodium}

theorem step_opening {node next : Node} {act : NodeAction} {events : List Event}
    (opening : node.client.Opening) (ran : node.step sodium act = .ok (next, events)) :
    next.client.Opening := by
  cases step_steps ran with
  | ignored _ _ => exact opening
  | widget event =>
      unfold onWidget
      rcases node.widget.step event with ⟨widget, _ | ⟨hostName, ownKeys⟩ | serverKeys⟩
      · exact opening
      · exact fun _ => ⟨rfl, rfl⟩
      · exact opening
  | connected client events ready formed =>
      obtain ⟨_, _, formed⟩ := bind_eq_ok.mp formed
      cases formed
      intro connecting
      contradiction
  | receive env bytes client process events ready received =>
      exact fun connecting => absurd connecting (Client.receive_socket ready received)
  | socketError errorType =>
      intro connecting
      cases errorType <;> contradiction
  | incoming env memory arrivals ownKeys outcome serving served => exact opening

/-- What a client has read and what it will read starts with a type of a message. -/
def Begins (node : Node) (bytes : Bytes) : Prop :=
  node.client.socket = .connected →
    ∀ type ∈ (node.client.unread bytes).head?, requestSize type = 128

theorem Begins.read {node : Node} {env : Environment} {bytes rest : Bytes}
    (begins : Begins node (bytes ++ rest)) : ¬node.Misread (.receive env bytes) := by
  rintro ⟨connected, type, first, other⟩
  have whole : type ∈ (node.client.unread (bytes ++ rest)).head? := by
    rw [Client.unread_append]
    obtain ⟨available, arrived⟩ := List.head?_eq_some_iff.mp first
    rw [arrived]
    rfl
  exact absurd (begins connected type whole) (by rw [requestSize_of_not_expected other]; decide)

theorem Begins.step {sodium : Sodium} {node next : Node} {env : Environment} {bytes rest : Bytes}
    {events : List Event} (begins : Begins node (bytes ++ rest))
    (ran : node.step sodium (.receive env bytes) = .ok (next, events)) : Begins next rest := by
  cases step_steps ran with
  | ignored _ idle => exact fun connected => absurd connected idle
  | receive _ _ client process events ready received =>
      exact fun _ => Client.receive_begins received (begins ready)

end Node

namespace World

variable {sodium : Sodium}

theorem run_opening (sodium : Sodium) (memory : Nat → Memory) (actions : List Action) (name : Nat) :
    (((World.initial memory).run sodium actions).nodes name).client.Opening := by
  have preserves : ∀ (world : World) (action : Action), (world.nodes name).client.Opening →
      ((world.step sodium action).nodes name).client.Opening := by
    intro world action opening
    refine @step_keeps sodium name (fun node => node.client.Opening) world action
      (fun _ kept => kept) ?_ opening
    intro node events same ran
    exact Node.step_opening opening ran
  exact foldl_preserves preserves actions fun connecting => by contradiction

/-- Which message boxes an exchange between two nodes that trust each other
brings to the windows of all nodes. -/
theorem exchange_rows (laws : ExchangeLaws sodium) {world : World} {client server : Nat}
    (apart : client ≠ server) (clientRuns : (world.nodes client).crashed = false)
    (serverRuns : (world.nodes server).crashed = false) {previous : Client}
    {clientPk serverPk : PublicKey} {clientSk serverSk : SecretKey}
    (asked : (world.nodes client).client =
      previous.sendKeyExchangeRequest (clientPk, .holding clientSk))
    (serving : (world.nodes server).server = some (serverPk, .holding serverSk))
    (clientSigns : SignsFor sodium clientPk clientSk)
    (serverSigns : SignsFor sodium serverPk serverSk)
    (role : (world.nodes client).client.requestMaster.serverSide = false)
    (linked : NodeLinked (world.nodes client)) {env : Environment} {fresh : Memory}
    {arrivals : List Bytes} {pieces : List (Environment × Bytes)} (undisturbed : Undisturbed env)
    (attached : env.attached = true) (trusted : Trusted env.table clientPk)
    (every : ∀ piece ∈ pieces, Undisturbed piece.1 ∧ Trusted piece.1.table serverPk)
    (queryDelivered : latest (writtenBy (.client client))
      (world.step sodium ⟨client, .connected⟩).log = some arrivals.flatten)
    (replyDelivered : latest (writtenBy (.handler server (world.nodes server).handlers))
      ((world.step sodium ⟨client, .connected⟩).step sodium
        ⟨server, .incoming env fresh arrivals⟩).log = some (pieces.map Prod.snd).flatten) :
    ∃ keys keys', OneExchange sodium keys keys' ∧
      (∃ request, (((world.step sodium ⟨client, .connected⟩).step sodium
        ⟨server, .incoming env fresh arrivals⟩).nodes client).client.unread
          (pieces.map Prod.snd).flatten = keyExchangeReply :: request) ∧
      ∀ name, Shows (world.nodes name).widget
        ((((world.step sodium ⟨client, .connected⟩).step sodium
          ⟨server, .incoming env fresh arrivals⟩).run sodium
            (pieces.map (deliver client))).nodes name).widget
        (if name = client then [keys] else if name = server then [keys'] else []) := by
  obtain ⟨first, second, agreed, reply, arrived, query, table, clientSigned, serverSigned, log⟩ :=
    exchange_log laws apart clientRuns serverRuns asked serving clientSigns serverSigns role linked
      undisturbed attached trusted every queryDelivered replyDelivered
  obtain ⟨clientEpk, clientEsk, serverEpk, serverEsk, own, peer, serverCommon, clientCommon⟩ :=
    agreed
  refine ⟨(second, first), (first, second), ⟨false, clientSk, serverSk, clientEpk, clientEsk,
    serverEpk, serverEsk, own, peer, clientCommon, serverCommon⟩, ⟨reply, arrived⟩, ?_⟩
  intro name
  have network : ∀ action ∈ ⟨client, .connected⟩ :: ⟨server, .incoming env fresh arrivals⟩ ::
      pieces.map (deliver client), ∀ event, action.act ≠ .widget event := by
    intro action member event
    simp only [List.mem_cons, List.mem_map] at member
    rcases member with rfl | rfl | ⟨piece, _, rfl⟩ <;> simp [deliver]
  obtain ⟨added, log', shows⟩ := @run_shows sodium world _ network name
  rw [List.append_assoc, List.append_assoc] at log
  obtain rfl := List.append_cancel_left (log'.symm.trans log)
  rw [List.filterMap_append, List.filterMap_append, filterMap_keysAt, filterMap_keysAt,
    filterMap_keysAt] at shows
  by_cases own : name = client
  · subst own
    simp only [Party.node, if_true, if_false, Ne.symm apart] at shows ⊢
    exact shows
  · by_cases other : name = server
    · subst other
      simp only [Party.node, if_true, if_false, apart, own] at shows ⊢
      exact shows
    · simp only [Party.node, own, other, Ne.symm own, Ne.symm other, if_false,
        List.append_nil] at shows ⊢
      exact shows

end World

namespace System

variable {lib : MainLib} {memory : Nat → Memory} {disks : Nat → Disk}
  {records : Nat → Option Table} {system middle next : System} {name : Nat}

/-- Only the network has taken steps, and all processes that were up still are. -/
structure OnNetwork (lib : MainLib) (system next : System) (actions : List Action) : Prop where
  network : next.network = system.network.run lib.sodium actions
  storage : ∀ name, (next.windows name).storage = (system.windows name).storage
  dbOpener : ∀ name, (next.windows name).dbOpener = (system.windows name).dbOpener
  down : ∀ name, next.down name = system.down name

theorem OnNetwork.refl (lib : MainLib) (system : System) : OnNetwork lib system system [] :=
  ⟨rfl, fun _ => rfl, fun _ => rfl, fun _ => rfl⟩

theorem OnNetwork.trans {first second : List Action} (before : OnNetwork lib system middle first)
    (after : OnNetwork lib middle next second) :
    OnNetwork lib system next (first ++ second) where
  network := by rw [after.network, before.network, World.run_append]
  storage name := (after.storage name).trans (before.storage name)
  dbOpener name := (after.dbOpener name).trans (before.dbOpener name)
  down name := (after.down name).trans (before.down name)

/-- A step of the key exchange, unless it reads a byte that is no type of a
message. -/
theorem Composed.onNetwork (composed : Composed lib memory disks system)
    (up : system.down name = false) (opened : (system.windows name).dbOpener = true)
    {act : NodeAction} (takes : (system.windows name).takes (.exchange act) = true)
    (read : ¬(system.network.nodes name).Misread act) :
    OnNetwork lib system (system.step lib ⟨name, .exchange act⟩)
      [⟨name, (system.windows name).observed act⟩] := by
  have stays := fun other (different : other ≠ name) =>
    step_down_others lib system ⟨name, .exchange act⟩ different
  have running : (system.exchange lib name act).down name = false := by
    rw [← Bool.not_eq_true, exchange_down_iff composed up]
    exact fun fails => read fails.2
  rw [step_exchange up takes] at stays ⊢
  obtain ⟨unopened, _⟩ | ⟨_, cipher, next⟩ := exchange_cases lib system name act
  · exact absurd (unopened.symm.trans opened) Bool.false_ne_true
  have kept (other : Nat) : ((system.exchange lib name act).windows other).storage =
        (system.windows other).storage ∧
      ((system.exchange lib name act).windows other).dbOpener =
        (system.windows other).dbOpener := by
    by_cases same : other = name
    · subst same
      have own : (system.exchange lib other act).windows other =
          { system.windows other with cipher } := by
        rw [next]
        exact Function.update_self _ _ _
      rw [own]
      exact ⟨rfl, rfl⟩
    · have others : (system.exchange lib name act).windows other = system.windows other := by
        rw [next]
        exact Function.update_of_ne same _ _
      rw [others]
      exact ⟨rfl, rfl⟩
  refine ⟨by rw [next]; rfl, fun other => (kept other).1, fun other => (kept other).2, ?_⟩
  intro other
  by_cases same : other = name
  · subst same
    exact running.trans up.symm
  · exact stays other same

/-- The user closes the newest message box of his process. -/
def closes (name : Nat) : Happening := ⟨name, .exchange (.widget .closeMessageBox)⟩

/-- The box becomes a row of the file cipher, and nothing changes elsewhere. -/
structure Closed (lib : MainLib) (name : Nat) (pair : Bytes × Bytes) (system next : System) :
    Prop where
  onNetwork : OnNetwork lib system next [⟨name, .widget .closeMessageBox⟩]
  others : ∀ other, other ≠ name → next.network.nodes other = system.network.nodes other
  rows : (next.network.nodes name).widget.rows = (system.network.nodes name).widget.rows ++ [pair]

theorem Composed.closes (composed : Composed lib memory disks system)
    (up : system.down name = false) (opened : (system.windows name).dbOpener = true)
    {pair : Bytes × Bytes} {messageBoxes : List (Bytes × Bytes)}
    (shown : (system.network.nodes name).widget.messageBoxes = pair :: messageBoxes) :
    Closed lib name pair system (system.step lib (System.closes name)) := by
  have onNetwork : OnNetwork lib system (system.step lib (System.closes name))
      [⟨name, .widget .closeMessageBox⟩] := composed.onNetwork up opened rfl id
  have network : (system.step lib (System.closes name)).network =
      system.network.step lib.sodium ⟨name, .widget .closeMessageBox⟩ := onNetwork.network
  refine ⟨onNetwork, fun other different => ?_, ?_⟩
  · rw [network]
    exact (World.step_frame _ _).1 other different
  · obtain ⟨actions, reached⟩ := composed.network
    have listed := World.run_listed lib.sodium memory actions name
    rw [← reached] at listed
    have ran := (system.network.nodes name).step_closeMessageBox lib.sodium
    rw [network, (World.step_ok (Bool.or_eq_false_iff.mp up).2 ran).1]
    exact KeyExchangeWidget.closeMessageBox_rows listed shown

/-- The environment of a piece with the records that the process has stored. -/
def seenPiece (window : MainWidget) (piece : Environment × Bytes) : Environment × Bytes :=
  ({ piece.1 with table := piece.1.table.map fun _ => window.storage.table }, piece.2)

theorem seen_trusted {table : Option Table} {window : MainWidget} {key : PublicKey}
    (queried : table.isSome = true)
    (trusts : isTrusted (EncodeBase58 key.bytes) window.storage.table = true) :
    Trusted (table.map fun _ => window.storage.table) key := by
  obtain ⟨records, rfl⟩ := Option.isSome_iff_exists.mp queried
  exact ⟨_, rfl, trusts⟩

def receives (name : Nat) (piece : Environment × Bytes) : Happening :=
  ⟨name, .exchange (.receive piece.1 piece.2)⟩

theorem Composed.receives (carries : Carries lib.sign)
    (composed : Composed lib memory disks system) (up : system.down name = false)
    (opened : (system.windows name).dbOpener = true) {pieces : List (Environment × Bytes)}
    (begins : (system.network.nodes name).Begins (pieces.map Prod.snd).flatten) :
    OnNetwork lib system (system.run lib (pieces.map (receives name)))
      ((pieces.map (seenPiece (system.windows name))).map (deliver name)) := by
  induction pieces generalizing system with
  | nil => exact .refl lib system
  | cons piece rest ih =>
      have read : ¬(system.network.nodes name).Misread (.receive piece.1 piece.2) := begins.read
      have stepped := composed.onNetwork up opened rfl read
      have running := (Bool.or_eq_false_iff.mp up).2
      have running' := (Bool.or_eq_false_iff.mp ((stepped.down name).trans up)).2
      have seen : seenPiece ((system.step lib (System.receives name piece)).windows name) =
          seenPiece (system.windows name) := by
        funext other
        rw [seenPiece, seenPiece, System.receives, stepped.storage]
      have begins' : ((system.step lib (System.receives name piece)).network.nodes name).Begins
          (rest.map Prod.snd).flatten := by
        rw [stepped.network] at running'
        rw [System.receives, stepped.network]
        cases ran : (system.network.nodes name).step lib.sodium
            ((system.windows name).observed (.receive piece.1 piece.2)) with
        | error fault =>
            have crashed := congrArg Node.crashed (World.step_crash running ran).1
            exact absurd (running'.symm.trans crashed) Bool.false_ne_true
        | ok result =>
            have node := (World.step_ok running ran).1
            rw [World.run, List.foldl_cons, List.foldl_nil, node]
            exact begins.step ran
      have later := ih (composed.step carries (System.receives name piece))
        ((stepped.down name).trans up) ((stepped.dbOpener name).trans opened) begins'
      rw [seen] at later
      exact stepped.trans later

/-- A client that connects does so with a pair of the list of its process. -/
theorem Composed.asked (composed : Composed lib memory disks system) {name : Nat}
    (connecting : (system.network.nodes name).client.socket = .connecting) :
    HeldBy lib.sign (system.network.nodes name).client.requestMaster.ownKeys ∧
      (system.network.nodes name).client = (system.network.nodes name).client.sendKeyExchangeRequest
        (system.network.nodes name).client.requestMaster.ownKeys := by
  obtain ⟨actions, reached⟩ := composed.network
  have opening := World.run_opening lib.sodium memory actions name
  have listed := ((World.run_usesListed lib.sodium memory actions).nodes name).client
  rw [← reached] at opening listed
  refine ⟨?_, opening.request connecting⟩
  rcases listed with none | member
  · exact absurd (none.2.symm.trans (opening connecting).2) Bool.false_ne_true
  · rw [(composed.windows name).exchangeKeys] at member
    exact (composed.windows name).held _ member

theorem Composed.serving (composed : Composed lib memory disks system) {name : Nat}
    {own : KeyPair} (serving : (system.network.nodes name).server = some own) :
    HeldBy lib.sign own := by
  obtain ⟨actions, reached⟩ := composed.network
  have listed := ((World.run_usesListed lib.sodium memory actions).nodes name).server
  rw [← reached, (composed.windows name).exchangeKeys] at listed
  exact (composed.windows name).held own (listed own serving)

/-- The client connects, the server gets the query, the client gets the reply in
some pieces, and both users close the boxes that have come up. -/
def delivers (client server : Nat) (env : Environment) (fresh : Memory) (arrivals : List Bytes)
    (pieces : List (Environment × Bytes)) : List Happening :=
  ⟨client, .exchange .connected⟩ :: ⟨server, .exchange (.incoming env fresh arrivals)⟩ ::
    (pieces.map (receives client) ++ [closes client, closes server])

/-- The client writes its query, the server reads it and writes its reply. -/
theorem Composed.answers (carries : Carries lib.sign)
    (composed : Composed lib memory disks system) {client server : Nat}
    (up : system.down client = false) (up' : system.down server = false)
    (opened : (system.windows client).dbOpener = true)
    (opened' : (system.windows server).dbOpener = true) (env : Environment) (fresh : Memory)
    (arrivals : List Bytes) :
    OnNetwork lib system
      ((system.step lib ⟨client, .exchange .connected⟩).step lib
        ⟨server, .exchange (.incoming env fresh arrivals)⟩)
      [⟨client, .connected⟩, ⟨server, .incoming
        { env with table := env.table.map fun _ => (system.windows server).storage.table } fresh
        arrivals⟩] := by
  have connected : OnNetwork lib system (system.step lib ⟨client, .exchange .connected⟩)
      [⟨client, .connected⟩] := composed.onNetwork up opened rfl id
  have answered := @Composed.onNetwork _ _ _ _ server
    (composed.step carries ⟨client, .exchange .connected⟩)
    ((connected.down server).trans up') ((connected.dbOpener server).trans opened')
    (.incoming env fresh arrivals) rfl id
  have both := connected.trans answered
  rw [MainWidget.observed, connected.storage server] at both
  exact both

/-- Two users close the newest boxes of their processes. -/
theorem Composed.closesBoth (carries : Carries lib.sign)
    (composed : Composed lib memory disks system) {client server : Nat} (apart : client ≠ server)
    (up : system.down client = false) (up' : system.down server = false)
    (opened : (system.windows client).dbOpener = true)
    (opened' : (system.windows server).dbOpener = true) {pair pair' : Bytes × Bytes}
    {messageBoxes messageBoxes' : List (Bytes × Bytes)}
    (shown : (system.network.nodes client).widget.messageBoxes = pair :: messageBoxes)
    (shown' : (system.network.nodes server).widget.messageBoxes = pair' :: messageBoxes') :
    (∀ name, ((system.step lib (System.closes client)).step lib
        (System.closes server)).down name = system.down name) ∧
      ∀ name, (((system.step lib (System.closes client)).step lib
          (System.closes server)).windows name).cipher.window.rows =
        (system.network.nodes name).widget.rows ++
          if name = client then [pair] else if name = server then [pair'] else [] := by
  have first := composed.closes up opened shown
  have composed' := composed.step carries (System.closes client)
  rw [← first.others server (Ne.symm apart)] at shown'
  have second := composed'.closes ((first.onNetwork.down server).trans up')
    ((first.onNetwork.dbOpener server).trans opened') shown'
  refine ⟨(first.onNetwork.trans second.onNetwork).down, fun name => ?_⟩
  rw [((composed'.step carries (System.closes server)).rows_eq name).1]
  by_cases own : name = client
  · subst own
    rw [second.others name apart, first.rows, if_pos rfl]
  · by_cases other : name = server
    · subst other
      rw [second.rows, first.others name own, if_neg own, if_pos rfl]
    · rw [second.others name other, first.others name own, if_neg own, if_neg other,
        List.append_nil]

end System

/-- The signatures made with a pair are valid under its public key. -/
def PairSigns (sodium : Sodium) (pair : KeyPair) : Prop :=
  ∀ secret, pair.2 = .holding secret → SignsFor sodium pair.1 secret

/-- In any reachable state of any number of processes: when a client whose
database connection is still there connects to a server, each trusts the key of
the other one and what they write arrives, all processes go on, and the lists of
both users have a new row of one exchange. -/
theorem exchange_completes {lib : MainLib} (carries : Carries lib.sign)
    (laws : ExchangeLaws lib.sodium)
    {memory : Nat → Memory} {disks : Nat → Cipher.Disk} {records : Nat → Option Table}
    {happenings : List Happening} {system : System}
    (reached : system = (System.initial memory disks records).run lib happenings)
    {client server : Nat} (apart : client ≠ server) (up : system.down client = false)
    (up' : system.down server = false) (opened : (system.windows client).dbOpener = true)
    (opened' : (system.windows server).dbOpener = true)
    (connecting : (system.network.nodes client).client.socket = .connecting) {own : KeyPair}
    (serving : (system.network.nodes server).server = some own)
    (signs : PairSigns lib.sodium (system.network.nodes client).client.requestMaster.ownKeys)
    (signs' : PairSigns lib.sodium own)
    (linked : World.NodeLinked (system.network.nodes client))
    (trusts : isTrusted (EncodeBase58 own.1.bytes) (system.windows client).storage.table = true)
    (trusts' : isTrusted
      (EncodeBase58 (system.network.nodes client).client.requestMaster.ownKeys.1.bytes)
      (system.windows server).storage.table = true)
    {env : Environment} {fresh : Memory} {arrivals : List Bytes}
    {pieces : List (Environment × Bytes)} (undisturbed : Undisturbed env)
    (attached : env.attached = true) (queried : env.table.isSome = true)
    (every : ∀ piece ∈ pieces, Undisturbed piece.1 ∧ piece.1.table.isSome = true)
    (queryDelivered : latest (writtenBy (.client client))
      (system.step lib ⟨client, .exchange .connected⟩).network.log = some arrivals.flatten)
    (replyDelivered : latest (writtenBy (.handler server (system.network.nodes server).handlers))
      ((system.step lib ⟨client, .exchange .connected⟩).step lib
        ⟨server, .exchange (.incoming env fresh arrivals)⟩).network.log =
          some (pieces.map Prod.snd).flatten) :
    ∃ keys keys', OneExchange lib.sodium keys keys' ∧
      (∀ name, (system.run lib
        (System.delivers client server env fresh arrivals pieces)).down name = system.down name) ∧
      ∀ name, ((system.run lib (System.delivers client server env fresh arrivals
          pieces)).windows name).cipher.window.rows =
        (system.windows name).cipher.window.rows ++
          if name = client then [keys] else if name = server then [keys'] else [] := by
  have composed := System.run_composed carries memory disks records happenings
  rw [← reached] at composed
  obtain ⟨⟨clientSk, own₁⟩, asked⟩ := composed.asked connecting
  obtain ⟨serverSk, rfl⟩ := composed.serving serving
  rw [own₁] at asked trusts' signs
  -- the query and the reply
  have replied := composed.answers carries up up' opened opened' env fresh arrivals
  have network : ((system.step lib ⟨client, .exchange .connected⟩).step lib
      ⟨server, .exchange (.incoming env fresh arrivals)⟩).network =
      (system.network.step lib.sodium ⟨client, .connected⟩).step lib.sodium ⟨server, .incoming
        { env with table := env.table.map fun _ => (system.windows server).storage.table } fresh
        arrivals⟩ := replied.network
  have first : (system.step lib ⟨client, .exchange .connected⟩).network =
      system.network.step lib.sodium ⟨client, .connected⟩ :=
    (composed.onNetwork up opened rfl id).network
  rw [first] at queryDelivered
  have delivered : (pieces.map (System.seenPiece (system.windows client))).map Prod.snd =
      pieces.map Prod.snd := by
    rw [List.map_map]
    rfl
  rw [network, ← delivered] at replyDelivered
  have undisturbed' : Undisturbed { env with
      table := env.table.map fun _ => (system.windows server).storage.table } :=
    ⟨undisturbed.opens, undisturbed.alone⟩
  have every' : ∀ piece ∈ pieces.map (System.seenPiece (system.windows client)),
      Undisturbed piece.1 ∧ Trusted piece.1.table (lib.sign.skToPk serverSk) := by
    intro piece member
    obtain ⟨piece, inside, rfl⟩ := List.mem_map.mp member
    obtain ⟨undisturbed, queried⟩ := every piece inside
    exact ⟨⟨undisturbed.opens, undisturbed.alone⟩, System.seen_trusted queried trusts⟩
  have role : (system.network.nodes client).client.requestMaster.serverSide = false := by
    obtain ⟨actions, reached⟩ := composed.network
    rw [reached]
    exact ((World.run_usesListed lib.sodium memory actions).nodes client).role
  obtain ⟨keys, keys', exchange, ⟨request, arrived⟩, shows⟩ := World.exchange_rows laws apart
    (Bool.or_eq_false_iff.mp up).2 (Bool.or_eq_false_iff.mp up').2 asked serving
    (signs clientSk rfl) (signs' serverSk rfl) role linked undisturbed' attached
    (System.seen_trusted queried trusts') every' queryDelivered replyDelivered
  -- the client reads the reply
  rw [← network, delivered] at arrived
  have begins : (((system.step lib ⟨client, .exchange .connected⟩).step lib
      ⟨server, .exchange (.incoming env fresh arrivals)⟩).network.nodes client).Begins
      (pieces.map Prod.snd).flatten := by
    intro _ type first
    rw [arrived] at first
    cases first
    rfl
  have composed' := (composed.step carries ⟨client, .exchange .connected⟩).step carries
    ⟨server, .exchange (.incoming env fresh arrivals)⟩
  have received := composed'.receives carries ((replied.down client).trans up)
    ((replied.dbOpener client).trans opened) begins
  have seen : System.seenPiece (((system.step lib ⟨client, .exchange .connected⟩).step lib
      ⟨server, .exchange (.incoming env fresh arrivals)⟩).windows client) =
      System.seenPiece (system.windows client) := by
    funext piece
    rw [System.seenPiece, System.seenPiece, replied.storage]
  have exchanged := replied.trans received
  have composed'' := composed'.run carries (pieces.map (System.receives client))
  have network' := received.network
  rw [network, seen] at network'
  have whole : system.run lib (System.delivers client server env fresh arrivals pieces) =
      ((((system.step lib ⟨client, .exchange .connected⟩).step lib
        ⟨server, .exchange (.incoming env fresh arrivals)⟩).run lib
          (pieces.map (System.receives client))).step lib (System.closes client)).step lib
            (System.closes server) := by
    rw [System.delivers, System.run, List.foldl_cons, List.foldl_cons, List.foldl_append]
    rfl
  generalize (((system.step lib ⟨client, .exchange .connected⟩).step lib
    ⟨server, .exchange (.incoming env fresh arrivals)⟩).run lib
      (pieces.map (System.receives client))) = middle at exchanged composed'' network' whole
  rw [← network'] at shows
  -- both users close their new boxes
  have atClient := (shows client).messageBoxes
  rw [if_pos rfl, List.reverse_singleton, List.singleton_append] at atClient
  have atServer := (shows server).messageBoxes
  rw [if_neg (Ne.symm apart), if_pos rfl, List.reverse_singleton, List.singleton_append]
    at atServer
  obtain ⟨down, rows⟩ := composed''.closesBoth carries apart ((exchanged.down client).trans up)
    ((exchanged.down server).trans up') ((exchanged.dbOpener client).trans opened)
    ((exchanged.dbOpener server).trans opened') atClient atServer
  rw [whole]
  refine ⟨keys, keys', exchange, fun name => (down name).trans (exchanged.down name), ?_⟩
  intro name
  rw [rows, (shows name).rows, (composed.rows_eq name).1]

/-- The second one has asked for a connection. -/
def asks : List Happening := connects.dropLast

theorem asks_ready :
    (freshSystem.run .transparent asks).down 1 = false ∧
      (freshSystem.run .transparent asks).down 0 = false ∧
      ((freshSystem.run .transparent asks).windows 1).dbOpener = true ∧
      ((freshSystem.run .transparent asks).windows 0).dbOpener = true ∧
      ((freshSystem.run .transparent asks).windows 1).cipher.window.rows = [] ∧
      ((freshSystem.run .transparent asks).windows 0).cipher.window.rows = [] := by
  decide +kernel

theorem asks_trusted :
    (((freshSystem.run .transparent asks).network.nodes 0).server.any fun own =>
        isTrusted (EncodeBase58 own.1.bytes)
          ((freshSystem.run .transparent asks).windows 1).storage.table) = true ∧
      isTrusted (EncodeBase58 ((freshSystem.run .transparent
          asks).network.nodes 1).client.requestMaster.ownKeys.1.bytes)
        ((freshSystem.run .transparent asks).windows 0).storage.table = true := by
  decide +kernel

theorem asks_network :
    ((freshSystem.run .transparent asks).network.nodes 1).client.socket = .connecting ∧
      ((freshSystem.run .transparent
        asks).network.nodes 1).client.requestMaster.dbConnectionEstablished = false ∧
      ((freshSystem.run .transparent asks).network.nodes 0).handlers = 0 := by
  decide +kernel

theorem latest_writtenAfter {happenings : List Happening} {party : Party}
    (sent : (latest (writtenBy party)
      (freshSystem.run .transparent happenings).network.log).isSome = true) :
    latest (writtenBy party) (freshSystem.run .transparent happenings).network.log =
      some [writtenAfter happenings party].flatten := by
  obtain ⟨bytes, last⟩ := Option.isSome_iff_exists.mp sent
  rw [writtenAfter, last, List.flatten_singleton]
  rfl

theorem System.run_asks (happenings : List Happening) :
    freshSystem.run .transparent (asks ++ happenings) =
      (freshSystem.run .transparent asks).run .transparent happenings :=
  List.foldl_append

theorem exchange_completes_exchanges : ∃ keys keys',
    OneExchange Sodium.transparent keys keys' ∧
      ((freshSystem.run .transparent exchanges).windows 1).cipher.window.rows = [keys] ∧
      ((freshSystem.run .transparent exchanges).windows 0).cipher.window.rows = [keys'] := by
  have queried := @latest_writtenAfter connects (.client 1) (by decide +kernel)
  have replied := @latest_writtenAfter answers (.handler 0 0) (by decide +kernel)
  have first : connects = asks ++ [⟨1, .exchange .connected⟩] := rfl
  have second : answers = asks ++ [⟨1, .exchange .connected⟩, ⟨0, .exchange (.incoming
      (trusting []) someMemory [writtenAfter connects (.client 1)])⟩] := rfl
  have whole : exchanges = answers ++
      [⟨1, .exchange (.receive (trusting []) (writtenAfter answers (.handler 0 0)))⟩,
        System.closes 1, System.closes 0] := rfl
  generalize writtenAfter connects (.client 1) = query at queried second whole
  generalize writtenAfter answers (.handler 0 0) = reply at replied whole
  rw [first, System.run_asks] at queried
  rw [second, System.run_asks] at replied
  rw [whole, second, List.append_assoc, System.run_asks]
  obtain ⟨up, up', opened, opened', none, none'⟩ := asks_ready
  obtain ⟨trusts, trusts'⟩ := asks_trusted
  obtain ⟨connecting, unmarked, handlers⟩ := asks_network
  generalize reached : freshSystem.run .transparent asks = system at *
  cases serving : (system.network.nodes 0).server with
  | none =>
      rw [serving] at trusts
      contradiction
  | some own =>
      rw [serving, Option.any_some] at trusts
      have handler : Party.handler 0 0 = .handler 0 (system.network.nodes 0).handlers := by
        rw [handlers]
      rw [handler] at replied
      have every : ∀ piece ∈ [(trusting [], reply)],
          Undisturbed piece.1 ∧ piece.1.table.isSome = true := by
        intro piece member
        rw [List.mem_singleton.mp member]
        exact ⟨trusting_undisturbed [], rfl⟩
      have composed := System.run_composed carries_transparent (fun _ => someMemory)
        (fun _ => .single "source" [1, 2, 3]) (fun _ => some []) asks
      rw [← freshSystem, reached] at composed
      have signs {pair : KeyPair} (held : HeldBy MainLib.transparent.sign pair) :
          PairSigns .transparent pair := by
        obtain ⟨secret, rfl⟩ := held
        intro other same
        cases same
        exact transparent_signsFor secret
      obtain ⟨keys, keys', exchange, _, rows⟩ := @exchange_completes .transparent
        carries_transparent transparent_exchangeLaws (fun _ => someMemory)
        (fun _ => .single "source" [1, 2, 3]) (fun _ => some []) asks system reached.symm 1 0
        (by decide) up up' opened opened' connecting own serving
        (signs (composed.asked connecting).1) (signs (composed.serving serving))
        (fun marked => absurd (unmarked.symm.trans marked) Bool.false_ne_true) trusts trusts'
        (trusting []) someMemory [query] [(trusting [], reply)] (trusting_undisturbed []) rfl rfl
        every queried replied
      refine ⟨keys, keys', exchange, ?_, ?_⟩
      · exact (rows 1).trans (by rw [none]; rfl)
      · exact (rows 0).trans (by rw [none']; rfl)

end Cscrypto.Gui
