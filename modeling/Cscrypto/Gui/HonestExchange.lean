import Cscrypto.Gui.Delivery

namespace Cscrypto.Gui

open Cscrypto.Base58 Cscrypto.Data Cscrypto.KeyExchange

/-! # An exchange between two honest parties

The client connects, its query is delivered to the server and the server's
reply to the client.  Both accept, and each side sends with the key that the
other receives with.
-/

namespace World

variable {sodium : Sodium} {name : Nat}

/-- The process has no server, so that only its client uses the connection. -/
def Separate (name : Nat) (action : Action) : Prop :=
  action.node = name → match action.act with
    | .incoming _ _ _ => False
    | .receive env _ => Alone env
    | _ => True

/-- The connection of the client of a node exists if it is marked. -/
def NodeLinked (node : Node) : Prop :=
  Linked .main node.client.requestMaster.dbConnectionEstablished node.process

theorem step_nodeLinked {node next : Node} {act : NodeAction} {events : List Event}
    (role : node.client.requestMaster.serverSide = false) (linked : NodeLinked node)
    (separate : Separate name ⟨name, act⟩) (ran : node.step sodium act = .ok (next, events)) :
    NodeLinked next := by
  have alone := separate rfl
  cases Node.step_steps ran with
  | ignored _ _ => exact linked
  | widget event =>
      simp only [NodeLinked, Node.onWidget]
      rcases (node.widget.step event).2 with _ | ⟨hostName, ownKeys⟩ | serverKeys <;> exact linked
  | connected client _ _ formed =>
      rw [NodeLinked, (Client.onConnected_effect formed).1]
      exact linked
  | receive env bytes client process _ _ received =>
      exact Client.receive_linked alone role linked received
  | socketError errorType => cases errorType <;> exact linked
  | incoming env memory arrivals ownKeys outcome _ _ => exact alone.elim

theorem run_nodeLinked (sodium : Sodium) (memory : Nat → Memory) {past : List Action}
    (separate : ∀ action ∈ past, Separate name action) :
    Roles ((World.initial memory).run sodium past) ∧
      NodeLinked (((World.initial memory).run sodium past).nodes name) := by
  have meets :
      StepsMeet (step sodium) (fun _ action => Separate name action) (World.initial memory) past :=
    StepsMeet.of_forall (fun action member _ => separate action member) _
  have start : Roles (World.initial memory) ∧ NodeLinked ((World.initial memory).nodes name) :=
    ⟨World.initial_roles memory, fun marked => absurd marked Bool.false_ne_true⟩
  have preserves : ∀ world action, Roles world ∧ NodeLinked (world.nodes name) →
      Separate name action →
      Roles (world.step sodium action) ∧ NodeLinked ((world.step sodium action).nodes name) := by
    intro world action invariant apart
    obtain ⟨roles, linked⟩ := invariant
    refine ⟨(step_log sodium roles _).1, step_keeps (fun _ kept => kept) ?_ linked⟩
    intro node events same ran
    subst same
    exact step_nodeLinked (roles _) linked apart ran
  exact StepsMeet.preserves preserves start meets

end World

structure Knows (env : Environment) (peer : PublicKey) : Prop where
  undisturbed : Undisturbed env
  record : ∃ table, env.table = some table ∧ OnlyRecord table peer

theorem Knows.trusted {env : Environment} {peer : PublicKey} (knows : Knows env peer) :
    Trusted env.table peer := by
  obtain ⟨table, rows, only⟩ := knows.record
  rw [rows]
  exact only.trusted

def writtenBy (party : Party) (entry : Entry) : Option Bytes :=
  match entry.event with
  | .written bytes => if entry.party = party then some bytes else none
  | _ => none

theorem latest_writtenBy (history : List Entry) (party : Party) (events : List Event)
    (bytes : Bytes) :
    latest (writtenBy party) (history ++ (events ++ [Event.written bytes]).map (Entry.mk party)) =
      some bytes := by
  rw [List.map_append, ← List.append_assoc]
  exact latest_append_cons (if_pos rfl) (by simp)

theorem latest_query {sodium : Sodium} {name : Nat} {world : World} {previous : Client}
    {publicKey : PublicKey} {secret : SecretKey} {epk : PubExchangeKey}
    {esk : ByteArray kSecretExchangeKeySize} (running : (world.nodes name).crashed = false)
    (asked : (world.nodes name).client =
      previous.sendKeyExchangeRequest (publicKey, .holding secret))
    (derived : exchangeKeys sodium secret = some (epk, esk)) :
    latest (writtenBy (.client name)) (world.step sodium ⟨name, .connected⟩).log =
      some (formed sodium keyExchangeQuery publicKey secret epk) := by
  rw [(World.step_connected running asked derived).2.2]
  exact latest_writtenBy _ _ [_] _

theorem latest_reply {sodium : Sodium} {name : Nat} {world : World} {env : Environment}
    (memory : Memory) {arrivals : List Bytes} {publicKey sender : PublicKey}
    {secret : SecretKey} {epk exchange : PubExchangeKey}
    {esk : ByteArray kSecretExchangeKeySize} {signature : Signature}
    (running : (world.nodes name).crashed = false)
    (serving : (world.nodes name).server = some (publicKey, .holding secret))
    (delivered : arrivals.flatten =
      keyExchangeQuery :: (sender.bytes ++ exchange.bytes ++ signature.bytes))
    (derived : exchangeKeys sodium secret = some (epk, esk))
    (undisturbed : Undisturbed env) (attached : env.attached = true)
    (trusted : Trusted env.table sender)
    (verified : verifySignature sodium signature sender
      (signedPart keyExchangeQuery sender exchange) = true) :
    latest (writtenBy (.handler name (world.nodes name).handlers))
      (world.step sodium ⟨name, .incoming env memory arrivals⟩).log =
        some (formed sodium keyExchangeReply publicKey secret epk) := by
  rw [(World.step_query memory running serving delivered derived undisturbed attached
    trusted verified).2]
  exact latest_writtenBy _ _ (_ :: _ :: emittedKeys _ _ _ _ _) _

/-- The two sides compute the same two texts in opposite roles. -/
theorem commonKeys_crosswise {sodium : Sodium} (laws : ExchangeLaws sodium)
    {clientSk serverSk : SecretKey} {clientEpk serverEpk : PubExchangeKey}
    {clientEsk serverEsk : ByteArray kSecretExchangeKeySize}
    (client : exchangeKeys sodium clientSk = some (clientEpk, clientEsk))
    (server : exchangeKeys sodium serverSk = some (serverEpk, serverEsk)) :
    ∃ first second, commonKeys sodium true serverSk clientEpk = some (first, second) ∧
      commonKeys sodium false clientSk serverEpk = some (second, first) := by
  obtain ⟨receive, send, clientKeys, serverKeys⟩ := laws.crosswise client server
  refine ⟨EncodeBase58 receive.bytes, EncodeBase58 send.bytes, ?_, ?_⟩
  · simp only [commonKeys, server, Option.bind_some, if_true, serverKeys, Option.map_some]
  · simp only [commonKeys, client, Option.bind_some, Bool.false_eq_true, if_false, clientKeys,
      Option.map_some]

/-- The log of an exchange between two nodes that trust each other, with the query
and the reply delivered in any segments. -/
theorem World.exchange_log {sodium : Sodium} (laws : ExchangeLaws sodium) {world : World}
    {client server : Nat} (apart : client ≠ server)
    (clientRuns : (world.nodes client).crashed = false)
    (serverRuns : (world.nodes server).crashed = false) {previous : Client}
    {clientPk serverPk : PublicKey} {clientSk serverSk : SecretKey}
    (asked : (world.nodes client).client =
      previous.sendKeyExchangeRequest (clientPk, .holding clientSk))
    (serving : (world.nodes server).server = some (serverPk, .holding serverSk))
    (clientSigns : SignsFor sodium clientPk clientSk)
    (serverSigns : SignsFor sodium serverPk serverSk)
    (role : (world.nodes client).client.requestMaster.serverSide = false)
    (linked : NodeLinked (world.nodes client)) {env : Environment} {fresh : Memory}
    {arrivals : List Bytes} {pieces : List (Environment × Bytes)} (undisturbed : Undisturbed env)
    (attached : env.attached = true) (trusted : Trusted env.table clientPk)
    (every : ∀ piece ∈ pieces, Undisturbed piece.1 ∧ Trusted piece.1.table serverPk)
    (queryDelivered : latest (writtenBy (.client client))
      (world.step sodium ⟨client, .connected⟩).log = some arrivals.flatten)
    (replyDelivered : latest (writtenBy (.handler server (world.nodes server).handlers))
      ((world.step sodium ⟨client, .connected⟩).step sodium
        ⟨server, .incoming env fresh arrivals⟩).log = some (pieces.map Prod.snd).flatten) :
    ∃ first second,
      (∃ clientEpk clientEsk serverEpk serverEsk,
        exchangeKeys sodium clientSk = some (clientEpk, clientEsk) ∧
        exchangeKeys sodium serverSk = some (serverEpk, serverEsk) ∧
        commonKeys sodium true serverSk clientEpk = some (first, second) ∧
        commonKeys sodium false clientSk serverEpk = some (second, first)) ∧
      ∃ reply, (((world.step sodium ⟨client, .connected⟩).step sodium
        ⟨server, .incoming env fresh arrivals⟩).nodes client).client.unread
          (pieces.map Prod.snd).flatten = keyExchangeReply :: reply ∧
      ∃ query table clientSigned serverSigned, (((world.step sodium ⟨client, .connected⟩).step sodium
          ⟨server, .incoming env fresh arrivals⟩).run sodium (pieces.map (deliver client))).log =
        world.log ++
          [.signed clientPk clientSigned, .written (keyExchangeQuery :: query)].map
            (Entry.mk (.client client)) ++
          [.validating keyExchangeQuery query env.table,
            .signed serverPk serverSigned,
            .emitted (serverPk, .holding serverSk) first second,
            .written (keyExchangeReply :: reply)].map
              (Entry.mk (.handler server (world.nodes server).handlers)) ++
          [.validating keyExchangeReply reply table,
            .emitted (clientPk, .holding clientSk) second first].map
              (Entry.mk (.client client)) := by
  obtain ⟨clientEpk, clientEsk, clientDerived⟩ := laws.derives clientSk
  obtain ⟨serverEpk, serverEsk, serverDerived⟩ := laws.derives serverSk
  obtain ⟨first, second, serverCommon, clientCommon⟩ :=
    commonKeys_crosswise laws clientDerived serverDerived
  rw [asked] at role
  rw [NodeLinked, asked] at linked
  -- the client connects and sends its query
  obtain ⟨clientNode, others, sent⟩ := step_connected clientRuns asked clientDerived
  have query : arrivals.flatten = formed sodium keyExchangeQuery clientPk clientSk clientEpk :=
    Option.some.inj (queryDelivered.symm.trans (latest_query clientRuns asked clientDerived))
  rw [formed_cons] at query sent
  generalize world.step sodium ⟨client, .connected⟩ = connected at *
  -- the server answers it
  have serverNode : connected.nodes server = world.nodes server := others server (Ne.symm apart)
  rw [← serverNode] at serving serverRuns replyDelivered ⊢
  obtain ⟨others', answered⟩ := step_query fresh serverRuns serving query serverDerived undisturbed
    attached trusted (clientSigns _)
  have reply : (pieces.map Prod.snd).flatten =
      formed sodium keyExchangeReply serverPk serverSk serverEpk :=
    Option.some.inj (replyDelivered.symm.trans (latest_reply fresh serverRuns serving query
      serverDerived undisturbed attached trusted (clientSigns _)))
  rw [emittedKeys_of_commonKeys serverCommon, formed_cons] at answered
  rw [formed_cons] at reply
  generalize connected.step sodium ⟨server, .incoming env fresh arrivals⟩ = replied at *
  -- the client accepts the reply
  have same : replied.nodes client = { world.nodes client with
      client := (previous.connectedFor (clientPk, .holding clientSk)).awaiting [] } :=
    (others' client apart).trans clientNode
  have runs : (replied.nodes client).crashed = false := by
    rw [same]
    exact clientRuns
  have linked' : Linked .main
      (previous.connectedFor (clientPk, .holding clientSk)).requestMaster.dbConnectionEstablished
      (replied.nodes client).process := by
    rw [same]
    exact linked
  have waiting : (replied.nodes client).client =
      (previous.connectedFor (clientPk, .holding clientSk)).awaiting [] := by
    rw [same]
  have whole : [] ++ (pieces.map Prod.snd).flatten = _ := reply
  obtain ⟨piece, _, received⟩ := run_pieces runs waiting rfl rfl rfl role linked' every
    (serverSigns _) (by decide) whole
  rw [emittedKeys_of_commonKeys clientCommon, answered, sent] at received
  refine ⟨first, second, ⟨clientEpk, clientEsk, serverEpk, serverEsk, clientDerived, serverDerived,
    serverCommon, clientCommon⟩, _, ?_, _, _, _, _, received⟩
  rw [waiting, reply]
  rfl

/-- In separate processes that trust each other, with the query and the reply
delivered in any segments, both sides accept, each emits one pair of keys, and
the pairs agree crosswise. -/
theorem honest_exchange_agrees {sodium : Sodium} (laws : ExchangeLaws sodium)
    {memory : Nat → Memory} {past : List Action} {world : World}
    (history : world = (World.initial memory).run sodium past) {client server : Nat}
    (apart : client ≠ server) (separate : ∀ action ∈ past, World.Separate client action)
    (clientRuns : (world.nodes client).crashed = false)
    (serverRuns : (world.nodes server).crashed = false) {previous : Client}
    {clientPk serverPk : PublicKey} {clientSk serverSk : SecretKey}
    (asked : (world.nodes client).client =
      previous.sendKeyExchangeRequest (clientPk, .holding clientSk))
    (serving : (world.nodes server).server = some (serverPk, .holding serverSk))
    (clientSigns : SignsFor sodium clientPk clientSk)
    (serverSigns : SignsFor sodium serverPk serverSk) {env : Environment} {fresh : Memory}
    {arrivals : List Bytes} {pieces : List (Environment × Bytes)}
    (serverKnows : Knows env clientPk) (attached : env.attached = true)
    (clientKnows : ∀ piece ∈ pieces, Knows piece.1 serverPk)
    (queryDelivered : latest (writtenBy (.client client))
      (world.run sodium [⟨client, .connected⟩]).log = some arrivals.flatten)
    (replyDelivered : latest (writtenBy (.handler server (world.nodes server).handlers))
      (world.run sodium [⟨client, .connected⟩, ⟨server, .incoming env fresh arrivals⟩]).log =
        some (pieces.map Prod.snd).flatten) :
    ∃ query reply table clientSigned serverSigned first second,
      (world.run sodium (⟨client, .connected⟩ :: ⟨server, .incoming env fresh arrivals⟩ ::
        pieces.map (deliver client))).log = world.log ++
          [⟨.client client, .signed clientPk clientSigned⟩,
            ⟨.client client, .written (keyExchangeQuery :: query)⟩] ++
          [.validating keyExchangeQuery query env.table,
            .signed serverPk serverSigned,
            .emitted (serverPk, .holding serverSk) first second,
            .written (keyExchangeReply :: reply)].map
              (Entry.mk (.handler server (world.nodes server).handlers)) ++
          [⟨.client client, .validating keyExchangeReply reply table⟩,
            ⟨.client client, .emitted (clientPk, .holding clientSk) second first⟩] := by
  have invariant := World.run_nodeLinked sodium memory separate
  rw [← history] at invariant
  obtain ⟨roles, linked⟩ := invariant
  have every : ∀ piece ∈ pieces, Undisturbed piece.1 ∧ Trusted piece.1.table serverPk :=
    fun piece member => ⟨(clientKnows piece member).undisturbed, (clientKnows piece member).trusted⟩
  obtain ⟨first, second, _, reply, _, query, table, clientSigned, serverSigned, log⟩ :=
    World.exchange_log laws apart clientRuns serverRuns asked serving clientSigns serverSigns
      (roles client) linked serverKnows.undisturbed attached serverKnows.trusted every
      queryDelivered replyDelivered
  exact ⟨query, reply, table, clientSigned, serverSigned, first, second, log⟩

theorem trusting_knows (key : PublicKey) : Knows (trusting [key]) key := by
  refine ⟨trusting_undisturbed _, _, rfl, ⟨_, List.mem_singleton.mpr rfl,
    DecodeBase58_EncodeBase58 _⟩, ?_⟩
  intro record member _
  rw [List.mem_singleton.mp member]
  exact ⟨rfl, rfl⟩

def twoNodes : List Action :=
  uses 0 (asksForExchange (Sodium.pairOf clientSecret)
    (trustedRecord (Sodium.publicOf serverSecret))) ++
    uses 1 (offersExchange (Sodium.pairOf serverSecret))

theorem twoNodes_separate : ∀ action ∈ twoNodes, World.Separate 0 action := by
  intro action member _
  rcases List.mem_append.mp member with used | used
  all_goals
    obtain ⟨event, _, rfl⟩ := List.mem_map.mp used
    trivial

theorem honest_exchange_agrees_twoNodes :
    ∃ query reply table clientSigned serverSigned first second,
      (((World.initial fun _ => someMemory).run Sodium.transparent twoNodes).run Sodium.transparent
        (⟨0, .connected⟩ ::
          ⟨1, .incoming (trusting [Sodium.publicOf clientSecret]) someMemory
            (segments 60 (sentBy clientSecret keyExchangeQuery))⟩ ::
          ((segments 1 (sentBy serverSecret keyExchangeReply)).map
            (Prod.mk (trusting [Sodium.publicOf serverSecret]))).map (deliver 0))).log =
        [⟨.client 0, .requested (EncodeBase58 (Sodium.publicOf serverSecret).bytes)⟩] ++
          [⟨.client 0, .signed (Sodium.publicOf clientSecret) clientSigned⟩,
            ⟨.client 0, .written (keyExchangeQuery :: query)⟩] ++
          [.validating keyExchangeQuery query (some [trustedRecord (Sodium.publicOf clientSecret)]),
            .signed (Sodium.publicOf serverSecret) serverSigned,
            .emitted (Sodium.pairOf serverSecret) first second,
            .written (keyExchangeReply :: reply)].map (Entry.mk (.handler 1 0)) ++
          [⟨.client 0, .validating keyExchangeReply reply table⟩,
            ⟨.client 0, .emitted (Sodium.pairOf clientSecret) second first⟩] := by
  generalize start : (World.initial fun _ => someMemory).run Sodium.transparent twoNodes = world
  have asked : (world.nodes 0).client =
      (Client.new someMemory).sendKeyExchangeRequest (Sodium.pairOf clientSecret) := by
    rw [← start]
    rfl
  have serving : (world.nodes 1).server = some (Sodium.pairOf serverSecret) := by rw [← start]; rfl
  have clientRuns : (world.nodes 0).crashed = false := by rw [← start]; rfl
  have serverRuns : (world.nodes 1).crashed = false := by rw [← start]; rfl
  have first : (world.nodes 1).handlers = 0 := by rw [← start]; rfl
  have log : world.log =
      [⟨.client 0, .requested (EncodeBase58 (Sodium.publicOf serverSecret).bytes)⟩] := by
    rw [← start]
    rfl
  have queryDelivered :
      latest (writtenBy (.client 0)) (world.run Sodium.transparent [⟨0, .connected⟩]).log =
      some (segments 60 (sentBy clientSecret keyExchangeQuery)).flatten := by
    rw [segments_flatten]
    exact latest_query clientRuns asked (exchangeKeys_transparent _)
  obtain ⟨_, others, _⟩ := World.step_connected clientRuns asked
    (exchangeKeys_transparent clientSecret)
  have server : (world.step Sodium.transparent ⟨0, .connected⟩).nodes 1 = world.nodes 1 :=
    others 1 (by decide)
  have query : (segments 60 (sentBy clientSecret keyExchangeQuery)).flatten =
      keyExchangeQuery :: bodyOf clientSecret keyExchangeQuery :=
    (segments_flatten _ _).trans (sentBy_cons _ _)
  have replyDelivered : latest (writtenBy (.handler 1 (world.nodes 1).handlers))
      (world.run Sodium.transparent [⟨0, .connected⟩,
        ⟨1, .incoming (trusting [Sodium.publicOf clientSecret]) someMemory
          (segments 60 (sentBy clientSecret keyExchangeQuery))⟩]).log =
      some (((segments 1 (sentBy serverSecret keyExchangeReply)).map
        (Prod.mk (trusting [Sodium.publicOf serverSecret]))).map Prod.snd).flatten := by
    have written := latest_reply someMemory ((congrArg Node.crashed server).trans serverRuns)
      ((congrArg Node.server server).trans serving) query (exchangeKeys_transparent _)
      (trusting_undisturbed [Sodium.publicOf clientSecret]) rfl (trusting_knows _).trusted
      (transparent_signsFor _ _)
    rw [server] at written
    change _ = some (segments 1 (sentBy serverSecret keyExchangeReply)).flatten
    rw [segments_flatten]
    exact written
  have knows : ∀ piece ∈ (segments 1 (sentBy serverSecret keyExchangeReply)).map
      (Prod.mk (trusting [Sodium.publicOf serverSecret])),
      Knows piece.1 (Sodium.publicOf serverSecret) := by
    intro piece member
    obtain ⟨segment, _, rfl⟩ := List.mem_map.mp member
    exact trusting_knows _
  have agreed := honest_exchange_agrees transparent_exchangeLaws start.symm (by decide)
    twoNodes_separate clientRuns serverRuns asked serving (transparent_signsFor _)
    (transparent_signsFor _) (trusting_knows _) rfl knows queryDelivered replyDelivered
  rw [log, first] at agreed
  exact agreed

end Cscrypto.Gui
