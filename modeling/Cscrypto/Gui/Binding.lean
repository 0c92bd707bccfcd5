import Cscrypto.Gui.Authentication
import Cscrypto.Gui.HonestExchange

namespace Cscrypto.Gui

open Cscrypto.Base58 Cscrypto.Data Cscrypto.KeyExchange

/-! # What a reply is bound to

The signature of a reply covers its type and the server's two public keys, and
nothing of the query.  A reply of an honest server therefore shows that the
server once answered somebody, and the client's keys match those of the server's
key; but a recorded reply is accepted again.
-/

/-- Nobody else signs for an honest key: what verifies under it has been signed
before. -/
def Unforged (sodium : Sodium) (honest : PublicKey → Prop) (before : List Entry)
    (entry : Entry) : Prop :=
  ∀ type table (sender : PublicKey) (exchange : PubExchangeKey) (signature : Signature),
    entry.event = .validating type (sender.bytes ++ exchange.bytes ++ signature.bytes) table →
    verifySignature sodium signature sender (signedPart type sender exchange) = true →
    honest sender →
    ∃ party, ⟨party, .signed sender (signedPart type sender exchange)⟩ ∈ before

def answerEntries (sodium : Sodium) (handler : Party) (publicKey : PublicKey) (secret : SecretKey)
    (epk : PubExchangeKey) (message : Message) (exchange : PubExchangeKey)
    (keys : List Event) : List Entry :=
  (.validating message.type message.request message.table :: (keys ++
    .signed publicKey (signedPart keyExchangeReply publicKey epk) ::
      (emittedKeys sodium true (publicKey, .holding secret) secret exchange ++
        [.written (formed sodium keyExchangeReply publicKey secret epk)]))).map (Entry.mk handler)

/-- A handler with the key pair has accepted a message, signed the reply and
handed out its keys. -/
def Answered (sodium : Sodium) (log : List Entry) (publicKey : PublicKey) (secret : SecretKey)
    (epk : PubExchangeKey) : Prop :=
  ∃ name index message sender exchange keys,
    Accepts sodium message.table message.type message.request sender exchange ∧
    RequestMaster.KeysOf sodium true (publicKey, .holding secret) message.type exchange keys ∧
    answerEntries sodium (.handler name index) publicKey secret epk message exchange keys <:+: log

theorem Answered.append {sodium : Sodium} {log : List Entry} {publicKey : PublicKey}
    {secret : SecretKey} {epk : PubExchangeKey}
    (answered : Answered sodium log publicKey secret epk) (added : List Entry) :
    Answered sodium (log ++ added) publicKey secret epk := by
  obtain ⟨name, index, message, sender, exchange, keys, accepts, keysOf, inside⟩ := answered
  exact ⟨name, index, message, sender, exchange, keys, accepts, keysOf,
    inside.trans (List.prefix_append log added).isInfix⟩

theorem signedPart_injective {type type' : RequestType} {sender sender' : PublicKey}
    {exchange exchange' : PubExchangeKey}
    (same : signedPart type sender exchange = signedPart type' sender' exchange') :
    type = type' ∧ sender = sender' ∧ exchange = exchange' := by
  obtain ⟨types, parts⟩ := List.cons.inj same
  obtain ⟨senders, exchanges⟩ := List.append_inj parts (by rw [sender.size_eq, sender'.size_eq])
  exact ⟨types, ByteArray.ext_bytes senders, ByteArray.ext_bytes exchanges⟩

def RepliesAnswered (sodium : Sodium) (log : List Entry) : Prop :=
  ∀ party publicKey epk,
    ⟨party, .signed publicKey (signedPart keyExchangeReply publicKey epk)⟩ ∈ log →
    ∃ secret esk, exchangeKeys sodium secret = some (epk, esk) ∧
      Answered sodium log publicKey secret epk

theorem not_signed_of_keysOf {sodium : Sodium} {serverSide : Bool} {own : KeyPair}
    {type : RequestType} {exchange : PubExchangeKey} {keys : List Event}
    {publicKey : PublicKey} {message : Bytes}
    (keysOf : RequestMaster.KeysOf sodium serverSide own type exchange keys) :
    .signed publicKey message ∉ keys := by
  intro member
  rcases keysOf with ⟨_, rfl⟩ | ⟨_, secret, _, rfl⟩
  · contradiction
  · obtain ⟨_, _, other, _⟩ := mem_emittedKeys member
    contradiction

theorem Effect.repliesAnswered {sodium : Sodium} {party : Party} {own : KeyPair}
    {events : List Event} (effect : Effect sodium party.serverSide own events)
    {log : List Entry} (answered : RepliesAnswered sodium log) :
    RepliesAnswered sodium (log ++ events.map (Entry.mk party)) := by
  intro other publicKey epk member
  rcases List.mem_append.mp member with earlier | now
  · obtain ⟨secret, esk, derived, answer⟩ := answered other publicKey epk earlier
    exact ⟨secret, esk, derived, answer.append _⟩
  · obtain ⟨event, inside, same⟩ := List.mem_map.mp now
    obtain ⟨rfl, rfl⟩ := Entry.mk.inj same
    cases effect with
    | plain _ all => exact absurd (Option.some.inj (all _ inside)) (by decide)
    | rejected type request table message => simp at inside
    | accepted type request table sender exchange keys answer accepts keysOf answers =>
        have later : Event.signed publicKey (signedPart keyExchangeReply publicKey epk) ∈
            keys ++ answer :=
          (List.mem_cons.mp inside).resolve_left (by simp)
        have inside := (List.mem_append.mp later).resolve_left (not_signed_of_keysOf keysOf)
        rcases answers with ⟨_, rfl⟩ | ⟨server, rfl | ⟨secret, epk', esk, holds, derived, rfl⟩⟩
        · contradiction
        · simp at inside
        rcases List.mem_cons.mp inside with head | tail
        · obtain ⟨rfl, parts⟩ := Event.signed.inj head
          obtain ⟨_, _, rfl⟩ := signedPart_injective parts
          cases party with
          | client name => contradiction
          | handler name index =>
              refine ⟨secret, esk, derived, name, index, ⟨type, request, table⟩, sender,
                exchange, keys, accepts, ?_⟩
              rw [answerEntries, ← holds]
              exact ⟨keysOf, (List.suffix_append _ _).isInfix⟩
        · rcases List.mem_append.mp tail with emitted | written
          · obtain ⟨_, _, other, _⟩ := mem_emittedKeys emitted
            contradiction
          · simp at written

/-- What the keys of a client show, with the reply that they come from: they
are those of the client's key and of the exchange key in the reply.  If its
sender is honest then that server has answered somebody with this reply, and its
key leads to the same pair with the roles exchanged. -/
structure Bound (sodium : Sodium) (honest : PublicKey → Prop) (before : List Entry)
    (message : Message) (own : KeyPair) (send receive : Bytes) : Prop where
  reply : message.type = keyExchangeReply
  shown : ∃ sender exchange clientSk clientEpk clientEsk,
    Accepts sodium message.table message.type message.request sender exchange ∧
    own.2 = .holding clientSk ∧ exchangeKeys sodium clientSk = some (clientEpk, clientEsk) ∧
    commonKeys sodium false clientSk exchange = some (send, receive) ∧
    (honest sender → ∃ serverSk serverEsk,
      exchangeKeys sodium serverSk = some (exchange, serverEsk) ∧
      Answered sodium before sender serverSk exchange ∧
      commonKeys sodium true serverSk clientEpk = some (receive, send))

def ClientBound (sodium : Sodium) (honest : PublicKey → Prop) (before : List Entry)
    (entry : Entry) : Prop :=
  ∀ name own send receive, entry = ⟨.client name, .emitted own send receive⟩ →
    ∃ message, latest (messageOf (.client name)) before = some message ∧
      Bound sodium honest before message own send receive

theorem Effect.clientBound {sodium : Sodium} (laws : ExchangeLaws sodium)
    {honest : PublicKey → Prop} {party : Party} {own : KeyPair} {events : List Event}
    {log : List Entry} (effect : Effect sodium party.serverSide own events)
    (answered : RepliesAnswered sodium log)
    (unforged : Explained (Unforged sodium honest) (log ++ events.map (Entry.mk party))) :
    ∀ before entry after, events.map (Entry.mk party) = before ++ entry :: after →
      ClientBound sodium honest (log ++ before) entry := by
  intro before entry after same name own' send receive last
  subst last
  obtain ⟨front, back, rfl, rfl, tail⟩ := List.map_eq_append_iff.mp same
  obtain ⟨event, rest, rfl, head, _⟩ := List.map_eq_cons_iff.mp tail
  obtain ⟨rfl, rfl⟩ := Entry.mk.inj head
  obtain ⟨request, table, sender, exchange, secret, rfl, rfl, accepts, holds, computed⟩ :=
    effect.client_emitted rfl
  obtain ⟨epk, esk, derived⟩ := exchangeKeys_of_commonKeys (Option.isSome_of_eq_some computed)
  refine ⟨⟨keyExchangeReply, request, table⟩, latest_messageOf _ _ _ _ _, rfl,
    sender, exchange, secret, epk, esk, accepts, holds, derived, computed, ?_⟩
  intro isHonest
  obtain ⟨signature, parts, verified⟩ := accepts.signature
  have checked :
      Unforged sodium honest log ⟨.client name, .validating keyExchangeReply request table⟩ :=
    unforged log _ _ rfl
  obtain ⟨signer, signed⟩ := checked _ _ _ _ _ (by rw [parts]) verified isHonest
  obtain ⟨serverSk, serverEsk, serverDerived, answer⟩ := answered _ _ _ signed
  obtain ⟨first, second, serverCommon, clientCommon⟩ :=
    commonKeys_crosswise laws derived serverDerived
  rw [computed] at clientCommon
  cases clientCommon
  exact ⟨serverSk, serverEsk, serverDerived, answer.append _, serverCommon⟩

/-- The invariant of a run: signed replies are answers, and without forgery the
keys of clients are bound to answers. -/
theorem run_clientBound {sodium : Sodium} (laws : ExchangeLaws sodium) (honest : PublicKey → Prop)
    (memory : Nat → Memory) (actions : List Action)
    (unforged : Explained (Unforged sodium honest)
      ((World.initial memory).run sodium actions).log) :
    Explained (ClientBound sodium honest) ((World.initial memory).run sodium actions).log := by
  have start : World.Roles (World.initial memory) ∧
      RepliesAnswered sodium (World.initial memory).log ∧
      (Explained (Unforged sodium honest) (World.initial memory).log →
        Explained (ClientBound sodium honest) (World.initial memory).log) :=
    ⟨World.initial_roles memory, fun _ _ _ member => absurd member List.not_mem_nil,
      fun _ => explained_nil⟩
  have preserves : ∀ world action, World.Roles world ∧ RepliesAnswered sodium world.log ∧
      (Explained (Unforged sodium honest) world.log →
        Explained (ClientBound sodium honest) world.log) →
      World.Roles (world.step sodium action) ∧
      RepliesAnswered sodium (world.step sodium action).log ∧
      (Explained (Unforged sodium honest) (world.step sodium action).log →
        Explained (ClientBound sodium honest) (world.step sodium action).log) := by
    intro world action invariant
    obtain ⟨roles, answered, bound⟩ := invariant
    obtain ⟨roles', party, own, events, log, effect⟩ := World.step_log sodium roles action
    rw [log]
    refine ⟨roles', effect.repliesAnswered answered, ?_⟩
    intro unforged
    exact (bound unforged.of_append).append (effect.clientBound laws answered unforged)
  exact (foldl_preserves preserves actions start).2.2 unforged

/-- A client emits keys with an honest server only from a reply with which that
server has answered somebody. -/
theorem client_keys_bound {sodium : Sodium} (laws : ExchangeLaws sodium) {honest : PublicKey → Prop}
    {memory : Nat → Memory} {actions : List Action}
    (unforged : Explained (Unforged sodium honest) ((World.initial memory).run sodium actions).log)
    {before after : List Entry} {name : Nat} {own : KeyPair} {send receive : Bytes}
    (emitted : ((World.initial memory).run sodium actions).log =
      before ++ ⟨.client name, .emitted own send receive⟩ :: after) :
    ∃ message, latest (messageOf (.client name)) before = some message ∧
      Bound sodium honest before message own send receive :=
  run_clientBound laws honest memory actions unforged before _ after emitted name own send receive
    rfl

/-- Every pair that a client emits with an honest server was formed by that
server for the query that the client wrote last. -/
def BindsQueries (sodium : Sodium) (honest : PublicKey → Prop) (log : List Entry) : Prop :=
  ∀ before after name own send receive message sender exchange,
    log = before ++ ⟨.client name, .emitted own send receive⟩ :: after →
    latest (messageOf (.client name)) before = some message →
    Accepts sodium message.table message.type message.request sender exchange → honest sender →
    ∃ server index query table own',
      latest (writtenBy (.client name)) before = some (keyExchangeQuery :: query) ∧
      ⟨.handler server index, .validating keyExchangeQuery query table⟩ ∈ before ∧
      own'.1 = sender ∧ ⟨.handler server index, .emitted own' receive send⟩ ∈ before

def threeNodes : List Action :=
  uses 0 (asksForExchange (Sodium.pairOf clientSecret)
    (trustedRecord (Sodium.publicOf serverSecret))) ++
    uses 1 (offersExchange (Sodium.pairOf serverSecret)) ++
    uses 2 (asksForExchange (Sodium.pairOf otherSecret)
      (trustedRecord (Sodium.publicOf serverSecret)))

def replay : List Action :=
  [⟨2, .connected⟩, ⟨1, .incoming (trusting [Sodium.publicOf otherSecret]) someMemory
      [sentBy otherSecret keyExchangeQuery]⟩, ⟨0, .connected⟩] ++
    [(trusting [Sodium.publicOf serverSecret], sentBy serverSecret keyExchangeReply)].map
      (deliver 0)

theorem replay_log : ∃ first second send receive,
    commonKeys Sodium.transparent false clientSecret (exchangeOf serverSecret) =
      some (send, receive) ∧
    ((World.initial fun _ => someMemory).run Sodium.transparent (threeNodes ++ replay)).log =
      [⟨.client 0, .requested (EncodeBase58 (Sodium.publicOf serverSecret).bytes)⟩,
        ⟨.client 2, .requested (EncodeBase58 (Sodium.publicOf serverSecret).bytes)⟩,
        ⟨.client 2, .signed (Sodium.publicOf otherSecret)
          (signedPart keyExchangeQuery (Sodium.publicOf otherSecret) (exchangeOf otherSecret))⟩,
        ⟨.client 2, .written (sentBy otherSecret keyExchangeQuery)⟩,
        ⟨.handler 1 0, .validating keyExchangeQuery (bodyOf otherSecret keyExchangeQuery)
          (trusting [Sodium.publicOf otherSecret]).table⟩,
        ⟨.handler 1 0, .signed (Sodium.publicOf serverSecret)
          (signedPart keyExchangeReply (Sodium.publicOf serverSecret) (exchangeOf serverSecret))⟩,
        ⟨.handler 1 0, .emitted (Sodium.pairOf serverSecret) first second⟩,
        ⟨.handler 1 0, .written (sentBy serverSecret keyExchangeReply)⟩,
        ⟨.client 0, .signed (Sodium.publicOf clientSecret)
          (signedPart keyExchangeQuery (Sodium.publicOf clientSecret) (exchangeOf clientSecret))⟩,
        ⟨.client 0, .written (sentBy clientSecret keyExchangeQuery)⟩,
        ⟨.client 0, .validating keyExchangeReply (bodyOf serverSecret keyExchangeReply)
          (trusting [Sodium.publicOf serverSecret]).table⟩,
        ⟨.client 0, .emitted (Sodium.pairOf clientSecret) send receive⟩] := by
  obtain ⟨first, second, serverCommon⟩ : ∃ first second,
      commonKeys Sodium.transparent true serverSecret (exchangeOf otherSecret) =
        some (first, second) := ⟨_, _, rfl⟩
  obtain ⟨send, receive, clientCommon⟩ : ∃ send receive,
      commonKeys Sodium.transparent false clientSecret (exchangeOf serverSecret) =
        some (send, receive) := ⟨_, _, rfl⟩
  refine ⟨first, second, send, receive, clientCommon, ?_⟩
  generalize start : (World.initial fun _ => someMemory).run Sodium.transparent threeNodes = world
  have log : world.log =
      [⟨.client 0, .requested (EncodeBase58 (Sodium.publicOf serverSecret).bytes)⟩,
        ⟨.client 2, .requested (EncodeBase58 (Sodium.publicOf serverSecret).bytes)⟩] := by
    rw [← start]
    rfl
  have zero : (world.nodes 0).client =
      (Client.new someMemory).sendKeyExchangeRequest (Sodium.pairOf clientSecret) ∧
      (world.nodes 0).crashed = false := by
    rw [← start]
    exact ⟨rfl, rfl⟩
  have one : (world.nodes 1).server = some (Sodium.pairOf serverSecret) ∧
      (world.nodes 1).handlers = 0 ∧ (world.nodes 1).crashed = false := by
    rw [← start]
    exact ⟨rfl, rfl, rfl⟩
  have two : (world.nodes 2).client =
      (Client.new someMemory).sendKeyExchangeRequest (Sodium.pairOf otherSecret) ∧
      (world.nodes 2).crashed = false := by
    rw [← start]
    exact ⟨rfl, rfl⟩
  -- node 2 sends its query
  obtain ⟨_, others₁, log₁⟩ := World.step_connected two.2 two.1 (exchangeKeys_transparent _)
  generalize sent : world.step Sodium.transparent ⟨2, .connected⟩ = world₁ at others₁ log₁
  rw [← others₁ 0 (by decide)] at zero
  rw [← others₁ 1 (by decide)] at one
  -- node 1 answers it
  have query : [sentBy otherSecret keyExchangeQuery].flatten =
      keyExchangeQuery :: bodyOf otherSecret keyExchangeQuery :=
    List.flatten_singleton.trans (sentBy_cons _ _)
  obtain ⟨others₂, log₂⟩ := World.step_query someMemory one.2.2 one.1 query
    (exchangeKeys_transparent _) (trusting_undisturbed [Sodium.publicOf otherSecret]) rfl
    (trusting_trusted List.mem_cons_self) (transparent_signsFor _ _)
  generalize answered : world₁.step Sodium.transparent
    ⟨1, .incoming (trusting [Sodium.publicOf otherSecret]) someMemory
      [sentBy otherSecret keyExchangeQuery]⟩ = world₂ at others₂ log₂
  rw [← others₂ 0 (by decide)] at zero
  -- node 0 connects and receives the reply to node 2
  obtain ⟨node, _, log₃⟩ := World.step_connected zero.2 zero.1 (exchangeKeys_transparent _)
  generalize connected : world₂.step Sodium.transparent ⟨0, .connected⟩ = world₃ at node log₃
  have reply : [] ++ ([(trusting [Sodium.publicOf serverSecret],
      sentBy serverSecret keyExchangeReply)].map Prod.snd).flatten =
      keyExchangeReply :: bodyOf serverSecret keyExchangeReply :=
    List.flatten_singleton.trans (sentBy_cons _ _)
  have running : (world₃.nodes 0).crashed = false := by rw [node]; exact zero.2
  obtain ⟨piece, member, log₄⟩ := World.run_pieces running (congrArg Node.client node) rfl rfl
    rfl rfl (fun marked => absurd marked Bool.false_ne_true)
    (fun piece member => by
      rw [List.mem_singleton.mp member]
      exact ⟨trusting_undisturbed _, trusting_trusted List.mem_cons_self⟩)
    (transparent_signsFor _ _) (by decide) reply
  rw [List.mem_singleton.mp member, emittedKeys_of_commonKeys clientCommon, log₃, log₂, one.2.1,
    log₁, log, emittedKeys_of_commonKeys serverCommon] at log₄
  have steps : world.run Sodium.transparent replay = world₃.run Sodium.transparent
      ([(trusting [Sodium.publicOf serverSecret], sentBy serverSecret keyExchangeReply)].map
        (deliver 0)) := by
    rw [← connected, ← answered, ← sent]
    rfl
  rw [World.run_append, start, steps, log₄]
  rfl

theorem unforged_of_messageOf {sodium : Sodium} {honest : PublicKey → Prop} {before : List Entry}
    {entry : Entry} (silent : messageOf entry.party entry = none) :
    Unforged sodium honest before entry := by
  intro type table sender exchange signature event
  simp [messageOf, event] at silent

theorem unforged_body {honest : PublicKey → Prop} {before : List Entry} {party : Party}
    (signer : Party) {secret : SecretKey} {type : RequestType} {table : Option Table}
    (signed : ⟨signer, .signed (Sodium.publicOf secret)
      (signedPart type (Sodium.publicOf secret) (exchangeOf secret))⟩ ∈ before) :
    Unforged Sodium.transparent honest before
      ⟨party, .validating type (bodyOf secret type) table⟩ := by
  intro type' table' sender exchange signature same _ _
  obtain ⟨rfl, body, _⟩ := Event.validating.inj same
  obtain ⟨rfl, rfl⟩ := request_injective body
  exact ⟨signer, signed⟩

theorem replay_unforged : Explained (Unforged Sodium.transparent fun _ => True)
    ((World.initial fun _ => someMemory).run Sodium.transparent (threeNodes ++ replay)).log := by
  obtain ⟨first, second, send, receive, _, log⟩ := replay_log
  rw [log]
  -- one entry after the other; two of them hand a message to `validate`
  refine ExplainedFrom.explained explained_nil ⟨unforged_of_messageOf rfl,
    unforged_of_messageOf rfl, unforged_of_messageOf rfl, unforged_of_messageOf rfl,
    unforged_body (.client 2) (by simp), unforged_of_messageOf rfl, unforged_of_messageOf rfl,
    unforged_of_messageOf rfl, unforged_of_messageOf rfl, unforged_of_messageOf rfl,
    unforged_body (.handler 1 0) (by simp), unforged_of_messageOf rfl, trivial⟩

theorem client_keys_bound_replay : ∃ before send receive after message,
    ((World.initial fun _ => someMemory).run Sodium.transparent (threeNodes ++ replay)).log =
      before ++ ⟨.client 0, .emitted (Sodium.pairOf clientSecret) send receive⟩ :: after ∧
    latest (messageOf (.client 0)) before = some message ∧
    Bound Sodium.transparent (fun _ => True) before message (Sodium.pairOf clientSecret)
      send receive := by
  obtain ⟨first, second, send, receive, _, log⟩ := replay_log
  have emitted : _ = [_, _, _, _, _, _, _, _, _, _, _] ++
      (⟨.client 0, .emitted (Sodium.pairOf clientSecret) send receive⟩ : Entry) :: [] := log
  obtain ⟨message, checked, bound⟩ :=
    client_keys_bound transparent_exchangeLaws replay_unforged emitted
  exact ⟨_, send, receive, [], message, emitted, checked, bound⟩

theorem recorded_reply_accepted :
    Explained (Unforged Sodium.transparent fun _ => True)
      ((World.initial fun _ => someMemory).run Sodium.transparent (threeNodes ++ replay)).log ∧
    ¬BindsQueries Sodium.transparent (fun _ => True)
      ((World.initial fun _ => someMemory).run Sodium.transparent (threeNodes ++ replay)).log := by
  refine ⟨replay_unforged, ?_⟩
  obtain ⟨first, second, send, receive, _, log⟩ := replay_log
  intro binds
  have emitted : _ = [_, _, _, _, _, _, _, _, _, _, _] ++
      (⟨.client 0, .emitted (Sodium.pairOf clientSecret) send receive⟩ : Entry) :: [] := log
  obtain ⟨server, index, query, table, _, written, checked, _⟩ := binds _ _ _ _ _ _
    ⟨keyExchangeReply, bodyOf serverSecret keyExchangeReply,
      (trusting [Sodium.publicOf serverSecret]).table⟩
    (Sodium.publicOf serverSecret) (exchangeOf serverSecret) emitted rfl
    (bodyOf_accepts List.mem_cons_self) trivial
  have own : some (sentBy clientSecret keyExchangeQuery) =
      some (keyExchangeQuery :: query) := written
  rw [sentBy_cons] at own
  obtain ⟨_, rfl⟩ := List.cons.inj (Option.some.inj own)
  have other : (server = 1 ∧ index = 0) ∧ bodyOf clientSecret keyExchangeQuery =
      bodyOf otherSecret keyExchangeQuery ∧
      table = (trusting [Sodium.publicOf otherSecret]).table := by simpa using checked
  exact absurd (request_injective other.2.1).1 (by decide)

end Cscrypto.Gui
