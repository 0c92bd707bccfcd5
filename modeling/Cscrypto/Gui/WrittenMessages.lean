import Cscrypto.Gui.ListedKeys
import Cscrypto.Gui.SessionFiles

namespace Cscrypto.Gui

open Cscrypto.Base58 Cscrypto.Cipher Cscrypto.Data Cscrypto.KeyExchange Cscrypto.KeysDerivation

/-! # What the key exchange sends

Whatever the network delivers, a process writes queries as a client and replies
as a server, with a pair of its own list, and every message that is not empty is
one that all who trust this key accept.
-/

/-- The message of a party with the given keys, from its first byte to its
signature. -/
def Forms (sodium : Sodium) (serverSide : Bool) (own : KeyPair) (bytes : Bytes) : Prop :=
  ∃ secret epk esk, own.2 = .holding secret ∧ exchangeKeys sodium secret = some (epk, esk) ∧
    bytes = formed sodium (if serverSide then keyExchangeReply else keyExchangeQuery) own.1 secret
      epk

theorem not_written_of_emittedKeys {sodium : Sodium} {serverSide : Bool} {own : KeyPair}
    {secret : SecretKey} {peer : PubExchangeKey} (bytes : Bytes) :
    .written bytes ∉ emittedKeys sodium serverSide own secret peer := by
  intro member
  obtain ⟨_, _, other, _⟩ := mem_emittedKeys member
  contradiction

theorem not_written_of_keysOf {sodium : Sodium} {serverSide : Bool} {own : KeyPair}
    {type : RequestType} {exchange : PubExchangeKey} {keys : List Event}
    (keysOf : RequestMaster.KeysOf sodium serverSide own type exchange keys) (bytes : Bytes) :
    .written bytes ∉ keys := by
  rcases keysOf with ⟨_, rfl⟩ | ⟨_, secret, _, rfl⟩
  · exact List.not_mem_nil
  · exact not_written_of_emittedKeys bytes

namespace Client

variable {sodium : Sodium} {client : Client}

theorem onConnected_written {result : Client × List Event}
    (ran : client.onConnected sodium = .ok result) {bytes : Bytes}
    (member : .written bytes ∈ result.2) :
    bytes = [] ∨ Forms sodium false client.requestMaster.ownKeys bytes := by
  obtain ⟨⟨request, events⟩, formed, ran⟩ := bind_eq_ok.mp ran
  cases ran
  rcases RequestMaster.form_ok rfl formed with
    ⟨rfl, rfl⟩ | ⟨secret, epk, esk, keys, own, derived, keysFormed, rfl, rfl⟩
  · simp only [List.nil_append, List.mem_singleton, Event.written.injEq] at member
    exact .inl member
  · cases keysFormed
    simp only [List.mem_append, List.mem_singleton, reduceCtorEq, false_or, Event.written.injEq]
      at member
    exact .inr ⟨secret, epk, esk, own, derived, member⟩

/-- A client sends nothing when it receives. -/
theorem receive_written {env : Environment} {process : Process} {arrived : Bytes}
    {result : Client × Process × List Event}
    (ran : client.receive sodium env process arrived = .ok result) (bytes : Bytes) :
    .written bytes ∉ result.2.2 := by
  intro member
  cases receive_reads ran with
  | none _ _ events => exact absurd (events _ member) (by simp [invalidData])
  | message type request rest validation _ known validated _ _ events =>
      have called : .written bytes ∈ validation.events := by
        rw [events] at member
        split at member
        · exact member
        · exact (List.mem_append.mp member).resolve_right (by simp [invalidData])
      obtain ⟨_, _, _, outcome⟩ := RequestMaster.validate_ok known validated
      rcases outcome with ⟨_, refused⟩ | ⟨_, _, _, _, keys, formed, accepted⟩
      · simp [refused] at called
      · rw [accepted, List.mem_cons] at called
        exact not_written_of_keysOf (RequestMaster.keysOnReply_ok formed) bytes
          (called.resolve_left (by simp))

theorem socketErrorHandler_written (client : Client) (errorType : SocketError) (bytes : Bytes) :
    .written bytes ∉ (client.socketErrorHandler errorType).2 := by
  cases errorType <;> simp [socketErrorHandler]

end Client

theorem IncomingConnectionHandler.run_written {sodium : Sodium} {env : Environment}
    {ownKeys : KeyPair} {memory : Memory} {process : Process} {arrivals : List Bytes}
    {outcome : Outcome} (ran : run sodium env ownKeys memory process arrivals = .ok outcome)
    {bytes : Bytes} (member : .written bytes ∈ outcome.events) :
    bytes = [] ∨ Forms sodium true ownKeys bytes := by
  have serves := run_serves ran
  generalize outcome.events = events at member serves
  cases serves with
  | failed message => simp at member
  | rejected type request message => simp at member
  | answered type request sender exchange keys answer valid keysOf answers =>
      have later := (List.mem_cons.mp member).resolve_left (by simp)
      have inside := (List.mem_append.mp later).resolve_left (not_written_of_keysOf keysOf bytes)
      rcases answers with rfl | ⟨secret, epk, esk, own, derived, rfl⟩
      · simp only [List.mem_singleton, Event.written.injEq] at inside
        exact .inl inside
      · have last := (List.mem_cons.mp inside).resolve_left (by simp)
        have written := (List.mem_append.mp last).resolve_left (not_written_of_emittedKeys bytes)
        simp only [List.mem_singleton, Event.written.injEq] at written
        exact .inr ⟨secret, epk, esk, own, derived, written⟩

theorem Node.onWidget_written (node : Node) (event : WidgetEvent) (bytes : Bytes) :
    .written bytes ∉ (node.onWidget event).2 := by
  unfold onWidget
  rcases node.widget.step event with ⟨widget, _ | ⟨hostName, ownKeys⟩ | serverKeys⟩
  · simp
  · cases chosen : widget.selected <;> simp [call, chosen]
  · simp [call]

theorem Node.step_written {sodium : Sodium} {node next : Node} {act : NodeAction}
    {events : List Event} (listed : node.UsesListed) (ran : node.step sodium act = .ok (next, events))
    {name : Nat} {bytes : Bytes} (member : .written bytes ∈ events) :
    bytes = [] ∨ ∃ own ∈ next.widget.keys,
      Forms sodium (node.party name act).serverSide own bytes := by
  cases step_steps ran with
  | ignored _ _ => contradiction
  | widget event => exact absurd member (node.onWidget_written event bytes)
  | connected client events _ formed =>
      refine (Client.onConnected_written formed member).imp_right fun forms => ⟨_, ?_, forms⟩
      refine listed.client.resolve_left fun none => ?_
      obtain ⟨secret, _, _, holds, _⟩ := forms
      rw [none.1, KeyListModel.missing, PrivateKey.holding] at holds
      cases holds
  | receive env arrived client process events _ received =>
      exact absurd member (Client.receive_written received bytes)
  | socketError errorType =>
      exact absurd member (node.client.socketErrorHandler_written errorType bytes)
  | incoming env memory arrivals ownKeys outcome serving served =>
      refine (IncomingConnectionHandler.run_written served member).imp_right fun forms =>
        ⟨ownKeys, ?_, forms⟩
      rw [notify_keys]
      exact listed.server _ serving

namespace World

variable {sodium : Sodium}

/-- Every message in the log is empty or one of its party with a pair of the
list. -/
def Written (sodium : Sodium) (world : World) : Prop :=
  ∀ entry ∈ world.log, ∀ bytes, entry.event = .written bytes →
    bytes = [] ∨ ∃ own ∈ (world.nodes entry.party.node).widget.keys,
      Forms sodium entry.party.serverSide own bytes

theorem Written.step {world : World} (listed : world.UsesListed) (written : Written sodium world)
    (action : Action) : Written sodium (world.step sodium action) := by
  have before : ∀ entry ∈ world.log, ∀ bytes, entry.event = .written bytes →
      bytes = [] ∨ ∃ own ∈ ((world.step sodium action).nodes entry.party.node).widget.keys,
        Forms sodium entry.party.serverSide own bytes := by
    intro entry member bytes sent
    rcases written entry member bytes sent with empty | ⟨own, inside, forms⟩
    · exact .inl empty
    · exact .inr ⟨own, step_keys_mem world action _ inside, forms⟩
  cases crashed : (world.nodes action.node).crashed with
  | true =>
      have same : world.step sodium action = world := by
        simp only [World.step, crashed, if_true]
      rwa [same]
  | false =>
      rcases ran : (world.nodes action.node).step sodium action.act with fault | ⟨node, events⟩
      · intro entry member
        rw [(step_crash crashed ran).2.2] at member
        exact before entry member
      · obtain ⟨self, _, log⟩ := step_ok crashed ran
        intro entry member bytes sent
        rw [log] at member
        rcases List.mem_append.mp member with old | new
        · exact before entry old bytes sent
        · obtain ⟨event, inside, rfl⟩ := List.mem_map.mp new
          dsimp only at sent
          subst sent
          rcases Node.step_written (listed.nodes action.node) ran inside with
            empty | ⟨own, listed, forms⟩
          · exact .inl empty
          · refine .inr ⟨own, ?_, forms⟩
            dsimp only
            rw [Node.party_node, self]
            exact listed

theorem run_written (sodium : Sodium) (memory : Nat → Memory) (actions : List Action) :
    Written sodium ((initial memory).run sodium actions) := by
  have preserves : ∀ world action, world.UsesListed ∧ Written sodium world →
      (world.step sodium action).UsesListed ∧ Written sodium (world.step sodium action) := by
    intro world action invariant
    obtain ⟨listed, written⟩ := invariant
    exact ⟨listed.step action, written.step listed action⟩
  exact (foldl_preserves preserves actions ⟨initial_usesListed memory, by simp [Written, initial]⟩).2

end World

/-- Such a message is accepted wherever the key is trusted. -/
theorem Forms.accepts {sodium : Sodium} {serverSide : Bool} {own : KeyPair} {bytes : Bytes}
    (forms : Forms sodium serverSide own bytes) :
    ∃ secret epk esk body, own.2 = .holding secret ∧
      exchangeKeys sodium secret = some (epk, esk) ∧
      bytes = (if serverSide then keyExchangeReply else keyExchangeQuery) :: body ∧
      body.length = 128 ∧
      (SignsFor sodium own.1 secret → ∀ table, Trusted table own.1 →
        Accepts sodium table (if serverSide then keyExchangeReply else keyExchangeQuery) body own.1
          epk) := by
  obtain ⟨secret, epk, esk, holds, derived, rfl⟩ := forms
  refine ⟨secret, epk, esk, _, holds, derived, formed_cons _ _ _ _ _, message_length _ _ _, ?_⟩
  intro signs table trusted
  exact ⟨message_length _ _ _, trusted, _, rfl, signs _⟩

/-- In any run of any number of processes, whatever is delivered to them: a
process writes only queries as a client and replies as a server, each with the
exchange key of a pair of its list, and all who trust this pair accept them. -/
theorem written_messages_accepted {lib : MainLib} (carries : Carries lib.sign)
    (memory : Nat → Memory) (disks : Nat → Disk) (records : Nat → Option Table)
    (happenings : List Happening) {system : System}
    (reached : system = (System.initial memory disks records).run lib happenings) :
    ∀ entry ∈ system.network.log, ∀ bytes, entry.event = .written bytes →
      bytes = [] ∨ ∃ secret epk esk body,
        (lib.sign.skToPk secret, .holding secret) ∈
          (system.windows entry.party.node).keyFiles.widget.keys ∧
        exchangeKeys lib.sodium secret = some (epk, esk) ∧
        bytes = (if entry.party.serverSide then keyExchangeReply else keyExchangeQuery) :: body ∧
        body.length = 128 ∧
        (SignsFor lib.sodium (lib.sign.skToPk secret) secret → ∀ table,
          Trusted table (lib.sign.skToPk secret) →
          Accepts lib.sodium table
            (if entry.party.serverSide then keyExchangeReply else keyExchangeQuery) body
            (lib.sign.skToPk secret) epk) := by
  have composed := System.run_composed carries memory disks records happenings
  rw [← reached] at composed
  obtain ⟨actions, network⟩ := composed.network
  have written := World.run_written lib.sodium memory actions
  rw [← network] at written
  intro entry member bytes sent
  refine (written entry member bytes sent).imp_right fun ⟨own, listed, forms⟩ => ?_
  rw [(composed.windows entry.party.node).exchangeKeys] at listed
  obtain ⟨secret', rfl⟩ := (composed.windows entry.party.node).held own listed
  obtain ⟨secret, epk, esk, body, holds, derived, accepted⟩ := forms.accepts
  cases holds
  exact ⟨secret', epk, esk, body, listed, derived, accepted⟩

theorem mem_of_writtenBy {log : List Entry} {party : Party} {bytes : Bytes}
    (last : latest (writtenBy party) log = some bytes) : ⟨party, .written bytes⟩ ∈ log := by
  obtain ⟨⟨other, event⟩, member, selected⟩ := mem_of_latest last
  cases event with
  | written bytes' =>
      simp only [writtenBy, Option.ite_none_right_eq_some, Option.some.injEq] at selected
      obtain ⟨rfl, rfl⟩ := selected
      exact member
  | _ => contradiction

theorem written_messages_accepted_query : ∃ secret epk body,
    ⟨.client 1, .written (keyExchangeQuery :: body)⟩ ∈
      (freshSystem.run .transparent connects).network.log ∧
    Accepts Sodium.transparent (trusting [Sodium.publicOf secret]).table keyExchangeQuery body
      (Sodium.publicOf secret) epk := by
  have sent : writtenAfter connects (.client 1) ≠ [] := by decide +kernel
  rcases last : latest (writtenBy (.client 1)) (freshSystem.run .transparent connects).network.log
    with _ | bytes
  · exact absurd (by rw [writtenAfter, last]; rfl) sent
  · rw [writtenAfter, last, Option.getD_some] at sent
    have member := mem_of_writtenBy last
    obtain ⟨secret, epk, _, body, _, _, whole, _, accepts⟩ :=
      (@written_messages_accepted .transparent carries_transparent (fun _ => someMemory)
        (fun _ => .single "source" [1, 2, 3]) (fun _ => some []) connects
        (freshSystem.run .transparent connects) rfl _ member bytes rfl).resolve_left sent
    have query : bytes = keyExchangeQuery :: body := whole
    rw [query] at member
    exact ⟨secret, epk, body, member, accepts (transparent_signsFor secret) _
      (trusting_trusted List.mem_cons_self)⟩

end Cscrypto.Gui
