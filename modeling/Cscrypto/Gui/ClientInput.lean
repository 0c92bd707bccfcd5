import Cscrypto.Gui.Delivery

namespace Cscrypto.Gui

open Cscrypto.Data

/-! # Everything a server can send

A connection of the client is a run over the arrivals of bytes.  The first byte
of the stream is the type of all its messages, and a type without a size is
noticed only when it is `Unknown`.
-/

/-- The types after which the client knows what to do. -/
def Expected (type : RequestType) : Prop :=
  type = keyExchangeQuery ∨ type = keyExchangeReply ∨ type = unknown

instance (type : RequestType) : Decidable (Expected type) :=
  inferInstanceAs (Decidable (type = keyExchangeQuery ∨ type = keyExchangeReply ∨ type = unknown))

theorem requestSize_of_not_expected {type : RequestType} (other : ¬Expected type) :
    requestSize type = -1 := by
  refine if_pos ⟨?_, ?_⟩
  · exact fun query => other (.inl query)
  · exact fun reply => other (.inr (.inl reply))

theorem Expected.size {type : RequestType} (expected : Expected type)
    (different : type ≠ unknown) : requestSize type = 128 := by
  rcases expected with rfl | rfl | rfl
  · rfl
  · rfl
  · contradiction

/-- The client of a connection, and what its observers have seen of it. -/
structure Session where
  client : Client
  process : Process
  events : List Event

namespace Session

variable (sodium : Sodium)

/-- `readyRead` is emitted while the socket is connected. -/
def step (session : Session) (arrival : Environment × Bytes) : Except Fault Session :=
  if session.client.socket = .connected then do
    let (client, process, events) ←
      session.client.receive sodium arrival.1 session.process arrival.2
    return ⟨client, process, session.events ++ events⟩
  else .ok session

end Session

namespace Client

variable {sodium : Sodium}

theorem onConnected_awaiting {previous client : Client} {own : KeyPair} {events : List Event}
    (connected : (previous.sendKeyExchangeRequest own).onConnected sodium = .ok (client, events)) :
    client = (previous.connectedFor own).awaiting [] := by
  obtain ⟨_, _, ran⟩ := bind_eq_ok.mp connected
  cases ran
  rfl

/-- What an arrival of bytes can lead to: more bytes are needed, the
connection is given up, or exactly one message goes to `validate`. -/
inductive Handles (sodium : Sodium) (env : Environment) (client : Client) (process : Process)
    (bytes : Bytes) : Prop
  | waits (later : Client) (same : later.requestMaster = client.requestMaster)
      (kept : later.unread [] = client.unread bytes)
      (ran : client.receive sodium env process bytes = .ok (later, process, []))
  | aborts (later : Client) (gone : later.socket = .unconnected)
      (ran : client.receive sodium env process bytes = .ok (later, process, [invalidData]))
  | validates (type : RequestType) (request rest : Bytes)
      (arrived : client.unread bytes = type :: (request ++ rest))
      (size : requestSize type = request.length)
      (ran : client.receive sodium env process bytes =
        (client.requestMaster.validate sodium env process type request).map
          (client.answered type rest))

/-- `readReply` asks for a buffer of -1 bytes. -/
theorem receive_unsized {env : Environment} {client : Client} {process : Process}
    {bytes available : Bytes} {type : RequestType} (unsized : requestSize type = -1)
    (different : type ≠ unknown) (arrived : client.unread bytes = type :: available) :
    client.receive sodium env process bytes = .error .lengthError := by
  have passes : ¬(available.length : Int) < -1 := by omega
  rw [receive_of_unread different arrived]
  simp only [readReply, unsized, if_neg passes, Int.reduceNeg, Int.reduceLT, if_true]

theorem receive_unknown {env : Environment} {client : Client} {process : Process}
    {bytes available : Bytes} (first : client.serverReqType = unknown)
    (arrived : client.unread bytes = unknown :: available) :
    client.receive sodium env process bytes =
      .ok ({ client with socket := .unconnected, available := [], serverReqType := unknown },
        process, [invalidData]) := by
  rw [unread, if_pos first] at arrived
  simp only [receive, onReadyRead, if_pos first, arrived, if_true]

theorem receive_nothing {env : Environment} {client : Client} {process : Process} {bytes : Bytes}
    (first : client.serverReqType = unknown) (arrived : client.unread bytes = []) :
    client.receive sodium env process bytes = .ok ({ client with available := [] }, process, []) := by
  rw [unread, if_pos first] at arrived
  simp only [receive, onReadyRead, if_pos first, arrived]

theorem unread_eq_nil {client : Client} {bytes : Bytes} (nothing : client.unread bytes = []) :
    client.serverReqType = unknown := by
  by_contra later
  rw [unread, if_neg later] at nothing
  contradiction

theorem unread_eq_unknown {client : Client} {bytes available : Bytes}
    (arrived : client.unread bytes = unknown :: available) : client.serverReqType = unknown := by
  by_contra later
  rw [unread, if_neg later] at arrived
  exact later (List.cons.inj arrived).1

theorem receive_handles {env : Environment} {client : Client} {process : Process} {bytes : Bytes}
    (expected : ∀ type ∈ (client.unread bytes).head?, Expected type) :
    Handles sodium env client process bytes := by
  cases arrived : client.unread bytes with
  | nil =>
      have first := unread_eq_nil arrived
      refine .waits { client with available := [] } rfl ?_ (receive_nothing first arrived)
      rw [arrived, unread, if_pos first]
      rfl
  | cons type available =>
      have allowed : Expected type := expected type (by rw [arrived]; rfl)
      by_cases different : type = unknown
      · subst different
        exact .aborts _ rfl (receive_unknown (unread_eq_unknown arrived) arrived)
      · have known := allowed.size different
        have ran := @receive_known sodium env client process bytes available type known arrived
        by_cases short : available.length < 128
        · rw [if_pos short] at ran
          refine .waits { client with available, serverReqType := type } rfl ?_ ran
          rw [arrived, unread, if_neg different, List.append_nil]
        · rw [if_neg short] at ran
          refine .validates type (available.take 128) (available.drop 128) ?_ ?_ ran
          · rw [arrived, List.take_append_drop]
          · rw [known, List.length_take_of_le (Nat.le_of_not_lt short)]
            rfl

/-- The comparison with one known type is the whole defect: every other type
without a size makes the client ask for a buffer that cannot exist. -/
theorem receive_handles_iff {env : Environment} {client : Client} {process : Process}
    {bytes : Bytes} :
    Handles sodium env client process bytes ↔
      ∀ type ∈ (client.unread bytes).head?, Expected type := by
  refine ⟨?_, receive_handles⟩
  intro handles type first
  by_contra other
  obtain ⟨available, arrived⟩ : ∃ available, client.unread bytes = type :: available :=
    List.head?_eq_some_iff.mp first
  have different : type ≠ unknown := fun same => other (.inr (.inr same))
  have unsized := requestSize_of_not_expected other
  have fails := @receive_unsized sodium env client process bytes available type unsized different
    arrived
  cases handles with
  | waits _ _ _ ran =>
      rw [fails] at ran
      contradiction
  | aborts _ _ ran =>
      rw [fails] at ran
      contradiction
  | validates type' request rest arrived' size _ =>
      obtain ⟨rfl, _⟩ := List.cons.inj (arrived.symm.trans arrived')
      rw [unsized] at size
      omega

/-- After a type with a size has been read, the client stays with it. -/
theorem settles {env : Environment} {client : Client} {process : Process} {bytes available : Bytes}
    {type : RequestType} {result : Client × Process × List Event}
    (known : requestSize type = 128) (arrived : client.unread bytes = type :: available)
    (ran : client.receive sodium env process bytes = .ok result) :
    requestSize result.1.serverReqType = 128 := by
  rw [receive_known known arrived] at ran
  split at ran
  · cases ran
    exact known
  · cases validated : client.requestMaster.validate sodium env process type (available.take 128) with
    | error fault =>
        rw [validated] at ran
        contradiction
    | ok validation =>
        rw [validated] at ran
        cases ran
        exact known

end Client

namespace Session

variable {sodium : Sodium}

def Handled (sodium : Sodium) (session : Session) (arrival : Environment × Bytes) : Prop :=
  session.client.socket = .connected →
    Client.Handles sodium arrival.1 session.client session.process arrival.2

/-- The type byte was read, or the connection is gone. -/
def Settled (session : Session) : Prop :=
  session.client.socket = .connected → requestSize session.client.serverReqType = 128

theorem Settled.handled {session : Session} (settled : session.Settled)
    (arrival : Environment × Bytes) : Handled sodium session arrival := by
  intro connected
  have known := settled connected
  have later := ne_unknown_of_size known
  apply Client.receive_handles
  intro type first
  rw [Client.unread, if_neg later, List.head?_cons, Option.mem_some_iff] at first
  subst first
  by_contra other
  rw [requestSize_of_not_expected other] at known
  contradiction

theorem step_connected {session next : Session} {arrival : Environment × Bytes}
    (connected : session.client.socket = .connected)
    (ran : session.step sodium arrival = .ok next) :
    ∃ events, session.client.receive sodium arrival.1 session.process arrival.2 =
        .ok (next.client, next.process, events) ∧ next.events = session.events ++ events := by
  rw [step, if_pos connected] at ran
  obtain ⟨⟨client, process, events⟩, received, ran⟩ := bind_eq_ok.mp ran
  cases ran
  exact ⟨events, received, rfl⟩

theorem step_received {session : Session} {arrival : Environment × Bytes} {client : Client}
    {process : Process} {events : List Event}
    (connected : session.client.socket = .connected)
    (received : session.client.receive sodium arrival.1 session.process arrival.2 =
      .ok (client, process, events)) :
    session.step sodium arrival = .ok ⟨client, process, session.events ++ events⟩ := by
  rw [step, if_pos connected, received]
  rfl

theorem step_closed {session : Session} {arrival : Environment × Bytes}
    (closed : session.client.socket ≠ .connected) : session.step sodium arrival = .ok session :=
  if_neg closed

theorem Settled.step {session next : Session} {arrival : Environment × Bytes}
    (settled : session.Settled) (ran : session.step sodium arrival = .ok next) :
    next.Settled := by
  by_cases connected : session.client.socket = .connected
  · have known := settled connected
    have arrived : session.client.unread arrival.2 =
        session.client.serverReqType :: (session.client.available ++ arrival.2) :=
      if_neg (ne_unknown_of_size known)
    obtain ⟨events, received, _⟩ := step_connected connected ran
    exact fun _ => Client.settles known arrived received
  · rw [step_closed connected] at ran
    cases ran
    exact settled

/-- Once the type byte is read, or the connection gone, nothing can go wrong
any more, so that the first byte decides. -/
theorem everyStep_handled_iff {session : Session} (connected : session.client.socket = .connected)
    (empty : session.client.available = []) (first : session.client.serverReqType = unknown)
    (arrivals : List (Environment × Bytes)) :
    EveryStep (step sodium) (Handled sodium) session arrivals ↔
      ∀ type ∈ (arrivals.map Prod.snd).flatten.head?, Expected type := by
  induction arrivals generalizing session with
  | nil => simp [EveryStep]
  | cons arrival rest ih =>
      obtain ⟨env, bytes⟩ := arrival
      have arrived : session.client.unread bytes = bytes := by
        rw [Client.unread, if_pos first, empty, List.nil_append]
      rw [List.map_cons, List.flatten_cons]
      cases bytes with
      | nil =>
          obtain ⟨next, stepped, connected', empty', first'⟩ : ∃ next : Session,
              session.step sodium (env, []) = .ok next ∧ next.client.socket = .connected ∧
                next.client.available = [] ∧ next.client.serverReqType = unknown := by
            exact ⟨_, step_received connected (Client.receive_nothing first arrived), connected, rfl,
              first⟩
          have here : Handled sodium session (env, []) :=
            fun _ => Client.receive_handles (by simp [arrived])
          simp only [List.nil_append, EveryStep, here, stepped, true_and]
          rw [← ih connected' empty' first']
          exact ⟨fun every => every next rfl, fun every _ same => Except.ok.inj same ▸ every⟩
      | cons type tail =>
          have head : ∀ rest, (type :: tail ++ rest).head? = some type := fun _ => rfl
          have here : Handled sodium session (env, type :: tail) ↔ Expected type := by
            rw [Handled, Client.receive_handles_iff, arrived]
            simp [connected]
          simp only [head, Option.mem_some_iff, forall_eq', EveryStep, here, and_iff_left_iff_imp]
          intro expected next stepped
          have settled : next.Settled := by
            obtain ⟨events, received, _⟩ := step_connected connected stepped
            by_cases different : type = unknown
            · subst different
              rw [Client.receive_unknown first arrived] at received
              have gone : SocketState.unconnected = next.client.socket :=
                congrArg (fun result => result.1.socket) (Except.ok.inj received)
              intro still
              rw [still] at gone
              contradiction
            · exact fun _ => Client.settles (expected.size different) arrived received
          exact everyStep_of_invariant (fun _ _ _ => Settled.step)
            (fun _ action kept => kept.handled action) rest settled

end Session

/-- The input of a connection is handled in every event, whatever its bytes and
its arrivals, exactly when the first byte is a type that `onReadyRead` expects. -/
theorem client_input_handled_iff {sodium : Sodium} {previous client : Client} {own : KeyPair}
    {sent : List Event}
    (connected : (previous.sendKeyExchangeRequest own).onConnected sodium = .ok (client, sent))
    (process : Process) (arrivals : List (Environment × Bytes)) :
    EveryStep (Session.step sodium) (Session.Handled sodium) ⟨client, process, sent⟩ arrivals ↔
      ∀ type ∈ (arrivals.map Prod.snd).flatten.head?, Expected type := by
  cases Client.onConnected_awaiting connected
  exact Session.everyStep_handled_iff rfl rfl rfl arrivals

theorem client_input_handled_query :
    EveryStep (Session.step .transparent) (Session.Handled .transparent)
      ⟨((Client.new someMemory).connectedFor (Sodium.pairOf clientSecret)).awaiting [], .fresh,
        [.signed (Sodium.publicOf clientSecret) (signedPart keyExchangeQuery
          (Sodium.publicOf clientSecret) (exchangeOf clientSecret)),
          .written (sentBy clientSecret keyExchangeQuery)]⟩
      [(trusting [], [keyExchangeReply, 5]), (trusting [], [6])] := by
  refine (@client_input_handled_iff _ (.new someMemory) _ (Sodium.pairOf clientSecret) _ ?_ _
    _).mpr ?_
  · exact Client.onConnected_holding rfl rfl (exchangeKeys_transparent clientSecret)
  · intro type given
    obtain ⟨⟩ := given
    exact .inr (.inl rfl)

/-- The type `DataTransfer` as the first byte. -/
theorem sizeless_type_not_handled :
    ∃ client sent, ((Client.new someMemory).sendKeyExchangeRequest
        (Sodium.pairOf clientSecret)).onConnected .transparent = .ok (client, sent) ∧
      client.receive .transparent (trusting []) .fresh [dataTransfer] = .error .lengthError ∧
      ¬EveryStep (Session.step .transparent) (Session.Handled .transparent)
        ⟨client, .fresh, sent⟩ [(trusting [], [dataTransfer])] := by
  refine ⟨_, _, Client.onConnected_holding rfl rfl (exchangeKeys_transparent clientSecret),
    Client.receive_unsized rfl (by decide) rfl, ?_⟩
  intro given
  obtain ⟨handled, _⟩ := given
  have expected := Client.receive_handles_iff.mp (handled rfl) dataTransfer rfl
  exact absurd expected (by decide)

end Cscrypto.Gui
