import Cscrypto.Gui.Delivery

namespace Cscrypto.Gui

open Cscrypto.Base58 Cscrypto.KeyExchange

/-! # The roles of queries and replies

A server should answer queries and a client should use replies.  The type byte
of a message is signed, but neither side compares it with its own role: only
`validate` and `form` look at it, to decide when to derive keys.
-/

def Event.isEmitted : Event → Bool
  | .emitted _ _ _ => true
  | _ => false

/-- An empty write sends nothing. -/
def Event.isSent : Event → Bool
  | .written bytes => bytes ≠ []
  | _ => false

def Event.isError : Event → Bool
  | .error _ => true
  | _ => false

variable {sodium : Sodium} {env : Environment} {process : Process}

/-- Keys come out once or not at all, and nothing else does. -/
theorem emittedKeys_countP (sodium : Sodium) (serverSide : Bool) (own : KeyPair)
    (secret : SecretKey) (peer : PubExchangeKey) :
    (emittedKeys sodium serverSide own secret peer).countP Event.isEmitted =
      if (commonKeys sodium serverSide secret peer).isSome then 1 else 0 := by
  unfold emittedKeys
  rcases commonKeys sodium serverSide secret peer with _ | ⟨send, receive⟩ <;> rfl

namespace IncomingConnectionHandler

variable {ownKeys : KeyPair} {memory : Memory} {arrivals : List Bytes}

/-- Only a valid query is answered, and every valid query with one key pair. -/
structure AnswersQueries (sodium : Sodium) (env : Environment) (ownKeys : KeyPair)
    (memory : Memory) (process : Process) (arrivals : List Bytes) : Prop where
  only : ∀ outcome, run sodium env ownKeys memory process arrivals = .ok outcome →
    (∃ event ∈ outcome.events, event.isSent ∨ event.isEmitted) →
    ∃ request sender exchange,
      Valid sodium env process arrivals keyExchangeQuery request sender exchange
  once : ∀ request sender exchange,
    Valid sodium env process arrivals keyExchangeQuery request sender exchange →
    ∃ outcome, run sodium env ownKeys memory process arrivals = .ok outcome ∧
      outcome.events.countP Event.isEmitted = 1

/-- A valid message is a query that session keys can be derived from, or a reply
to a server that cannot derive any. -/
def QueriesDerivable (sodium : Sodium) (env : Environment) (ownKeys : KeyPair)
    (process : Process) (arrivals : List Bytes) : Prop :=
  ∀ type request sender exchange,
    Valid sodium env process arrivals type request sender exchange →
    (type = keyExchangeQuery ∧ ∃ secret, ownKeys.2 = .holding secret ∧
      (commonKeys sodium true secret exchange).isSome) ∨
    (type = keyExchangeReply ∧ ∀ secret, ownKeys.2 = .holding secret →
      exchangeKeys sodium secret = none)

theorem Valid.exchange_unique {type : RequestType} {request request' : Bytes}
    {sender sender' : PublicKey} {exchange exchange' : PubExchangeKey} {type' : RequestType}
    (valid : Valid sodium env process arrivals type request sender exchange)
    (again : Valid sodium env process arrivals type' request' sender' exchange') :
    type = type' ∧ exchange = exchange' := by
  obtain ⟨rfl, rfl⟩ := valid.received.unique again.received
  obtain ⟨signature, same, _⟩ := valid.accepts.signature
  obtain ⟨signature', same', _⟩ := again.accepts.signature
  exact ⟨rfl, (request_injective (same.symm.trans same')).2⟩

theorem type_of_known {type : RequestType} (known : requestSize type = 128) :
    type = keyExchangeQuery ∨ type = keyExchangeReply := by
  unfold requestSize at known
  split at known
  · contradiction
  · rename_i known
    tauto

/-- The number of key pairs that answering a message emits. -/
theorem countP_answer {own : KeyPair} {exchange : PubExchangeKey} {answer : List Event}
    (answers : Answer sodium own exchange answer)
    (emits : answer.countP Event.isEmitted ≠ 0) :
    ∃ secret, own.2 = .holding secret ∧ (commonKeys sodium true secret exchange).isSome := by
  rcases answers with rfl | ⟨secret, epk, esk, holds, derived, rfl⟩
  · exact absurd rfl emits
  · refine ⟨secret, holds, ?_⟩
    by_contra missing
    rw [List.countP_cons, List.countP_append, emittedKeys_countP, if_neg missing] at emits
    exact emits rfl

theorem AnswersQueries.derivable
    (answers : AnswersQueries sodium env ownKeys memory process arrivals) :
    QueriesDerivable sodium env ownKeys process arrivals := by
  intro type request sender exchange valid
  rcases type_of_known valid.received.known with rfl | rfl
  · left
    refine ⟨rfl, ?_⟩
    obtain ⟨outcome, ran, one⟩ := answers.once request sender exchange valid
    have serves := run_serves ran
    generalize outcome.events = events at serves one
    cases serves with
    | failed message => contradiction
    | rejected type request message => contradiction
    | answered type request sender exchange keys answer again keysOf answered =>
        obtain ⟨rfl, rfl⟩ := valid.exchange_unique again
        rcases keysOf with ⟨_, rfl⟩ | ⟨reply, _⟩
        · refine countP_answer answered ?_
          rw [List.nil_append, List.countP_cons_of_neg (by simp [Event.isEmitted])] at one
          omega
        · contradiction
  · right
    refine ⟨rfl, ?_⟩
    intro secret holds
    rcases derived : exchangeKeys sodium secret with _ | ⟨epk, esk⟩
    · rfl
    · obtain ⟨publicKey, privateKey⟩ := ownKeys
      cases holds
      obtain ⟨process', keys, _, ran⟩ := run_valid memory publicKey valid derived
      obtain ⟨_, _, _, query⟩ := answers.only _ ran
        ⟨.written (formed sodium keyExchangeReply publicKey secret epk), by simp,
          .inl (by rw [formed_cons]; rfl)⟩
      exact absurd (valid.exchange_unique query).1 (by decide)

theorem QueriesDerivable.answers (memory : Memory)
    (derivable : QueriesDerivable sodium env ownKeys process arrivals) :
    AnswersQueries sodium env ownKeys memory process arrivals where
  only := by
    intro outcome ran shown
    have serves := run_serves ran
    generalize outcome.events = events at serves shown
    cases serves with
    | failed message => simp [Event.isSent, Event.isEmitted] at shown
    | rejected type request message => simp [Event.isSent, Event.isEmitted] at shown
    | answered type request sender exchange keys answer valid keysOf answered =>
        rcases derivable type request sender exchange valid with ⟨rfl, _⟩ | ⟨rfl, underivable⟩
        · exact ⟨request, sender, exchange, valid⟩
        · -- without exchange keys there is nothing to send and nothing to emit
          rcases keysOf with ⟨other, _⟩ | ⟨_, secret, holds, rfl⟩
          · contradiction
          have none := underivable secret holds
          rcases answered with rfl | ⟨other, epk, esk, holds', derived, _⟩
          · simp [emittedKeys, commonKeys, none, Event.isSent, Event.isEmitted] at shown
          · rw [underivable other holds'] at derived
            contradiction
  once := by
    intro request sender exchange valid
    rcases derivable _ request sender exchange valid with ⟨_, secret, holds, common⟩ | ⟨reply, _⟩
    · obtain ⟨epk, esk, derived⟩ := exchangeKeys_of_commonKeys common
      obtain ⟨publicKey, privateKey⟩ := ownKeys
      cases holds
      obtain ⟨process', keys, keysOf, ran⟩ := run_valid memory publicKey valid derived
      refine ⟨_, ran, ?_⟩
      rcases keysOf with ⟨_, rfl⟩ | ⟨reply, _⟩
      · have emitted := emittedKeys_countP sodium true (publicKey, .holding secret) secret exchange
        rw [if_pos common] at emitted
        simp [emitted, Event.isEmitted]
      · contradiction
    · contradiction

end IncomingConnectionHandler

namespace Client

variable {client : Client} {bytes : Bytes}

/-- A message that has arrived as a whole and meets all the checks. -/
structure Completed (sodium : Sodium) (env : Environment) (client : Client) (process : Process)
    (bytes : Bytes) (type : RequestType) (sender : PublicKey) (exchange : PubExchangeKey) :
    Prop where
  keys : client.requestMaster.validOwnKeys = true
  usable : RequestMaster.Usable env (client.requestMaster.thread env)
    client.requestMaster.dbConnectionEstablished process
  known : requestSize type = 128
  arrived : ∃ request rest, client.unread bytes = type :: (request ++ rest) ∧
    Accepts sodium env.table type request sender exchange

theorem Completed.receive {type : RequestType} {sender : PublicKey} {exchange : PubExchangeKey}
    (completed : Completed sodium env client process bytes type sender exchange) :
    ∃ master client' process' call, master.ownKeys = client.requestMaster.ownKeys ∧
      master.serverSide = client.requestMaster.serverSide ∧ master.exchangePubKey = exchange ∧
      (call.isEmitted = false ∧ call.isError = false) ∧
      client.receive sodium env process bytes =
        (RequestMaster.keysOnReply sodium master type).map (fun keys =>
          (client', process', call :: keys)) := by
  obtain ⟨keys, usable, known, request, rest, arrived, _, trusted, signature, rfl, verified⟩ :=
    completed
  obtain ⟨master, process', own, role, exchanged, received⟩ :=
    receive_message known arrived keys usable trusted verified
  exact ⟨master, _, process', _, own, role, exchanged, ⟨rfl, rfl⟩, received⟩

end Client

end Cscrypto.Gui
