import Cscrypto.Data.Blocks
import Cscrypto.Data.Segments
import Cscrypto.Gui.ClientInput
import Cscrypto.Gui.ValidationOutcome

namespace Cscrypto.Gui

open Cscrypto.Data

/-! # Where the segments end

The client takes at most one message per `readyRead`, and the handler of the
server compares the size with the bytes that are there when it looks.  So the
outcome depends on the segments of a stream as soon as it is longer than one
message.
-/

/-- What the user is shown: key pairs and errors. -/
def Event.shown : Event → Bool
  | .emitted _ _ _ => true
  | .error _ => true
  | _ => false

namespace Client

/-- The number of messages taken from `available` bytes and the arrivals
behind them. -/
def taken : Nat → List Bytes → Nat
  | _, [] => 0
  | available, bytes :: rest =>
      if available + bytes.length < 128 then taken (available + bytes.length) rest
      else taken (available + bytes.length - 128) rest + 1

variable (sodium : Sodium)

/-- Every message is accepted and none of them leads to a key pair. -/
def Quiet (env : Environment) (type : RequestType) (master : RequestMaster) (process : Process) :
    List Bytes → Prop
  | [] => True
  | body :: rest => ∃ result, master.validate sodium env process type body = .ok result ∧
      result.accepted = true ∧ (∀ event ∈ result.events, event.shown = false) ∧
      Quiet env type result.master result.process rest

/-- What the user is shown of a connection. -/
def outcome (env : Environment) (client : Client) (process : Process) (arrivals : List Bytes) :
    Except Fault (List Event) :=
  ((arrivals.map (env, ·)).foldlM (Session.step sodium) ⟨client, process, []⟩).map
    (fun session => session.events.filter Event.shown)

variable {sodium : Sodium}

/-- The client after `onConnected`, before anything has arrived. -/
structure Fresh (client : Client) : Prop where
  connected : client.socket = .connected
  empty : client.available = []
  first : client.serverReqType = unknown
  role : client.requestMaster.serverSide = false
  valid : client.requestMaster.validOwnKeys = true
  holds : ∃ secret, client.requestMaster.ownKeys.2 = .holding secret

theorem Fresh.unread {client : Client} (fresh : client.Fresh) (bytes : Bytes) :
    client.unread bytes = bytes := by
  rw [Client.unread, if_pos fresh.first, fresh.empty, List.nil_append]

theorem Quiet.take {env : Environment} {type : RequestType} {master : RequestMaster}
    {process : Process} {later : List Bytes}
    (quiet : Quiet sodium env type master process later) (count : Nat) :
    Quiet sodium env type master process (later.take count) := by
  induction later generalizing master process count with
  | nil => simp [Quiet]
  | cons body rest ih =>
      cases count with
      | zero => trivial
      | succ count =>
          obtain ⟨result, validated, accepted, silent, quiet⟩ := quiet
          exact ⟨result, validated, accepted, silent, ih quiet count⟩

/-- A client has a private key, so that each of its messages is validated to an
end. -/
theorem Fresh.validates {client : Client} (fresh : client.Fresh) (env : Environment)
    (process : Process) (type : RequestType) (body : Bytes) :
    ∃ result, client.requestMaster.validate sodium env process type body = .ok result := by
  obtain ⟨secret, holds⟩ := fresh.holds
  cases validated : client.requestMaster.validate sodium env process type body with
  | ok result => exact ⟨result, rfl⟩
  | error fault =>
      obtain ⟨valid, usable, sender, exchange, signature, passes⟩ :=
        RequestMaster.validate_error validated
      rw [RequestMaster.validate_passes valid usable passes, RequestMaster.keysOnReply,
        @RequestMaster.formCommonKeys_holding sodium
          { client.requestMaster with exchangePubKey := exchange } client.requestMaster.ownKeys.1
          secret (Prod.ext rfl holds)] at validated
      split at validated <;> contradiction

end Client

namespace IncomingConnectionHandler

variable {sodium : Sodium}

theorem waitForBytes_flatten {count : Int} {available gathered : Bytes}
    {arrivals others : List Bytes}
    (waited : waitForBytes count available arrivals = some (gathered, others)) :
    gathered ++ others.flatten = available ++ arrivals.flatten := by
  induction arrivals generalizing available with
  | nil =>
      rw [waitForBytes] at waited
      split at waited
      · contradiction
      · cases waited
        rfl
  | cons segment rest ih =>
      rw [waitForBytes] at waited
      split at waited
      · rw [ih waited, List.flatten_cons, List.append_assoc]
      · cases waited
        rfl

theorem Receives.length {arrivals : List Bytes} {type : RequestType} {request : Bytes}
    (received : Receives arrivals type request) : request.length = 128 := by
  have known := received.known
  obtain ⟨_, _, _, _, _, exact⟩ := received
  rw [known] at exact
  exact_mod_cast exact.symm

theorem Receives.take {arrivals : List Bytes} {type : RequestType} {request : Bytes}
    (received : Receives arrivals type request) :
    arrivals.flatten.take 129 = type :: request := by
  have length := received.length
  obtain ⟨available, segments, others, first, whole, _⟩ := received
  have front := waitForBytes_flatten first
  have back := waitForBytes_flatten whole
  rw [List.nil_append] at front
  rw [← front, List.cons_append, ← back, List.take_succ_cons, List.take_left' length]

/-- `sendReply` is called for an accepted request only, and it always writes;
what it writes is empty when no reply could be formed. -/
def Outcome.accepted (outcome : Outcome) : Bool :=
  outcome.events.any fun event =>
    match event with
    | .written _ => true
    | _ => false

def Outcome.replied (outcome : Outcome) : Bool :=
  outcome.events.any fun event =>
    match event with
    | .written bytes => bytes ≠ []
    | _ => false

/-- Whether a connection's request is accepted, and whether a reply is sent. -/
def served (sodium : Sodium) (env : Environment) (ownKeys : KeyPair) (memory : Memory)
    (process : Process) (arrivals : List Bytes) : Except Fault (Bool × Bool) :=
  (run sodium env ownKeys memory process arrivals).map fun outcome =>
    (outcome.accepted, outcome.replied)

theorem readRequest_error {env : Environment} {master : RequestMaster} {process : Process}
    {arrivals : List Bytes} {fault : Fault}
    (failed : readRequest sodium env master process arrivals = .error fault) :
    ∃ type request, Receives arrivals type request ∧
      master.validate sodium env process type request = .error fault := by
  unfold readRequest at failed
  split at failed
  · contradiction
  · contradiction
  rename_i type available segments first
  dsimp only at failed
  split at failed
  · contradiction
  rename_i request others whole
  split at failed
  · contradiction
  rename_i exact
  refine ⟨type, request, ⟨available, segments, others, first, whole, not_not.mp exact⟩, ?_⟩
  cases validated : master.validate sodium env process type request with
  | error reason =>
      rw [validated] at failed
      cases failed
      rfl
  | ok result =>
      rw [validated, ok_bind] at failed
      split at failed <;> contradiction

/-- Without a valid request the run ends, and nothing is answered. -/
theorem served_invalid {env : Environment} {ownKeys : KeyPair} {memory : Memory}
    {process : Process} {arrivals : List Bytes}
    (invalid : ∀ type request sender exchange,
      ¬Valid sodium env process arrivals type request sender exchange) :
    served sodium env ownKeys memory process arrivals = .ok (false, false) := by
  cases ran : run sodium env ownKeys memory process arrivals with
  | ok outcome =>
      have serves := run_serves ran
      obtain ⟨process', events⟩ := outcome
      rw [served, ran, map_ok]
      cases serves with
      | failed message => rfl
      | rejected type request message => rfl
      | answered type request sender exchange keys answer valid keysOf answers =>
          exact absurd valid (invalid type request sender exchange)
  | error fault =>
      unfold run at ran
      dsimp only at ran
      split at ran
      · contradiction
      rename_i attached
      have ready : env.attached = true := by simpa using attached
      cases read : readRequest sodium env ⟨memory.senderPubKey, memory.exchangePubKey,
          memory.signature, ownKeys, true, true, false⟩ process arrivals with
      | error fault' =>
          obtain ⟨type, request, received, failed⟩ := readRequest_error read
          obtain ⟨_, usable, sender, exchange, signature, passes⟩ :=
            RequestMaster.validate_error failed
          exact absurd ⟨ready, usable, received, passes.accepts received.length⟩
            (invalid type request sender exchange)
      | ok result =>
          rw [read, ok_bind] at ran
          cases readRequest_reads read with
          | failed message => contradiction
          | rejected type request result received validated rejected => contradiction
          | accepted type request result received validated accepted =>
              obtain ⟨_, _, _, outcome⟩ := RequestMaster.validate_ok received.known validated
              rcases outcome with ⟨rejected, _⟩ | ⟨_, _, usable, ⟨sender, accepts⟩, _⟩
              · rw [rejected] at accepted
                contradiction
              · exact absurd ⟨ready, usable, received, accepts⟩ (invalid _ _ _ _)

theorem receives_first {type : RequestType} {request : Bytes} {later : List Bytes}
    (known : requestSize type = 128) (length : request.length = 128) :
    Receives ((type :: request) :: later) type request := by
  refine ⟨request, later, later, ?_, ?_, ?_⟩
  · cases later with
    | nil => simp [waitForBytes]
    | cons segment rest => simp [waitForBytes]
  · have enough : ¬(request.length : Int) < requestSize type := by
      rw [known, length]
      decide
    cases later with
    | nil => rw [waitForBytes, if_neg enough]
    | cons segment rest => rw [waitForBytes, if_neg enough]
  · rw [known, length]
    rfl

end IncomingConnectionHandler

end Cscrypto.Gui
