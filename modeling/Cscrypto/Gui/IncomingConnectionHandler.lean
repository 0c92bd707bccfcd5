import Cscrypto.Gui.RequestMaster

namespace Cscrypto.Gui

/-! # The server's side of a connection

The thread of an `IncomingConnectionHandler` blocks until bytes arrive, so that
its run is a function of the segments that arrive before each timeout.
-/

namespace IncomingConnectionHandler

/-- `while (bytesAvailable() < count) if (!waitForReadyRead(..)) return false;`
gives the bytes available and the segments still to come. -/
def waitForBytes (count : Int) (available : Bytes) : List Bytes → Option (Bytes × List Bytes)
  | [] => if available.length < count then none else some (available, [])
  | segment :: arrivals =>
      if available.length < count then waitForBytes count (available ++ segment) arrivals
      else some (available, segment :: arrivals)

structure Outcome where
  process : Process
  events : List Event

variable (sodium : Sodium)

def readRequest (env : Environment) (master : RequestMaster) (process : Process)
    (arrivals : List Bytes) : Except Fault (Option RequestMaster × Outcome) :=
  match waitForBytes 1 [] arrivals with
  | none => .ok (none, ⟨process, [.error env.errorString]⟩)
  | some ([], _) => .ok (none, ⟨process, [.error env.errorString]⟩)
  | some (reqType :: available, arrivals) =>
      let numBytesToReceive := requestSize reqType
      match waitForBytes numBytesToReceive available arrivals with
      | none => .ok (none, ⟨process, [.error env.errorString]⟩)
      | some (request, _) =>
          if numBytesToReceive ≠ request.length then
            .ok (none, ⟨process, [.error "Incoming connection handler: invalid request!"]⟩)
          else do
            let result ← master.validate sodium env process reqType request
            if result.accepted then return (some result.master, ⟨result.process, result.events⟩)
            else
              return (none, ⟨result.process, result.events ++
                [.error "Request master: invalid request!"]⟩)

def sendReply (master : RequestMaster) : Except Fault (List Event) := do
  let (reply, events) ← master.form sodium keyExchangeReply
  return events ++ [.written reply]

/-- `run`, with the request master `requestMaster_(true, true, ownKeys)` over
the given memory. -/
def run (env : Environment) (ownKeys : KeyPair) (memory : Memory) (process : Process)
    (arrivals : List Bytes) : Except Fault Outcome := do
  let master : RequestMaster :=
    ⟨memory.senderPubKey, memory.exchangePubKey, memory.signature, ownKeys, true, true, false⟩
  if !env.attached then return ⟨process, [.error env.errorString]⟩
  else
    match ← readRequest sodium env master process arrivals with
    | (none, outcome) => return outcome
    | (some master, outcome) =>
        let events ← sendReply sodium master
        return ⟨outcome.process, outcome.events ++ events⟩

variable {sodium : Sodium}

/-- The server reads a message only if its type is known: an unknown type has a
negative size, which no number of bytes equals. -/
theorem requestSize_of_eq {type : RequestType} {request : Bytes}
    (same : requestSize type = request.length) : requestSize type = 128 := by
  unfold requestSize at *
  split
  · rw [if_pos ‹_›] at same
    omega
  · rfl

theorem sendReply_answer {master : RequestMaster} {events : List Event}
    (server : master.serverSide = true) (ran : sendReply sodium master = .ok events) :
    Answer sodium master.ownKeys master.exchangePubKey events := by
  obtain ⟨⟨reply, formed⟩, made, done⟩ := bind_eq_ok.mp ran
  cases done
  rcases RequestMaster.form_ok rfl made with
    ⟨rfl, rfl⟩ | ⟨secret, epk, esk, keys, own, derived, keysFormed, rfl, rfl⟩
  · exact .inl rfl
  · rcases RequestMaster.keysOnReply_ok keysFormed with ⟨different, _⟩ | ⟨_, other, own', rfl⟩
    · contradiction
    · rw [own] at own'
      cases own'
      rw [server]
      exact .inr ⟨secret, epk, esk, own, derived, rfl⟩

/-- The message that `readRequest` hands to `validate`, whatever the segments
in which it arrives. -/
def Receives (arrivals : List Bytes) (type : RequestType) (request : Bytes) : Prop :=
  ∃ available segments others, waitForBytes 1 [] arrivals = some (type :: available, segments) ∧
    waitForBytes (requestSize type) available segments = some (request, others) ∧
    requestSize type = request.length

theorem Receives.known {arrivals : List Bytes} {type : RequestType} {request : Bytes}
    (received : Receives arrivals type request) : requestSize type = 128 := by
  obtain ⟨_, _, _, _, _, exact⟩ := received
  exact requestSize_of_eq exact

theorem Receives.unique {arrivals : List Bytes} {type type' : RequestType}
    {request request' : Bytes} (received : Receives arrivals type request)
    (again : Receives arrivals type' request') : type = type' ∧ request = request' := by
  obtain ⟨available, segments, others, first, whole, _⟩ := received
  obtain ⟨available', segments', others', first', whole', _⟩ := again
  rw [first] at first'
  cases first'
  rw [whole] at whole'
  cases whole'
  exact ⟨rfl, rfl⟩

theorem readRequest_receives {env : Environment} {master : RequestMaster} {process : Process}
    {arrivals : List Bytes} {type : RequestType} {request : Bytes}
    (received : Receives arrivals type request) :
    readRequest sodium env master process arrivals =
      (master.validate sodium env process type request).map (fun result =>
        if result.accepted then (some result.master, ⟨result.process, result.events⟩)
        else (none, ⟨result.process,
          result.events ++ [.error "Request master: invalid request!"]⟩)) := by
  obtain ⟨available, segments, others, first, whole, exact⟩ := received
  simp only [readRequest, first, whole, if_neg (not_not.mpr exact)]
  cases master.validate sodium env process type request with
  | error fault => rfl
  | ok result => cases accepted : result.accepted <;> simp [Except.map, accepted]

/-- The ways in which reading a request ends. -/
inductive Reads (sodium : Sodium) (env : Environment) (master : RequestMaster) (process : Process)
    (arrivals : List Bytes) : Option RequestMaster × Outcome → Prop
  | failed (message : String) :
      Reads sodium env master process arrivals (none, ⟨process, [.error message]⟩)
  | rejected (type : RequestType) (request : Bytes) (result : Validation)
      (received : Receives arrivals type request)
      (validated : master.validate sodium env process type request = .ok result)
      (rejected : result.accepted = false) :
      Reads sodium env master process arrivals (none, ⟨result.process,
        result.events ++ [.error "Request master: invalid request!"]⟩)
  | accepted (type : RequestType) (request : Bytes) (result : Validation)
      (received : Receives arrivals type request)
      (validated : master.validate sodium env process type request = .ok result)
      (accepted : result.accepted = true) :
      Reads sodium env master process arrivals
        (some result.master, ⟨result.process, result.events⟩)

theorem readRequest_reads {env : Environment} {master : RequestMaster} {process : Process}
    {arrivals : List Bytes} {read : Option RequestMaster × Outcome}
    (ran : readRequest sodium env master process arrivals = .ok read) :
    Reads sodium env master process arrivals read := by
  unfold readRequest at ran
  split at ran
  · cases ran
    exact .failed _
  · cases ran
    exact .failed _
  rename_i type available segments first
  dsimp only at ran
  split at ran
  · cases ran
    exact .failed _
  rename_i request others whole
  split at ran
  · cases ran
    exact .failed _
  rename_i exact
  have received : Receives arrivals type request :=
    ⟨available, segments, others, first, whole, not_not.mp exact⟩
  obtain ⟨result, validated, ran⟩ := bind_eq_ok.mp ran
  cases accepted : result.accepted with
  | false =>
      rw [accepted] at ran
      cases ran
      exact .rejected type request result received validated accepted
  | true =>
      rw [accepted] at ran
      cases ran
      exact .accepted type request result received validated accepted

/-- A message on the connection that meets all the checks. -/
structure Valid (sodium : Sodium) (env : Environment) (process : Process) (arrivals : List Bytes)
    (type : RequestType) (request : Bytes) (sender : PublicKey) (exchange : PubExchangeKey) :
    Prop where
  attached : env.attached = true
  usable : RequestMaster.Usable env (.handler env.handler) false process
  received : Receives arrivals type request
  accepts : Accepts sodium env.table type request sender exchange

/-- What the run of a handler shows. -/
inductive Serves (sodium : Sodium) (env : Environment) (ownKeys : KeyPair) (process : Process)
    (arrivals : List Bytes) : List Event → Prop
  | failed (message : String) : Serves sodium env ownKeys process arrivals [.error message]
  | rejected (type : RequestType) (request : Bytes) (message : String) :
      Serves sodium env ownKeys process arrivals
        [.validating type request env.table, .error message]
  | answered (type : RequestType) (request : Bytes) (sender : PublicKey)
      (exchange : PubExchangeKey) (keys answer : List Event)
      (valid : Valid sodium env process arrivals type request sender exchange)
      (keysOf : RequestMaster.KeysOf sodium true ownKeys type exchange keys)
      (answers : Answer sodium ownKeys exchange answer) :
      Serves sodium env ownKeys process arrivals
        (.validating type request env.table :: (keys ++ answer))

theorem run_serves {env : Environment} {ownKeys : KeyPair} {memory : Memory} {process : Process}
    {arrivals : List Bytes} {outcome : Outcome}
    (ran : run sodium env ownKeys memory process arrivals = .ok outcome) :
    Serves sodium env ownKeys process arrivals outcome.events := by
  unfold run at ran
  dsimp only at ran
  split at ran
  · cases ran
    exact .failed _
  rename_i attached
  obtain ⟨⟨read, outcome'⟩, reading, ran⟩ := bind_eq_ok.mp ran
  cases readRequest_reads reading with
  | failed message =>
      cases ran
      exact .failed message
  | rejected type request result received validated rejected =>
      cases ran
      obtain ⟨_, _, _, outcome⟩ := RequestMaster.validate_ok received.known validated
      rcases outcome with ⟨_, events⟩ | ⟨accepted, _⟩
      · rw [events]
        exact .rejected type request _
      · rw [rejected] at accepted
        contradiction
  | accepted type request result received validated accepted =>
      obtain ⟨own, side, _, outcome⟩ := RequestMaster.validate_ok received.known validated
      obtain ⟨answer, sent, ran⟩ := bind_eq_ok.mp ran
      cases ran
      rcases outcome with
        ⟨rejected, _⟩ | ⟨_, _, usable, ⟨sender, accepts⟩, keys, formed, events⟩
      · rw [accepted] at rejected
        contradiction
      · have keysOf := RequestMaster.keysOnReply_ok formed
        have answers := sendReply_answer side sent
        rw [own, side] at keysOf
        rw [own] at answers
        rw [events]
        exact .answered type request sender _ keys answer
          ⟨by simpa using attached, usable, received, accepts⟩ keysOf answers

/-- The run of a handler answers only a message that met all the checks. -/
theorem run_effect {env : Environment} {ownKeys : KeyPair} {memory : Memory} {process : Process}
    {arrivals : List Bytes} {outcome : Outcome}
    (ran : run sodium env ownKeys memory process arrivals = .ok outcome) :
    Effect sodium true ownKeys outcome.events := by
  have serves := run_serves ran
  generalize outcome.events = events at serves ⊢
  cases serves with
  | failed message => exact .plain _ (by simp [Event.Plain])
  | rejected type request message => exact .rejected _ _ _ _
  | answered type request sender exchange keys answer valid keysOf answers =>
      exact .accepted type request env.table sender exchange keys answer valid.accepts keysOf
        (.inr ⟨rfl, answers⟩)

end IncomingConnectionHandler

end Cscrypto.Gui
