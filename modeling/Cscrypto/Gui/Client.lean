import Cscrypto.Gui.RequestMaster

namespace Cscrypto.Gui

/-! # The client's socket

`Client` over a socket given by its state and the bytes that have arrived and
were not read yet.  An arrival appends to them and calls `onReadyRead`.
-/

inductive SocketState where
  | unconnected
  | connecting
  | connected
deriving DecidableEq

inductive SocketError where
  | remoteHostClosed
  | hostNotFound
  | connectionRefused
  | other (errorString : String)

structure Client where
  socket : SocketState
  available : Bytes
  requestMaster : RequestMaster
  serverReqType : RequestType

namespace Client

def kLogPrefix : String := "Client error: "

def invalidData : Event := .error (kLogPrefix ++ "Invalid data from server.")

def new (memory : Memory) : Client where
  socket := .unconnected
  available := []
  requestMaster := ⟨memory.senderPubKey, memory.exchangePubKey, memory.signature,
    KeyListModel.missing, false, false, false⟩
  serverReqType := unknown

/-- `abort()` drops what has arrived. The connection is made later. -/
def sendKeyExchangeRequest (client : Client) (ownKeys : KeyPair) : Client :=
  { client with
    socket := .connecting
    available := []
    requestMaster := client.requestMaster.setOwnKeys ownKeys }

/-- The text for an error, if one is reported, with the connection gone. -/
def socketErrorHandler (client : Client) (errorType : SocketError) : Client × List Event :=
  let client := { client with socket := .unconnected }
  match errorType with
  | .remoteHostClosed => (client, [])
  | .hostNotFound => (client, [.error (kLogPrefix ++ "Host not found. Please check host name.")])
  | .connectionRefused => (client, [.error (kLogPrefix ++ "The connection refused by the peer. " ++
      "Make sure that the server is running and check host name.")])
  | .other errorString =>
      (client, [.error (kLogPrefix ++ "The following error occured: " ++ errorString)])

variable (sodium : Sodium)

def onConnected (client : Client) : Except Fault (Client × List Event) := do
  let (request, events) ← client.requestMaster.form sodium keyExchangeQuery
  return ({ client with socket := .connected, serverReqType := unknown },
    events ++ [.written request])

/-- The second half of `onReadyRead`. A negative size passes the comparison and
becomes a length no vector can have. -/
def readReply (env : Environment) (client : Client) (process : Process) :
    Except Fault (Client × Process × List Event) :=
  let numBytesToReceive := requestSize client.serverReqType
  if client.available.length < numBytesToReceive then .ok (client, process, [])
  else if numBytesToReceive < 0 then .error .lengthError
  else do
    let serverReplyBytes := client.available.take numBytesToReceive.toNat
    let client := { client with available := client.available.drop numBytesToReceive.toNat }
    let result ← client.requestMaster.validate sodium env process
      client.serverReqType serverReplyBytes
    let client := { client with requestMaster := result.master }
    return (client, result.process,
      if result.accepted then result.events else result.events ++ [invalidData])

def onReadyRead (env : Environment) (client : Client) (process : Process) :
    Except Fault (Client × Process × List Event) :=
  if client.serverReqType = unknown then
    match client.available with
    | [] => .ok (client, process, [])
    | type :: available =>
        if type = unknown then
          .ok ({ client with socket := .unconnected, available := [], serverReqType := type },
            process, [invalidData])
        else readReply sodium env { client with available, serverReqType := type } process
  else readReply sodium env client process

def receive (env : Environment) (client : Client) (process : Process) (bytes : Bytes) :
    Except Fault (Client × Process × List Event) :=
  onReadyRead sodium env { client with available := client.available ++ bytes } process

variable {sodium : Sodium}

theorem requestSize_of_nonneg {type : RequestType} (nonneg : ¬requestSize type < 0) :
    requestSize type = 128 := by
  unfold requestSize at *
  split
  · simp_all
  · rfl

def unread (client : Client) (bytes : Bytes) : Bytes :=
  if client.serverReqType = unknown then client.available ++ bytes
  else client.serverReqType :: (client.available ++ bytes)

/-- What reading a reply can do: nothing is read, or one message is
validated. -/
inductive Reads (sodium : Sodium) (env : Environment) (client : Client) (process : Process)
    (arrived : Bytes) (result : Client × Process × List Event) : Prop
  | none (master : result.1.requestMaster = client.requestMaster) (same : result.2.1 = process)
      (events : ∀ event ∈ result.2.2, event = invalidData)
  | message (type : RequestType) (request rest : Bytes) (validation : Validation)
      (begins : arrived = type :: (request ++ rest)) (known : requestSize type = 128)
      (validated : client.requestMaster.validate sodium env process type request = .ok validation)
      (master : result.1.requestMaster = validation.master) (next : result.2.1 = validation.process)
      (events : result.2.2 =
        if validation.accepted then validation.events else validation.events ++ [invalidData])

theorem readReply_reads {env : Environment} {client : Client} {process : Process}
    {result : Client × Process × List Event}
    (ran : client.readReply sodium env process = .ok result) :
    Reads sodium env client process (client.serverReqType :: client.available) result := by
  unfold readReply at ran
  dsimp only at ran
  split at ran
  · cases ran
    exact .none rfl rfl (by simp)
  split at ran
  · contradiction
  rename_i nonneg
  obtain ⟨validation, validated, ran⟩ := bind_eq_ok.mp ran
  cases ran
  refine .message _ _ (client.available.drop (requestSize client.serverReqType).toNat) validation ?_
    (requestSize_of_nonneg nonneg) validated rfl rfl rfl
  rw [List.take_append_drop]

theorem receive_reads {env : Environment} {client : Client} {process : Process} {bytes : Bytes}
    {result : Client × Process × List Event}
    (ran : client.receive sodium env process bytes = .ok result) :
    Reads sodium env client process (client.unread bytes) result := by
  have forget : ∀ {other : Client} {arrived : Bytes},
      Reads sodium env other process arrived result →
      other.requestMaster = client.requestMaster →
      Reads sodium env client process arrived result := by
    intro other arrived reads same
    cases reads with
    | none master next events => exact .none (master.trans same) next events
    | message type request rest validation begins known validated master next events =>
        rw [same] at validated
        exact .message type request rest validation begins known validated master next events
  unfold receive onReadyRead at ran
  unfold unread
  dsimp only at ran
  split at ran
  · rename_i first
    rw [if_pos first]
    split at ran
    · cases ran
      exact .none rfl rfl (by simp)
    rename_i type available arrived
    rw [show client.available ++ bytes = type :: available from arrived]
    split at ran
    · cases ran
      exact .none rfl rfl (by simp)
    · have reads := readReply_reads ran
      exact forget reads rfl
  · rename_i later
    rw [if_neg later]
    have reads := readReply_reads ran
    exact forget reads rfl

/-- The client keeps its keys over a reply, and accepts it only after all the
checks. -/
theorem receive_effect {env : Environment} {client : Client} {process : Process} {bytes : Bytes}
    {result : Client × Process × List Event} (role : client.requestMaster.serverSide = false)
    (ran : client.receive sodium env process bytes = .ok result) :
    result.1.requestMaster.ownKeys = client.requestMaster.ownKeys ∧
      result.1.requestMaster.serverSide = false ∧
      result.1.requestMaster.validOwnKeys = client.requestMaster.validOwnKeys ∧
      Effect sodium false client.requestMaster.ownKeys result.2.2 := by
  cases receive_reads ran with
  | none master _ events =>
      rw [master]
      refine ⟨rfl, role, rfl, .plain _ ?_⟩
      intro event member
      rw [events event member]
      trivial
  | message type request rest validation _ known validated master _ events =>
      obtain ⟨own, side, valid, outcome⟩ := RequestMaster.validate_ok known validated
      rw [master, events]
      refine ⟨own, side.trans role, valid, ?_⟩
      rcases outcome with
        ⟨rejected, called⟩ | ⟨accepted, _, _, ⟨sender, accepts⟩, keys, formed, called⟩
      · simp only [rejected, called]
        exact .rejected _ _ _ _
      · simp only [accepted, called, if_true]
        have keysOf := RequestMaster.keysOnReply_ok formed
        rw [own, side, role] at keysOf
        rw [← List.append_nil keys]
        exact .accepted _ _ _ sender _ keys [] accepts keysOf (.inl ⟨rfl, rfl⟩)

theorem onConnected_effect {client : Client} {result : Client × List Event}
    (ran : client.onConnected sodium = .ok result) :
    result.1.requestMaster = client.requestMaster ∧ (∀ event ∈ result.2, event.Plain) := by
  obtain ⟨⟨request, events⟩, formed, ran⟩ := bind_eq_ok.mp ran
  cases ran
  refine ⟨rfl, ?_⟩
  have written : (Event.written request).Plain := trivial
  rcases RequestMaster.form_ok rfl formed with
    ⟨_, rfl⟩ | ⟨secret, epk, esk, keys, _, _, keysFormed, _, rfl⟩
  · simpa using written
  · cases keysFormed
    intro event member
    simp only [List.mem_append, List.mem_singleton] at member
    rcases member with rfl | rfl
    · exact rfl
    · exact written

end Client

end Cscrypto.Gui
