import Cscrypto.Gui.Segmentation

namespace Cscrypto.Gui

open Cscrypto.Data

/-! # Database connections of incoming requests

Every handler of the server asks the database over a connection of its own.
The connection is registered in the middle of `validate` and removed only when
the sender was found.
-/

/-- One incoming connection: what its handler meets, and what the peer sends.
No other thread of the process runs meanwhile. -/
structure Incoming where
  handler : Nat
  random : Int
  opens : Bool
  table : Option Table
  attached : Bool
  errorString : String
  memory : Memory
  arrivals : List Bytes

def Incoming.env (incoming : Incoming) : Environment where
  handler := incoming.handler
  random := incoming.random
  opens := incoming.opens
  others := id
  table := incoming.table
  attached := incoming.attached
  errorString := incoming.errorString

namespace IncomingConnectionHandler

variable {sodium : Sodium}

/-- The process changes only in the call of `validate`. -/
theorem run_process {env : Environment} {ownKeys : KeyPair} {memory : Memory} {process : Process}
    {arrivals : List Bytes} {outcome : Outcome}
    (ran : run sodium env ownKeys memory process arrivals = .ok outcome) :
    ((∀ type request, env.attached = true → ¬Receives arrivals type request) ∧
        outcome.process = process) ∨
      ∃ type request result, env.attached = true ∧ Receives arrivals type request ∧
        RequestMaster.validate sodium env ⟨memory.senderPubKey, memory.exchangePubKey,
          memory.signature, ownKeys, true, true, false⟩ process type request = .ok result ∧
        outcome.process = result.process := by
  unfold run at ran
  dsimp only at ran
  split at ran
  · rename_i detached
    cases ran
    refine .inl ⟨?_, rfl⟩
    intro _ _ attached
    rw [attached] at detached
    contradiction
  rename_i attached
  have ready : env.attached = true := by simpa using attached
  obtain ⟨⟨read, outcome'⟩, reading, ran⟩ := bind_eq_ok.mp ran
  have same : outcome.process = outcome'.process := by
    cases read with
    | none =>
        cases ran
        rfl
    | some master =>
        obtain ⟨events, _, ran⟩ := bind_eq_ok.mp ran
        cases ran
        rfl
  by_cases received : ∃ type request, Receives arrivals type request
  · obtain ⟨type, request, received⟩ := received
    rw [readRequest_receives received] at reading
    cases validated : RequestMaster.validate sodium env ⟨memory.senderPubKey,
        memory.exchangePubKey, memory.signature, ownKeys, true, true, false⟩ process type
        request with
    | error fault =>
        rw [validated] at reading
        contradiction
    | ok result =>
        refine .inr ⟨type, request, result, ready, received, validated, ?_⟩
        rw [validated, map_ok] at reading
        rw [same]
        split at reading <;> cases reading <;> rfl
  · refine .inl ⟨fun type request _ found => received ⟨type, request, found⟩, ?_⟩
    rw [same]
    cases readRequest_reads reading with
    | failed message => rfl
    | rejected type request result found => exact absurd ⟨type, request, found⟩ received
    | accepted type request result found => exact absurd ⟨type, request, found⟩ received

variable (sodium : Sodium) in
/-- The handlers of a server run one after another. -/
def handle (ownKeys : KeyPair) (process : Process) (incoming : Incoming) : Except Fault Process :=
  (run sodium incoming.env ownKeys incoming.memory process incoming.arrivals).map Outcome.process

/-- The handler gets as far as `closeDb`: the file opens, and the sender is a
trusted key. -/
def Closes (incoming : Incoming) (request : Bytes) : Prop :=
  incoming.opens = true ∧ ∃ sender, copyArray kPublicKeySize request 0 = .ok sender ∧
    Trusted incoming.table sender

/-- A message that reaches the database is from a trusted sender and gets a
fresh connection name, or it is refused and the name was taken already. -/
def Harmless (process : Process) (incoming : Incoming) : Prop :=
  ∀ type request, incoming.attached = true → Receives incoming.arrivals type request →
    (Closes incoming request ↔ incoming.random ∉ process.connections)

def SameConnections (before after : Process) : Prop :=
  ∀ name, name ∈ after.connections ↔ name ∈ before.connections

theorem sameConnections_opened {process : Process} {name : Int} {owner : Int → Thread} :
    SameConnections process ⟨some name, name :: process.connections, owner⟩ ↔
      name ∈ process.connections := by
  constructor
  · intro same
    exact (same name).mp List.mem_cons_self
  · intro taken other
    constructor
    · intro inside
      rcases List.mem_cons.mp inside with rfl | inside
      · exact taken
      · exact inside
    · exact List.mem_cons_of_mem name

theorem sameConnections_closed {process : Process} {name : Int} {owner : Int → Thread} :
    SameConnections process (closeDb ⟨some name, name :: process.connections, owner⟩) ↔
      name ∉ process.connections := by
  have mem_closed (other : Int) :
      other ∈ (closeDb ⟨some name, name :: process.connections, owner⟩).connections ↔
        other ≠ name ∧ other ∈ process.connections := by
    rw [closeDb, List.mem_filter, List.mem_cons, decide_eq_true_eq]
    tauto
  constructor
  · intro same taken
    exact ((mem_closed name).mp ((same name).mpr taken)).1 rfl
  · intro free other
    rw [mem_closed]
    constructor
    · exact And.right
    · intro inside
      exact ⟨fun equal => free (equal ▸ inside), inside⟩

theorem validate_sameConnections_iff {incoming : Incoming} {master : RequestMaster}
    {process : Process} {type : RequestType} {request : Bytes} {result : Validation}
    (valid : master.validOwnKeys = true) (server : master.serverSide = true)
    (unmarked : master.dbConnectionEstablished = false)
    (size : request.length = sizeT (requestSize type))
    (ran : master.validate sodium incoming.env process type request = .ok result) :
    SameConnections process result.process ↔
      (Closes incoming request ↔ incoming.random ∉ process.connections) := by
  obtain ⟨sender, copied, paths⟩ := RequestMaster.validate_process valid size ran
  have connects : RequestMaster.connection incoming.env master process =
      (incoming.opens, ⟨some incoming.random, incoming.random :: process.connections,
        Function.update process.owner incoming.random (master.thread incoming.env)⟩) := by
    rw [RequestMaster.connection, unmarked]
    rfl
  have closes : Closes incoming request ↔ incoming.opens = true ∧ Trusted incoming.table sender := by
    rw [Closes, copied]
    simp
  rw [connects] at paths
  dsimp only at paths
  rw [closes]
  rcases paths with ⟨unopened, left⟩ | ⟨opened, left⟩
  · rw [left, sameConnections_opened]
    simp [unopened]
  · have found : verifySenderPublicKey incoming.env.table (master.thread incoming.env)
        (incoming.env.others ⟨some incoming.random, incoming.random :: process.connections,
          Function.update process.owner incoming.random (master.thread incoming.env)⟩) sender =
          true ↔ Trusted incoming.table sender := by
      rw [verifySenderPublicKey_eq_true]
      simp [Process.connected, Incoming.env]
    have closed : RequestMaster.closing incoming.env master process = closeDb
        ⟨some incoming.random, incoming.random :: process.connections,
          Function.update process.owner incoming.random (master.thread incoming.env)⟩ := by
      rw [RequestMaster.closing, connects, server]
      rfl
    by_cases trusted : Trusted incoming.table sender
    · rw [left, if_pos (found.mpr trusted), closed, sameConnections_closed]
      simp [opened, trusted]
    · rw [left, if_neg (fun verified => trusted (found.mp verified))]
      refine sameConnections_opened.trans ?_
      simp [trusted]

/-- One handler, for every content and every way in which it ends. -/
theorem handle_sameConnections_iff {ownKeys : KeyPair} {process next : Process}
    {incoming : Incoming} (handled : handle sodium ownKeys process incoming = .ok next) :
    SameConnections process next ↔ Harmless process incoming := by
  obtain ⟨outcome, ran, rfl⟩ := map_eq_ok.mp handled
  rcases run_process ran with
    ⟨silent, left⟩ | ⟨type, request, result, attached, received, validated, left⟩
  · constructor
    · intro _ type request attached received
      exact absurd received (silent type request attached)
    · intro _ name
      rw [left]
  · have size : request.length = sizeT (requestSize type) := by
      rw [received.length, received.known]
      rfl
    rw [left, validate_sameConnections_iff rfl rfl rfl size validated]
    constructor
    · intro closes type' request' _ received'
      obtain ⟨_, rfl⟩ := received.unique received'
      exact closes
    · intro harmless
      exact harmless type request attached received

/-- Over every sequence of incoming connections, the connections stay as each
handler found them exactly if every handler is harmless. -/
theorem connections_kept_iff {ownKeys : KeyPair} {process : Process} {handlers : List Incoming} :
    EveryStep (handle sodium ownKeys)
        (fun before incoming => ∀ after, handle sodium ownKeys before incoming = .ok after →
          SameConnections before after) process handlers ↔
      EveryStep (handle sodium ownKeys)
        (fun before incoming => ∀ after, handle sodium ownKeys before incoming = .ok after →
          Harmless before incoming) process handlers := by
  apply everyStep_congr
  intro before incoming
  exact forall₂_congr fun after handled => handle_sameConnections_iff handled

/-- A correct query, from a sender that the table does not hold. -/
def strangerQuery : Incoming where
  handler := 0
  random := 7
  opens := true
  table := some []
  attached := true
  errorString := ""
  memory := someMemory
  arrivals := [sentBy clientSecret keyExchangeQuery]

theorem strangerQuery_untrusted (sender : PublicKey) : ¬Trusted strangerQuery.table sender := by
  intro given
  obtain ⟨records, listed, trusted⟩ := given
  cases listed
  exact Bool.false_ne_true trusted

theorem strangerQuery_received :
    Receives strangerQuery.arrivals keyExchangeQuery (bodyOf clientSecret keyExchangeQuery) := by
  rw [strangerQuery, sentBy_cons]
  exact receives_first rfl (message_length _ _ _)

/-- The stranger is refused, and connection 7 stays registered. -/
theorem stranger_leaks_connection :
    ¬∀ (sodium : Sodium) (ownKeys : KeyPair) (process : Process) (handlers : List Incoming),
      EveryStep (handle sodium ownKeys)
        (fun before incoming => ∀ after, handle sodium ownKeys before incoming = .ok after →
          SameConnections before after) process handlers := by
  intro kept
  have first := (kept .transparent (Sodium.publicOf serverSecret, .holding serverSecret) .fresh
    [strangerQuery]).1
  have refused : served .transparent strangerQuery.env
      (Sodium.publicOf serverSecret, .holding serverSecret) strangerQuery.memory .fresh
      strangerQuery.arrivals = .ok (false, false) :=
    served_invalid (fun _ _ sender _ valid =>
      strangerQuery_untrusted sender valid.accepts.trusted)
  obtain ⟨outcome, ran, _⟩ := map_eq_ok.mp refused
  have handled : handle .transparent (Sodium.publicOf serverSecret, .holding serverSecret) .fresh
      strangerQuery = .ok outcome.process := map_eq_ok.mpr ⟨outcome, ran, rfl⟩
  have harmless := (handle_sameConnections_iff handled).mp (first outcome.process handled)
  obtain ⟨_, sender, _, trusted⟩ :=
    (harmless _ _ rfl strangerQuery_received).mpr List.not_mem_nil
  exact strangerQuery_untrusted sender trusted

end IncomingConnectionHandler

end Cscrypto.Gui
