import Cscrypto.Gui.Network

namespace Cscrypto.Gui

open Cscrypto.Base58 Cscrypto.Data Cscrypto.KeyExchange

/-! # What undisturbed delivery does

A message reaches its receiver in any number of segments.  The client collects
a reply over several `readyRead` events and the handler of the server waits for
the whole query, so that in both only the concatenation of the segments counts.
-/

/-- No other thread of the process takes the database connection away. -/
def Alone (env : Environment) : Prop :=
  ∀ (process : Process) (thread : Thread), process.connected thread = true →
    (env.others process).connected thread = true

/-- The database can be opened and its connection stays. -/
structure Undisturbed (env : Environment) : Prop where
  opens : env.opens = true
  alone : Alone env

/-- A connection that is marked as established exists, for this thread. -/
def Linked (thread : Thread) (dbConnectionEstablished : Bool) (process : Process) : Prop :=
  dbConnectionEstablished = true → process.connected thread = true

theorem Undisturbed.usable {env : Environment} {thread : Thread} {process : Process}
    {established : Bool} (undisturbed : Undisturbed env)
    (linked : Linked thread established process) :
    RequestMaster.Usable env thread established process := by
  unfold RequestMaster.Usable RequestMaster.connect
  split
  · rename_i marked
    exact ⟨rfl, undisturbed.alone _ _ (linked marked)⟩
  · exact ⟨undisturbed.opens,
      undisturbed.alone _ _ ((createDbConnection_connected env thread thread process).mpr rfl)⟩

theorem validate_linked {sodium : Sodium} {env : Environment} {master : RequestMaster}
    {process : Process} {type : RequestType} {request : Bytes} {result : Validation}
    (alone : Alone env) (role : master.serverSide = false)
    (linked : Linked .main master.dbConnectionEstablished process)
    (ran : master.validate sodium env process type request = .ok result) :
    Linked .main result.master.dbConnectionEstablished result.process := by
  have connected :
      Linked .main true (env.others (RequestMaster.connection env master process).2) := by
    intro _
    refine alone _ _ ?_
    unfold RequestMaster.connection RequestMaster.connect
    split
    · exact linked ‹_›
    · exact (createDbConnection_connected env _ _ process).mpr
        (RequestMaster.thread_client role env).symm
  have closing : RequestMaster.closing env master process =
      env.others (RequestMaster.connection env master process).2 := by
    simp only [RequestMaster.closing, role, Bool.false_eq_true, if_false]
  cases RequestMaster.validate_validates ran with
  | refused _ => exact linked
  | unopened sender fails =>
      intro established
      rw [RequestMaster.connection, RequestMaster.connect, if_pos established] at fails
      contradiction
  | untrusted sender _ => exact connected
  | unsigned sender exchange signature _ _ =>
      rw [closing]
      exact connected
  | accepted sender exchange signature keys =>
      rw [closing]
      exact connected

namespace Client

variable {sodium : Sodium}

theorem receive_linked {client : Client} {env : Environment} {process : Process} {bytes : Bytes}
    {result : Client × Process × List Event} (alone : Alone env)
    (role : client.requestMaster.serverSide = false)
    (linked : Linked .main client.requestMaster.dbConnectionEstablished process)
    (ran : client.receive sodium env process bytes = .ok result) :
    Linked .main result.1.requestMaster.dbConnectionEstablished result.2.1 := by
  cases receive_reads ran with
  | none master same _ =>
      rw [master, same]
      exact linked
  | message type request rest validation _ _ validated master next _ =>
      rw [master, next]
      exact validate_linked alone role linked validated

theorem onConnected_holding {client : Client} {publicKey : PublicKey} {secret : SecretKey}
    {epk : PubExchangeKey} {esk : ByteArray kSecretExchangeKeySize}
    (valid : client.requestMaster.validOwnKeys = true)
    (own : client.requestMaster.ownKeys = (publicKey, .holding secret))
    (derived : exchangeKeys sodium secret = some (epk, esk)) :
    client.onConnected sodium = .ok ({ client with socket := .connected, serverReqType := unknown },
      [.signed publicKey (signedPart keyExchangeQuery publicKey epk),
        .written (formed sodium keyExchangeQuery publicKey secret epk)]) := by
  rw [onConnected, RequestMaster.form_holding rfl valid own derived]
  rfl

def awaiting (client : Client) (arrived : Bytes) : Client :=
  { client with available := arrived.drop 1, serverReqType := arrived.headD unknown }

def connectedFor (client : Client) (own : KeyPair) : Client :=
  { client.sendKeyExchangeRequest own with socket := .connected }

/-- What has arrived is read as one message, however it was split. -/
theorem receive_of_unread {client : Client} {env : Environment} {process : Process}
    {bytes available : Bytes} {type : RequestType} (different : type ≠ unknown)
    (arrived : client.unread bytes = type :: available) :
    client.receive sodium env process bytes =
      readReply sodium env { client with available, serverReqType := type } process := by
  by_cases first : client.serverReqType = unknown
  · rw [unread, if_pos first] at arrived
    simp only [receive, onReadyRead, if_pos first, arrived, if_neg different]
  · rw [unread, if_neg first] at arrived
    obtain ⟨rfl, rfl⟩ := List.cons.inj arrived
    simp only [receive, onReadyRead, if_neg first]

/-- A message that is refused is also reported. -/
def reported (result : Validation) : List Event :=
  if result.accepted then result.events else result.events ++ [invalidData]

/-- What a validated message leads to. -/
def answered (type : RequestType) (rest : Bytes) (client : Client) (result : Validation) :
    Client × Process × List Event :=
  ({ client with available := rest, requestMaster := result.master, serverReqType := type },
    result.process, reported result)

/-- A message of a type that has a size. -/
theorem receive_known {env : Environment} {client : Client} {process : Process}
    {bytes available : Bytes} {type : RequestType} (known : requestSize type = 128)
    (arrived : client.unread bytes = type :: available) :
    client.receive sodium env process bytes =
      if available.length < 128 then
        .ok ({ client with available, serverReqType := type }, process, [])
      else
        (client.requestMaster.validate sodium env process type (available.take 128)).map
          (client.answered type (available.drop 128)) := by
  rw [receive_of_unread (ne_unknown_of_size known) arrived]
  by_cases short : available.length < 128
  · have few : (available.length : Int) < 128 := by exact_mod_cast short
    simp only [readReply, known, if_pos short, if_pos few]
  · have enough : ¬(available.length : Int) < 128 := by exact_mod_cast short
    simp only [readReply, known, if_neg short, if_neg enough, Int.reduceLT, if_false,
      show Int.toNat 128 = 128 from rfl]
    cases client.requestMaster.validate sodium env process type (available.take 128) <;> rfl

theorem unread_awaiting {client : Client} {arrived bytes message rest : Bytes} {type : RequestType}
    (different : type ≠ unknown) (whole : arrived ++ bytes ++ rest = type :: message) :
    (client.awaiting arrived).unread bytes = arrived ++ bytes := by
  cases arrived with
  | nil => rfl
  | cons head tail =>
      cases whole
      simp only [unread, awaiting, List.headD_cons, if_neg different, List.drop_succ_cons,
        List.drop_zero, List.cons_append]

theorem receive_part {client : Client} {env : Environment} {process : Process}
    {arrived bytes message rest : Bytes} {type : RequestType} (known : requestSize type = 128)
    (whole : arrived ++ bytes ++ rest = type :: message) (short : (arrived ++ bytes).length ≤ 128) :
    (client.awaiting arrived).receive sodium env process bytes =
      .ok (client.awaiting (arrived ++ bytes), process, []) := by
  have gathered := @unread_awaiting client _ _ _ _ _ (ne_unknown_of_size known) whole
  rcases parts : arrived ++ bytes with _ | ⟨head, tail⟩
  · obtain ⟨rfl, rfl⟩ := List.append_eq_nil_iff.mp parts
    rfl
  · rw [parts] at whole short gathered
    cases whole
    rw [List.length_cons] at short
    rw [receive_known known gathered, if_pos (Nat.lt_of_succ_le short)]
    rfl

/-- A message that meets the checks, also with more bytes behind it. -/
theorem receive_message {client : Client} {env : Environment} {process : Process}
    {bytes rest : Bytes} {type : RequestType} {sender : PublicKey} {exchange : PubExchangeKey}
    {signature : Signature} (known : requestSize type = 128)
    (arrived : client.unread bytes =
      type :: (sender.bytes ++ exchange.bytes ++ signature.bytes ++ rest))
    (valid : client.requestMaster.validOwnKeys = true)
    (usable : RequestMaster.Usable env (client.requestMaster.thread env)
      client.requestMaster.dbConnectionEstablished process)
    (trusted : Trusted env.table sender)
    (verified : verifySignature sodium signature sender (signedPart type sender exchange) = true) :
    ∃ master process', master.ownKeys = client.requestMaster.ownKeys ∧
      master.serverSide = client.requestMaster.serverSide ∧ master.exchangePubKey = exchange ∧
      client.receive sodium env process bytes =
        (RequestMaster.keysOnReply sodium master type).map (fun keys =>
          ({ client with available := rest, requestMaster := master, serverReqType := type },
            process', .validating type (sender.bytes ++ exchange.bytes ++ signature.bytes)
              env.table :: keys)) := by
  obtain ⟨master, process', own, role, _, exchanged, validated⟩ :=
    RequestMaster.validate_accepted known valid usable trusted verified
  refine ⟨master, process', own, role, exchanged, ?_⟩
  have length := message_length sender exchange signature
  have enough : ¬(sender.bytes ++ exchange.bytes ++ signature.bytes ++ rest).length < 128 := by
    rw [List.length_append, length]
    omega
  rw [receive_known known arrived, if_neg enough, List.take_left' length, List.drop_left' length,
    validated, map_map]
  rfl

theorem receive_reply {client : Client} {env : Environment} {process : Process} {bytes rest : Bytes}
    {publicKey sender : PublicKey} {secret : SecretKey} {exchange : PubExchangeKey}
    {signature : Signature}
    (arrived : client.unread bytes =
      keyExchangeReply :: (sender.bytes ++ exchange.bytes ++ signature.bytes ++ rest))
    (valid : client.requestMaster.validOwnKeys = true)
    (own : client.requestMaster.ownKeys = (publicKey, .holding secret))
    (role : client.requestMaster.serverSide = false)
    (usable : RequestMaster.Usable env .main client.requestMaster.dbConnectionEstablished process)
    (trusted : Trusted env.table sender)
    (verified : verifySignature sodium signature sender
      (signedPart keyExchangeReply sender exchange) = true) :
    ∃ master process', client.receive sodium env process bytes =
      .ok ({ client with
        available := rest
        requestMaster := master
        serverReqType := keyExchangeReply }, process',
        .validating keyExchangeReply (sender.bytes ++ exchange.bytes ++ signature.bytes)
          env.table ::
          emittedKeys sodium false (publicKey, .holding secret) secret exchange) := by
  rw [← RequestMaster.thread_client role env] at usable
  obtain ⟨master, process', own', role', exchange', received⟩ :=
    receive_message rfl arrived valid usable trusted verified
  refine ⟨master, process', ?_⟩
  have keys : RequestMaster.keysOnReply sodium master keyExchangeReply =
      .ok (emittedKeys sodium false (publicKey, .holding secret) secret exchange) := by
    rw [RequestMaster.keysOnReply, if_pos rfl, RequestMaster.formCommonKeys_holding
      (own'.trans own), role', role, own', own, exchange']
  rw [received, keys]
  rfl

end Client

namespace IncomingConnectionHandler

variable {sodium : Sodium}

theorem waitForBytes_enough {count : Nat} {available : Bytes} {arrivals : List Bytes}
    (enough : count ≤ (available ++ arrivals.flatten).length) :
    ∃ available' arrivals', waitForBytes count available arrivals = some (available', arrivals') ∧
      count ≤ available'.length ∧
      available' ++ arrivals'.flatten = available ++ arrivals.flatten := by
  induction arrivals generalizing available with
  | nil =>
      rw [List.flatten_nil, List.append_nil] at enough
      exact ⟨available, [], by rw [waitForBytes, if_neg (by omega)], enough, rfl⟩
  | cons segment arrivals ih =>
      rw [waitForBytes]
      split
      · rw [List.flatten_cons, ← List.append_assoc] at enough ⊢
        exact ih enough
      · exact ⟨available, segment :: arrivals, rfl, by omega, rfl⟩

/-- However a message is cut into segments, it is handed to `validate` as one. -/
theorem receives_of_flatten {arrivals : List Bytes} {type : RequestType} {request : Bytes}
    (known : requestSize type = 128) (length : request.length = 128)
    (delivered : arrivals.flatten = type :: request) : Receives arrivals type request := by
  -- the type byte arrives, and then the rest of the message
  obtain ⟨first, arrivals', waited, nonempty, split⟩ := @waitForBytes_enough 1 [] arrivals
    (by simp [delivered])
  rw [List.nil_append, delivered] at split
  obtain ⟨head, available, rfl⟩ := List.exists_cons_of_length_pos nonempty
  obtain ⟨rfl, body⟩ := List.cons.inj split
  have rest : available ++ arrivals'.flatten = request := body
  obtain ⟨gathered, others, waited', enough, rest'⟩ :=
    @waitForBytes_enough 128 available arrivals' (by rw [rest, length])
  have same : gathered = request := by
    have fits := congrArg List.length (rest'.trans rest)
    rw [List.length_append, length] at fits
    have nothing : others.flatten = [] := List.eq_nil_of_length_eq_zero (by omega)
    rw [← rest, ← rest', nothing, List.append_nil]
  subst same
  rw [Nat.cast_one] at waited
  rw [Nat.cast_ofNat, ← known] at waited'
  refine ⟨available, arrivals', others, waited, waited', ?_⟩
  rw [known, length]
  rfl

/-- A handler with a private key answers every message that meets the checks. -/
theorem run_valid {env : Environment} (memory : Memory) {process : Process} {arrivals : List Bytes}
    {type : RequestType} {request : Bytes} (publicKey : PublicKey) {sender : PublicKey}
    {secret : SecretKey} {epk exchange : PubExchangeKey} {esk : ByteArray kSecretExchangeKeySize}
    (valid : Valid sodium env process arrivals type request sender exchange)
    (derived : exchangeKeys sodium secret = some (epk, esk)) :
    ∃ process' keys,
      RequestMaster.KeysOf sodium true (publicKey, .holding secret) type exchange keys ∧
      run sodium env (publicKey, .holding secret) memory process arrivals = .ok ⟨process',
        .validating type request env.table :: (keys ++
          .signed publicKey (signedPart keyExchangeReply publicKey epk) ::
            (emittedKeys sodium true (publicKey, .holding secret) secret exchange ++
              [.written (formed sodium keyExchangeReply publicKey secret epk)]))⟩ := by
  obtain ⟨attached, usable, received, _, trusted, signature, rfl, verified⟩ := valid
  generalize made : RequestMaster.mk memory.senderPubKey memory.exchangePubKey memory.signature
    (publicKey, .holding secret) true true false = master
  have own : master.ownKeys = (publicKey, .holding secret) := by rw [← made]
  have server : master.serverSide = true := by rw [← made]
  have ready : master.validOwnKeys = true := by rw [← made]
  have unconnected : master.dbConnectionEstablished = false := by rw [← made]
  rw [← unconnected, ← RequestMaster.thread_server server env] at usable
  obtain ⟨master', process', own', server', ready', exchange', validated⟩ :=
    RequestMaster.validate_accepted received.known ready usable trusted verified
  have derives : ∀ type, RequestMaster.keysOnReply sodium master' type =
      .ok (if type = keyExchangeReply then
        emittedKeys sodium true (publicKey, .holding secret) secret exchange else []) := by
    intro type
    rw [RequestMaster.keysOnReply, RequestMaster.formCommonKeys_holding (own'.trans own),
      server', server, own', own, exchange']
    split <;> rfl
  have keysOf := RequestMaster.keysOnReply_ok (derives type)
  rw [server', server, own', own, exchange'] at keysOf
  have reply : sendReply sodium master' =
      .ok (.signed publicKey (signedPart keyExchangeReply publicKey epk) ::
      (emittedKeys sodium true (publicKey, .holding secret) secret exchange ++
        [.written (formed sodium keyExchangeReply publicKey secret epk)])) := by
    rw [sendReply, RequestMaster.form_holding rfl ready' (own'.trans own) derived, derives]
    rfl
  refine ⟨process', _, keysOf, ?_⟩
  rw [derives] at validated
  simp only [run, made, attached, Bool.not_true, Bool.false_eq_true, if_false,
    readRequest_receives received, validated, Except.map, if_true, ok_bind, reply, pure_eq_ok,
    List.cons_append]

theorem run_query {env : Environment} (memory : Memory) (process : Process) {arrivals : List Bytes}
    (publicKey : PublicKey) {sender : PublicKey} {secret : SecretKey}
    {epk exchange : PubExchangeKey} {esk : ByteArray kSecretExchangeKeySize}
    {signature : Signature}
    (delivered : arrivals.flatten =
      keyExchangeQuery :: (sender.bytes ++ exchange.bytes ++ signature.bytes))
    (derived : exchangeKeys sodium secret = some (epk, esk))
    (undisturbed : Undisturbed env) (attached : env.attached = true)
    (trusted : Trusted env.table sender)
    (verified : verifySignature sodium signature sender
      (signedPart keyExchangeQuery sender exchange) = true) :
    ∃ process', run sodium env (publicKey, .holding secret) memory process arrivals = .ok ⟨process',
      .validating keyExchangeQuery (sender.bytes ++ exchange.bytes ++ signature.bytes) env.table ::
        .signed publicKey (signedPart keyExchangeReply publicKey epk) ::
          (emittedKeys sodium true (publicKey, .holding secret) secret exchange ++
            [.written (formed sodium keyExchangeReply publicKey secret epk)])⟩ := by
  have length := message_length sender exchange signature
  have valid : Valid sodium env process arrivals keyExchangeQuery
      (sender.bytes ++ exchange.bytes ++ signature.bytes) sender exchange :=
    ⟨attached, undisturbed.usable (fun marked => absurd marked Bool.false_ne_true),
      receives_of_flatten rfl length delivered, length, trusted, signature, rfl, verified⟩
  obtain ⟨process', keys, keysOf, ran⟩ := run_valid memory publicKey valid derived
  rcases keysOf with ⟨_, rfl⟩ | ⟨reply, _⟩
  · exact ⟨process', ran⟩
  · contradiction

end IncomingConnectionHandler

theorem emittedKeys_of_commonKeys {sodium : Sodium} {serverSide : Bool} {own : KeyPair}
    {secret : SecretKey} {peer : PubExchangeKey} {send receive : Bytes}
    (common : commonKeys sodium serverSide secret peer = some (send, receive)) :
    emittedKeys sodium serverSide own secret peer = [.emitted own send receive] := by
  rw [emittedKeys, common]

def deliver (name : Nat) (piece : Environment × Bytes) : Action := ⟨name, .receive piece.1 piece.2⟩

namespace World

variable {sodium : Sodium} {name : Nat}

theorem step_part {world : World} {client : Client} {env : Environment}
    {arrived bytes message rest : Bytes} {type : RequestType}
    (running : (world.nodes name).crashed = false)
    (waiting : (world.nodes name).client = client.awaiting arrived)
    (socket : client.socket = .connected) (known : requestSize type = 128)
    (whole : arrived ++ bytes ++ rest = type :: message)
    (short : (arrived ++ bytes).length ≤ 128) :
    (world.step sodium (deliver name (env, bytes))).nodes name =
        { world.nodes name with client := client.awaiting (arrived ++ bytes) } ∧
      (world.step sodium (deliver name (env, bytes))).log = world.log := by
  have connected : (world.nodes name).client.socket = .connected := by
    rw [waiting]
    exact socket
  have received : (world.nodes name).client.receive sodium env (world.nodes name).process bytes =
      .ok (client.awaiting (arrived ++ bytes), (world.nodes name).process, []) := by
    rw [waiting]
    exact Client.receive_part known whole short
  obtain ⟨node, _, log⟩ := step_ok running (Node.step_receive connected received)
  exact ⟨node, log.trans (List.append_nil _)⟩

theorem run_silent {world : World} {client : Client} {pieces : List (Environment × Bytes)}
    (running : (world.nodes name).crashed = false)
    (waiting : (world.nodes name).client = client.awaiting [keyExchangeReply])
    (socket : client.socket = .connected) (silent : (pieces.map Prod.snd).flatten = []) :
    (world.run sodium (pieces.map (deliver name))).log = world.log := by
  induction pieces generalizing world with
  | nil => rfl
  | cons piece rest ih =>
      obtain ⟨env, bytes⟩ := piece
      rw [List.map_cons, List.flatten_cons, List.append_eq_nil_iff] at silent
      obtain ⟨rfl, silent⟩ := silent
      have whole : [keyExchangeReply] ++ [] ++ [] = keyExchangeReply :: [] := rfl
      obtain ⟨node, log⟩ : _ ∧ (world.step sodium (deliver name (env, []))).log = world.log :=
        step_part running waiting socket rfl whole (by decide)
      rw [List.map_cons, run, List.foldl_cons, ← log]
      refine ih ?_ ?_ silent
      · rw [node]
        exact running
      · rw [node]
        rfl

/-- The client accepts a reply that arrives in any number of pieces. -/
theorem run_pieces {world : World} {client : Client} {pieces : List (Environment × Bytes)}
    {arrived : Bytes} {publicKey sender : PublicKey} {secret : SecretKey}
    {exchange : PubExchangeKey} {signature : Signature}
    (running : (world.nodes name).crashed = false)
    (waiting : (world.nodes name).client = client.awaiting arrived)
    (socket : client.socket = .connected) (valid : client.requestMaster.validOwnKeys = true)
    (own : client.requestMaster.ownKeys = (publicKey, .holding secret))
    (role : client.requestMaster.serverSide = false)
    (linked : Linked .main client.requestMaster.dbConnectionEstablished (world.nodes name).process)
    (every : ∀ piece ∈ pieces, Undisturbed piece.1 ∧ Trusted piece.1.table sender)
    (verified : verifySignature sodium signature sender
      (signedPart keyExchangeReply sender exchange) = true)
    (short : arrived.length ≤ 128)
    (whole : arrived ++ (pieces.map Prod.snd).flatten =
      keyExchangeReply :: (sender.bytes ++ exchange.bytes ++ signature.bytes)) :
    ∃ piece ∈ pieces, (world.run sodium (pieces.map (deliver name))).log = world.log ++
      (.validating keyExchangeReply (sender.bytes ++ exchange.bytes ++ signature.bytes)
        piece.1.table ::
        emittedKeys sodium false (publicKey, .holding secret) secret exchange).map
          (Entry.mk (.client name)) := by
  have length :
      (keyExchangeReply :: (sender.bytes ++ exchange.bytes ++ signature.bytes)).length = 129 := by
    rw [List.length_cons, message_length]
  induction pieces generalizing world arrived with
  | nil =>
      rw [List.map_nil, List.flatten_nil, List.append_nil] at whole
      rw [whole] at short
      omega
  | cons piece rest ih =>
      obtain ⟨env, bytes⟩ := piece
      obtain ⟨undisturbed, trusted⟩ := every (env, bytes) List.mem_cons_self
      rw [List.map_cons, List.flatten_cons, ← List.append_assoc] at whole
      rw [List.map_cons, run, List.foldl_cons]
      by_cases incomplete : (arrived ++ bytes).length ≤ 128
      · obtain ⟨node, log⟩ : _ ∧ (world.step sodium (deliver name (env, bytes))).log = world.log :=
          step_part running waiting socket rfl whole incomplete
        have running' := (congrArg Node.crashed node).trans running
        have linked' : Linked .main client.requestMaster.dbConnectionEstablished
            ((world.step sodium (deliver name (env, bytes))).nodes name).process := by
          rw [node]
          exact linked
        obtain ⟨piece, member, log'⟩ := ih running' (congrArg Node.client node) linked'
          (fun other inside => every other (List.mem_cons_of_mem _ inside)) incomplete whole
        rw [log] at log'
        exact ⟨piece, List.mem_cons_of_mem _ member, log'⟩
      · have silent : (rest.map Prod.snd).flatten = [] := by
          have fits : (arrived ++ bytes).length + (rest.map Prod.snd).flatten.length = 129 := by
            rw [← List.length_append, whole, length]
          exact List.eq_nil_of_length_eq_zero (by omega)
        rw [silent, List.append_nil] at whole
        have connected : (world.nodes name).client.socket = .connected := by
          rw [waiting]
          exact socket
        have gathered : (client.awaiting arrived).unread bytes =
            keyExchangeReply :: (sender.bytes ++ exchange.bytes ++ signature.bytes ++ []) := by
          have whole' : arrived ++ bytes ++ [] = _ := (List.append_nil _).trans whole
          rw [Client.unread_awaiting (by decide) whole', whole, List.append_nil]
        obtain ⟨master, process', received⟩ := Client.receive_reply gathered valid own role
          (undisturbed.usable linked) trusted verified
        rw [← waiting] at received
        refine ⟨(env, bytes), List.mem_cons_self, ?_⟩
        obtain ⟨node, _, log⟩ := step_ok running (Node.step_receive connected received)
        have running' := (congrArg Node.crashed node).trans running
        have settled : ((world.step sodium (deliver name (env, bytes))).nodes name).client =
            Client.awaiting { (world.nodes name).client with requestMaster := master } [keyExchangeReply] :=
          congrArg Node.client node
        exact (run_silent running' settled connected silent).trans log

theorem step_connected {world : World} {previous : Client} {publicKey : PublicKey}
    {secret : SecretKey} {epk : PubExchangeKey} {esk : ByteArray kSecretExchangeKeySize}
    (running : (world.nodes name).crashed = false)
    (asked : (world.nodes name).client =
      previous.sendKeyExchangeRequest (publicKey, .holding secret))
    (derived : exchangeKeys sodium secret = some (epk, esk)) :
    (world.step sodium ⟨name, .connected⟩).nodes name = { world.nodes name with
        client := (previous.connectedFor (publicKey, .holding secret)).awaiting [] } ∧
      (∀ other, other ≠ name →
        (world.step sodium ⟨name, .connected⟩).nodes other = world.nodes other) ∧
      (world.step sodium ⟨name, .connected⟩).log = world.log ++
        [⟨.client name, .signed publicKey (signedPart keyExchangeQuery publicKey epk)⟩,
          ⟨.client name, .written (formed sodium keyExchangeQuery publicKey secret epk)⟩] := by
  have connected : (world.nodes name).client.onConnected sodium =
      .ok ((previous.connectedFor (publicKey, .holding secret)).awaiting [],
        [.signed publicKey (signedPart keyExchangeQuery publicKey epk),
          .written (formed sodium keyExchangeQuery publicKey secret epk)]) := by
    rw [asked]
    exact Client.onConnected_holding rfl rfl derived
  have ran : (world.nodes name).step sodium .connected = .ok ({ world.nodes name with
      client := (previous.connectedFor (publicKey, .holding secret)).awaiting [] },
        [.signed publicKey (signedPart keyExchangeQuery publicKey epk),
          .written (formed sodium keyExchangeQuery publicKey secret epk)]) := by
    rw [Node.step, if_pos (by rw [asked]; rfl), connected]
    rfl
  exact step_ok running ran

theorem step_query {world : World} {env : Environment} (memory : Memory) {arrivals : List Bytes}
    {publicKey sender : PublicKey} {secret : SecretKey} {epk exchange : PubExchangeKey}
    {esk : ByteArray kSecretExchangeKeySize} {signature : Signature}
    (running : (world.nodes name).crashed = false)
    (serving : (world.nodes name).server = some (publicKey, .holding secret))
    (delivered : arrivals.flatten =
      keyExchangeQuery :: (sender.bytes ++ exchange.bytes ++ signature.bytes))
    (derived : exchangeKeys sodium secret = some (epk, esk))
    (undisturbed : Undisturbed env) (attached : env.attached = true)
    (trusted : Trusted env.table sender)
    (verified : verifySignature sodium signature sender
      (signedPart keyExchangeQuery sender exchange) = true) :
    (∀ other, other ≠ name →
        (world.step sodium ⟨name, .incoming env memory arrivals⟩).nodes other = world.nodes other) ∧
      (world.step sodium ⟨name, .incoming env memory arrivals⟩).log = world.log ++
        (.validating keyExchangeQuery (sender.bytes ++ exchange.bytes ++ signature.bytes)
          env.table ::
          .signed publicKey (signedPart keyExchangeReply publicKey epk) ::
            (emittedKeys sodium true (publicKey, .holding secret) secret exchange ++
              [.written (formed sodium keyExchangeReply publicKey secret epk)])).map
          (Entry.mk (.handler name (world.nodes name).handlers)) := by
  obtain ⟨process, ran⟩ := IncomingConnectionHandler.run_query memory
    (world.nodes name).process publicKey delivered derived undisturbed attached trusted verified
  generalize answered : Event.validating keyExchangeQuery _ env.table :: _ = events at ran ⊢
  have stepped : (world.nodes name).step sodium (.incoming env memory arrivals) =
      .ok ({ world.nodes name with
      handlers := (world.nodes name).handlers + 1
      process := process
      widget := events.foldl (Node.notify "Server error: ") (world.nodes name).widget },
      events) := by
    simp only [Node.step, serving, ran]
    rfl
  exact (step_ok running stepped).2

end World

def SignsFor (sodium : Sodium) (publicKey : PublicKey) (secret : SecretKey) : Prop :=
  ∀ message, verifySignature sodium (sodium.signDetached secret message) publicKey message = true

def uses (name : Nat) (events : List WidgetEvent) : List Action :=
  events.map (fun event => ⟨name, .widget event⟩)

def asksForExchange (own : KeyPair) (record : Record) : List WidgetEvent :=
  [.addKeyPair own, .setOwnKey 0, .inspectKeyIdText (some record), .hostNameEnterDialog,
    .setHostName "peer", .sendKeyExchangeRequest]

def offersExchange (own : KeyPair) : List WidgetEvent :=
  [.addKeyPair own, .setOwnKey 0, .enableIncomingConnections]

theorem transparent_signsFor (secret : SecretKey) :
    SignsFor Sodium.transparent (Sodium.publicOf secret) secret := fun _ => decide_eq_true rfl

def trustedRecord (key : PublicKey) : Record := ⟨1, EncodeBase58 key.bytes, "yes"⟩

def trusting (keys : List PublicKey) : Environment where
  handler := 0
  random := 7
  opens := true
  others := id
  table := some (keys.map trustedRecord)
  attached := true
  errorString := ""

theorem trusting_trusted {keys : List PublicKey} {key : PublicKey} (member : key ∈ keys) :
    Trusted (trusting keys).table key := by
  refine ⟨_, rfl, isTrusted_of_forall ⟨_, List.mem_map_of_mem member, rfl⟩ ?_⟩
  intro record inside _
  obtain ⟨_, _, rfl⟩ := List.mem_map.mp inside
  rfl

theorem trusting_undisturbed (keys : List PublicKey) : Undisturbed (trusting keys) where
  opens := rfl
  alone _ _ := id

def someMemory : Memory := ⟨.replicate _ 0, .replicate _ 0, .replicate _ 0⟩

def clientSecret : SecretKey := .replicate _ 1
def serverSecret : SecretKey := .replicate _ 2

def otherSecret : SecretKey := .replicate _ 3

def exchangeOf (secret : SecretKey) : PubExchangeKey := Sodium.checksum (Sodium.seedOf secret).bytes

theorem exchangeKeys_transparent (secret : SecretKey) :
    exchangeKeys Sodium.transparent secret = some (exchangeOf secret, Sodium.seedOf secret) := rfl

def bodyOf (secret : SecretKey) (type : RequestType) : Bytes :=
  (Sodium.publicOf secret).bytes ++ (exchangeOf secret).bytes ++
    (Sodium.transparent.signDetached secret
      (signedPart type (Sodium.publicOf secret) (exchangeOf secret))).bytes

def sentBy (secret : SecretKey) (type : RequestType) : Bytes :=
  formed Sodium.transparent type (Sodium.publicOf secret) secret (exchangeOf secret)

theorem sentBy_cons (secret : SecretKey) (type : RequestType) :
    sentBy secret type = type :: bodyOf secret type :=
  formed_cons _ _ _ _ _

def segments (size : Nat) (message : Bytes) : List Bytes := [message.take size, message.drop size]

theorem segments_flatten (size : Nat) (message : Bytes) :
    (segments size message).flatten = message := by
  rw [segments, List.flatten_cons, List.flatten_singleton, List.take_append_drop]

theorem bodyOf_accepts {secret : SecretKey} {type : RequestType} {keys : List PublicKey}
    (member : Sodium.publicOf secret ∈ keys) :
    Accepts Sodium.transparent (trusting keys).table type (bodyOf secret type)
      (Sodium.publicOf secret) (exchangeOf secret) :=
  ⟨message_length _ _ _, trusting_trusted member, _, rfl, transparent_signsFor _ _⟩

end Cscrypto.Gui
