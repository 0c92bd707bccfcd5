import Cscrypto.Gui.Database
import Cscrypto.Gui.KeyListModel
import Cscrypto.KeyExchange.SessionKeys

namespace Cscrypto.Gui

open Cscrypto.Base58 Cscrypto.KeyExchange

/-! # Forming and validating messages

`RequestMaster` builds and checks the messages of the key exchange.  Its
functions also return what an observer of the process sees: messages handed to
`validate`, messages signed, and common keys handed to the user.
-/

abbrev RequestType := Byte

abbrev keyExchangeQuery : RequestType := 0
abbrev keyExchangeReply : RequestType := 1
abbrev dataTransfer : RequestType := 2
abbrev unknown : RequestType := 3

inductive Event where
  | validating (type : RequestType) (request : Bytes) (table : Option Table)
  | signed (publicKey : PublicKey) (message : Bytes)
  | emitted (own : KeyPair) (b58SendSk b58ReceiveSk : Bytes)
  | written (bytes : Bytes)
  | error (message : String)
  | requested (importedKey : Bytes)

/-- The members `senderPubKey_`, `exchangePubKey_` and `signature_` hold
whatever was in memory until `validate` writes them. -/
structure RequestMaster where
  senderPubKey : PublicKey
  exchangePubKey : PubExchangeKey
  signature : Signature
  ownKeys : KeyPair
  serverSide : Bool
  validOwnKeys : Bool
  dbConnectionEstablished : Bool

/-- The members that a new request master does not initialise. -/
structure Memory where
  senderPubKey : PublicKey
  exchangePubKey : PubExchangeKey
  signature : Signature

def sizeT (value : Int) : Nat := (value % 2 ^ 64).toNat

/-- A message after its type byte: sender key, exchange key and signature. -/
def requestSize (type : RequestType) : Int :=
  if type ≠ keyExchangeQuery ∧ type ≠ keyExchangeReply then -1
  else kPublicKeySize + kPubExchangeKeySize + kSignatureSize

theorem ne_unknown_of_size {type : RequestType} (known : requestSize type = 128) :
    type ≠ unknown := by
  intro same
  subst same
  contradiction

structure Validation where
  accepted : Bool
  master : RequestMaster
  process : Process
  events : List Event

namespace RequestMaster

variable (sodium : Sodium)

def setOwnKeys (master : RequestMaster) (ownKeys : KeyPair) : RequestMaster :=
  { master with ownKeys, validOwnKeys := true }

/-- `emit newCommonSecretKeyPair(send, receive)`; the receive key is the first
of each pair. -/
def formCommonKeys (master : RequestMaster) : Except Fault (List Event) := do
  let (derived, secretKeys) ←
    if master.serverSide then
      getServerSessionKeys sodium newKeys master.ownKeys.2 master.exchangePubKey
    else
      getClientSessionKeys sodium newKeys master.ownKeys.2 master.exchangePubKey
  if derived then
    let send ← secretKeys.2.read
    let receive ← secretKeys.1.read
    return [.emitted master.ownKeys (EncodeBase58 send.bytes) (EncodeBase58 receive.bytes)]
  else return []

def keysOnReply (master : RequestMaster) (type : RequestType) : Except Fault (List Event) :=
  if type = keyExchangeReply then formCommonKeys sodium master else .ok []

def form (master : RequestMaster) (reqType : RequestType) : Except Fault (Bytes × List Event) :=
  if !master.validOwnKeys then .ok ([], [])
  else do
    let result := List.replicate ((sizeT (requestSize reqType) + 1) % 2 ^ 64) 0
    let result ← copyInto result 0 [reqType]
    let curPos := 1
    let result ← copyInto result curPos master.ownKeys.1.bytes
    let curPos := curPos + kPublicKeySize
    match ← getPubExchangeKey sodium master.ownKeys.2 with
    | none => return ([], [])
    | some ownExchangeKey =>
        let result ← copyInto result curPos ownExchangeKey.bytes
        let curPos := curPos + kPubExchangeKeySize
        let message := result.take (result.length - kSignatureSize)
        let signature ← generateSignature sodium master.ownKeys.2 message
        let result ← copyInto result curPos signature.bytes
        let keys ← keysOnReply sodium master reqType
        return (result, .signed master.ownKeys.1 message :: keys)

def checkRequestSignature (master : RequestMaster) (msg : Bytes) : Bool :=
  verifySignature sodium master.signature master.senderPubKey msg

/-- The client asks in the GUI thread, and a handler in the thread that it is. -/
def thread (master : RequestMaster) (env : Environment) : Thread :=
  if master.serverSide then .handler env.handler else .main

def connect (env : Environment) (thread : Thread) (dbConnectionEstablished : Bool)
    (process : Process) : Bool × Process :=
  if dbConnectionEstablished then (true, process) else createDbConnection env thread process

abbrev connection (env : Environment) (master : RequestMaster) (process : Process) :
    Bool × Process :=
  connect env (master.thread env) master.dbConnectionEstablished process

/-- The sender key is stored before the database is asked, the other two parts
after it. -/
def validate (env : Environment) (master : RequestMaster) (process : Process) (type : RequestType)
    (request : Bytes) : Except Fault Validation :=
  let call := Event.validating type request env.table
  let thread := master.thread env
  if !master.validOwnKeys then .ok ⟨false, master, process, [call]⟩
  else if request.length ≠ sizeT (requestSize type) then .ok ⟨false, master, process, [call]⟩
  else do
    let senderPubKey ← copyArray kPublicKeySize request 0
    let master := { master with senderPubKey }
    let connection := connect env thread master.dbConnectionEstablished process
    if !connection.1 then return ⟨false, master, connection.2, [call]⟩
    else
      let master := { master with dbConnectionEstablished := true }
      let process := env.others connection.2
      if !verifySenderPublicKey env.table thread process master.senderPubKey then
        return ⟨false, master, process, [call]⟩
      else
        let process := if master.serverSide then closeDb process else process
        let exchangePubKey ← copyArray kPubExchangeKeySize request kPublicKeySize
        let signature ← copyArray kSignatureSize request (kPublicKeySize + kPubExchangeKeySize)
        let master := { master with exchangePubKey, signature }
        let signedMessage := type :: request.take (request.length - kSignatureSize)
        if !checkRequestSignature sodium master signedMessage then
          return ⟨false, master, process, [call]⟩
        else
          let keys ← keysOnReply sodium master type
          return ⟨true, master, process, call :: keys⟩

end RequestMaster

def commonKeys (sodium : Sodium) (serverSide : Bool) (secret : SecretKey) (peer : PubExchangeKey) :
    Option (Bytes × Bytes) :=
  ((exchangeKeys sodium secret).bind (fun (epk, esk) =>
    if serverSide then sodium.kxServerSessionKeys epk esk peer
    else sodium.kxClientSessionKeys epk esk peer)).map
    (fun (receive, send) => (EncodeBase58 send.bytes, EncodeBase58 receive.bytes))

theorem exchangeKeys_of_commonKeys {sodium : Sodium} {serverSide : Bool} {secret : SecretKey}
    {peer : PubExchangeKey} (common : (commonKeys sodium serverSide secret peer).isSome) :
    ∃ epk esk, exchangeKeys sodium secret = some (epk, esk) := by
  unfold commonKeys at common
  rcases derived : exchangeKeys sodium secret with _ | ⟨epk, esk⟩
  · rw [derived] at common
    contradiction
  · exact ⟨epk, esk, rfl⟩

def emittedKeys (sodium : Sodium) (serverSide : Bool) (own : KeyPair) (secret : SecretKey)
    (peer : PubExchangeKey) : List Event :=
  match commonKeys sodium serverSide secret peer with
  | none => []
  | some (send, receive) => [.emitted own send receive]

def signedPart (type : RequestType) (sender : PublicKey) (exchange : PubExchangeKey) : Bytes :=
  type :: (sender.bytes ++ exchange.bytes)

def formed (sodium : Sodium) (type : RequestType) (publicKey : PublicKey) (secret : SecretKey)
    (epk : PubExchangeKey) : Bytes :=
  signedPart type publicKey epk ++
    (sodium.signDetached secret (signedPart type publicKey epk)).bytes

theorem formed_cons (sodium : Sodium) (type : RequestType) (publicKey : PublicKey)
    (secret : SecretKey) (epk : PubExchangeKey) :
    formed sodium type publicKey secret epk = type ::
      (publicKey.bytes ++ epk.bytes ++
        (sodium.signDetached secret (signedPart type publicKey epk)).bytes) := by
  rw [formed, signedPart, List.cons_append]

/-- A message of 128 bytes from a trusted sender with a valid signature over
type, sender key and exchange key. -/
structure Accepts (sodium : Sodium) (table : Option Table) (type : RequestType) (request : Bytes)
    (sender : PublicKey) (exchange : PubExchangeKey) : Prop where
  size : request.length = 128
  trusted : Trusted table sender
  signature : ∃ signature : Signature, request = sender.bytes ++ exchange.bytes ++ signature.bytes ∧
    verifySignature sodium signature sender (signedPart type sender exchange) = true

theorem request_injective {sender sender' : PublicKey} {exchange exchange' : PubExchangeKey}
    {signature signature' : Signature}
    (same : sender.bytes ++ exchange.bytes ++ signature.bytes =
      sender'.bytes ++ exchange'.bytes ++ signature'.bytes) :
    sender = sender' ∧ exchange = exchange' := by
  have sizes :
      (sender.bytes ++ exchange.bytes).length = (sender'.bytes ++ exchange'.bytes).length := by
    rw [List.length_append, List.length_append, sender.size_eq, sender'.size_eq, exchange.size_eq,
      exchange'.size_eq]
  obtain ⟨keys, _⟩ := List.append_inj same sizes
  obtain ⟨senders, exchanges⟩ := List.append_inj keys (by rw [sender.size_eq, sender'.size_eq])
  exact ⟨ByteArray.ext_bytes senders, ByteArray.ext_bytes exchanges⟩

theorem message_length (sender : PublicKey) (exchange : PubExchangeKey) (signature : Signature) :
    (sender.bytes ++ exchange.bytes ++ signature.bytes).length = 128 := by
  rw [List.length_append, List.length_append, sender.size_eq, exchange.size_eq, signature.size_eq]
  rfl

namespace RequestMaster

variable {sodium : Sodium}

theorem thread_client {master : RequestMaster} (role : master.serverSide = false)
    (env : Environment) : master.thread env = .main := by
  rw [thread, role, if_neg Bool.false_ne_true]

theorem thread_server {master : RequestMaster} (role : master.serverSide = true)
    (env : Environment) : master.thread env = .handler env.handler := by
  rw [thread, role, if_pos rfl]

theorem formCommonKeys_holding {master : RequestMaster} {publicKey : PublicKey} {secret : SecretKey}
    (own : master.ownKeys = (publicKey, .holding secret)) :
    master.formCommonKeys sodium =
      .ok (emittedKeys sodium master.serverSide master.ownKeys secret master.exchangePubKey) := by
  cases side : master.serverSide with
  | false =>
      simp only [formCommonKeys, side, own, Bool.false_eq_true, if_false, getClientSessionKeys,
        getSessionKeys_new, ok_bind, emittedKeys, commonKeys]
      rcases (exchangeKeys sodium secret).bind _ with _ | ⟨receive, send⟩ <;> rfl
  | true =>
      simp only [formCommonKeys, side, own, if_true, getServerSessionKeys, getSessionKeys_new,
        ok_bind, emittedKeys, commonKeys]
      rcases (exchangeKeys sodium secret).bind _ with _ | ⟨receive, send⟩ <;> rfl

/-- Without a private key the derivation aborts, so that emitted keys always
come from one. -/
theorem formCommonKeys_ok {master : RequestMaster} {events : List Event}
    (ran : master.formCommonKeys sodium = .ok events) :
    ∃ secret, master.ownKeys.2 = .holding secret ∧
      events = emittedKeys sodium master.serverSide master.ownKeys secret
        master.exchangePubKey := by
  rcases own : master.ownKeys with ⟨publicKey, ⟨_ | secret⟩⟩
  · cases side : master.serverSide <;>
      simp [formCommonKeys, side, own, getServerSessionKeys, getClientSessionKeys, getSessionKeys,
        getExchangeKeysFromPrivate, PrivateKey.access] at ran
  · rw [formCommonKeys_holding own] at ran
    cases ran
    exact ⟨secret, rfl, by rw [own]⟩

/-- The three copies cut a message without a rest, and the signature is over
what stands before it. -/
theorem cut_request {request : Bytes} {sender : PublicKey} {exchange : PubExchangeKey}
    {signature : Signature} (length : request.length = 128)
    (first : copyArray kPublicKeySize request 0 = .ok sender)
    (second : copyArray kPubExchangeKeySize request kPublicKeySize = .ok exchange)
    (third : copyArray kSignatureSize request (kPublicKeySize + kPubExchangeKeySize) =
      .ok signature) :
    request = sender.bytes ++ exchange.bytes ++ signature.bytes ∧
      request.take (request.length - kSignatureSize) = sender.bytes ++ exchange.bytes := by
  have front : request.take 64 = request.take 32 ++ (request.drop 32).take 32 :=
    List.take_add (i := 32) (j := 32)
  have back : (request.drop 64).take 64 = request.drop 64 :=
    List.take_of_length_le (by rw [List.length_drop]; omega)
  rw [copyArray_bytes first, copyArray_bytes second, copyArray_bytes third]
  simp only [kPublicKeySize, kPubExchangeKeySize, kSignatureSize, length, List.drop_zero, back]
  exact ⟨by rw [← front, List.take_append_drop], front⟩

def Usable (env : Environment) (thread : Thread) (dbConnectionEstablished : Bool)
    (process : Process) : Prop :=
  (connect env thread dbConnectionEstablished process).1 = true ∧
    (env.others (connect env thread dbConnectionEstablished process).2).connected thread = true

/-- The process after the sender key was found. -/
def closing (env : Environment) (master : RequestMaster) (process : Process) : Process :=
  let process := env.others (connection env master process).2
  if master.serverSide then closeDb process else process

/-- The ways in which `validate` returns, with what each leaves behind. -/
inductive Validates (sodium : Sodium) (env : Environment) (master : RequestMaster)
    (process : Process) (type : RequestType) (request : Bytes) : Validation → Prop
  | refused (reason : master.validOwnKeys = false ∨ request.length ≠ sizeT (requestSize type)) :
      Validates sodium env master process type request
        ⟨false, master, process, [.validating type request env.table]⟩
  | unopened (senderPubKey : PublicKey)
      (fails : (connection env master process).1 = false) :
      Validates sodium env master process type request
        ⟨false, { master with senderPubKey },
          (connection env master process).2,
          [.validating type request env.table]⟩
  | untrusted (senderPubKey : PublicKey)
      (opens : (connection env master process).1 = true) :
      Validates sodium env master process type request
        ⟨false, { master with senderPubKey, dbConnectionEstablished := true },
          env.others (connection env master process).2,
          [.validating type request env.table]⟩
  | unsigned (senderPubKey : PublicKey) (exchangePubKey : PubExchangeKey) (signature : Signature)
      (usable : Usable env (master.thread env) master.dbConnectionEstablished process)
      (trusted : Trusted env.table senderPubKey) :
      Validates sodium env master process type request
        ⟨false, { master with
            senderPubKey, exchangePubKey, signature, dbConnectionEstablished := true },
          closing env master process, [.validating type request env.table]⟩
  | accepted (senderPubKey : PublicKey) (exchangePubKey : PubExchangeKey) (signature : Signature)
      (keys : List Event) (valid : master.validOwnKeys = true)
      (size : request.length = sizeT (requestSize type))
      (usable : Usable env (master.thread env) master.dbConnectionEstablished process)
      (trusted : Trusted env.table senderPubKey)
      (senderCopied : copyArray kPublicKeySize request 0 = .ok senderPubKey)
      (exchangeCopied : copyArray kPubExchangeKeySize request kPublicKeySize = .ok exchangePubKey)
      (signatureCopied : copyArray kSignatureSize request (kPublicKeySize + kPubExchangeKeySize) =
        .ok signature)
      (verified : verifySignature sodium signature senderPubKey
        (type :: request.take (request.length - kSignatureSize)) = true)
      (formed : keysOnReply sodium { master with
        senderPubKey, exchangePubKey, signature, dbConnectionEstablished := true } type = .ok keys) :
      Validates sodium env master process type request
        ⟨true, { master with
            senderPubKey, exchangePubKey, signature, dbConnectionEstablished := true },
          closing env master process, .validating type request env.table :: keys⟩

theorem validate_validates {env : Environment} {master : RequestMaster} {process : Process}
    {type : RequestType} {request : Bytes} {result : Validation}
    (ran : validate sodium env master process type request = .ok result) :
    Validates sodium env master process type request result := by
  unfold validate at ran
  dsimp only at ran
  split at ran
  · rename_i missing
    cases ran
    exact .refused (.inl (by simpa using missing))
  rename_i valid
  split at ran
  · rename_i other
    cases ran
    exact .refused (.inr other)
  rename_i size
  obtain ⟨sender, senderCopied, ran⟩ := bind_eq_ok.mp ran
  split at ran
  · rename_i fails
    cases ran
    exact .unopened sender (by simpa using fails)
  rename_i opened
  have opens : (connection env master process).1 = true := by
    simpa using opened
  split at ran
  · cases ran
    exact .untrusted sender opens
  rename_i looked
  have looked := verifySenderPublicKey_eq_true.mp (by simpa using looked)
  obtain ⟨exchange, exchangeCopied, ran⟩ := bind_eq_ok.mp ran
  obtain ⟨signature, signatureCopied, ran⟩ := bind_eq_ok.mp ran
  split at ran
  · cases ran
    exact .unsigned sender exchange signature ⟨opens, looked.1⟩ looked.2
  rename_i verified
  obtain ⟨keys, formed, ran⟩ := bind_eq_ok.mp ran
  cases ran
  exact .accepted sender exchange signature keys (by simpa using valid) (not_not.mp size)
    ⟨opens, looked.1⟩ looked.2 senderCopied exchangeCopied signatureCopied
    (by simpa [checkRequestSignature] using verified) formed

/-- A rejected message leaves no trace but the call, and an accepted one has met
all the checks. -/
theorem validate_ok {env : Environment} {master : RequestMaster} {process : Process}
    {type : RequestType} {request : Bytes} {result : Validation}
    (known : requestSize type = 128)
    (ran : validate sodium env master process type request = .ok result) :
    result.master.ownKeys = master.ownKeys ∧ result.master.serverSide = master.serverSide ∧
      result.master.validOwnKeys = master.validOwnKeys ∧
      ((result.accepted = false ∧ result.events = [.validating type request env.table]) ∨
        (result.accepted = true ∧ master.validOwnKeys = true ∧
          Usable env (master.thread env) master.dbConnectionEstablished process ∧
          (∃ sender, Accepts sodium env.table type request sender result.master.exchangePubKey) ∧
          ∃ keys, keysOnReply sodium result.master type = .ok keys ∧
            result.events = .validating type request env.table :: keys)) := by
  cases validate_validates ran with
  | refused _ => exact ⟨rfl, rfl, rfl, .inl ⟨rfl, rfl⟩⟩
  | unopened sender _ => exact ⟨rfl, rfl, rfl, .inl ⟨rfl, rfl⟩⟩
  | untrusted sender _ => exact ⟨rfl, rfl, rfl, .inl ⟨rfl, rfl⟩⟩
  | unsigned sender exchange signature _ _ => exact ⟨rfl, rfl, rfl, .inl ⟨rfl, rfl⟩⟩
  | accepted sender exchange signature keys valid size usable trusted senderCopied exchangeCopied
      signatureCopied verified formed =>
      refine ⟨rfl, rfl, rfl, .inr ⟨rfl, valid, usable, ⟨sender, ?_⟩, keys, formed, rfl⟩⟩
      have length : request.length = 128 := by
        rw [size, known]
        rfl
      have parts := cut_request length senderCopied exchangeCopied signatureCopied
      rw [parts.2] at verified
      exact ⟨length, trusted, signature, parts.1, verified⟩

/-- The four copies fill the message without a gap. -/
theorem form_holding {master : RequestMaster} {type : RequestType} {publicKey : PublicKey}
    {secret : SecretKey} {epk : PubExchangeKey} {esk : ByteArray kSecretExchangeKeySize}
    (known : requestSize type = 128) (valid : master.validOwnKeys = true)
    (own : master.ownKeys = (publicKey, .holding secret))
    (derived : exchangeKeys sodium secret = some (epk, esk)) :
    form sodium master type = (keysOnReply sodium master type).map (fun keys =>
      (formed sodium type publicKey secret epk,
          .signed publicKey (signedPart type publicKey epk) :: keys)) := by
  have first : copyInto (List.replicate ((sizeT (requestSize type) + 1) % 2 ^ 64) 0) 0 [type] =
      .ok ([type] ++ List.replicate 128 0) := by
    have size : (sizeT 128 + 1) % 2 ^ 64 = 129 := by decide
    have filled : copyInto ([] ++ List.replicate 129 0) 0 [type] =
        .ok ([] ++ [type] ++ List.replicate 128 0) := copyInto_zeros rfl rfl
    rwa [List.nil_append, List.nil_append, ← size, ← known] at filled
  have second : copyInto ([type] ++ List.replicate 128 0) 1 publicKey.bytes =
      .ok ([type] ++ publicKey.bytes ++ List.replicate 96 0) :=
    copyInto_zeros rfl (by rw [publicKey.size_eq])
  have third :
      copyInto ([type] ++ publicKey.bytes ++ List.replicate 96 0) (1 + kPublicKeySize) epk.bytes =
      .ok ([type] ++ publicKey.bytes ++ epk.bytes ++ List.replicate 64 0) :=
    copyInto_zeros (by rw [List.length_append, publicKey.size_eq, List.length_singleton])
      (by rw [epk.size_eq])
  have message : ([type] ++ publicKey.bytes ++ epk.bytes ++ List.replicate 64 0).take
      (([type] ++ publicKey.bytes ++ epk.bytes ++ List.replicate 64 (0 : Byte)).length -
        kSignatureSize) = signedPart type publicKey epk := by
    rw [List.length_append, List.length_replicate, Nat.add_sub_cancel, List.take_left,
      List.append_assoc]
    rfl
  have fourth : ∀ signature : Signature,
      copyInto ([type] ++ publicKey.bytes ++ epk.bytes ++ List.replicate 64 0)
        (1 + kPublicKeySize + kPubExchangeKeySize) signature.bytes =
        .ok (signedPart type publicKey epk ++ signature.bytes) := by
    intro signature
    have start : ([type] ++ publicKey.bytes ++ epk.bytes).length =
        1 + kPublicKeySize + kPubExchangeKeySize := by
      rw [List.length_append, List.length_append, publicKey.size_eq, epk.size_eq,
        List.length_singleton]
    have room : signature.bytes.length + 0 = 64 := by rw [signature.size_eq]
    rw [copyInto_zeros start room, List.replicate_zero, List.append_nil, List.append_assoc [type]]
    rfl
  simp only [form, valid, own, Bool.not_true, Bool.false_eq_true, if_false, first, second, ok_bind,
    getPubExchangeKey_holding, derived, Option.map_some, third, message, generateSignature,
    PrivateKey.access_holding, pure_eq_ok, fourth]
  cases keysOnReply sodium master type <;> rfl

theorem form_ok {master : RequestMaster} {type : RequestType} {bytes : Bytes} {events : List Event}
    (known : requestSize type = 128) (ran : form sodium master type = .ok (bytes, events)) :
    (bytes = [] ∧ events = []) ∨ ∃ secret epk esk keys, master.ownKeys.2 = .holding secret ∧
      exchangeKeys sodium secret = some (epk, esk) ∧ keysOnReply sodium master type = .ok keys ∧
      bytes = formed sodium type master.ownKeys.1 secret epk ∧
      events = .signed master.ownKeys.1 (signedPart type master.ownKeys.1 epk) :: keys := by
  cases valid : master.validOwnKeys with
  | false =>
      simp only [form, valid, Bool.not_false, if_true] at ran
      cases ran
      exact .inl ⟨rfl, rfl⟩
  | true =>
      have whole := ran
      simp only [form, valid, Bool.not_true, Bool.false_eq_true, if_false] at ran
      obtain ⟨_, _, ran⟩ := bind_eq_ok.mp ran
      obtain ⟨_, _, ran⟩ := bind_eq_ok.mp ran
      obtain ⟨exchange, got, ran⟩ := bind_eq_ok.mp ran
      rcases own : master.ownKeys with ⟨publicKey, ⟨_ | secret⟩⟩
      · rw [own] at got
        contradiction
      · rw [own] at got
        have same := Except.ok.inj ((getPubExchangeKey_holding sodium secret).symm.trans got)
        rcases derived : exchangeKeys sodium secret with _ | ⟨epk, esk⟩
        · rw [derived] at same
          cases same
          cases ran
          exact .inl ⟨rfl, rfl⟩
        · rw [form_holding known valid own derived] at whole
          cases formed : keysOnReply sodium master type with
          | error fault =>
              rw [formed] at whole
              contradiction
          | ok keys =>
              rw [formed] at whole
              cases whole
              exact .inr ⟨secret, epk, esk, keys, rfl, derived, rfl, rfl, rfl⟩

/-- The checks of `validate` on the message itself. -/
structure Passes (sodium : Sodium) (table : Option Table) (type : RequestType) (request : Bytes)
    (sender : PublicKey) (exchange : PubExchangeKey) (signature : Signature) : Prop where
  size : request.length = sizeT (requestSize type)
  senderCopied : copyArray kPublicKeySize request 0 = .ok sender
  exchangeCopied : copyArray kPubExchangeKeySize request kPublicKeySize = .ok exchange
  signatureCopied : copyArray kSignatureSize request (kPublicKeySize + kPubExchangeKeySize) =
    .ok signature
  trusted : Trusted table sender
  verified : verifySignature sodium signature sender
    (type :: request.take (request.length - kSignatureSize)) = true

theorem Passes.accepts {table : Option Table} {type : RequestType} {request : Bytes}
    {sender : PublicKey} {exchange : PubExchangeKey} {signature : Signature}
    (passes : Passes sodium table type request sender exchange signature)
    (length : request.length = 128) : Accepts sodium table type request sender exchange := by
  have parts := cut_request length passes.senderCopied passes.exchangeCopied passes.signatureCopied
  have verified := passes.verified
  rw [parts.2] at verified
  exact ⟨length, passes.trusted, signature, parts.1, verified⟩

theorem Passes.of_message {table : Option Table} {type : RequestType} {sender : PublicKey}
    {exchange : PubExchangeKey} {signature : Signature} (known : requestSize type = 128)
    (trusted : Trusted table sender)
    (verified : verifySignature sodium signature sender (signedPart type sender exchange) = true) :
    Passes sodium table type (sender.bytes ++ exchange.bytes ++ signature.bytes) sender exchange
      signature := by
  have length := message_length sender exchange signature
  have first : copyArray kPublicKeySize (sender.bytes ++ exchange.bytes ++ signature.bytes) 0 =
      .ok sender := by
    rw [List.append_assoc]
    exact @copyArray_append _ _ [] _ sender rfl
  have second : copyArray kPubExchangeKeySize (sender.bytes ++ exchange.bytes ++ signature.bytes)
      kPublicKeySize = .ok exchange :=
    copyArray_append exchange sender.size_eq
  have third : copyArray kSignatureSize (sender.bytes ++ exchange.bytes ++ signature.bytes)
      (kPublicKeySize + kPubExchangeKeySize) = .ok signature := by
    rw [← List.append_nil (_ ++ signature.bytes)]
    exact copyArray_append signature (by rw [List.length_append, sender.size_eq, exchange.size_eq])
  refine ⟨?_, first, second, third, trusted, ?_⟩
  · rw [length, known]
    rfl
  · rw [(cut_request length first second third).2]
    exact verified

theorem validate_passes {env : Environment} {master : RequestMaster} {process : Process}
    {type : RequestType} {request : Bytes} {sender : PublicKey} {exchange : PubExchangeKey}
    {signature : Signature} (valid : master.validOwnKeys = true)
    (usable : Usable env (master.thread env) master.dbConnectionEstablished process)
    (passes : Passes sodium env.table type request sender exchange signature) :
    master.validate sodium env process type request =
      (keysOnReply sodium { master with exchangePubKey := exchange } type).map
        (fun keys => ⟨true, { master with
            senderPubKey := sender
            exchangePubKey := exchange
            signature := signature
            dbConnectionEstablished := true },
          closing env master process, .validating type request env.table :: keys⟩) := by
  obtain ⟨opened, connected⟩ := usable
  have accepted := verifySenderPublicKey_eq_true.mpr ⟨connected, passes.trusted⟩
  have size : ¬request.length ≠ sizeT (requestSize type) := not_not.mpr passes.size
  simp only [validate, valid, Bool.not_true, Bool.false_eq_true, if_false, if_neg size,
    passes.senderCopied, passes.exchangeCopied, passes.signatureCopied, ok_bind, opened, accepted,
    checkRequestSignature, passes.verified]
  rfl

theorem validate_accepted {env : Environment} {master : RequestMaster} {process : Process}
    {type : RequestType} {sender : PublicKey} {exchange : PubExchangeKey} {signature : Signature}
    (known : requestSize type = 128) (valid : master.validOwnKeys = true)
    (usable : Usable env (master.thread env) master.dbConnectionEstablished process)
    (trusted : Trusted env.table sender)
    (verified : verifySignature sodium signature sender (signedPart type sender exchange) = true) :
    ∃ master' process', master'.ownKeys = master.ownKeys ∧ master'.serverSide = master.serverSide ∧
      master'.validOwnKeys = true ∧ master'.exchangePubKey = exchange ∧
      validate sodium env master process type (sender.bytes ++ exchange.bytes ++ signature.bytes) =
        (keysOnReply sodium master' type).map (fun keys => ⟨true, master', process',
          .validating type (sender.bytes ++ exchange.bytes ++ signature.bytes)
            env.table :: keys⟩) := by
  refine ⟨{ master with
    senderPubKey := sender
    exchangePubKey := exchange
    signature := signature
    dbConnectionEstablished := true }, closing env master process, rfl, rfl, valid, rfl, ?_⟩
  rw [validate_passes valid usable (.of_message known trusted verified)]
  rfl

/-- A call that does not get as far as the database changes nothing. -/
theorem validate_unasked {env : Environment} {master : RequestMaster} {process : Process}
    {type : RequestType} {request : Bytes}
    (unasked : ¬(master.validOwnKeys = true ∧ request.length = sizeT (requestSize type))) :
    validate sodium env master process type request =
      .ok ⟨false, master, process, [.validating type request env.table]⟩ := by
  by_cases valid : master.validOwnKeys = true
  · have other : request.length ≠ sizeT (requestSize type) := fun size => unasked ⟨valid, size⟩
    simp only [validate, valid, Bool.not_true, Bool.false_eq_true, if_false, if_pos other]
  · simp only [validate, valid, Bool.not_false, if_true]

/-- What a call that reaches the database leaves of the connections. -/
theorem validate_process {env : Environment} {master : RequestMaster} {process : Process}
    {type : RequestType} {request : Bytes} {result : Validation}
    (valid : master.validOwnKeys = true) (size : request.length = sizeT (requestSize type))
    (ran : master.validate sodium env process type request = .ok result) :
    ∃ sender, copyArray kPublicKeySize request 0 = .ok sender ∧
      ((connection env master process).1 = false ∧
          result.process = (connection env master process).2 ∨
        (connection env master process).1 = true ∧ result.process =
          if verifySenderPublicKey env.table (master.thread env)
            (env.others (connection env master process).2) sender then closing env master process
          else env.others (connection env master process).2) := by
  unfold validate at ran
  dsimp only at ran
  split at ran
  · rename_i missing
    rw [valid] at missing
    contradiction
  split at ran
  · contradiction
  obtain ⟨sender, copied, ran⟩ := bind_eq_ok.mp ran
  refine ⟨sender, copied, ?_⟩
  split at ran
  · rename_i fails
    cases ran
    exact .inl ⟨by simpa using fails, rfl⟩
  rename_i opened
  refine .inr ⟨by simpa using opened, ?_⟩
  split at ran
  · rename_i unknown
    cases ran
    rw [if_neg (by simpa using unknown)]
  rename_i found
  rw [if_pos (by simpa using found)]
  obtain ⟨_, _, ran⟩ := bind_eq_ok.mp ran
  obtain ⟨_, _, ran⟩ := bind_eq_ok.mp ran
  split at ran
  · cases ran
    rfl
  obtain ⟨_, _, ran⟩ := bind_eq_ok.mp ran
  cases ran
  rfl

def KeysOf (sodium : Sodium) (serverSide : Bool) (own : KeyPair) (type : RequestType)
    (exchange : PubExchangeKey) (events : List Event) : Prop :=
  (type ≠ keyExchangeReply ∧ events = []) ∨ (type = keyExchangeReply ∧
    ∃ secret, own.2 = .holding secret ∧ events = emittedKeys sodium serverSide own secret exchange)

theorem keysOnReply_ok {master : RequestMaster} {type : RequestType} {events : List Event}
    (ran : keysOnReply sodium master type = .ok events) :
    KeysOf sodium master.serverSide master.ownKeys type master.exchangePubKey events := by
  unfold keysOnReply at ran
  split at ran
  · rename_i reply
    exact .inr ⟨reply, formCommonKeys_ok ran⟩
  · rename_i other
    cases ran
    exact .inl ⟨other, rfl⟩

end RequestMaster

def Event.Plain : Event → Prop
  | .validating _ _ _ => False
  | .emitted _ _ _ => False
  | .signed _ message => message.head? = some keyExchangeQuery
  | _ => True

/-- What follows the acceptance of a query on the server: an empty reply, or a
signed one with the keys it leads to. -/
def Answer (sodium : Sodium) (own : KeyPair) (exchange : PubExchangeKey)
    (events : List Event) : Prop :=
  events = [.written []] ∨ ∃ secret epk esk, own.2 = .holding secret ∧
    exchangeKeys sodium secret = some (epk, esk) ∧
    events = .signed own.1 (signedPart keyExchangeReply own.1 epk) ::
      (emittedKeys sodium true own secret exchange ++
        [.written (formed sodium keyExchangeReply own.1 secret epk)])

/-- The observable part of one step of a party with the keys `own`. -/
inductive Effect (sodium : Sodium) (serverSide : Bool) (own : KeyPair) : List Event → Prop
  | plain (events : List Event)
      (all : ∀ event ∈ events, event.Plain) : Effect sodium serverSide own events
  | rejected (type : RequestType) (request : Bytes) (table : Option Table) (message : String) :
      Effect sodium serverSide own [.validating type request table, .error message]
  | accepted (type : RequestType) (request : Bytes) (table : Option Table) (sender : PublicKey)
      (exchange : PubExchangeKey) (keys answer : List Event)
      (accepts : Accepts sodium table type request sender exchange)
      (keysOf : RequestMaster.KeysOf sodium serverSide own type exchange keys)
      (answers : (serverSide = false ∧ answer = []) ∨
        (serverSide = true ∧ Answer sodium own exchange answer)) :
      Effect sodium serverSide own (.validating type request table :: (keys ++ answer))

end Cscrypto.Gui
