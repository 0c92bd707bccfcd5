import Cscrypto.Data.Run
import Cscrypto.Gui.ValidationOutcome

namespace Cscrypto.Gui

open Cscrypto.Data

/-! # Request masters of one process

Any number of `RequestMaster` objects are asked one after another.  Each has
its own flag for the database connection, but the connection's name is one
static variable, and the objects of a server remove the connection that it
names.
-/

/-- What a request master is constructed with. -/
structure Construction where
  memory : Memory
  validKeys : Bool
  serverSide : Bool
  ownKeys : KeyPair

def Construction.master (made : Construction) : RequestMaster where
  senderPubKey := made.memory.senderPubKey
  exchangePubKey := made.memory.exchangePubKey
  signature := made.memory.signature
  ownKeys := made.ownKeys
  serverSide := made.serverSide
  validOwnKeys := made.validKeys
  dbConnectionEstablished := false

/-- The request masters of a process, by their number. -/
structure Validators where
  masters : Nat → RequestMaster
  process : Process

/-- One call of `validate`, with what it meets: the next random number, whether
the database file opens, and the rows of `publicKeys`. No other thread runs. -/
structure ValidateCall where
  object : Nat
  random : Int
  opens : Bool
  table : Option Table
  type : RequestType
  request : Bytes

/-- Every handler is a thread with a request master of its own. -/
def ValidateCall.env (call : ValidateCall) : Environment where
  handler := call.object
  random := call.random
  opens := call.opens
  others := id
  table := call.table
  attached := true
  errorString := ""

namespace Validators

def start (objects : Nat → Construction) (process : Process) : Validators where
  masters object := (objects object).master
  process := process

variable (sodium : Sodium)

def step (state : Validators) (call : ValidateCall) : Except Fault Validators := do
  let result ← (state.masters call.object).validate sodium call.env state.process call.type
    call.request
  return ⟨Function.update state.masters call.object result.master, result.process⟩

def result (state : Validators) (call : ValidateCall) : Except Fault (Bool × List Event) :=
  ((state.masters call.object).validate sodium call.env state.process call.type
    call.request).map RequestMaster.outcome

/-- The calls of one object. -/
def own (object : Nat) (calls : List ValidateCall) : List ValidateCall :=
  calls.filter fun call => call.object = object

/-- Every call has the result that it has when the other objects are left
out. -/
def Separate (start : Validators) (calls : List ValidateCall) : Prop :=
  ∀ before call after state, calls = before ++ call :: after →
    before.foldlM (step sodium) start = .ok state →
    state.result sodium call =
      (own call.object before).foldlM (step sodium) start >>= fun alone => alone.result sodium call

def Passes (call : ValidateCall) : Prop :=
  ∃ sender exchange signature,
    RequestMaster.Passes sodium call.table call.type call.request sender exchange signature

section

variable (objects : Nat → Construction)

def thread (object : Nat) : Thread := if (objects object).serverSide then .handler object else .main

/-- The call gets as far as the database. -/
def Asks (call : ValidateCall) : Prop :=
  (objects call.object).validKeys = true ∧ call.request.length = sizeT (requestSize call.type)

/-- An earlier call of the object has opened its connection. -/
def Established (before : List ValidateCall) (object : Nat) : Prop :=
  ∃ call ∈ before, call.object = object ∧ Asks objects call ∧ call.opens = true

/-- The call makes a connection, whether or not the file opens. -/
def Connects (before : List ValidateCall) (call : ValidateCall) : Prop :=
  Asks objects call ∧ ¬Established objects before call.object

/-- The call of a handler that finds the sender and so comes to `closeDb`. -/
def Removes (before : List ValidateCall) (call : ValidateCall) : Prop :=
  (objects call.object).serverSide = true ∧ Asks objects call ∧
    (Established objects before call.object ∨ call.opens = true) ∧
    ∃ sender, copyArray kPublicKeySize call.request 0 = .ok sender ∧ Trusted call.table sender

/-- The last connection was made in this thread. -/
def LastConnected (calls : List ValidateCall) (thread : Thread) : Prop :=
  ∃ call, LastOccurs (Connects objects) calls call ∧ Validators.thread objects call.object = thread

/-- A call of this thread has come to `closeDb`. -/
def Removed (calls : List ValidateCall) (thread : Thread) : Prop :=
  Occurs (fun before call =>
    Validators.thread objects call.object = thread ∧ Removes objects before call) calls

/-- The object of the call has a database to ask. -/
def Answered (before : List ValidateCall) (call : ValidateCall) : Prop :=
  (Established objects before call.object →
    LastConnected objects before (thread objects call.object) ∧
      ¬Removed objects before (thread objects call.object)) ∧
  (¬Established objects before call.object → call.opens = true)

end

variable {sodium : Sodium}

section

variable {objects : Nat → Construction} {process : Process}

theorem established_concat {before : List ValidateCall} {call : ValidateCall} {object : Nat} :
    Established objects (before ++ [call]) object ↔ Established objects before object ∨
      (call.object = object ∧ Asks objects call ∧ call.opens = true) := by
  simp only [Established, List.mem_append, List.mem_singleton, or_and_right, exists_or,
    exists_eq_left]

theorem lastConnected_concat_of {before : List ValidateCall} {call : ValidateCall}
    {thread : Thread} (connects : Connects objects before call) :
    LastConnected objects (before ++ [call]) thread ↔
      Validators.thread objects call.object = thread := by
  simp only [LastConnected, lastOccurs_concat_of connects, exists_eq_left]

theorem lastConnected_concat_of_not {before : List ValidateCall} {call : ValidateCall}
    {thread : Thread} (silent : ¬Connects objects before call) :
    LastConnected objects (before ++ [call]) thread ↔ LastConnected objects before thread := by
  simp only [LastConnected, lastOccurs_concat_of_not silent]

theorem removed_concat {before : List ValidateCall} {call : ValidateCall} {thread : Thread} :
    Removed objects (before ++ [call]) thread ↔ Removed objects before thread ∨
      (Validators.thread objects call.object = thread ∧ Removes objects before call) :=
  occurs_concat

/-- Only handlers remove connections, and each is the only object of its
thread. -/
theorem object_of_thread {object other : Nat} (server : (objects other).serverSide = true)
    (same : thread objects other = thread objects object) : other = object := by
  unfold thread at same
  rw [if_pos server] at same
  split at same
  · exact Thread.handler.inj same
  · contradiction

theorem Removed.established {calls : List ValidateCall} {object : Nat}
    (removed : Removed objects calls (thread objects object)) :
    Established objects calls object := by
  obtain ⟨before, call, after, rfl, same, server, asks, reached, _⟩ := removed
  cases object_of_thread server same
  rcases reached with established | opens
  · obtain ⟨earlier, member, rest⟩ := established
    exact ⟨earlier, List.mem_append_left _ member, rest⟩
  · exact ⟨call, List.mem_append_cons_self, rfl, asks, opens⟩

/-- An object that has opened a connection has made it in one of the calls. -/
theorem Established.occurs {calls : List ValidateCall} {object : Nat}
    (established : Established objects calls object) : Occurs (Connects objects) calls := by
  induction calls using List.reverseRecOn generalizing object with
  | nil =>
      obtain ⟨_, member, _⟩ := established
      contradiction
  | append_singleton calls call ih =>
      rw [occurs_concat]
      rcases established_concat.mp established with earlier | ⟨_, asks, _⟩
      · exact .inl (ih earlier)
      · by_cases before : Established objects calls call.object
        · exact .inl (ih before)
        · exact .inr ⟨asks, before⟩

/-- What the calls so far tell about the state that they have led to. -/
structure Tracks (objects : Nat → Construction) (calls : List ValidateCall) (state : Validators) :
    Prop where
  ownKeys : ∀ object, (state.masters object).ownKeys = (objects object).ownKeys
  serverSide : ∀ object, (state.masters object).serverSide = (objects object).serverSide
  validOwnKeys : ∀ object, (state.masters object).validOwnKeys = (objects object).validKeys
  established : ∀ object, (state.masters object).dbConnectionEstablished = true ↔
    Established objects calls object
  connected : Occurs (Connects objects) calls → ∀ thread,
    (state.process.connected thread = true ↔
      LastConnected objects calls thread ∧ ¬Removed objects calls thread)

theorem Tracks.thread {calls : List ValidateCall} {state : Validators}
    (tracks : Tracks objects calls state) (call : ValidateCall) :
    (state.masters call.object).thread call.env = Validators.thread objects call.object := by
  rw [RequestMaster.thread, tracks.serverSide, Validators.thread]
  rfl

theorem Tracks.asks_iff {calls : List ValidateCall} {state : Validators}
    (tracks : Tracks objects calls state) (call : ValidateCall) :
    (state.masters call.object).validOwnKeys = true ∧
        call.request.length = sizeT (requestSize call.type) ↔ Asks objects call := by
  rw [tracks.validOwnKeys, Asks]

/-- The connection that a call asks over. -/
def asked (state : Validators) (call : ValidateCall) : Process :=
  (RequestMaster.connection call.env (state.masters call.object) state.process).2

/-- What a call leaves of the connections. -/
theorem Tracks.step_process {calls : List ValidateCall} {state next : Validators}
    {call : ValidateCall} (tracks : Tracks objects calls state) (asks : Asks objects call)
    (stepped : state.step sodium call = .ok next) :
    (Removes objects calls call ∧
        (state.asked call).connected (Validators.thread objects call.object) = true ∧
        next.process = closeDb (state.asked call)) ∨
      (¬(Removes objects calls call ∧
          (state.asked call).connected (Validators.thread objects call.object) = true) ∧
        next.process = state.asked call) := by
  obtain ⟨result, validated, done⟩ := bind_eq_ok.mp stepped
  cases done
  obtain ⟨valid, size⟩ := (tracks.asks_iff call).mpr asks
  obtain ⟨sender, copied, paths⟩ := RequestMaster.validate_process valid size validated
  have opened : (RequestMaster.connection call.env (state.masters call.object)
      state.process).1 = true ↔ Established objects calls call.object ∨ call.opens = true := by
    rw [← tracks.established, RequestMaster.connection, RequestMaster.connect]
    cases (state.masters call.object).dbConnectionEstablished
    · simp [createDbConnection, ValidateCall.env]
    · simp
  have removes : Removes objects calls call ↔ (objects call.object).serverSide = true ∧
      (Established objects calls call.object ∨ call.opens = true) ∧ Trusted call.table sender := by
    simp only [Removes, asks, true_and, copied, Except.ok.injEq, exists_eq_left']
  rw [removes]
  rcases paths with ⟨unopened, left⟩ | ⟨opens, left⟩
  · refine .inr ⟨fun given => ?_, left⟩
    rw [opened.mpr given.1.2.1] at unopened
    contradiction
  · have found : verifySenderPublicKey call.env.table ((state.masters call.object).thread call.env)
        (call.env.others (RequestMaster.connection call.env (state.masters call.object)
          state.process).2) sender = true ↔
        (state.asked call).connected (Validators.thread objects call.object) = true ∧
          Trusted call.table sender := by
      rw [verifySenderPublicKey_eq_true, tracks.thread]
      rfl
    have closes : RequestMaster.closing call.env (state.masters call.object) state.process =
        if (objects call.object).serverSide then closeDb (state.asked call)
        else state.asked call := by
      rw [← tracks.serverSide]
      rfl
    by_cases removing : ((objects call.object).serverSide = true ∧
        (Established objects calls call.object ∨ call.opens = true) ∧ Trusted call.table sender) ∧
        (state.asked call).connected (Validators.thread objects call.object) = true
    · obtain ⟨⟨server, reached, trusted⟩, connected⟩ := removing
      rw [if_pos (found.mpr ⟨connected, trusted⟩), closes, if_pos server] at left
      exact .inl ⟨⟨server, reached, trusted⟩, connected, left⟩
    · refine .inr ⟨removing, ?_⟩
      split at left
      · rename_i verified
        obtain ⟨connected, trusted⟩ := found.mp verified
        rw [closes, if_neg fun server =>
          removing ⟨⟨server, opened.mp opens, trusted⟩, connected⟩] at left
        exact left
      · exact left

theorem Tracks.asked_connected {calls : List ValidateCall} {state : Validators}
    {call : ValidateCall} (tracks : Tracks objects calls state) (thread : Thread) :
    (Established objects calls call.object → state.asked call = state.process) ∧
      (¬Established objects calls call.object →
        ((state.asked call).connected thread = true ↔
          Validators.thread objects call.object = thread)) := by
  rw [← tracks.established, asked, RequestMaster.connection, RequestMaster.connect, tracks.thread]
  constructor
  · intro marked
    rw [if_pos marked]
  · intro unmarked
    rw [if_neg unmarked, createDbConnection_connected]
    exact eq_comm

theorem Tracks.step_connected {calls : List ValidateCall} {state next : Validators}
    {call : ValidateCall} (tracks : Tracks objects calls state)
    (stepped : state.step sodium call = .ok next)
    (occurs : Occurs (Connects objects) (calls ++ [call])) (thread : Thread) :
    next.process.connected thread = true ↔ LastConnected objects (calls ++ [call]) thread ∧
      ¬Removed objects (calls ++ [call]) thread := by
  rw [removed_concat]
  by_cases asks : Asks objects call
  · have paths := tracks.step_process asks stepped
    obtain ⟨same, _⟩ := @asked_connected _ _ _ call tracks thread
    by_cases established : Established objects calls call.object
    · -- The call asks over the connection that is named already.
      have before := tracks.connected established.occurs
      rw [same established] at paths
      rw [lastConnected_concat_of_not fun connects => connects.2 established]
      rcases paths with ⟨removes, connected, left⟩ | ⟨kept, left⟩
      · rw [left, closeDb_connected]
        refine iff_of_false Bool.false_ne_true fun given => given.2 (.inr ⟨?_, removes⟩)
        have here := (before thread).mpr ⟨given.1, fun removed => given.2 (.inl removed)⟩
        exact (Process.connected_unique here connected)
      · rw [left, before, not_or]
        refine and_congr_right fun last => ⟨fun unremoved => ⟨unremoved, fun given => ?_⟩, And.left⟩
        obtain ⟨rfl, removes⟩ := given
        exact kept ⟨removes, (before _).mpr ⟨last, unremoved⟩⟩
    · -- The call has made a connection of its own.
      have made := fun other => (@asked_connected _ _ _ call tracks other).2 established
      have unremoved : ¬Removed objects calls (Validators.thread objects call.object) :=
        fun removed => established removed.established
      rw [lastConnected_concat_of ⟨asks, established⟩]
      rcases paths with ⟨removes, _, left⟩ | ⟨kept, left⟩
      · rw [left, closeDb_connected]
        exact iff_of_false Bool.false_ne_true fun given => given.2 (.inr ⟨given.1, removes⟩)
      · rw [left, made]
        constructor
        · rintro rfl
          exact ⟨rfl, not_or.mpr ⟨unremoved, fun given => kept ⟨given.2, (made _).mpr rfl⟩⟩⟩
        · exact And.left
  · obtain ⟨result, validated, done⟩ := bind_eq_ok.mp stepped
    cases done
    rw [RequestMaster.validate_unasked (fun given => asks ((tracks.asks_iff call).mp given))]
      at validated
    cases validated
    rw [lastConnected_concat_of_not fun connects => asks connects.1]
    have earlier := (occurs_concat.mp occurs).resolve_right fun connects => asks connects.1
    rw [tracks.connected earlier]
    exact and_congr_right fun _ => not_congr
      ⟨.inl, fun given => given.resolve_right fun removes => asks removes.2.2.1⟩

theorem Tracks.step {calls : List ValidateCall} {state next : Validators} {call : ValidateCall}
    (tracks : Tracks objects calls state) (stepped : state.step sodium call = .ok next) :
    Tracks objects (calls ++ [call]) next := by
  have connected := tracks.step_connected stepped
  obtain ⟨result, validated, done⟩ := bind_eq_ok.mp stepped
  cases done
  obtain ⟨own, side, valid⟩ := RequestMaster.validate_members validated
  have marked := RequestMaster.validate_established validated
  have kept {α : Type} {field : RequestMaster → α} {made : Nat → α}
      (before : ∀ object, field (state.masters object) = made object)
      (same : field result.master = field (state.masters call.object)) (object : Nat) :
      field (Function.update state.masters call.object result.master object) = made object := by
    by_cases here : object = call.object
    · subst here
      rw [Function.update_self, same, before]
    · rw [Function.update_of_ne here, before]
  refine ⟨kept tracks.ownKeys own, kept tracks.serverSide side, kept tracks.validOwnKeys valid,
    fun object => ?_, connected⟩
  rw [established_concat, ← tracks.established]
  by_cases here : object = call.object
  · subst here
    simp only [Function.update_self, marked, Bool.or_eq_true, Bool.and_eq_true, decide_eq_true_eq,
      tracks.asks_iff, true_and]
    rfl
  · simp only [Function.update_of_ne here, Ne.symm here, false_and, or_false]

end

end Validators

end Cscrypto.Gui
