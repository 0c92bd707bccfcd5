import Cscrypto.Base58.Codec

namespace Cscrypto.Gui

open Cscrypto.Base58

/-! # The table of imported keys

`publicKeys` is a list of rows in the order of `SELECT *`.  The connections of
one process are named, and the name of the last one made is a static variable
that all request masters of the process share.  A connection can be used only in
the thread that made it.
-/

structure Record where
  id : Int
  importedKey : Bytes
  trusted : String
deriving DecidableEq

abbrev Table := List Record

/-- The GUI thread, in which the client runs, and the threads of the handlers. -/
inductive Thread where
  | main
  | handler (number : Nat)
deriving DecidableEq

/-- What the request masters of one process share: the static name, the names
that are registered, and the thread that registered a name last. -/
structure Process where
  connectionName : Option Int
  connections : List Int
  owner : Int → Thread

/-- The world around one call of `validate`: the random number, whether the
database file opens, what other threads of the process do before the query
runs, and the rows of `publicKeys` (`none` if the query fails). For a server
also the number of the handler's thread, whether its socket can be used, and the
socket's error text. -/
structure Environment where
  handler : Nat
  random : Int
  opens : Bool
  others : Process → Process
  table : Option Table
  attached : Bool
  errorString : String

def Process.fresh : Process := ⟨none, [], fun _ => .main⟩

def closeDb (process : Process) : Process :=
  match process.connectionName with
  | none => process
  | some name => { process with connections := process.connections.filter (· ≠ name) }

def createDbConnection (env : Environment) (thread : Thread) (process : Process) :
    Bool × Process :=
  (env.opens, {
    connectionName := some env.random
    connections := env.random :: process.connections
    owner := Function.update process.owner env.random thread })

/-- `QSqlDatabase::database` gives out the named connection only in the thread
that made it; elsewhere the query fails. -/
def Process.connected (process : Process) (thread : Thread) : Bool :=
  match process.connectionName with
  | none => false
  | some name => process.connections.contains name && process.owner name = thread

theorem createDbConnection_connected (env : Environment) (thread other : Thread)
    (process : Process) :
    (createDbConnection env thread process).2.connected other = true ↔ other = thread := by
  simp only [createDbConnection, Process.connected, List.contains_cons, beq_self_eq_true,
    Bool.true_or, Bool.true_and, Function.update_self, decide_eq_true_eq]
  exact eq_comm

theorem closeDb_connected (process : Process) (thread : Thread) :
    (closeDb process).connected thread = false := by
  obtain ⟨_ | name, connections, owner⟩ := process
  · rfl
  · simp [closeDb, Process.connected]

theorem Process.connected_unique {process : Process} {thread other : Thread}
    (here : process.connected thread = true) (there : process.connected other = true) :
    other = thread := by
  obtain ⟨_ | name, connections, owner⟩ := process
  · exact absurd here Bool.false_ne_true
  · simp only [Process.connected, Bool.and_eq_true, decide_eq_true_eq] at here there
    exact there.2.symm.trans here.2

/-- The loop over the rows: the first row with the text decides. -/
def isTrusted (b58SenderPub : Bytes) : Table → Bool
  | [] => false
  | record :: rest =>
      if record.importedKey = b58SenderPub then record.trusted = "yes"
      else isTrusted b58SenderPub rest

def verifySenderPublicKey (table : Option Table) (thread : Thread) (process : Process)
    (senderPubKey : PublicKey) : Bool :=
  if process.connected thread then
    match table with
    | none => false
    | some records => isTrusted (EncodeBase58 senderPubKey.bytes) records
  else false

def Trusted (table : Option Table) (key : PublicKey) : Prop :=
  ∃ records, table = some records ∧ isTrusted (EncodeBase58 key.bytes) records = true

theorem verifySenderPublicKey_eq_true {table : Option Table} {thread : Thread} {process : Process}
    {key : PublicKey} : verifySenderPublicKey table thread process key = true ↔
      process.connected thread = true ∧ Trusted table key := by
  unfold verifySenderPublicKey Trusted
  cases process.connected thread <;> cases table <;> simp

theorem isTrusted_of_forall {text : Bytes} {table : Table}
    (listed : ∃ record ∈ table, record.importedKey = text)
    (trusted : ∀ record ∈ table, record.importedKey = text → record.trusted = "yes") :
    isTrusted text table = true := by
  induction table with
  | nil =>
      obtain ⟨_, member, _⟩ := listed
      contradiction
  | cons record rest ih =>
      rw [isTrusted]
      by_cases same : record.importedKey = text
      · rw [if_pos same, decide_eq_true_eq]
        exact trusted record List.mem_cons_self same
      · rw [if_neg same]
        obtain ⟨found, member, text_eq⟩ := listed
        rcases List.mem_cons.mp member with rfl | later
        · exact absurd text_eq same
        · exact ih ⟨found, later, text_eq⟩ (fun other inside =>
            trusted other (List.mem_cons_of_mem _ inside))

/-- The only record of a key: every row that decodes to it is its canonical
text, marked as trusted. -/
structure OnlyRecord (table : Table) (key : PublicKey) : Prop where
  listed : ∃ record ∈ table, DecodeBase58 record.importedKey = some key.bytes
  canonical : ∀ record ∈ table, DecodeBase58 record.importedKey = some key.bytes →
    record.importedKey = EncodeBase58 key.bytes ∧ record.trusted = "yes"

theorem OnlyRecord.trusted {table : Table} {key : PublicKey} (only : OnlyRecord table key) :
    Trusted (some table) key := by
  refine ⟨table, rfl, isTrusted_of_forall ?_ ?_⟩
  · obtain ⟨record, member, decoded⟩ := only.listed
    exact ⟨record, member, (only.canonical record member decoded).1⟩
  · intro record member text
    refine (only.canonical record member ?_).2
    rw [text, DecodeBase58_EncodeBase58]

end Cscrypto.Gui
