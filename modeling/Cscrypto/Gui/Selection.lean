import Cscrypto.Gui.Authentication

namespace Cscrypto.Gui

open Cscrypto.Base58 Cscrypto.Data Cscrypto.KeyExchange

/-! # The selected key

The window shows the imported key that the user selected, but the request does
not carry it: a reply is checked against all the trusted keys of the database.
The keys of a client come from the selected peer as long as no other trusted
key completes a reply.
-/

structure Completes (sodium : Sodium) (node : Node) (env : Environment) (bytes request : Bytes)
    (sender : PublicKey) (exchange : PubExchangeKey) : Prop where
  running : node.crashed = false
  connected : node.client.socket = .connected
  valid : node.client.requestMaster.validOwnKeys = true
  usable : RequestMaster.Usable env .main node.client.requestMaster.dbConnectionEstablished
    node.process
  arrived : ∃ rest, node.client.unread bytes = keyExchangeReply :: (request ++ rest)
  accepts : Accepts sodium env.table keyExchangeReply request sender exchange
  derives : ∃ secret keys, node.client.requestMaster.ownKeys.2 = .holding secret ∧
    commonKeys sodium false secret exchange = some keys

structure Asked (name : Nat) (node : Node) (log : List Entry) : Prop where
  consistent : node.widget.Consistent
  selected : node.client.requestMaster.validOwnKeys = true →
    ∃ importedKey, latest (requestOf name) log = some importedKey

theorem Asked.append {name : Nat} {node : Node} {log : List Entry} (asked : Asked name node log)
    (added : List Entry) : Asked name node (log ++ added) :=
  ⟨asked.consistent, fun valid => latest_append_exists (asked.selected valid) added⟩

/-- A completed reply leads to the pair, whoever has signed it. -/
theorem Completes.step {sodium : Sodium} {node : Node} {env : Environment} {bytes request : Bytes}
    {sender : PublicKey} {exchange : PubExchangeKey}
    (role : node.client.requestMaster.serverSide = false)
    (completes : Completes sodium node env bytes request sender exchange) :
    ∃ next own send receive, node.step sodium (.receive env bytes) =
      .ok (next, [.validating keyExchangeReply request env.table, .emitted own send receive]) := by
  obtain ⟨secret, ⟨send, receive⟩, holds, computed⟩ := completes.derives
  obtain ⟨signature, rfl, verified⟩ := completes.accepts.signature
  obtain ⟨rest, arrived⟩ := completes.arrived
  have own : node.client.requestMaster.ownKeys =
      (node.client.requestMaster.ownKeys.1, .holding secret) := by rw [← holds]
  obtain ⟨master, process, received⟩ := Client.receive_reply arrived completes.valid own role
    completes.usable completes.accepts.trusted verified
  rw [emittedKeys_of_commonKeys computed] at received
  exact ⟨_, _, send, receive, Node.step_receive completes.connected received⟩

end Cscrypto.Gui
