import Cscrypto.Gui.Delivery

namespace Cscrypto.Gui

/-! # What a validation shows

A caller of `validate` sees its result and the signals.  They depend on the
message, the table, the keys and the role of the request master, and on whether
its database connection can be used; what earlier messages have left in its
members is not seen.
-/

namespace RequestMaster

variable {sodium : Sodium}

theorem length_of_sized {type : RequestType} {request : Bytes}
    (size : request.length = sizeT (requestSize type)) : 128 ≤ request.length := by
  rw [size, requestSize]
  split <;> decide

/-- A call that ends abnormally had passed all the checks before. -/
theorem validate_error {env : Environment} {master : RequestMaster} {process : Process}
    {type : RequestType} {request : Bytes} {fault : Fault}
    (failed : master.validate sodium env process type request = .error fault) :
    master.validOwnKeys = true ∧
      Usable env (master.thread env) master.dbConnectionEstablished process ∧
      ∃ sender exchange signature, Passes sodium env.table type request sender exchange
        signature := by
  unfold validate at failed
  dsimp only at failed
  split at failed
  · contradiction
  rename_i valid
  split at failed
  · contradiction
  rename_i size
  have long := length_of_sized (not_not.mp size)
  obtain ⟨sender, first, _⟩ :=
    @copyArray_ok kPublicKeySize request 0 (Nat.le_trans (by decide) long)
  obtain ⟨exchange, second, _⟩ :=
    @copyArray_ok kPubExchangeKeySize request kPublicKeySize (Nat.le_trans (by decide) long)
  obtain ⟨signature, third, _⟩ := @copyArray_ok kSignatureSize request
    (kPublicKeySize + kPubExchangeKeySize) (Nat.le_trans (by decide) long)
  rw [first, ok_bind] at failed
  split at failed
  · contradiction
  rename_i opened
  split at failed
  · contradiction
  rename_i looked
  have looked := verifySenderPublicKey_eq_true.mp (by simpa using looked)
  rw [second, ok_bind, third, ok_bind] at failed
  split at failed
  · contradiction
  rename_i verified
  exact ⟨by simpa using valid, ⟨by simpa using opened, looked.1⟩, sender, exchange, signature,
    not_not.mp size, first, second, third, looked.2,
    by simpa [checkRequestSignature] using verified⟩

/-- What a caller sees of a validation: its result and the signals. -/
def outcome (result : Validation) : Bool × List Event := (result.accepted, result.events)

theorem validate_established {env : Environment} {master : RequestMaster} {process : Process}
    {type : RequestType} {request : Bytes} {result : Validation}
    (ran : master.validate sodium env process type request = .ok result) :
    result.master.dbConnectionEstablished = (master.dbConnectionEstablished ||
      (master.validOwnKeys && decide (request.length = sizeT (requestSize type)) &&
        env.opens)) := by
  have opens : (connection env master process).1 =
      (master.dbConnectionEstablished || env.opens) := by
    rw [connection, connect]
    cases master.dbConnectionEstablished <;> rfl
  unfold validate at ran
  dsimp only at ran
  split at ran
  · rename_i missing
    cases ran
    rw [show master.validOwnKeys = false by simpa using missing, Bool.false_and, Bool.false_and,
      Bool.or_false]
  rename_i valid
  split at ran
  · rename_i other
    cases ran
    rw [decide_eq_false other, Bool.and_false, Bool.false_and, Bool.or_false]
  rename_i size
  rw [show master.validOwnKeys = true by simpa using valid, decide_eq_true (not_not.mp size),
    Bool.true_and, Bool.true_and]
  obtain ⟨sender, _, ran⟩ := bind_eq_ok.mp ran
  rw [opens] at ran
  split at ran
  · rename_i fails
    cases ran
    simp only [Bool.not_eq_true', Bool.or_eq_false_iff] at fails
    rw [fails.1, fails.2]
    rfl
  rename_i opened
  rw [Bool.not_eq_true', Bool.not_eq_false] at opened
  rw [opened]
  split at ran
  · cases ran
    rfl
  obtain ⟨_, _, ran⟩ := bind_eq_ok.mp ran
  obtain ⟨_, _, ran⟩ := bind_eq_ok.mp ran
  split at ran
  · cases ran
    rfl
  obtain ⟨_, _, ran⟩ := bind_eq_ok.mp ran
  cases ran
  rfl

/-- Two request masters that differ only in what is left of earlier messages. -/
structure Alike (left right : RequestMaster) : Prop where
  ownKeys : left.ownKeys = right.ownKeys
  serverSide : left.serverSide = right.serverSide
  validOwnKeys : left.validOwnKeys = right.validOwnKeys
  established : left.dbConnectionEstablished = right.dbConnectionEstablished

theorem Alike.refl (master : RequestMaster) : Alike master master := ⟨rfl, rfl, rfl, rfl⟩

theorem Alike.thread {left right : RequestMaster} (alike : Alike left right) (env : Environment) :
    left.thread env = right.thread env := by
  rw [RequestMaster.thread, RequestMaster.thread, alike.serverSide]

theorem validate_members {env : Environment} {master : RequestMaster} {process : Process}
    {type : RequestType} {request : Bytes} {result : Validation}
    (ran : master.validate sodium env process type request = .ok result) :
    result.master.ownKeys = master.ownKeys ∧ result.master.serverSide = master.serverSide ∧
      result.master.validOwnKeys = master.validOwnKeys := by
  cases validate_validates ran <;> exact ⟨rfl, rfl, rfl⟩

theorem Alike.validate {env : Environment} {left right : RequestMaster} {process other : Process}
    {type : RequestType} {request : Bytes} {result result' : Validation} (alike : Alike left right)
    (ran : left.validate sodium env process type request = .ok result)
    (ran' : right.validate sodium env other type request = .ok result') :
    Alike result.master result'.master := by
  obtain ⟨own, side, valid⟩ := validate_members ran
  obtain ⟨own', side', valid'⟩ := validate_members ran'
  refine ⟨?_, ?_, ?_, ?_⟩
  · rw [own, own', alike.ownKeys]
  · rw [side, side', alike.serverSide]
  · rw [valid, valid', alike.validOwnKeys]
  · rw [validate_established ran, validate_established ran', alike.established,
      alike.validOwnKeys]

theorem Alike.keysOnReply {left right : RequestMaster} (alike : Alike left right)
    (exchange : PubExchangeKey) (type : RequestType) :
    RequestMaster.keysOnReply sodium { left with exchangePubKey := exchange } type =
      RequestMaster.keysOnReply sodium { right with exchangePubKey := exchange } type := by
  simp only [RequestMaster.keysOnReply, formCommonKeys, alike.ownKeys, alike.serverSide]

end RequestMaster

end Cscrypto.Gui
