import Mathlib.Data.List.Basic

namespace Cscrypto

/-! # Data types of the library

`Byte`, `Bytes` and `ByteArray` follow `cryptotypes.hpp`.  A call that does not
return normally ends in a `Fault`; the model of a function is total and says
so explicitly, instead of choosing some value for an undefined read.
-/

abbrev Byte := UInt8

abbrev Bytes := List Byte

def ascii (text : String) : Bytes := text.toList.map (fun character => character.toNat.toUInt8)

/-- How a call can end without returning to its caller. `outOfFuel` marks a
loop that is still running when its iteration budget is used up. -/
inductive Fault where
  | outOfBounds
  | accessViolation
  | misuse
  | lengthError
  | outOfFuel
deriving DecidableEq, Repr

structure ByteArray (size : Nat) where
  bytes : Bytes
  size_eq : bytes.length = size
deriving DecidableEq, Repr

theorem ByteArray.ext_bytes {left right : ByteArray size}
    (same : left.bytes = right.bytes) : left = right := by
  cases left
  cases right
  cases same
  rfl

def ByteArray.replicate (size : Nat) (byte : Byte) : ByteArray size :=
  ⟨List.replicate size byte, List.length_replicate⟩

def ByteArray.get (array : ByteArray size) (index : Fin size) : Byte :=
  array.bytes.get (index.cast array.size_eq.symm)

def ByteArray.set (array : ByteArray size) (index : Nat) (byte : Byte) : ByteArray size :=
  ⟨array.bytes.set index byte, by rw [List.length_set, array.size_eq]⟩

abbrev kHashSize : Nat := 32
abbrev kPublicKeySize : Nat := 32
abbrev kPrivateKeySize : Nat := 64
abbrev kSignatureSize : Nat := 64

abbrev Hash := ByteArray kHashSize
abbrev PublicKey := ByteArray kPublicKeySize
abbrev Signature := ByteArray kSignatureSize

@[simp] theorem ok_bind (value : α) (next : α → Except Fault β) :
    ((Except.ok value : Except Fault α) >>= next) = next value := rfl

@[simp] theorem error_bind (fault : Fault) (next : α → Except Fault β) :
    ((Except.error fault : Except Fault α) >>= next) = .error fault := rfl

@[simp] theorem pure_eq_ok (value : α) : (pure value : Except Fault α) = .ok value := rfl

@[simp] theorem map_ok (change : α → β) (value : α) :
    (Except.ok value : Except Fault α).map change = .ok (change value) := rfl

theorem map_eq_ok {call : Except Fault α} {change : α → β} {result : β} :
    call.map change = .ok result ↔ ∃ value, call = .ok value ∧ change value = result := by
  cases call with
  | ok value => simp
  | error fault =>
      constructor
      · intro failed
        contradiction
      · intro given
        obtain ⟨_, failed, _⟩ := given
        contradiction

theorem map_map (call : Except Fault α) (first : α → β) (second : β → γ) :
    (call.map first).map second = call.map (second ∘ first) := by
  cases call <;> rfl

theorem map_bind (call : Except Fault α) (next : α → Except Fault β) (change : β → γ) :
    (call >>= next).map change = call >>= fun value => (next value).map change := by
  cases call <;> rfl

/-- What follows two calls agrees if it asks only for what they agree in. -/
theorem bind_congr_of_map {first second : Except Fault α} {next next' : α → Except Fault β}
    {view : α → γ} (same : first.map view = second.map view)
    (agrees : ∀ value value', view value = view value' → next value = next' value') :
    first >>= next = second >>= next' := by
  cases first with
  | error fault =>
      cases second with
      | error other =>
          cases same
          rfl
      | ok value => contradiction
  | ok value =>
      cases second with
      | error fault => contradiction
      | ok value' => exact agrees value value' (Except.ok.inj same)

theorem bind_eq_ok {call : Except Fault α} {next : α → Except Fault β} {result : β} :
    (call >>= next) = .ok result ↔ ∃ value, call = .ok value ∧ next value = .ok result := by
  cases call with
  | ok value => simp
  | error fault => simp

/-- `*(source + position)` for a range of `size` bytes. -/
def copyArray (size : Nat) (source : Bytes) (position : Nat) : Except Fault (ByteArray size) :=
  if fits : position + size ≤ source.length then
    .ok ⟨(source.drop position).take size, by simp only [List.length_take, List.length_drop]; omega⟩
  else .error .outOfBounds

theorem copyArray_ok {source : Bytes} {position : Nat} (fits : position + size ≤ source.length) :
    ∃ copied, copyArray size source position = .ok copied ∧
      copied.bytes = (source.drop position).take size :=
  ⟨_, dif_pos fits, rfl⟩

theorem copyArray_bytes {source : Bytes} {position : Nat} {copied : ByteArray size}
    (ran : copyArray size source position = .ok copied) :
    copied.bytes = (source.drop position).take size := by
  unfold copyArray at ran
  split at ran
  · cases ran
    rfl
  · contradiction

theorem copyArray_append {front back : Bytes} (part : ByteArray size)
    (start : front.length = position) :
    copyArray size (front ++ part.bytes ++ back) position = .ok part := by
  have fits : position + size ≤ (front ++ part.bytes ++ back).length := by
    simp only [List.length_append, part.size_eq]
    omega
  obtain ⟨copied, ran, bytes⟩ := copyArray_ok fits
  rw [ran]
  refine congrArg _ (ByteArray.ext_bytes ?_)
  rw [bytes, List.append_assoc, List.drop_left' start, List.take_left' part.size_eq]

def copyInto (target : Bytes) (position : Nat) (source : Bytes) : Except Fault Bytes :=
  if position + source.length ≤ target.length then
    .ok (target.take position ++ source ++ target.drop (position + source.length))
  else .error .outOfBounds

/-- Filling the next part of a buffer that is zero from there on. -/
theorem copyInto_zeros {front source : Bytes} (start : front.length = position)
    (room : source.length + rest = count) :
    copyInto (front ++ List.replicate count 0) position source =
      .ok (front ++ source ++ List.replicate rest 0) := by
  have inside : position + source.length ≤ (front ++ List.replicate count (0 : Byte)).length := by
    rw [List.length_append, List.length_replicate]
    omega
  rw [copyInto, if_pos inside, List.take_left' start, ← start, List.drop_length_add_append,
    List.drop_replicate, ← room, Nat.add_sub_cancel_left]

end Cscrypto
