import Mathlib.Data.List.DropRight
import Mathlib.Data.List.TakeWhile
import Mathlib.Data.Nat.Digits.Lemmas
import Mathlib.Tactic.Ring

namespace Cscrypto.Data

open Nat (ofDigits)

/-! # Numbers in a buffer of digits

A converter between two bases keeps a number as little-endian digits in a
buffer of fixed size, of which the first `length` are in use.  It multiplies
the number by the other base and adds a digit, in one pass with a carry that
stops as soon as there is nothing left to add.
-/

/-- One pass over the digits from index `i` on. Returns the digits, the carry
left over and the index at which the pass stopped. -/
def carryPass (factor base length : Nat) : List Nat → (carry i : Nat) → List Nat × Nat × Nat
  | [], carry, i => ([], carry, i)
  | digit :: rest, carry, i =>
      if carry ≠ 0 ∨ i < length then
        let total := carry + factor * digit
        let (rest, carry, i) := carryPass factor base length rest (total / base) (i + 1)
        (total % base :: rest, carry, i)
      else (digit :: rest, carry, i)

/-- The digits `digits` from index `i` on, of which those from `length` on are
unused. -/
structure InUse (base i length : Nat) (digits : List Nat) : Prop where
  small : ∀ digit ∈ digits, digit < base
  unused : ∀ digit ∈ digits.drop (length - i), digit = 0

theorem ofDigits_of_unused {digits : List Nat} (unused : ∀ digit ∈ digits, digit = 0) :
    ofDigits base digits = 0 := by
  rw [List.eq_replicate_of_mem unused, Nat.ofDigits_replicate_zero]

theorem carryPass_spec (factor : Nat) {base length : Nat} (positive : 0 < base) {digits : List Nat}
    (carry i : Nat) (used : InUse base i length digits) :
    ∃ digits' carry' i', carryPass factor base length digits carry i = (digits', carry', i') ∧
      digits'.length = digits.length ∧ i ≤ i' ∧ i' ≤ i + digits.length ∧
      InUse base i i' digits' ∧
      ofDigits base digits' + base ^ digits.length * carry' =
        carry + factor * ofDigits base digits := by
  induction digits generalizing carry i with
  | nil => exact ⟨[], carry, i, rfl, rfl, le_rfl, le_rfl, ⟨by simp, by simp⟩, by simp⟩
  | cons digit rest ih =>
      by_cases continues : carry ≠ 0 ∨ i < length
      · have usedRest : InUse base (i + 1) length rest := by
          refine ⟨fun value member => used.small value (List.mem_cons_of_mem _ member), ?_⟩
          intro value member
          apply used.unused value
          by_cases inside : i < length
          · rwa [show length - i = length - (i + 1) + 1 by omega, List.drop_succ_cons]
          · rw [Nat.sub_eq_zero_of_le (by omega)] at member ⊢
            exact List.mem_cons_of_mem _ member
        obtain ⟨rest', carry', i', ran, size, start, stop, used', value⟩ :=
          ih ((carry + factor * digit) / base) (i + 1) usedRest
        refine ⟨(carry + factor * digit) % base :: rest', carry', i', ?_, ?_, by omega, ?_,
          ⟨?_, ?_⟩, ?_⟩
        · simp only [carryPass, if_pos continues, ran]
        · rw [List.length_cons, size, List.length_cons]
        · rw [List.length_cons]
          omega
        · intro other member
          rcases List.mem_cons.mp member with rfl | later
          · exact Nat.mod_lt _ positive
          · exact used'.small other later
        · rw [show i' - i = i' - (i + 1) + 1 by omega, List.drop_succ_cons]
          exact used'.unused
        · have divided := Nat.mod_add_div (carry + factor * digit) base
          rw [Nat.ofDigits_cons, Nat.ofDigits_cons, List.length_cons]
          calc
            _ = (carry + factor * digit) % base +
                base * (ofDigits base rest' + base ^ rest.length * carry') := by ring
            _ = carry + factor * digit + base * (factor * ofDigits base rest) := by
                rw [value, Nat.mul_add, ← Nat.add_assoc, divided]
            _ = _ := by ring
      · have done : carry = 0 ∧ length ≤ i := by omega
        refine ⟨digit :: rest, carry, i, by simp only [carryPass, if_neg continues], rfl, le_rfl,
          Nat.le_add_right _ _, ⟨used.small, ?_⟩, ?_⟩
        · simpa only [Nat.sub_eq_zero_of_le done.2, Nat.sub_self] using used.unused
        · have unused := used.unused
          rw [Nat.sub_eq_zero_of_le done.2, List.drop_zero] at unused
          rw [ofDigits_of_unused unused, done.1]
          simp

/-- A buffer of `size` digits, `length` of them in use, that holds `value`. -/
structure Holds (base size value : Nat) (buffer : List Nat × Nat) : Prop where
  size_eq : buffer.1.length = size
  used : InUse base 0 buffer.2 buffer.1
  value_eq : ofDigits base buffer.1 = value

theorem holds_zero (positive : 0 < base) (size : Nat) :
    Holds base size 0 (List.replicate size 0, 0) where
  size_eq := List.length_replicate
  used := by
    have zero : ∀ digit ∈ List.replicate size 0, digit = 0 :=
      fun _ member => List.eq_of_mem_replicate member
    exact ⟨fun digit member => by rw [zero digit member]; exact positive, zero⟩
  value_eq := Nat.ofDigits_replicate_zero

def mulAdd (factor base : Nat) (buffer : List Nat × Nat) (input : Nat) : List Nat × Nat :=
  let (digits, _, length) := carryPass factor base buffer.2 buffer.1 input 0
  (digits, length)

theorem carryPass_holds {factor base size value : Nat} {buffer : List Nat × Nat}
    (positive : 0 < base) (holds : Holds base size value buffer) {input : Nat}
    (fits : value * factor + input < base ^ size) :
    ∃ digits length, carryPass factor base buffer.2 buffer.1 input 0 = (digits, 0, length) ∧
      Holds base size (value * factor + input) (digits, length) := by
  obtain ⟨digits, carry, length, ran, same, _, _, used, total⟩ :=
    carryPass_spec factor positive input 0 holds.used
  rw [holds.value_eq, holds.size_eq] at total
  have none : carry = 0 := by
    by_contra some
    have large := Nat.le_mul_of_pos_right (base ^ size) (Nat.pos_of_ne_zero some)
    rw [Nat.mul_comm value] at fits
    omega
  subst none
  refine ⟨digits, length, ran, ⟨same.trans holds.size_eq, used, ?_⟩⟩
  rw [Nat.mul_zero, Nat.add_zero] at total
  rw [total, Nat.mul_comm, Nat.add_comm]

def ofBigEndian (factor : Nat) (inputs : List Nat) : Nat := ofDigits factor inputs.reverse

theorem ofBigEndian_append_singleton (factor : Nat) (inputs : List Nat) (input : Nat) :
    ofBigEndian factor (inputs ++ [input]) = ofBigEndian factor inputs * factor + input := by
  rw [ofBigEndian, List.reverse_append, List.reverse_singleton, List.singleton_append,
    Nat.ofDigits_cons, ofBigEndian]
  ring

theorem foldl_mulAdd_holds {factor base size : Nat} (factorPositive : 0 < factor)
    (positive : 0 < base) (inputs : List Nat)
    (fits : ofBigEndian factor inputs < base ^ size) :
    Holds base size (ofBigEndian factor inputs)
      (inputs.foldl (mulAdd factor base) (List.replicate size 0, 0)) := by
  induction inputs using List.reverseRecOn with
  | nil => exact holds_zero positive size
  | append_singleton inputs input ih =>
      rw [ofBigEndian_append_singleton] at fits ⊢
      have smaller := Nat.le_mul_of_pos_right (ofBigEndian factor inputs) factorPositive
      obtain ⟨digits, length, ran, holds⟩ := carryPass_holds positive (ih (by omega)) fits
      rw [List.foldl_append, List.foldl_cons, List.foldl_nil, mulAdd, ran]
      exact holds

theorem dropWhile_zero_eq_digits {base : Nat} (large : 1 < base) {digits : List Nat}
    (small : ∀ digit ∈ digits, digit < base) :
    digits.dropWhile (· = 0) = (Nat.digits base (ofBigEndian base digits)).reverse := by
  have whole : ofBigEndian base digits = ofDigits base (digits.dropWhile (· = 0)).reverse := by
    conv_lhs => rw [ofBigEndian, ← List.takeWhile_append_dropWhile (p := (· = 0)) (l := digits)]
    have zeros : ∀ digit ∈ (digits.takeWhile (· = 0)).reverse, digit = 0 := by
      intro digit member
      simpa using List.mem_takeWhile_imp (List.mem_reverse.mp member)
    rw [List.reverse_append, Nat.ofDigits_append, ofDigits_of_unused zeros,
      Nat.mul_zero, Nat.add_zero]
  rw [whole, Nat.digits_ofDigits base large, List.reverse_reverse]
  · intro digit member
    exact small digit (List.dropWhile_sublist _ |>.subset (List.mem_reverse.mp member))
  · intro nonempty
    rw [List.getLast_reverse]
    have first := List.head_dropWhile_not (fun digit => decide (digit = 0))
      (fun empty => nonempty (by rw [empty, List.reverse_nil]))
    simpa using first

theorem Holds.read {base size value : Nat} {buffer : List Nat × Nat} (large : 1 < base)
    (holds : Holds base size value buffer) :
    (buffer.1.reverse.drop (size - buffer.2)).dropWhile (· = 0) =
      (Nat.digits base value).reverse := by
  have used : buffer.1.reverse.drop (size - buffer.2) = (buffer.1.take buffer.2).reverse := by
    rw [List.reverse_take, holds.size_eq]
  rw [used, dropWhile_zero_eq_digits large]
  · rw [ofBigEndian, List.reverse_reverse, ← holds.value_eq]
    conv_rhs => rw [← List.take_append_drop buffer.2 buffer.1]
    have unused : ∀ digit ∈ buffer.1.drop buffer.2, digit = 0 := holds.used.unused
    rw [Nat.ofDigits_append, ofDigits_of_unused unused, Nat.mul_zero, Nat.add_zero]
  · intro digit member
    exact holds.used.small digit (List.mem_of_mem_take (List.mem_reverse.mp member))

/-- A buffer for the digits of a number in another base: when `p` digits of
one base fit `q` of the other, `count` digits fit `count * q / p + 1`. -/
theorem pow_le_pow_of_ratio {factor base p q : Nat} (positive : 0 < base)
    (ratio : factor ^ p ≤ base ^ q) (some : 0 < p) (count : Nat) :
    factor ^ count ≤ base ^ (count * q / p + 1) := by
  have enlarged : count * q ≤ (count * q / p + 1) * p :=
    (Nat.lt_mul_of_div_lt (Nat.lt_succ_self _) some).le
  refine (Nat.pow_le_pow_iff_left some.ne').mp ?_
  calc
    (factor ^ count) ^ p = (factor ^ p) ^ count := by
      rw [← Nat.pow_mul, ← Nat.pow_mul, Nat.mul_comm]
    _ ≤ (base ^ q) ^ count := Nat.pow_le_pow_left ratio count
    _ = base ^ (count * q) := by rw [← Nat.pow_mul, Nat.mul_comm]
    _ ≤ base ^ ((count * q / p + 1) * p) := Nat.pow_le_pow_right positive enlarged
    _ = (base ^ (count * q / p + 1)) ^ p := Nat.pow_mul _ _ _

end Cscrypto.Data
