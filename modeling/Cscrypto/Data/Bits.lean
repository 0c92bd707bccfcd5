import Mathlib.Data.Nat.Bitwise
import Mathlib.Data.Nat.Digits.Lemmas

namespace Cscrypto.Data

/-! # Bits of a little-endian digit list

A list of `width`-bit digits, least significant first, denotes the number
`Nat.ofDigits (2 ^ width)`.  Bit `position` of that number is bit
`position % width` of digit `position / width`, whatever the width is, so two
digit lists of different widths can be compared bit by bit.
-/

open Nat (ofDigits)

theorem testBit_ofDigits (width : Nat) (positive : 0 < width) (digits : List Nat)
    (small : ∀ digit ∈ digits, digit < 2 ^ width) (position : Nat) :
    (ofDigits (2 ^ width) digits).testBit position =
      (digits.getD (position / width) 0).testBit (position % width) := by
  induction digits generalizing position with
  | nil => simp
  | cons digit rest ih =>
      have headSmall := small digit (by simp)
      have restSmall := fun other member => small other (List.mem_cons_of_mem digit member)
      rw [Nat.ofDigits_cons, Nat.add_comm, Nat.testBit_two_pow_mul_add _ headSmall]
      by_cases inHead : position < width
      · rw [if_pos inHead, Nat.div_eq_of_lt inHead, Nat.mod_eq_of_lt inHead, List.getD_cons_zero]
      · have quotient : position / width = (position - width) / width + 1 := by
          rw [← Nat.add_div_right _ positive, Nat.sub_add_cancel (by omega)]
        have remainder : position % width = (position - width) % width := by
          rw [← Nat.add_mod_right (position - width) width, Nat.sub_add_cancel (by omega)]
        rw [if_neg inHead, ih restSmall, quotient, remainder, List.getD_cons_succ]

theorem ofDigits_lt (width : Nat) (digits : List Nat)
    (small : ∀ digit ∈ digits, digit < 2 ^ width) :
    ofDigits (2 ^ width) digits < 2 ^ (width * digits.length) := by
  by_cases zero : width = 0
  · subst width
    have allZero : ∀ digit ∈ digits, digit = 0 := by
      intro digit member
      simpa using small digit member
    rw [List.eq_replicate_of_mem allZero]
    simp [Nat.ofDigits_replicate_zero]
  · rw [Nat.pow_mul]
    exact Nat.ofDigits_lt_base_pow_length (Nat.one_lt_two_pow zero) small

def fieldAt (width number index : Nat) : Nat := number / 2 ^ (width * index) % 2 ^ width

theorem fieldAt_lt (width number index : Nat) : fieldAt width number index < 2 ^ width :=
  Nat.mod_lt _ (Nat.two_pow_pos width)

theorem testBit_fieldAt (width number index offset : Nat) :
    (fieldAt width number index).testBit offset =
      (decide (offset < width) && number.testBit (width * index + offset)) := by
  rw [fieldAt, Nat.testBit_mod_two_pow, Nat.testBit_div_two_pow, Nat.add_comm offset]

/-- The fields of a number, read in order, are its digits. -/
theorem ofDigits_fieldAt (width number count : Nat) (positive : 0 < width)
    (bound : number < 2 ^ (width * count)) :
    ofDigits (2 ^ width) ((List.range count).map (fieldAt width number)) = number := by
  apply Nat.eq_of_testBit_eq
  intro position
  have small : ∀ digit ∈ (List.range count).map (fieldAt width number), digit < 2 ^ width := by
    intro digit member
    obtain ⟨index, _, rfl⟩ := List.mem_map.mp member
    exact fieldAt_lt width number index
  rw [testBit_ofDigits width positive _ small]
  by_cases inside : position / width < count
  · have selected : ((List.range count).map (fieldAt width number)).getD (position / width) 0 =
        fieldAt width number (position / width) := by
      simp [List.getD_eq_getElem?_getD, inside]
    rw [selected, testBit_fieldAt, decide_eq_true (Nat.mod_lt _ positive), Bool.true_and,
      Nat.div_add_mod]
  · have beyond : 2 ^ (width * count) ≤ 2 ^ position := by
      apply Nat.pow_le_pow_right (by decide)
      have reached : count ≤ position / width := by omega
      exact (Nat.mul_comm width count).le.trans ((Nat.le_div_iff_mul_le positive).mp reached)
    rw [List.getD_eq_default _ _ (by simpa using inside), Nat.zero_testBit,
      Nat.testBit_lt_two_pow (bound.trans_le beyond)]

theorem mod_two_pow_or_bit (number count : Nat) :
    number % 2 ^ count ||| ((number.testBit count).toNat <<< count) = number % 2 ^ (count + 1) := by
  apply Nat.eq_of_testBit_eq
  intro position
  simp only [Nat.testBit_or, Nat.testBit_mod_two_pow, Nat.testBit_shiftLeft, Nat.testBit_bool_toNat]
  rcases Nat.lt_trichotomy position count with below | same | above
  · simp [below, Nat.lt_succ_of_lt below, Nat.not_le.mpr below]
  · subst position
    simp
  · simp [Nat.not_lt.mpr above.le, Nat.not_lt.mpr above, show ¬ position - count = 0 by omega]

/-- Adding digits above everything that is already there sets their bits. -/
theorem testBit_add_above (low high shift position : Nat) (bound : low < 2 ^ shift) :
    (low + 2 ^ shift * high).testBit position =
      (low.testBit position || (decide (shift ≤ position) && high.testBit (position - shift))) := by
  rw [Nat.add_comm, Nat.testBit_two_pow_mul_add _ bound]
  by_cases below : position < shift
  · simp [below, Nat.not_le.mpr below]
  · have clear : low.testBit position = false :=
      Nat.testBit_lt_two_pow (bound.trans_le (Nat.pow_le_pow_right (by decide) (by omega)))
    simp [below, clear, Nat.not_lt.mp below]

theorem add_above_div (low high shift more : Nat) (bound : low < 2 ^ shift) :
    (low + 2 ^ shift * high) / 2 ^ (shift + more) = high / 2 ^ more := by
  rw [Nat.pow_add, ← Nat.div_div_eq_div_mul, Nat.add_mul_div_left _ _ (Nat.two_pow_pos shift),
    Nat.div_eq_of_lt bound, Nat.zero_add]

end Cscrypto.Data
