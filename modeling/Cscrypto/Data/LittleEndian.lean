import Cscrypto.Data.Bits

namespace Cscrypto.Data

open Nat (ofDigits)

/-! # Little-endian byte strings -/

def littleEndian (bytes : List UInt8) : Nat := ofDigits (2 ^ 8) (bytes.map UInt8.toNat)

def toLittleEndian (count number : Nat) : List UInt8 :=
  (List.range count).map (fun index => UInt8.ofNat (fieldAt 8 number index))

private theorem byte_small (bytes : List UInt8) :
    ∀ digit ∈ bytes.map UInt8.toNat, digit < 2 ^ 8 := by
  intro digit member
  obtain ⟨byte, _, rfl⟩ := List.mem_map.mp member
  exact byte.toNat_lt

theorem littleEndian_lt (bytes : List UInt8) :
    littleEndian bytes < 2 ^ (8 * bytes.length) := by
  have bound := ofDigits_lt 8 (bytes.map UInt8.toNat) (byte_small bytes)
  rwa [List.length_map] at bound

theorem testBit_littleEndian (bytes : List UInt8) (position : Nat) :
    (littleEndian bytes).testBit position =
      (bytes.getD (position / 8) 0).toNat.testBit (position % 8) := by
  rw [littleEndian, testBit_ofDigits 8 (by decide) _ (byte_small bytes)]
  exact congrArg (fun digit : Nat => digit.testBit (position % 8))
    (List.getD_map (f := UInt8.toNat) (d := 0) (n := position / 8) ..)

theorem littleEndian_append (front back : List UInt8) :
    littleEndian (front ++ back) =
      littleEndian front + 2 ^ (8 * front.length) * littleEndian back := by
  rw [littleEndian, List.map_append, Nat.ofDigits_append, List.length_map, ← Nat.pow_mul]
  rfl

theorem eq_of_littleEndian_eq {left right : List UInt8} (length : left.length = right.length)
    (same : littleEndian left = littleEndian right) : left = right := by
  have digits : left.map UInt8.toNat = right.map UInt8.toNat :=
    Nat.ofDigits_inj_of_len_eq (by decide) (by simpa using length)
      (byte_small left) (byte_small right) same
  exact List.map_injective_iff.mpr (fun _ _ => UInt8.toNat_inj.mp) digits

@[simp] theorem toLittleEndian_length (count number : Nat) :
    (toLittleEndian count number).length = count := by
  simp [toLittleEndian]

theorem littleEndian_toLittleEndian (count number : Nat) :
    littleEndian (toLittleEndian count number) = number % 2 ^ (8 * count) := by
  have digits : (toLittleEndian count number).map UInt8.toNat =
      (List.range count).map (fieldAt 8 (number % 2 ^ (8 * count))) := by
    rw [toLittleEndian, List.map_map]
    apply List.map_congr_left
    intro index member
    have bound := List.mem_range.mp member
    have small : fieldAt 8 number index < 256 := fieldAt_lt 8 number index
    rw [Function.comp_apply, UInt8.toNat_ofNat', Nat.mod_eq_of_lt small]
    apply Nat.eq_of_testBit_eq
    intro offset
    rw [testBit_fieldAt, testBit_fieldAt, Nat.testBit_mod_two_pow]
    by_cases inside : offset < 8
    · simp [show 8 * index + offset < 8 * count by omega]
    · simp [inside]
  rw [littleEndian, digits]
  exact ofDigits_fieldAt 8 _ count (by decide) (Nat.mod_lt _ (Nat.two_pow_pos _))

/-- Setting one bit of one byte sets that bit of the number. -/
theorem testBit_littleEndian_set_or (bytes : List UInt8) (position : Nat) (bit : Bool)
    (inside : position < 8 * bytes.length) (other : Nat) :
    (littleEndian (bytes.set (position / 8)
      (UInt8.ofNat ((bytes.getD (position / 8) 0).toNat |||
        (bit.toNat <<< (position % 8)))))).testBit other =
      ((littleEndian bytes).testBit other || (decide (other = position) && bit)) := by
  have room : position / 8 < bytes.length := by omega
  rw [testBit_littleEndian, testBit_littleEndian]
  by_cases sameByte : other / 8 = position / 8
  · have offset : position % 8 < 8 := Nat.mod_lt _ (by decide)
    have samePosition : (other = position) ↔ (other % 8 = position % 8) := by omega
    have selected : (bytes.set (position / 8) (UInt8.ofNat ((bytes.getD (position / 8) 0).toNat |||
        (bit.toNat <<< (position % 8))))).getD (other / 8) 0 =
        UInt8.ofNat ((bytes.getD (position / 8) 0).toNat ||| (bit.toNat <<< (position % 8))) := by
      rw [sameByte, List.getD_eq_getElem?_getD, List.getElem?_set_self room, Option.getD_some]
    rw [selected, UInt8.toNat_ofNat', Nat.testBit_mod_two_pow,
      decide_eq_true (Nat.mod_lt _ (by decide)), Bool.true_and, Nat.testBit_or,
      Nat.testBit_shiftLeft, Nat.testBit_bool_toNat, sameByte]
    by_cases same : other % 8 = position % 8
    · simp [samePosition, same]
    · have different : ¬ (position % 8 ≤ other % 8 ∧ other % 8 - position % 8 = 0) := by omega
      simp [samePosition, same]
      omega
  · have different : other ≠ position := fun same => sameByte (by rw [same])
    rw [List.getD_eq_getElem?_getD, List.getElem?_set_ne (fun same => sameByte same.symm),
      ← List.getD_eq_getElem?_getD]
    simp [different]

end Cscrypto.Data
