import Cscrypto.Core.Types
import Cscrypto.Data.LittleEndian

namespace Cscrypto.Mnemonic

open Cscrypto.Data

abbrev kMasterSeedSize : Nat := 32
abbrev kBitsCheckSum : Nat := kMasterSeedSize / 4
abbrev kBitsAll : Nat := kBitsCheckSum + kMasterSeedSize * 8
abbrev kBitsWord : Nat := 11
abbrev kNumWords : Nat := kBitsAll / kBitsWord

/-! # Bit access

`getBit`, `putBit`, `getIndex` and `putIndex` of `mnemonic.cpp`.  Reading or
writing past the end of the buffer is a fault, so that a result shows that the
index arithmetic stayed inside it.
-/

def getBit (bits : ByteArray size) (pos : Nat) : Except Fault Bool :=
  match bits.bytes[pos / 8]? with
  | some byte => .ok (byte.toNat &&& (1 <<< (pos % 8)) != 0)
  | none => .error .outOfBounds

def putBit (bits : ByteArray size) (pos : Nat) (bit : Bool) : Except Fault (ByteArray size) :=
  match bits.bytes[pos / 8]? with
  | some byte => .ok (bits.set (pos / 8) (UInt8.ofNat (byte.toNat ||| (bit.toNat <<< (pos % 8)))))
  | none => .error .outOfBounds

/-- The loop of `getIndex`; `remaining` is `end - pos`. -/
def getIndexLoop (bits : ByteArray size) : Nat → Nat → Nat → Except Fault Nat
  | 0, _, result => .ok result
  | remaining + 1, pos, result => do
      let bit ← getBit bits pos
      getIndexLoop bits remaining (pos + 1) (result ||| (bit.toNat <<< (pos % kBitsWord)))

def getIndex (bits : ByteArray size) (wordNum : Nat) : Except Fault Nat :=
  getIndexLoop bits kBitsWord (wordNum * kBitsWord) 0

/-- The object representation of a `size_t` on a little-endian host. -/
def sizeBytes (index : Nat) : ByteArray 8 := ⟨toLittleEndian 8 index, toLittleEndian_length 8 index⟩

/-- The loop of `putIndex`; `remaining` is `kBitsWord - i`. -/
def putIndexLoop (wordNum index : Nat) : Nat → Nat → ByteArray size → Except Fault (ByteArray size)
  | 0, _, bits => .ok bits
  | remaining + 1, i, bits =>
      if wordNum * kBitsWord + i < kBitsAll - kBitsCheckSum then do
        let bit ← getBit (sizeBytes index) i
        let bits ← putBit bits (wordNum * kBitsWord + i) bit
        putIndexLoop wordNum index remaining (i + 1) bits
      else putIndexLoop wordNum index remaining (i + 1) bits

def putIndex (bits : ByteArray size) (wordNum index : Nat) : Except Fault (ByteArray size) :=
  putIndexLoop wordNum index kBitsWord 0 bits

def number (bits : ByteArray size) : Nat := littleEndian bits.bytes

theorem number_lt (bits : ByteArray size) : number bits < 2 ^ (8 * size) := by
  have bound := littleEndian_lt bits.bytes
  rwa [bits.size_eq] at bound

theorem eq_of_number_eq {left right : ByteArray size} (same : number left = number right) :
    left = right :=
  ByteArray.ext_bytes (eq_of_littleEndian_eq (left.size_eq.trans right.size_eq.symm) same)

theorem getBit_eq (bits : ByteArray size) (pos : Nat) (inside : pos < 8 * size) :
    getBit bits pos = .ok ((number bits).testBit pos) := by
  have room : pos / 8 < bits.bytes.length := by
    rw [bits.size_eq]
    omega
  have masked (byte : Nat) : (byte &&& (1 <<< (pos % 8)) != 0) = byte.testBit (pos % 8) := by
    rw [Nat.one_shiftLeft, Nat.and_two_pow]
    cases byte.testBit (pos % 8) <;> simp
  rw [number, testBit_littleEndian, List.getD_eq_getElem _ _ room]
  simp only [getBit, List.getElem?_eq_getElem room, masked]

theorem putBit_ok (bits : ByteArray size) (pos : Nat) (bit : Bool) (inside : pos < 8 * size) :
    ∃ after, putBit bits pos bit = .ok after ∧
      ∀ other, (number after).testBit other =
        ((number bits).testBit other || (decide (other = pos) && bit)) := by
  have length := bits.size_eq
  have room : pos / 8 < bits.bytes.length := by omega
  have changed := testBit_littleEndian_set_or bits.bytes pos bit (by omega)
  rw [List.getD_eq_getElem _ _ room] at changed
  simp only [putBit, List.getElem?_eq_getElem room]
  exact ⟨_, rfl, changed⟩

/-- After `i` iterations the accumulator holds the low `i` bits of the field. -/
theorem getIndexLoop_eq (bits : ByteArray size) (wordNum remaining i : Nat)
    (covered : i + remaining = kBitsWord) (inside : (wordNum + 1) * kBitsWord ≤ 8 * size) :
    getIndexLoop bits remaining (wordNum * kBitsWord + i)
        (number bits / 2 ^ (kBitsWord * wordNum) % 2 ^ i) =
      .ok (fieldAt kBitsWord (number bits) wordNum) := by
  induction remaining generalizing i with
  | zero =>
      have all : i = kBitsWord := by omega
      subst i
      rfl
  | succ remaining ih =>
      have below : i < kBitsWord := by omega
      have position : (wordNum * kBitsWord + i) % kBitsWord = i := by
        rw [Nat.mul_comm, Nat.mul_add_mod, Nat.mod_eq_of_lt below]
      have read : getBit bits (wordNum * kBitsWord + i) =
          .ok ((number bits / 2 ^ (kBitsWord * wordNum)).testBit i) := by
        rw [getBit_eq bits _ (by simp only [kBitsWord] at *; omega), Nat.testBit_div_two_pow,
          Nat.mul_comm wordNum, Nat.add_comm]
      rw [getIndexLoop, read, ok_bind, position, mod_two_pow_or_bit]
      exact ih (i + 1) (by omega)

/-- `getIndex` reads one 11-bit field of the number in the buffer. -/
theorem getIndex_eq (bits : ByteArray size) (wordNum : Nat)
    (inside : (wordNum + 1) * kBitsWord ≤ 8 * size) :
    getIndex bits wordNum = .ok (fieldAt kBitsWord (number bits) wordNum) := by
  have loop := getIndexLoop_eq bits wordNum kBitsWord 0 rfl inside
  rwa [Nat.pow_zero, Nat.mod_one] at loop

theorem getBit_sizeBytes (index i : Nat) (below : i < kBitsWord) :
    getBit (sizeBytes index) i = .ok (index.testBit i) := by
  have inside : i < 8 * 8 := by
    simp only [kBitsWord] at below
    omega
  rw [getBit_eq _ _ inside, number, sizeBytes, littleEndian_toLittleEndian,
    Nat.testBit_mod_two_pow, decide_eq_true inside, Bool.true_and]

/-- Iterations `i` and later of `putIndex` write the bits from `i` on, up to
bit 256, and no bit twice. -/
theorem putIndexLoop_ok (wordNum index remaining i : Nat) (bits : ByteArray kMasterSeedSize)
    (covered : i + remaining = kBitsWord) :
    ∃ after, putIndexLoop wordNum index remaining i bits = .ok after ∧
      ∀ other, (number after).testBit other =
        ((number bits).testBit other ||
          (decide (other < 256 ∧ wordNum * kBitsWord + i ≤ other ∧
            other < (wordNum + 1) * kBitsWord) &&
            index.testBit (other - wordNum * kBitsWord))) := by
  induction remaining generalizing i bits with
  | zero =>
      refine ⟨bits, rfl, ?_⟩
      intro other
      have none : ¬ (other < 256 ∧ wordNum * kBitsWord + i ≤ other ∧
          other < (wordNum + 1) * kBitsWord) := by
        simp only [kBitsWord] at *
        omega
      simp [none]
  | succ remaining ih =>
      by_cases room : wordNum * kBitsWord + i < kBitsAll - kBitsCheckSum
      · obtain ⟨middle, put, middleBits⟩ :=
          putBit_ok bits (wordNum * kBitsWord + i) (index.testBit i) room
        obtain ⟨after, ran, afterBits⟩ := ih (i + 1) middle (by omega)
        refine ⟨after, ?_, ?_⟩
        · rw [putIndexLoop, if_pos room, getBit_sizeBytes index i (by omega), ok_bind,
            put, ok_bind, ran]
        · intro other
          rw [afterBits, middleBits]
          by_cases here : other = wordNum * kBitsWord + i
          · subst other
            have later : ¬ wordNum * kBitsWord + (i + 1) ≤ wordNum * kBitsWord + i := by omega
            have bound : wordNum * kBitsWord + i < 256 := room
            have last : wordNum * kBitsWord + i < (wordNum + 1) * kBitsWord := by
              simp only [kBitsWord] at *
              omega
            simp [later, bound, last]
          · have same : (wordNum * kBitsWord + (i + 1) ≤ other) ↔
                (wordNum * kBitsWord + i ≤ other) := by
              omega
            simp [here, same]
      · obtain ⟨after, ran, afterBits⟩ := ih (i + 1) bits (by omega)
        refine ⟨after, ?_, ?_⟩
        · rw [putIndexLoop, if_neg room, ran]
        · intro other
          rw [afterBits]
          have same : (other < 256 ∧ wordNum * kBitsWord + (i + 1) ≤ other ∧
              other < (wordNum + 1) * kBitsWord) ↔
              (other < 256 ∧ wordNum * kBitsWord + i ≤ other ∧
                other < (wordNum + 1) * kBitsWord) := by
            simp only [kBitsAll, kBitsCheckSum, kMasterSeedSize] at room
            omega
          rw [decide_eq_decide.mpr same]

theorem putIndex_ok (bits : ByteArray kMasterSeedSize) (wordNum index : Nat)
    (small : index < 2 ^ kBitsWord) (fresh : number bits < 2 ^ (kBitsWord * wordNum)) :
    ∃ after, putIndex bits wordNum index = .ok after ∧
      number after = (number bits + 2 ^ (kBitsWord * wordNum) * index) % 2 ^ 256 := by
  obtain ⟨after, ran, afterBits⟩ := putIndexLoop_ok wordNum index kBitsWord 0 bits rfl
  refine ⟨after, ran, ?_⟩
  have bound : number bits < 2 ^ 256 := number_lt bits
  apply Nat.eq_of_testBit_eq
  intro other
  rw [afterBits, Nat.testBit_mod_two_pow, testBit_add_above _ _ _ _ fresh]
  by_cases inside : other < 256
  · by_cases above : (wordNum + 1) * kBitsWord ≤ other
    · have outside : index.testBit (other - kBitsWord * wordNum) = false := by
        apply Nat.testBit_lt_two_pow
        refine small.trans_le (Nat.pow_le_pow_right (by decide) ?_)
        simp only [kBitsWord] at *
        omega
      simp [inside, Nat.mul_comm wordNum, outside]
    · simp [inside, Nat.mul_comm wordNum, Nat.not_le.mp above]
  · have clear : (number bits).testBit other = false :=
      Nat.testBit_lt_two_pow (bound.trans_le (Nat.pow_le_pow_right (by decide) (by omega)))
    simp [inside, clear]

end Cscrypto.Mnemonic
