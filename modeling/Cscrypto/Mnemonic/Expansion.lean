import Cscrypto.Mnemonic.RoundTrip

namespace Cscrypto.Mnemonic

open Cscrypto.Data
open Nat (ofDigits digitsAppend)

/-! # Bit packing as a change of base

The 33 bytes of seed and checksum and the 24 dictionary positions are
expansions of one integer in base 256 and in base 2048, both with the lowest
digit first.
-/

theorem indicesOf_eq_digits (calculateHash : Bytes → Hash) (seed : ByteArray kMasterSeedSize) :
    indicesOf calculateHash seed = digitsAppend kDictionarySize kNumWords
      (number (withCheckSum seed ((calculateHash seed.bytes).get 0))) := by
  have width : (indicesOf calculateHash seed).length = kNumWords := by simp [indicesOf]
  have inverse := (Nat.setInvOn_digitsAppend_ofDigits (b := kDictionarySize) (by decide)
    kNumWords).1 ⟨width, indicesOf_lt calculateHash seed⟩
  rw [number_withCheckSum, ← ofDigits_indicesOf]
  exact inverse.symm

theorem position_eq_idxOf {dictionary : Dictionary} {word : CString}
    (member : word ∈ dictionary.strings) :
    position dictionary word = some (dictionary.strings.idxOf word) := by
  have inside : dictionary.strings.idxOf word < dictionary.strings.length :=
    List.idxOf_lt_length_of_mem member
  rw [position, List.findIdx?_eq_some_iff_findIdx_eq]
  have same : (fun entry => decide (word = entry)) = (· == word) := by
    funext entry
    rw [Bool.eq_iff_iff, decide_eq_true_iff, beq_iff_eq, eq_comm]
  rw [same]
  exact ⟨inside, rfl⟩

theorem positions_eq_idxOf {dictionary : Dictionary} {words : List CString}
    (members : ∀ word ∈ words, word ∈ dictionary.strings) :
    positions dictionary words = some (words.map (dictionary.strings.idxOf ·)) := by
  induction words with
  | nil => rfl
  | cons word rest ih =>
      rw [positions, position_eq_idxOf (members word List.mem_cons_self), Option.bind_some,
        ih (fun other inside => members other (List.mem_cons_of_mem _ inside))]
      rfl

/-- The sum over all words of the first position of the word times a power of
2048. -/
def sumOfPositions (dictionary : Dictionary) (words : WordList) : Nat :=
  (words.strings.mapIdx (fun i word => dictionary.strings.idxOf word * kDictionarySize ^ i)).sum

theorem ofDigits_idxOf (dictionary : Dictionary) (words : WordList) :
    ofDigits (2 ^ kBitsWord) (words.strings.map (dictionary.strings.idxOf ·)) =
      sumOfPositions dictionary words := by
  have mapped : (words.strings.map (dictionary.strings.idxOf ·)).mapIdx
        (fun i position => position * (2 ^ kBitsWord) ^ i) =
      words.strings.mapIdx (fun i word => dictionary.strings.idxOf word * kDictionarySize ^ i) := by
    rw [List.mapIdx_eq_iff]
    intro i
    rw [List.getElem?_mapIdx, List.getElem?_map, Option.map_map]
    rfl
  rw [Nat.ofDigits_eq_sum_mapIdx, mapped, sumOfPositions]

theorem seedOfIndices_idxOf (dictionary : Dictionary) (words : WordList) :
    seedOfIndices (words.strings.map (dictionary.strings.idxOf ·)) =
      ⟨toLittleEndian kMasterSeedSize (sumOfPositions dictionary words % 2 ^ 256),
        toLittleEndian_length _ _⟩ := by
  apply eq_of_number_eq
  rw [number_seedOfIndices, ofDigits_idxOf, number, littleEndian_toLittleEndian]
  exact (Nat.mod_mod _ (2 ^ 256)).symm

/-- The words are the dictionary entries at the 24 digits of seed and checksum
in base 2048, and a word list makes the seed whose digits are the first
positions of its words, modulo 2 ^ 256, without an error, or zeros with one
error. -/
theorem packing_changes_base (calculateHash : Bytes → Hash) (dictionary : Dictionary) :
    (∀ (seed : ByteArray kMasterSeedSize) (protection : Protection),
      ∃ words digits, masterSeedToWords calculateHash (.holding seed protection) dictionary =
          .ok (words, .holding seed .noAccess) ∧
        digits = digitsAppend kDictionarySize kNumWords
          (number (withCheckSum seed ((calculateHash seed.bytes).get 0))) ∧
        digits.length = kNumWords ∧ (∀ digit ∈ digits, digit < kDictionarySize) ∧
        ofDigits kDictionarySize digits =
          number (withCheckSum seed ((calculateHash seed.bytes).get 0)) ∧
        words.strings.map some = digits.map (dictionary.strings[·]?)) ∧
    ∀ (words : WordList) (errorHandler : Bool),
      wordsToMasterSeed words dictionary errorHandler =
        .ok (if ∀ word ∈ words.strings, word ∈ dictionary.strings then
          ⟨.holding ⟨toLittleEndian kMasterSeedSize (sumOfPositions dictionary words % 2 ^ 256),
            toLittleEndian_length _ _⟩ .noAccess, []⟩
        else ⟨.holding (.replicate kMasterSeedSize 0) .readWrite,
          if errorHandler then ["Corrupted word list"] else []⟩) := by
  constructor
  · intro seed protection
    obtain ⟨words, ran, entries⟩ := masterSeedToWords_ok calculateHash seed protection dictionary
    refine ⟨words, _, ran, indicesOf_eq_digits calculateHash seed, ?_,
      indicesOf_lt calculateHash seed, ?_, entries⟩
    · simp [indicesOf]
    · rw [number_withCheckSum]
      exact ofDigits_indicesOf calculateHash seed
  · intro words errorHandler
    rw [wordsToMasterSeed_eq]
    by_cases members : ∀ word ∈ words.strings, word ∈ dictionary.strings
    · rw [if_pos members, positions_eq_idxOf members]
      dsimp only
      rw [seedOfIndices_idxOf]
    · have unknown : positions dictionary words.strings = none := by
        rw [positions_eq_none_iff]
        simpa using members
      rw [if_neg members, unknown]

end Cscrypto.Mnemonic
