import Cscrypto.Mnemonic.Words

namespace Cscrypto.Mnemonic

open Cscrypto.Data
open Nat (ofDigits)

/-! # Seed phrases and seeds

A phrase is determined by its dictionary positions.  Encoding and decoding are
compared there: the encoder writes the digits of the 264-bit number made of
seed and checksum, the decoder keeps the low 256 bits of whatever digits it
finds.
-/

theorem position_of_getElem {dictionary : Dictionary} (distinct : dictionary.strings.Nodup)
    {word : CString} {index : Nat} (selected : dictionary.strings[index]? = some word) :
    position dictionary word = some index := by
  obtain ⟨bound, same⟩ := List.getElem?_eq_some_iff.mp selected
  rw [position, List.findIdx?_eq_some_iff_getElem]
  refine ⟨bound, by simp [same], ?_⟩
  intro earlier before
  have different : dictionary.strings[earlier] ≠ word := by
    intro equal
    have clash := (List.Nodup.getElem_inj_iff distinct).mp (equal.trans same.symm)
    omega
  simpa using fun equal => different equal.symm

theorem getElem_of_position {dictionary : Dictionary} {word : CString} {index : Nat}
    (found : position dictionary word = some index) :
    dictionary.strings[index]? = some word := by
  obtain ⟨bound, same, _⟩ := List.findIdx?_eq_some_iff_getElem.mp found
  rw [List.getElem?_eq_getElem bound, of_decide_eq_true same]

theorem positions_eq_some_iff {dictionary : Dictionary} (distinct : dictionary.strings.Nodup)
    (words : List CString) (indices : List Nat) :
    positions dictionary words = some indices ↔
      words.map some = indices.map (fun index => dictionary.strings[index]?) := by
  induction words generalizing indices with
  | nil =>
      cases indices with
      | nil => simp [positions]
      | cons index rest => simp [positions]
  | cons word rest ih =>
      cases indices with
      | nil => simp [positions, Option.bind_eq_some_iff]
      | cons index others =>
          constructor
          · intro located
            obtain ⟨j, head, tail⟩ := Option.bind_eq_some_iff.mp located
            obtain ⟨found, tailLocated, same⟩ := Option.map_eq_some_iff.mp tail
            cases same
            rw [List.map_cons, List.map_cons, getElem_of_position head, (ih _).mp tailLocated]
          · intro selected
            obtain ⟨head, tail⟩ := List.cons_eq_cons.mp selected
            rw [positions, position_of_getElem distinct head.symm, Option.bind_some,
              (ih _).mpr tail, Option.map_some]

theorem positions_eq_none_iff (dictionary : Dictionary) (words : List CString) :
    positions dictionary words = none ↔ ∃ word ∈ words, word ∉ dictionary.strings := by
  induction words with
  | nil => simp [positions]
  | cons word rest ih =>
      cases head : position dictionary word with
      | none =>
          have missing : word ∉ dictionary.strings := by
            intro member
            simp [position, List.findIdx?_eq_none_iff] at head
            exact head word member rfl
          simp [positions, head, missing]
      | some j =>
          have member : word ∈ dictionary.strings := List.mem_of_getElem? (getElem_of_position head)
          rw [positions, head, Option.bind_some, Option.map_eq_none_iff, ih]
          simp [member]

theorem seedOfIndices_indicesOf (calculateHash : Bytes → Hash) (seed : ByteArray kMasterSeedSize) :
    seedOfIndices (indicesOf calculateHash seed) = seed := by
  apply eq_of_number_eq
  have bound : number seed < 2 ^ 256 := number_lt seed
  rw [number_seedOfIndices, ofDigits_indicesOf, Nat.add_mul_mod_self_left, Nat.mod_eq_of_lt bound]

def numberedWord (j : Fin kDictionarySize) : CString where
  bytes := [UInt8.ofNat (64 + j / 64), UInt8.ofNat (64 + j % 64)]
  noNul := by
    have bound : j.val < 2048 := j.isLt
    simp only [List.mem_cons, List.not_mem_nil, or_false, not_or, ← UInt8.toNat_inj,
      UInt8.toNat_ofNat', UInt8.toNat_zero]
    omega

def numberedDictionary : Dictionary := ⟨List.ofFn numberedWord, List.length_ofFn⟩

theorem numberedDictionary_distinct : numberedDictionary.strings.Nodup := by
  rw [numberedDictionary, List.nodup_ofFn]
  intro left right same
  have leftBound : left.val < 2048 := left.isLt
  have rightBound : right.val < 2048 := right.isLt
  simp only [numberedWord, CString.mk.injEq, List.cons.injEq, and_true, ← UInt8.toNat_inj,
    UInt8.toNat_ofNat'] at same
  apply Fin.ext
  omega

/-- BLAKE2s-256 on the seed of 32 zero bytes, where the runs below use it. -/
def zeroSeedHash (data : Bytes) : Hash :=
  if data = List.replicate 32 0 then
    ⟨[50, 11, 94, 169, 158, 101, 59, 194, 181, 147, 219, 65, 48, 209, 10, 78,
      253, 58, 11, 76, 194, 225, 166, 103, 43, 103, 141, 113, 223, 189, 51, 173], rfl⟩
  else ByteArray.replicate 32 0

def repeatedWord : WordList := ⟨List.replicate kNumWords (numberedWord 0), List.length_replicate⟩

theorem positions_repeatedWord :
    positions numberedDictionary repeatedWord.strings = some (List.replicate kNumWords 0) := by
  rw [positions_eq_some_iff numberedDictionary_distinct]
  have first : numberedDictionary.strings[0]? = some (numberedWord 0) := by
    rw [numberedDictionary, List.getElem?_ofFn, dif_pos (by decide)]
    rfl
  rw [repeatedWord, List.map_replicate, List.map_replicate, first]

/-- The words of a seed give it back. -/
theorem wordsToMasterSeed_of_found {calculateHash : Bytes → Hash} {dictionary : Dictionary}
    (distinct : dictionary.strings.Nodup) {seed : ByteArray kMasterSeedSize} {words : WordList}
    (found : words.strings.map some =
      (indicesOf calculateHash seed).map (fun index => dictionary.strings[index]?))
    (errorHandler : Bool) :
    wordsToMasterSeed words dictionary errorHandler = .ok ⟨.holding seed .noAccess, []⟩ := by
  have located := (positions_eq_some_iff distinct words.strings _).mpr found
  rw [wordsToMasterSeed_eq, located]
  simp only [seedOfIndices_indicesOf]

/-- A seed phrase restores its seed, and no error is reported. -/
theorem wordsToMasterSeed_masterSeedToWords (calculateHash : Bytes → Hash)
    (dictionary : Dictionary) (distinct : dictionary.strings.Nodup)
    (seed : ByteArray kMasterSeedSize) (protection : Protection) (errorHandler : Bool) :
    ∃ words, masterSeedToWords calculateHash (.holding seed protection) dictionary =
        .ok (words, .holding seed .noAccess) ∧
      wordsToMasterSeed words dictionary errorHandler = .ok ⟨.holding seed .noAccess, []⟩ := by
  obtain ⟨words, encoded, found⟩ := masterSeedToWords_ok calculateHash seed protection dictionary
  exact ⟨words, encoded, wordsToMasterSeed_of_found distinct found errorHandler⟩

def mixedSeed : ByteArray kMasterSeedSize :=
  ⟨[11, 48, 85, 122, 159, 196, 233, 14, 51, 88, 125, 162, 199, 236, 17, 54, 91, 128,
    165, 202, 239, 20, 57, 94, 131, 168, 205, 242, 23, 60, 97, 134], rfl⟩

/-- BLAKE2s-256 on that seed. -/
def mixedSeedHash (data : Bytes) : Hash :=
  if data = mixedSeed.bytes then
    ⟨[27, 69, 162, 119, 222, 94, 56, 26, 81, 95, 49, 103, 10, 19, 219, 128, 85, 194, 238,
      138, 145, 5, 234, 166, 155, 11, 205, 30, 190, 152, 252, 160], rfl⟩
  else ByteArray.replicate 32 0

theorem wordsToMasterSeed_masterSeedToWords_mixedSeed :
    ∃ words, masterSeedToWords mixedSeedHash (.holding mixedSeed .readWrite) numberedDictionary =
        .ok (words, .holding mixedSeed .noAccess) ∧
      wordsToMasterSeed words numberedDictionary true = .ok ⟨.holding mixedSeed .noAccess, []⟩ :=
  wordsToMasterSeed_masterSeedToWords mixedSeedHash numberedDictionary numberedDictionary_distinct
    mixedSeed .readWrite true

/-- The last position of a phrase carries three seed bits and the checksum. -/
theorem ofDigits_div_checksum (indices : List Nat) (length : indices.length = kNumWords)
    (small : ∀ index ∈ indices, index < 2 ^ kBitsWord) :
    ofDigits (2 ^ kBitsWord) indices / 2 ^ 256 = indices.getD 23 0 / 8 := by
  have split : indices = indices.take 23 ++ [indices.getD 23 0] := by
    have bound : 23 < indices.length := by rw [length]; decide
    rw [List.getD_eq_getElem _ _ bound, List.take_append_getElem]
    exact (List.take_of_length_le length.le).symm
  have front : ofDigits (2 ^ kBitsWord) (indices.take 23) < 2 ^ 253 := by
    have bound := ofDigits_lt kBitsWord (indices.take 23)
      (fun index member => small index (List.mem_of_mem_take member))
    rwa [List.length_take, length] at bound
  have value : ofDigits (2 ^ kBitsWord) indices =
      ofDigits (2 ^ kBitsWord) (indices.take 23) + 2 ^ 253 * indices.getD 23 0 := by
    conv_lhs => rw [split]
    rw [Nat.ofDigits_append, Nat.ofDigits_singleton, List.length_take, length, ← Nat.pow_mul]
    rfl
  exact value ▸ add_above_div _ _ 253 3 front

/-- Re-encoding the decoded seed gives back the digits exactly when the
checksum byte among them is the one of the decoded seed. -/
theorem indicesOf_seedOfIndices_iff (calculateHash : Bytes → Hash) (indices : List Nat)
    (length : indices.length = kNumWords) (small : ∀ index ∈ indices, index < 2 ^ kBitsWord) :
    indicesOf calculateHash (seedOfIndices indices) = indices ↔
      indices.getD 23 0 / 8 =
        ((calculateHash (toLittleEndian 32 (ofDigits (2 ^ kBitsWord) indices))).get 0).toNat := by
  have value := ofDigits_indicesOf calculateHash (seedOfIndices indices)
  rw [number_seedOfIndices, show (seedOfIndices indices).bytes =
    toLittleEndian 32 (ofDigits (2 ^ kBitsWord) indices) from rfl] at value
  have checksum := ofDigits_div_checksum indices length small
  have parts := Nat.mod_add_div (ofDigits (2 ^ kBitsWord) indices) (2 ^ 256)
  rw [checksum] at parts
  constructor
  · intro same
    rw [same] at value
    have equal := Nat.add_left_cancel (parts.trans value)
    exact Nat.eq_of_mul_eq_mul_left (Nat.two_pow_pos 256) equal
  · intro matching
    apply Nat.ofDigits_inj_of_len_eq (b := 2 ^ kBitsWord) (by decide) (by simp [indicesOf, length])
      (indicesOf_lt _ _) small
    rw [value, ← matching, parts]

def ChecksumEnforced (calculateHash : Bytes → Hash) (dictionary : Dictionary) (words : WordList) :
    Prop :=
  ∀ seed, wordsToMasterSeed words dictionary true = .ok ⟨seed, []⟩ →
    ∃ locked, masterSeedToWords calculateHash seed dictionary = .ok (words, locked)

/-- The decoder never looks at the checksum: an accepted list is one that the
encoder produces exactly when its checksum bits happen to be right. -/
theorem checksumEnforced_iff (calculateHash : Bytes → Hash) (dictionary : Dictionary)
    (distinct : dictionary.strings.Nodup) (words : WordList) :
    ChecksumEnforced calculateHash dictionary words ↔
      (∃ word ∈ words.strings, word ∉ dictionary.strings) ∨
      ∃ indices : List Nat,
        words.strings.map some = indices.map (fun index => dictionary.strings[index]?) ∧
        indices.getD 23 0 / 8 =
          ((calculateHash (toLittleEndian 32 (ofDigits 2048 indices))).get 0).toNat := by
  cases located : positions dictionary words.strings with
  | none =>
      have missing := (positions_eq_none_iff dictionary words.strings).mp located
      have rejected : ChecksumEnforced calculateHash dictionary words := by
        intro seed accepted
        rw [wordsToMasterSeed_eq, located] at accepted
        simp at accepted
      exact ⟨fun _ => .inl missing, fun _ => rejected⟩
  | some indices =>
      have selected := (positions_eq_some_iff distinct words.strings indices).mp located
      have length : indices.length = kNumWords := by
        have lengths := congrArg List.length selected
        rw [List.length_map, List.length_map, words.size_eq] at lengths
        exact lengths.symm
      have present : ¬ ∃ word ∈ words.strings, word ∉ dictionary.strings := by
        rw [← positions_eq_none_iff, located]
        simp
      have checksum := indicesOf_seedOfIndices_iff calculateHash indices length
          (positions_lt located)
      have unique : ∀ others : List Nat,
          words.strings.map some = others.map (fun index => dictionary.strings[index]?) →
          others = indices := by
        intro others same
        have again := (positions_eq_some_iff distinct words.strings others).mpr same
        rw [located] at again
        exact (Option.some.inj again).symm
      obtain ⟨encoded, ran, found⟩ :=
        masterSeedToWords_ok calculateHash (seedOfIndices indices) .noAccess dictionary
      constructor
      · intro enforced
        obtain ⟨locked, again⟩ := enforced (.holding (seedOfIndices indices) .noAccess) (by
          rw [wordsToMasterSeed_eq, located])
        rw [ran] at again
        cases again
        exact .inr ⟨indices, selected, checksum.mp (unique _ found)⟩
      · intro condition
        obtain ⟨others, same, matching⟩ := condition.resolve_left present
        cases unique others same
        intro seed accepted
        rw [wordsToMasterSeed_eq, located] at accepted
        simp only [Except.ok.injEq, SeedResult.mk.injEq, and_true] at accepted
        subst seed
        rw [checksum.mpr matching, ← selected] at found
        have equal : encoded = words := by
          cases encoded
          cases words
          simpa using List.map_injective_iff.mpr (Option.some_injective _) found
        rw [← equal]
        exact ⟨_, ran⟩

theorem checksumEnforced_iff_repeatedWord :
    ChecksumEnforced zeroSeedHash numberedDictionary repeatedWord ↔
      (∃ word ∈ repeatedWord.strings, word ∉ numberedDictionary.strings) ∨
      ∃ indices : List Nat,
        repeatedWord.strings.map some =
          indices.map (fun index => numberedDictionary.strings[index]?) ∧
        indices.getD 23 0 / 8 =
          ((zeroSeedHash (toLittleEndian 32 (ofDigits 2048 indices))).get 0).toNat :=
  checksumEnforced_iff zeroSeedHash numberedDictionary numberedDictionary_distinct repeatedWord

/-- 24 times the first word decodes to the zero seed without complaint, but the
checksum byte of that seed is 50 and not 0. -/
theorem checksum_not_enforced :
    ¬ ∀ (calculateHash : Bytes → Hash) (dictionary : Dictionary) (words : WordList),
      dictionary.strings.Nodup → ChecksumEnforced calculateHash dictionary words := by
  intro always
  obtain ⟨locked, again⟩ := always zeroSeedHash numberedDictionary repeatedWord
    numberedDictionary_distinct (.holding (seedOfIndices (List.replicate kNumWords 0))
      .noAccess) (by
      rw [wordsToMasterSeed_eq, positions_repeatedWord])
  obtain ⟨encoded, ran, found⟩ := masterSeedToWords_ok zeroSeedHash
    (seedOfIndices (List.replicate kNumWords 0)) .noAccess numberedDictionary
  rw [ran] at again
  cases again
  have located := (positions_eq_some_iff numberedDictionary_distinct _ _).mpr found
  rw [positions_repeatedWord, Option.some.injEq] at located
  have matching := (indicesOf_seedOfIndices_iff zeroSeedHash (List.replicate kNumWords 0)
    List.length_replicate (by decide)).mp located.symm
  revert matching
  decide

end Cscrypto.Mnemonic
