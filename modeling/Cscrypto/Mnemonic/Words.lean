import Cscrypto.Memory.Guard
import Cscrypto.Mnemonic.Bits

namespace Cscrypto.Mnemonic

open Cscrypto.Data
open Nat (ofDigits)

/-! # Mnemonic phrases

`masterSeedToWords` and `wordsToMasterSeed` of `mnemonic.cpp`.  The hash is a
parameter, because BLAKE2s is not part of the repository.
-/

abbrev kDictionarySize : Nat := 2048

/-- A `const char*`: the bytes before the terminating NUL. -/
structure CString where
  bytes : Bytes
  noNul : 0 ∉ bytes
deriving DecidableEq

/-- `strcmp` of the C library, on the bytes before the terminator. -/
def strcmp : Bytes → Bytes → Int
  | [], [] => 0
  | [], right :: _ => -right.toNat
  | left :: _, [] => left.toNat
  | left :: lefts, right :: rights =>
      if left = right then strcmp lefts rights else left.toNat - right.toNat

structure StringArray (size : Nat) where
  strings : List CString
  size_eq : strings.length = size

abbrev Dictionary := StringArray kDictionarySize
abbrev WordList := StringArray kNumWords
abbrev MasterSeed := MemGuard kMasterSeedSize

def accessMasterSeed (seed : MasterSeed) : Except Fault MasterSeed := seed.mprotect .readOnly

def lockMasterSeed (seed : MasterSeed) : Except Fault MasterSeed := seed.mprotect .noAccess

def wordsLoop (bits : ByteArray size) (dictionary : Dictionary) :
    (remaining : Nat) → Nat → Except Fault (StringArray remaining)
  | 0, _ => .ok ⟨[], rfl⟩
  | remaining + 1, i => do
      let index ← getIndex bits i
      match dictionary.strings[index]? with
      | none => .error .outOfBounds
      | some word =>
          let rest ← wordsLoop bits dictionary remaining (i + 1)
          .ok ⟨word :: rest.strings, congrArg (· + 1) rest.size_eq⟩

/-- The 33 bytes that the words encode: the seed and its checksum. -/
def withCheckSum (seed : ByteArray kMasterSeedSize) (sum : Byte) : ByteArray (kBitsAll / 8) :=
  ⟨seed.bytes ++ [sum], by rw [List.length_append, seed.size_eq]; rfl⟩

def masterSeedToWords (calculateHash : Bytes → Hash) (seed : MasterSeed) (dictionary : Dictionary) :
    Except Fault (WordList × MasterSeed) := do
  let seed ← accessMasterSeed seed
  let content ← seed.read
  let hash := calculateHash content.bytes
  let sum := hash.get 0
  let bits ← (MemGuard.new (kBitsAll / 8)).write (withCheckSum content sum)
  let seed ← lockMasterSeed seed
  let content ← bits.read
  let result ← wordsLoop content dictionary kNumWords 0
  .ok (result, seed)

def searchWord (word : CString) : List CString → Nat → Option Nat
  | [], _ => none
  | entry :: rest, j =>
      if strcmp word.bytes entry.bytes = 0 then some j else searchWord word rest (j + 1)

/-- The outer loop of `wordsToMasterSeed`, from word `i` on, and `indexAdded`
at its end. -/
def putWords (dictionary : Dictionary) : List CString → Nat → MasterSeed →
    Except Fault (Bool × MasterSeed)
  | [], _, result => .ok (true, result)
  | word :: rest, i, result =>
      match searchWord word dictionary.strings 0 with
      | none => .ok (false, result)
      | some j => do
          let content ← result.read
          let content ← putIndex content i j
          let result ← result.write content
          putWords dictionary rest (i + 1) result

structure SeedResult where
  seed : MasterSeed
  errors : List String
deriving DecidableEq

/-- `errorHandler` says whether the caller passed one. -/
def wordsToMasterSeed (words : WordList) (dictionary : Dictionary) (errorHandler : Bool) :
    Except Fault SeedResult := do
  let result ← (MemGuard.new kMasterSeedSize).write (ByteArray.replicate kMasterSeedSize 0)
  let (indexAdded, result) ← putWords dictionary words.strings 0 result
  if indexAdded then do
    let result ← lockMasterSeed result
    .ok ⟨result, []⟩
  else do
    let result ← result.write (ByteArray.replicate kMasterSeedSize 0)
    .ok ⟨result, if errorHandler then ["Corrupted word list"] else []⟩

theorem strcmp_eq_zero {left right : Bytes} (leftNoNul : 0 ∉ left) (rightNoNul : 0 ∉ right) :
    strcmp left right = 0 ↔ left = right := by
  induction left generalizing right with
  | nil =>
      cases right with
      | nil => simp [strcmp]
      | cons byte rest =>
          have nonzero : byte.toNat ≠ 0 := by
            intro zero
            exact rightNoNul (by simp [UInt8.toNat_inj.mp (show byte.toNat =
              UInt8.toNat 0 from zero)])
          simp only [strcmp, reduceCtorEq, iff_false]
          omega
  | cons byte rest ih =>
      cases right with
      | nil =>
          have nonzero : byte.toNat ≠ 0 := by
            intro zero
            exact leftNoNul (by simp [UInt8.toNat_inj.mp (show byte.toNat =
              UInt8.toNat 0 from zero)])
          simp only [strcmp, reduceCtorEq, iff_false]
          omega
      | cons other others =>
          simp only [List.mem_cons, not_or] at leftNoNul rightNoNul
          by_cases same : byte = other
          · simp [strcmp, same, ih leftNoNul.2 rightNoNul.2]
          · have different : byte.toNat ≠ other.toNat := fun equal =>
                same (UInt8.toNat_inj.mp equal)
            simp only [strcmp, List.cons.injEq, same, false_and, iff_false, if_false]
            omega

theorem CString.strcmp_eq_zero (left right : CString) :
    strcmp left.bytes right.bytes = 0 ↔ left = right := by
  rw [Mnemonic.strcmp_eq_zero left.noNul right.noNul]
  cases left
  cases right
  simp

theorem searchWord_eq (word : CString) (entries : List CString) (j : Nat) :
    searchWord word entries j = (entries.findIdx? (fun entry => word = entry)).map (· + j) := by
  induction entries generalizing j with
  | nil => rfl
  | cons entry rest ih =>
      simp only [searchWord, CString.strcmp_eq_zero, List.findIdx?_cons, decide_eq_true_eq]
      split
      · simp
      · rw [ih, Option.map_map]
        congr 1
        funext position
        simp only [Function.comp_apply]
        omega

def position (dictionary : Dictionary) (word : CString) : Option Nat :=
  dictionary.strings.findIdx? (fun entry => word = entry)

def positions (dictionary : Dictionary) : List CString → Option (List Nat)
  | [] => some []
  | word :: rest =>
      (position dictionary word).bind (fun j => (positions dictionary rest).map (j :: ·))

theorem searchWord_eq_position (dictionary : Dictionary) (word : CString) :
    searchWord word dictionary.strings 0 = position dictionary word := by
  simp [searchWord_eq, position]

theorem position_lt {dictionary : Dictionary} {word : CString} {j : Nat}
    (found : position dictionary word = some j) : j < 2 ^ kBitsWord := by
  obtain ⟨bound, _⟩ := List.findIdx?_eq_some_iff_getElem.mp found
  rwa [dictionary.size_eq] at bound

theorem positions_lt {dictionary : Dictionary} {words : List CString} {indices : List Nat}
    (found : positions dictionary words = some indices) :
    ∀ index ∈ indices, index < 2 ^ kBitsWord := by
  induction words generalizing indices with
  | nil =>
      cases found
      simp
  | cons word rest ih =>
      obtain ⟨j, head, tail⟩ := Option.bind_eq_some_iff.mp found
      obtain ⟨others, tailFound, rfl⟩ := Option.map_eq_some_iff.mp tail
      intro index member
      rcases List.mem_cons.mp member with rfl | later
      · exact position_lt head
      · exact ih tailFound index later

/-- The 32 bytes of the number with the given 11-bit digits, cut off at bit 256:
the seed in the other base. -/
def seedOfIndices (indices : List Nat) : ByteArray kMasterSeedSize :=
  ⟨toLittleEndian kMasterSeedSize (ofDigits (2 ^ kBitsWord) indices), toLittleEndian_length _ _⟩

theorem number_seedOfIndices (indices : List Nat) :
    number (seedOfIndices indices) = ofDigits (2 ^ kBitsWord) indices % 2 ^ 256 :=
  littleEndian_toLittleEndian _ _

theorem putIndex_seedOfIndices (indices : List Nat) (j : Nat)
    (earlier : ∀ index ∈ indices, index < 2 ^ kBitsWord) (small : j < 2 ^ kBitsWord) :
    putIndex (seedOfIndices indices) indices.length j = .ok (seedOfIndices (indices ++ [j])) := by
  have bound := ofDigits_lt kBitsWord indices earlier
  obtain ⟨after, ran, value⟩ := putIndex_ok (seedOfIndices indices) indices.length j small (by
    rw [number_seedOfIndices]
    exact (Nat.mod_le _ _).trans_lt bound)
  have same : after = seedOfIndices (indices ++ [j]) := by
    apply eq_of_number_eq
    rw [value, number_seedOfIndices, number_seedOfIndices, Nat.mod_add_mod, Nat.ofDigits_append,
      Nat.ofDigits_singleton, ← Nat.pow_mul]
  rw [ran, same]

private theorem small_append {indices : List Nat} {j : Nat}
    (earlier : ∀ index ∈ indices, index < 2 ^ kBitsWord) (small : j < 2 ^ kBitsWord) :
    ∀ index ∈ indices ++ [j], index < 2 ^ kBitsWord := by
  intro index member
  rcases List.mem_append.mp member with before | last
  · exact earlier index before
  · rwa [List.mem_singleton.mp last]

theorem putWords_step (dictionary : Dictionary) (word : CString) (rest : List CString)
    (earlier : List Nat) (j : Nat) (earlierSmall : ∀ index ∈ earlier, index < 2 ^ kBitsWord)
    (found : position dictionary word = some j) :
    putWords dictionary (word :: rest) earlier.length
      (.holding (seedOfIndices earlier) .readWrite) =
      putWords dictionary rest (earlier ++ [j]).length
        (.holding (seedOfIndices (earlier ++ [j])) .readWrite) := by
  have put := putIndex_seedOfIndices earlier j earlierSmall (position_lt found)
  simp only [putWords, searchWord_eq_position, found, MemGuard.read_readWrite, ok_bind, put,
    MemGuard.write_readWrite, List.length_append, List.length_singleton]

theorem putWords_found (dictionary : Dictionary) (words : List CString) (earlier found : List Nat)
    (earlierSmall : ∀ index ∈ earlier, index < 2 ^ kBitsWord)
    (located : positions dictionary words = some found) :
    putWords dictionary words earlier.length (.holding (seedOfIndices earlier) .readWrite) =
      .ok (true, .holding (seedOfIndices (earlier ++ found)) .readWrite) := by
  induction words generalizing earlier found with
  | nil =>
      have none : found = [] := (Option.some.inj located).symm
      subst found
      rw [List.append_nil]
      rfl
  | cons word rest ih =>
      obtain ⟨j, head, tail⟩ := Option.bind_eq_some_iff.mp located
      obtain ⟨others, tailLocated, rfl⟩ := Option.map_eq_some_iff.mp tail
      rw [putWords_step dictionary word rest earlier j earlierSmall head,
        ih (earlier ++ [j]) others (small_append earlierSmall (position_lt head)) tailLocated,
        List.append_assoc, List.singleton_append]

theorem putWords_missing (dictionary : Dictionary) (words : List CString) (earlier : List Nat)
    (earlierSmall : ∀ index ∈ earlier, index < 2 ^ kBitsWord)
    (missing : positions dictionary words = none) :
    ∃ content, putWords dictionary words earlier.length
        (.holding (seedOfIndices earlier) .readWrite) =
      .ok (false, .holding content .readWrite) := by
  induction words generalizing earlier with
  | nil => cases missing
  | cons word rest ih =>
      cases head : position dictionary word with
      | none => exact ⟨seedOfIndices earlier, by simp only [putWords, searchWord_eq_position, head]⟩
      | some j =>
          rw [positions, head, Option.bind_some, Option.map_eq_none_iff] at missing
          rw [putWords_step dictionary word rest earlier j earlierSmall head]
          exact ih (earlier ++ [j]) (small_append earlierSmall (position_lt head)) missing

/-- `wordsToMasterSeed` rebuilds the seed when it finds every word, and
otherwise reports once and returns zeros in an unlocked block. -/
theorem wordsToMasterSeed_eq (words : WordList) (dictionary : Dictionary) (errorHandler : Bool) :
    wordsToMasterSeed words dictionary errorHandler =
      .ok (match positions dictionary words.strings with
        | some indices => ⟨.holding (seedOfIndices indices) .noAccess, []⟩
        | none => ⟨.holding (ByteArray.replicate kMasterSeedSize 0) .readWrite,
            if errorHandler then ["Corrupted word list"] else []⟩) := by
  have zeros : ByteArray.replicate kMasterSeedSize 0 = seedOfIndices [] := rfl
  cases located : positions dictionary words.strings with
  | some indices =>
      have loop := putWords_found dictionary words.strings [] indices (by simp) located
      simp only [List.length_nil, List.nil_append] at loop
      simp only [wordsToMasterSeed, MemGuard.new_eq_holding, MemGuard.write_readWrite,
        ok_bind, zeros, loop, if_true, lockMasterSeed, MemGuard.mprotect_holding]
  | none =>
      obtain ⟨content, loop⟩ := putWords_missing dictionary words.strings [] (by simp) located
      simp only [List.length_nil] at loop
      simp only [wordsToMasterSeed, MemGuard.new_eq_holding, MemGuard.write_readWrite,
        ok_bind, zeros, loop, Bool.false_eq_true, if_false]

def indicesOf (calculateHash : Bytes → Hash) (seed : ByteArray kMasterSeedSize) : List Nat :=
  (List.range kNumWords).map
    (fieldAt kBitsWord (number (withCheckSum seed ((calculateHash seed.bytes).get 0))))

theorem indicesOf_lt (calculateHash : Bytes → Hash) (seed : ByteArray kMasterSeedSize) :
    ∀ index ∈ indicesOf calculateHash seed, index < 2 ^ kBitsWord := by
  intro index member
  obtain ⟨i, _, rfl⟩ := List.mem_map.mp member
  exact fieldAt_lt _ _ _

theorem number_withCheckSum (seed : ByteArray kMasterSeedSize) (sum : Byte) :
    number (withCheckSum seed sum) = number seed + 2 ^ 256 * sum.toNat := by
  have single : littleEndian [sum] = sum.toNat := by simp [littleEndian]
  rw [number, withCheckSum, littleEndian_append, seed.size_eq, single]
  rfl

theorem ofDigits_indicesOf (calculateHash : Bytes → Hash) (seed : ByteArray kMasterSeedSize) :
    ofDigits (2 ^ kBitsWord) (indicesOf calculateHash seed) =
      number seed + 2 ^ 256 * ((calculateHash seed.bytes).get 0).toNat := by
  have bound := number_lt (withCheckSum seed ((calculateHash seed.bytes).get 0))
  rw [show 8 * (kBitsAll / 8) = kBitsWord * kNumWords from rfl] at bound
  rw [indicesOf, ofDigits_fieldAt kBitsWord _ kNumWords (by decide) bound, number_withCheckSum]

theorem wordsLoop_ok (bits : ByteArray size) (dictionary : Dictionary) (remaining i : Nat)
    (inside : (i + remaining) * kBitsWord ≤ 8 * size) :
    ∃ words, wordsLoop bits dictionary remaining i = .ok words ∧
      words.strings.map some =
        (List.range' i remaining).map (fun index =>
          dictionary.strings[fieldAt kBitsWord (number bits) index]?) := by
  induction remaining generalizing i with
  | zero => exact ⟨⟨[], rfl⟩, rfl, rfl⟩
  | succ remaining ih =>
      obtain ⟨rest, ran, restWords⟩ := ih (i + 1) (by
        simp only [kBitsWord] at *
        omega)
      have read := getIndex_eq bits i (by simp only [kBitsWord] at *; omega)
      have bound : fieldAt kBitsWord (number bits) i < dictionary.strings.length := by
        rw [dictionary.size_eq]
        exact fieldAt_lt _ _ _
      refine ⟨⟨dictionary.strings[fieldAt kBitsWord (number bits) i] :: rest.strings,
        congrArg (· + 1) rest.size_eq⟩, ?_, ?_⟩
      · simp only [wordsLoop, read, ok_bind, List.getElem?_eq_getElem bound, ran]
      · rw [List.map_cons, restWords, List.range'_succ, List.map_cons,
          List.getElem?_eq_getElem bound]

/-- `masterSeedToWords` looks up the digits of the checksummed seed and leaves
the seed locked. -/
theorem masterSeedToWords_ok (calculateHash : Bytes → Hash) (seed : ByteArray kMasterSeedSize)
    (protection : Protection) (dictionary : Dictionary) :
    ∃ words, masterSeedToWords calculateHash (.holding seed protection) dictionary =
        .ok (words, .holding seed .noAccess) ∧
      words.strings.map some =
        (indicesOf calculateHash seed).map (fun index => dictionary.strings[index]?) := by
  obtain ⟨words, ran, found⟩ := wordsLoop_ok
    (withCheckSum seed ((calculateHash seed.bytes).get 0)) dictionary kNumWords 0 (by decide)
  refine ⟨words, ?_, ?_⟩
  · simp only [masterSeedToWords, accessMasterSeed, MemGuard.mprotect_holding, ok_bind,
      MemGuard.read_readOnly, MemGuard.new_eq_holding, MemGuard.write_readWrite, lockMasterSeed,
      MemGuard.read_readWrite, ran]
  · rw [found, indicesOf, List.map_map, List.range_eq_range']
    rfl

end Cscrypto.Mnemonic
