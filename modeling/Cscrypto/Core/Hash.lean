import Cscrypto.Core.Sodium

namespace Cscrypto

/-! # Hashes

`calculateHash` declares its result without a value and does not look at what
`blake2s` returns.
-/

/-- `BLAKE2S_KEYBYTES`. -/
abbrev kBlakeKeySize : Nat := 32

/-- `blake2s` with an output of 32 bytes, for data and a key. It fails with -1,
and has written nothing then. -/
abbrev Blake := Bytes → Bytes → Option Hash

/-- `memory` is what was in the memory of the result before. -/
def calculateHash (blake2s : Blake) (memory : Hash) (data key : Bytes) : Hash :=
  match blake2s data key with
  | some hash => hash
  | none => memory

/-- What is documented of `blake2s`: a key has at most 32 bytes. -/
structure BlakeLaws (blake2s : Blake) : Prop where
  hashes : ∀ data key, key.length ≤ kBlakeKeySize → ∃ hash, blake2s data key = some hash
  refuses : ∀ data key, kBlakeKeySize < key.length → blake2s data key = none

/-- The result is the same for any two contents of its memory, and written by
`blake2s`. -/
structure HashDefined (blake2s : Blake) (data key : Bytes) : Prop where
  same : ∀ memory other,
    calculateHash blake2s memory data key = calculateHash blake2s other data key
  written : ∀ memory, blake2s data key = some (calculateHash blake2s memory data key)

theorem calculateHash_some {blake2s : Blake} {data key : Bytes} {hash : Hash}
    (hashed : blake2s data key = some hash) (memory : Hash) :
    calculateHash blake2s memory data key = hash := by
  rw [calculateHash, hashed]

theorem calculateHash_none {blake2s : Blake} {data key : Bytes} (failed : blake2s data key = none)
    (memory : Hash) : calculateHash blake2s memory data key = memory := by
  rw [calculateHash, failed]

theorem hashDefined_iff {blake2s : Blake} (laws : BlakeLaws blake2s) (data key : Bytes) :
    HashDefined blake2s data key ↔ key.length ≤ kBlakeKeySize := by
  constructor
  · intro defined
    by_contra long
    have written := defined.written (.replicate _ 0)
    rw [laws.refuses data key (Nat.lt_of_not_le long)] at written
    contradiction
  · intro short
    obtain ⟨hash, hashed⟩ := laws.hashes data key short
    have result := calculateHash_some hashed
    exact ⟨fun memory other => (result memory).trans (result other).symm,
      fun memory => hashed.trans (congrArg some (result memory).symm)⟩

/-- A checksum of the key and the data. -/
def checksumBlake : Blake := fun data key =>
  if key.length ≤ kBlakeKeySize then some (Sodium.checksum (key ++ data)) else none

theorem checksumBlake_laws : BlakeLaws checksumBlake where
  hashes _ _ short := ⟨_, if_pos short⟩
  refuses _ _ long := if_neg (Nat.not_le_of_lt long)

end Cscrypto
