import Cscrypto.Data.Run
import Cscrypto.Data.Store
import Cscrypto.Keys.Derivation
import Cscrypto.Mnemonic.RoundTrip

namespace Cscrypto.Mnemonic

open Cscrypto.Data Cscrypto.KeysDerivation

/-! # Master seeds at rest

The `MasterSeed` objects of a program and the calls that make, use and move
them.  A word list with an unknown word is the only way to a seed that is not
locked.
-/

inductive SeedCall where
  | generateMasterSeed (random : ByteArray kMasterSeedSize)
  | wordsToMasterSeed (words : WordList) (dictionary : Dictionary) (errorHandler : Bool)
  | masterSeedToWords (this : Nat) (dictionary : Dictionary)
  | deriveKeyPair (this : Nat) (id : KeyId) (ctx : Context)
  | moveConstruct (rhs : Nat)
  | moveAssign (this rhs : Nat)
  | destroy (this : Nat)

/-- What the calls use that is not part of the repository. -/
structure SeedLib where
  calculateHash : Bytes → Hash
  sign : SignKeys
  kdf : Kdf

/-- A call with a live object, which it changes. -/
def withSeed (seeds : Store MasterSeed) (this : Nat)
    (call : MasterSeed → Except Fault (Store MasterSeed)) : Except Fault (Store MasterSeed) :=
  match seeds.find this with
  | none => .ok seeds
  | some seed => call seed

/-- A move leaves a null pointer behind, except where both objects have the
same one. -/
def seedStep (lib : SeedLib) (seeds : Store MasterSeed) : SeedCall → Except Fault (Store MasterSeed)
  | .generateMasterSeed random => return seeds.alloc (← generateMasterSeed random)
  | .wordsToMasterSeed words dictionary errorHandler =>
      return seeds.alloc (← wordsToMasterSeed words dictionary errorHandler).seed
  | .masterSeedToWords this dictionary => withSeed seeds this fun seed => do
      let (_, seed) ← masterSeedToWords lib.calculateHash seed dictionary
      return seeds.set this seed
  | .deriveKeyPair this id ctx => withSeed seeds this fun seed => do
      let (_, seed) ← deriveKeyPair lib.sign lib.kdf seed id ctx
      return seeds.set this seed
  | .moveConstruct rhs => withSeed seeds rhs fun seed =>
      return (seeds.set rhs ⟨none⟩).alloc seed
  | .moveAssign this rhs => withSeed seeds this fun _ => withSeed seeds rhs fun seed =>
      if this = rhs then return seeds
      else return (seeds.set rhs ⟨none⟩).set this seed
  | .destroy this => withSeed seeds this fun _ => return seeds.free this

/-- Every seed that was not moved from is locked. -/
def SeedsLocked (seeds : Store MasterSeed) : Prop :=
  ∀ this seed block, seeds.find this = some seed → seed.mem = some block →
    block.protection = .noAccess

/-- The dictionary has every word of the list. -/
def KnownWords : SeedCall → Prop
  | .wordsToMasterSeed words dictionary _ => ∀ word ∈ words.strings, word ∈ dictionary.strings
  | _ => True

variable {seeds next : Store MasterSeed} {lib : SeedLib}

/-- A guard that is null or locked. -/
def Locked (seed : MasterSeed) : Prop :=
  ∀ block, seed.mem = some block → block.protection = .noAccess

theorem locked_holding (content : ByteArray kMasterSeedSize) :
    Locked (.holding content .noAccess) := by
  intro block at_seed
  cases at_seed
  rfl

theorem SeedsLocked.alloc {seed : MasterSeed} (locked : SeedsLocked seeds) (added : Locked seed) :
    SeedsLocked (seeds.alloc seed) := by
  intro this other block at_this at_seed
  rcases Store.find_alloc_eq_some.mp at_this with ⟨_, rfl⟩ | ⟨_, before⟩
  · exact added block at_seed
  · exact locked this other block before at_seed

theorem SeedsLocked.set {address : Nat} {old seed : MasterSeed} (locked : SeedsLocked seeds)
    (live : seeds.find address = some old) (added : Locked seed) :
    SeedsLocked (seeds.set address seed) := by
  intro this other block at_this at_seed
  rcases (Store.find_set_eq_some live).mp at_this with ⟨_, rfl⟩ | ⟨_, before⟩
  · exact added block at_seed
  · exact locked this other block before at_seed

theorem withSeed_ok {this : Nat} {call : MasterSeed → Except Fault (Store MasterSeed)}
    (ran : withSeed seeds this call = .ok next) :
    next = seeds ∨ ∃ seed, seeds.find this = some seed ∧ call seed = .ok next := by
  unfold withSeed at ran
  split at ran
  · cases ran
    exact .inl rfl
  · rename_i seed live
    exact .inr ⟨seed, live, ran⟩

theorem masterSeedToWords_locks {calculateHash : Bytes → Hash} {seed : MasterSeed}
    {dictionary : Dictionary} {result : WordList × MasterSeed}
    (ran : masterSeedToWords calculateHash seed dictionary = .ok result) : Locked result.2 := by
  rcases seed with ⟨_ | ⟨content, protection⟩⟩
  · contradiction
  · obtain ⟨words, computed, _⟩ := masterSeedToWords_ok calculateHash content protection dictionary
    rw [MemGuard.holding, ran] at computed
    cases computed
    exact locked_holding content

theorem deriveKeyPair_locks {sign : SignKeys} {kdf : Kdf} {seed : MasterSeed} {id : KeyId}
    {ctx : Context} {result : KeyPair × MasterSeed}
    (ran : deriveKeyPair sign kdf seed id ctx = .ok result) : Locked result.2 := by
  rcases seed with ⟨_ | ⟨content, protection⟩⟩
  · contradiction
  · have computed := deriveKeyPair_holding sign kdf content protection id ctx
    rw [MemGuard.holding, ran] at computed
    cases computed
    exact locked_holding content

theorem SeedsLocked.wordsToMasterSeed (locked : SeedsLocked seeds) {words : WordList}
    {dictionary : Dictionary} {errorHandler : Bool}
    (known : ∀ word ∈ words.strings, word ∈ dictionary.strings)
    (stepped : seedStep lib seeds (.wordsToMasterSeed words dictionary errorHandler) = .ok next) :
    SeedsLocked next := by
  cases found : positions dictionary words.strings with
  | none =>
      obtain ⟨word, member, unknown⟩ := (positions_eq_none_iff dictionary _).mp found
      exact absurd (known word member) unknown
  | some indices =>
      rw [seedStep, wordsToMasterSeed_eq, found] at stepped
      cases stepped
      exact locked.alloc (locked_holding _)

theorem SeedsLocked.moveAssign (locked : SeedsLocked seeds) {this rhs : Nat}
    (stepped : seedStep lib seeds (.moveAssign this rhs) = .ok next) : SeedsLocked next := by
  rcases withSeed_ok stepped with rfl | ⟨old, live, ran⟩
  · exact locked
  · rcases withSeed_ok ran with rfl | ⟨seed, source, moved⟩
    · exact locked
    · by_cases same : this = rhs
      · rw [if_pos same] at moved
        cases moved
        exact locked
      · rw [if_neg same] at moved
        cases moved
        have emptied : SeedsLocked (seeds.set rhs ⟨none⟩) :=
          locked.set source fun _ null => by contradiction
        have target : (seeds.set rhs ⟨none⟩).find this = some old := by
          rw [Store.find_set_of_ne same, live]
        exact emptied.set target (locked rhs seed · source)

theorem SeedsLocked.step (locked : SeedsLocked seeds) {call : SeedCall} (known : KnownWords call)
    (stepped : seedStep lib seeds call = .ok next) : SeedsLocked next := by
  cases call with
  | generateMasterSeed random =>
      cases stepped
      exact locked.alloc (locked_holding random)
  | wordsToMasterSeed words dictionary errorHandler =>
      exact locked.wordsToMasterSeed known stepped
  | masterSeedToWords this dictionary =>
      rcases withSeed_ok stepped with rfl | ⟨seed, live, ran⟩
      · exact locked
      · obtain ⟨result, computed, same⟩ := bind_eq_ok.mp ran
        cases same
        exact locked.set live (masterSeedToWords_locks computed)
  | deriveKeyPair this id ctx =>
      rcases withSeed_ok stepped with rfl | ⟨seed, live, ran⟩
      · exact locked
      · obtain ⟨result, computed, same⟩ := bind_eq_ok.mp ran
        cases same
        exact locked.set live (deriveKeyPair_locks computed)
  | moveConstruct rhs =>
      rcases withSeed_ok stepped with rfl | ⟨seed, live, moved⟩
      · exact locked
      · cases moved
        exact (locked.set live fun _ null => by contradiction).alloc (locked rhs seed · live)
  | moveAssign this rhs => exact locked.moveAssign stepped
  | destroy this =>
      rcases withSeed_ok stepped with rfl | ⟨seed, live, freed⟩
      · exact locked
      · cases freed
        intro other seed block at_other
        exact locked other seed block (Store.find_of_find_free at_other).2

/-- An unknown word leaves a seed of zeros in a block that is not locked. -/
theorem unknown_word_unlocks {call : SeedCall} (unknown : ¬KnownWords call) :
    ∃ next, seedStep lib seeds call = .ok next ∧ ¬SeedsLocked next := by
  cases call with
  | wordsToMasterSeed words dictionary errorHandler =>
      have missing : positions dictionary words.strings = none := by
        rw [positions_eq_none_iff]
        simpa only [KnownWords, not_forall, exists_prop] using unknown
      refine ⟨_, by rw [seedStep, wordsToMasterSeed_eq, missing, ok_bind, pure_eq_ok], ?_⟩
      intro locked
      have exposed := locked seeds.fresh _ _ Store.find_alloc_fresh rfl
      contradiction
  | _ => exact absurd trivial unknown

/-- Master seeds are locked after every call if and only if every word list is
from its dictionary. -/
theorem seeds_locked_iff (lib : SeedLib) (calls : List SeedCall) :
    Always (seedStep lib) SeedsLocked .empty calls ↔
      EveryStep (seedStep lib) (fun _ call => KnownWords call) .empty calls :=
  always_iff_everyStep (fun _ _ _ locked known stepped => SeedsLocked.step locked known stepped)
    (fun _ locked => locked) (fun _ _ _ unknown => unknown_word_unlocks unknown)
    (fun _ _ _ none => by contradiction)

def repeatedLetter (letter : Byte) (nonzero : 0 ∉ [letter]) (size : Nat) : StringArray size :=
  ⟨List.replicate size ⟨[letter], nonzero⟩, List.length_replicate⟩

/-- A phrase of words that are not in the dictionary. -/
theorem unknown_words_leave_seed_unlocked : ¬Always
    (seedStep ⟨zeroSeedHash, .transparent, fun _ _ seed => seed⟩) SeedsLocked .empty
    [.wordsToMasterSeed (repeatedLetter 98 (by decide) _) (repeatedLetter 97 (by decide) _)
      true] := by
  intro always
  have unknown : ¬KnownWords (.wordsToMasterSeed (repeatedLetter 98 (by decide) _)
      (repeatedLetter 97 (by decide) _) true) := by
    intro known
    have same := List.eq_of_mem_replicate (known _ List.mem_cons_self)
    exact absurd (congrArg CString.bytes same) (by decide)
  obtain ⟨next, stepped, unlocked⟩ := unknown_word_unlocks unknown
  exact unlocked (always.2 next stepped)

end Cscrypto.Mnemonic
