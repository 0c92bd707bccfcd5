import Cscrypto.Data.History
import Cscrypto.Data.Run
import Cscrypto.Gui.KeyGenWidget
import Cscrypto.Mnemonic.RoundTrip

namespace Cscrypto.Gui

open Cscrypto.Data Cscrypto.KeysDerivation Cscrypto.Mnemonic

/-! # Recovering keys from a seed

The id of a key pair counts the key pairs since the start of the program, not
since its seed was made current.  A seed therefore gives the same keys again
only after as many key pairs as before.
-/

variable {lib : KeyGenLib} {run : KeyGenRun}

theorem cStr_bytes (word : CString) : cStr word.bytes = word := by
  cases word with
  | mk bytes noNul =>
      have kept : bytes.takeWhile (· ≠ 0) = bytes := by
        rw [List.takeWhile_eq_self_iff]
        intro byte member
        exact decide_eq_true (ne_of_mem_of_not_mem member noNul)
      simp only [cStr, kept]

/-- The last match, or what was found before. -/
theorem findWord_eq (word : CString) (entries : List CString) (i : Nat) (found : Option Nat) :
    (∃ k, entries[k]? = some word ∧ findWord word entries i found = some (i + k)) ∨
      (word ∉ entries ∧ findWord word entries i found = found) := by
  induction entries generalizing i found with
  | nil => exact .inr ⟨List.not_mem_nil, rfl⟩
  | cons entry rest ih =>
      simp only [findWord, CString.strcmp_eq_zero]
      rcases ih (i + 1) (if word = entry then some i else found) with
        ⟨k, at_k, same⟩ | ⟨absent, same⟩
      · exact .inl ⟨k + 1, at_k, by rw [same, Nat.add_assoc, Nat.add_comm 1 k]⟩
      · rw [same]
        by_cases first : word = entry
        · exact .inl ⟨0, by rw [first]; rfl, if_pos first⟩
        · exact .inr ⟨by simp [first, absent], if_neg first⟩

theorem getElem_findWordInDictionary {en : Dictionary} {word : CString} {index : Nat}
    (found : findWordInDictionary en word = some index) : en.strings[index]? = some word := by
  rcases findWord_eq word en.strings 0 none with ⟨k, at_k, same⟩ | ⟨_, same⟩
  · rw [findWordInDictionary, same, Nat.zero_add] at found
    cases found
    exact at_k
  · rw [findWordInDictionary, same] at found
    contradiction

theorem findWordInDictionary_of_mem {en : Dictionary} {word : CString}
    (known : word ∈ en.strings) : ∃ index, findWordInDictionary en word = some index := by
  rcases findWord_eq word en.strings 0 none with ⟨k, _, same⟩ | ⟨absent, _⟩
  · exact ⟨0 + k, same⟩
  · exact absurd known absent

theorem readWords_ok (en : Dictionary) (remaining : Nat) (ss : IStringStream) :
    ∃ words, readWords en remaining ss = .ok words := by
  induction remaining generalizing ss with
  | zero => exact ⟨_, rfl⟩
  | succ remaining ih =>
      unfold readWords
      split
      · exact ⟨none, rfl⟩
      · cases found : findWordInDictionary en (cStr ss.word.1) with
        | none =>
            simp only [found]
            exact ⟨none, rfl⟩
        | some index =>
            obtain ⟨rest, read⟩ := ih ss.word.2
            simp only [found, getElem_findWordInDictionary found, read, ok_bind, pure_eq_ok]
            exact ⟨_, rfl⟩

/-- The text that `getSeedString` makes of the words. -/
def phrase (words : List CString) : Bytes := words.flatMap (fun word => word.bytes ++ [32])

/-- What `>>` reads back as one word. -/
def Plain (word : CString) : Prop := word.bytes ≠ [] ∧ ∀ byte ∈ word.bytes, isspace byte = false

theorem word_append {word : CString} (plain : Plain word) {spaces rest : Bytes}
    (skipped : ∀ byte ∈ spaces, isspace byte = true) :
    IStringStream.word ⟨spaces ++ (word.bytes ++ 32 :: rest), false⟩ =
      (word.bytes, ⟨32 :: rest, false⟩) := by
  obtain ⟨nonempty, letters⟩ := plain
  have start : (spaces ++ (word.bytes ++ 32 :: rest)).dropWhile isspace =
      word.bytes ++ 32 :: rest := by
    rw [List.dropWhile_append_of_pos skipped]
    cases bytes : word.bytes with
    | nil => exact absurd bytes nonempty
    | cons first more =>
        have letter : isspace first = false := letters first (by rw [bytes]; exact .head _)
        simp [letter]
  have kept : ∀ byte ∈ word.bytes, (!isspace byte) = true := by
    intro byte member
    rw [letters byte member]
    rfl
  have space : (!isspace 32) = false := by decide
  simp [IStringStream.word, start, nonempty, List.takeWhile_append_of_pos kept,
    List.dropWhile_append_of_pos kept, space]

/-- Known words without spaces are read as they were written. -/
theorem readWords_phrase {en : Dictionary} (words : StringArray size)
    (known : ∀ word ∈ words.strings, word ∈ en.strings) (plain : ∀ word ∈ words.strings, Plain word)
    {spaces : Bytes} (skipped : ∀ byte ∈ spaces, isspace byte = true) :
    readWords en size ⟨spaces ++ phrase words.strings, false⟩ = .ok (some words) := by
  obtain ⟨words, rfl⟩ := words
  induction words generalizing spaces with
  | nil => rfl
  | cons word rest ih =>
      obtain ⟨index, found⟩ := findWordInDictionary_of_mem (known word (.head _))
      have space : ∀ byte ∈ [(32 : Byte)], isspace byte = true := by
        intro byte member
        rw [List.mem_singleton.mp member]
        decide
      have rest_read := ih space (fun other member => known other (.tail _ member))
        (fun other member => plain other (.tail _ member))
      have text : phrase (word :: rest) = word.bytes ++ 32 :: phrase rest := by
        simp [phrase]
      simp only [List.length_cons, readWords, text, word_append (plain word (.head _)) skipped,
        cStr_bytes, found, getElem_findWordInDictionary found]
      rw [List.singleton_append] at rest_read
      simp [rest_read]

def seedOf : KeyGenEntry → Option (ByteArray kMasterSeedSize)
  | .seed content => some content
  | .pair _ => none

def pairOf : KeyGenEntry → Option KeyPair
  | .seed _ => none
  | .pair keys => some keys

/-- The id of the key pair that is generated next. -/
def idAfter (history : List KeyGenEntry) : KeyId :=
  UInt64.ofNat (history.filterMap pairOf).length

def derivedPair (lib : KeyGenLib) (seed : ByteArray kMasterSeedSize) (id : KeyId) : KeyPair :=
  generateKeyPair lib.sign (lib.kdf id zeroContext seed)

/-- A key pair is derived from the current seed and the number of key pairs
before it. -/
def Derived (lib : KeyGenLib) (before : List KeyGenEntry) : KeyGenEntry → Prop
  | .seed _ => True
  | .pair keys => ∃ seed, latest seedOf before = some seed ∧
      keys = derivedPair lib seed (idAfter before)

theorem idAfter_append_pair (history : List KeyGenEntry) (keys : KeyPair) :
    idAfter (history ++ [.pair keys]) = idAfter history + 1 := by
  rw [idAfter, List.filterMap_append, List.length_append, UInt64.ofNat_add]
  rfl

theorem idAfter_append_seed (history : List KeyGenEntry) (seed : ByteArray kMasterSeedSize) :
    idAfter (history ++ [.seed seed]) = idAfter history := by
  rw [idAfter, List.filterMap_append, List.length_append, UInt64.ofNat_add]
  exact UInt64.add_zero _

/-- The widget has the seed and the counter that its history tells. -/
structure Tracked (lib : KeyGenLib) (run : KeyGenRun) : Prop where
  derived : Explained (Derived lib) run.history
  counted : run.widget.nextKeyId = idAfter run.history
  seeded : ∀ seed, latest seedOf run.history = some seed →
    ∃ protection, run.widget.masterSeed = .holding seed protection

/-- Keys can be generated only when there is a seed. -/
structure Seeded (lib : KeyGenLib) (run : KeyGenRun) : Prop extends Tracked lib run where
  current : run.widget.keyGen = true → ∃ seed, latest seedOf run.history = some seed

theorem Tracked.setMasterSeed (tracked : Tracked lib run) (content : ByteArray kMasterSeedSize)
    (protection : Protection) : Tracked lib (run.setMasterSeed (.holding content protection)) where
  derived := ExplainedFrom.explained tracked.derived ⟨trivial, trivial⟩
  counted := tracked.counted.trans (idAfter_append_seed _ _).symm
  seeded := by
    intro seed last
    have newest : latest seedOf (run.history ++ [.seed content]) = some content :=
      latest_append_cons rfl (fun _ none => absurd none List.not_mem_nil)
    rw [KeyGenRun.setMasterSeed] at last
    cases newest.symm.trans last
    exact ⟨protection, rfl⟩

/-- A change of the widget that keeps the counter and what the seed holds. -/
theorem Seeded.update (seeded : Seeded lib run) {change : KeyGenWidget → KeyGenWidget}
    (counter : (change run.widget).nextKeyId = run.widget.nextKeyId)
    (seed : ∀ content protection, run.widget.masterSeed = .holding content protection →
      ∃ after, (change run.widget).masterSeed = .holding content after)
    (enabled : (change run.widget).keyGen = true → run.widget.keyGen = true) :
    Seeded lib (run.update change) where
  derived := seeded.derived
  counted := counter.trans seeded.counted
  seeded := by
    intro content last
    obtain ⟨protection, holds⟩ := seeded.seeded content last
    exact seed content protection holds
  current := fun now => seeded.current (enabled now)

theorem Seeded.setMasterSeed (tracked : Tracked lib run) (content : ByteArray kMasterSeedSize)
    (protection : Protection) : Seeded lib (run.setMasterSeed (.holding content protection)) where
  toTracked := tracked.setMasterSeed content protection
  current := fun _ =>
    ⟨content, latest_append_cons rfl (fun _ none => absurd none List.not_mem_nil)⟩

theorem Seeded.toStatusBar (seeded : Seeded lib run) (message : String) :
    Seeded lib (run.toStatusBar message) :=
  seeded.update rfl (fun _ protection holds => ⟨protection, holds⟩) id

theorem Seeded.enable (seeded : Seeded lib run) (newSeed : Bool) {keyGen : Bool}
    (current : keyGen = true → ∃ seed, latest seedOf run.history = some seed) :
    Seeded lib (run.enable newSeed keyGen) where
  derived := seeded.derived
  counted := seeded.counted
  seeded := seeded.seeded
  current := current

theorem Seeded.disableKeyGen (seeded : Seeded lib run) : Seeded lib run.disableKeyGen :=
  seeded.enable true (fun off => by contradiction)

theorem seeded_initial (lib : KeyGenLib) : Seeded lib .initial where
  derived := explained_nil
  counted := rfl
  seeded := fun _ last => by contradiction
  current := fun on => by contradiction

theorem genNewSeed_seeded (seeded : Seeded lib run) (random : ByteArray kMasterSeedSize) :
    ∃ next, run.genNewSeed random = .ok next ∧ Seeded lib next := by
  have current := Seeded.setMasterSeed seeded.toTracked random .noAccess
  refine ⟨_, rfl, (current.enable false ?_).toStatusBar _⟩
  exact fun _ => ⟨random, latest_append_cons rfl (fun _ none => absurd none List.not_mem_nil)⟩

theorem wordsToMasterSeed_holding (words : WordList) (dictionary : Dictionary)
    (errorHandler : Bool) : ∃ content protection messages,
      wordsToMasterSeed words dictionary errorHandler =
        .ok ⟨.holding content protection, messages⟩ := by
  rw [wordsToMasterSeed_eq]
  cases positions dictionary words.strings with
  | none => exact ⟨_, _, _, rfl⟩
  | some indices => exact ⟨_, _, _, rfl⟩

/-- What a correct phrase does. -/
theorem fillMasterSeedFromString_correct {s : Bytes} {words : WordList} {messages : List String}
    {content : ByteArray kMasterSeedSize} {protection : Protection}
    (read : readWords lib.en kNumWords ⟨s, false⟩ = .ok (some words))
    (converted : wordsToMasterSeed words lib.en false =
      .ok ⟨.holding content protection, messages⟩) :
    run.fillMasterSeedFromString lib s =
      .ok (((run.enable false true).toStatusBar "Seed phrase is correct.").setMasterSeed
        (.holding content protection)) := by
  simp only [KeyGenRun.fillMasterSeedFromString, read, ok_bind, converted, pure_eq_ok]

theorem fillMasterSeedFromString_seeded (seeded : Seeded lib run) (s : Bytes) :
    ∃ next, run.fillMasterSeedFromString lib s = .ok next ∧ Seeded lib next := by
  obtain ⟨words, read⟩ := readWords_ok lib.en kNumWords ⟨s, false⟩
  cases words with
  | none =>
      refine ⟨_, by rw [KeyGenRun.fillMasterSeedFromString, read]; rfl, ?_⟩
      exact (seeded.toStatusBar _).disableKeyGen
  | some words =>
      obtain ⟨content, protection, _, converted⟩ := wordsToMasterSeed_holding words lib.en false
      have tracked : Tracked lib ((run.enable false true).toStatusBar "Seed phrase is correct.") :=
        ⟨seeded.derived, seeded.counted, seeded.seeded⟩
      exact ⟨_, fillMasterSeedFromString_correct read converted,
        .setMasterSeed tracked content protection⟩

theorem getSeedString_ok (lib : KeyGenLib) {content : ByteArray kMasterSeedSize}
    {protection : Protection} (holds : run.widget.masterSeed = .holding content protection) :
    ∃ words, run.getSeedString lib =
        .ok (phrase words, run.update ({ · with masterSeed := .holding content .noAccess })) ∧
      words.map some =
        (indicesOf lib.calculateHash content).map (fun index => lib.en.strings[index]?) := by
  obtain ⟨words, computed, found⟩ :=
    masterSeedToWords_ok lib.calculateHash content protection lib.en
  refine ⟨words.strings, ?_, found⟩
  rw [KeyGenRun.getSeedString, holds, computed]
  rfl

theorem getSeedString_seeded (seeded : Seeded lib run) (enabled : run.widget.keyGen = true) :
    ∃ s next, run.getSeedString lib = .ok (s, next) ∧ Seeded lib next := by
  obtain ⟨content, last⟩ := seeded.current enabled
  obtain ⟨protection, holds⟩ := seeded.seeded content last
  obtain ⟨words, computed, _⟩ := getSeedString_ok lib holds
  refine ⟨_, _, computed, seeded.update rfl ?_ id⟩
  intro other before same
  cases holds.symm.trans same
  exact ⟨.noAccess, rfl⟩

theorem genKeyPair_seeded (seeded : Seeded lib run) (enabled : run.widget.keyGen = true) :
    ∃ next, run.genKeyPair lib = .ok next ∧ Seeded lib next := by
  obtain ⟨content, last⟩ := seeded.current enabled
  obtain ⟨protection, holds⟩ := seeded.seeded content last
  have same : latest seedOf
      (run.history ++ [.pair (derivedPair lib content run.widget.nextKeyId)]) = some content := by
    rw [latest_append_of_none (by simp [seedOf]), last]
  refine ⟨_, by rw [KeyGenRun.genKeyPair, holds, deriveKeyPair_holding]; rfl, ?_⟩
  exact {
    derived := ExplainedFrom.explained seeded.derived
      ⟨⟨content, last, by rw [seeded.counted]; rfl⟩, trivial⟩
    counted := by
      rw [idAfter_append_pair, ← seeded.counted]
    seeded := by
      intro seed newest
      cases same.symm.trans newest
      exact ⟨.noAccess, rfl⟩
    current := fun _ => ⟨content, same⟩ }

theorem step_seeded (seeded : Seeded lib run) (event : KeyGenEvent) :
    ∃ next, run.step lib event = .ok next ∧ Seeded lib next := by
  have unchanged : ∃ next, Except.ok (ε := Fault) run = .ok next ∧ Seeded lib next :=
    ⟨run, rfl, seeded⟩
  cases event with
  | genNewSeed random =>
      rw [KeyGenRun.step]
      split
      · exact genNewSeed_seeded seeded random
      · exact unchanged
  | showTypeSeedDialog =>
      refine ⟨_, rfl, ?_⟩
      split
      · exact seeded.update rfl (fun _ protection holds => ⟨protection, holds⟩) id
      · exact seeded
  | closeTypeSeedDialog =>
      exact ⟨_, rfl, seeded.update rfl (fun _ protection holds => ⟨protection, holds⟩) id⟩
  | handleInputSeed text =>
      rw [KeyGenRun.step]
      split
      · refine fillMasterSeedFromString_seeded ?_ text
        exact seeded.update rfl (fun _ protection holds => ⟨protection, holds⟩) id
      · exact unchanged
  | loadSeedFromFile text =>
      rw [KeyGenRun.step]
      split
      · cases text with
        | none => exact ⟨_, rfl, seeded.toStatusBar _⟩
        | some text => exact fillMasterSeedFromString_seeded seeded text
      · exact unchanged
  | disableKeyGen =>
      refine ⟨_, rfl, ?_⟩
      split
      · exact seeded.disableKeyGen
      · exact seeded
  | genKeyPair =>
      rw [KeyGenRun.step]
      split
      · rename_i enabled
        exact genKeyPair_seeded seeded enabled
      · exact unchanged
  | setSeedOnMsBox =>
      rw [KeyGenRun.step]
      split
      · rename_i enabled
        obtain ⟨s, next, ran, seeded⟩ := getSeedString_seeded seeded enabled
        refine ⟨_, by rw [KeyGenRun.setSeedOnMsBox, ran]; rfl, ?_⟩
        exact seeded.update rfl (fun _ protection holds => ⟨protection, holds⟩) id
      · exact unchanged
  | saveSeedToFile opened =>
      rw [KeyGenRun.step]
      split
      · rename_i enabled
        obtain ⟨s, next, ran, kept⟩ := getSeedString_seeded seeded enabled
        cases opened with
        | false => exact ⟨_, rfl, seeded.toStatusBar _⟩
        | true => exact ⟨_, by rw [KeyGenRun.saveSeedToFile, if_pos rfl, ran]; rfl,
            kept.toStatusBar _⟩
      · exact unchanged

/-- The window never crashes over its master seed. -/
theorem run_seeded (lib : KeyGenLib) (events : List KeyGenEvent) :
    ∃ last, events.foldlM (KeyGenRun.step lib) .initial = .ok last ∧ Seeded lib last :=
  foldlM_succeeds (fun _ event seeded => step_seeded seeded event) events (seeded_initial lib)

/-- The history makes the seed current and then generates the key pairs from
it. -/
def Generates (history before : List KeyGenEntry) (seed : ByteArray kMasterSeedSize)
    (pairs : List KeyPair) : Prop :=
  ∃ after, history = before ++ .seed seed :: (pairs.map .pair ++ after)

/-- From one seed the `n`-th key pairs are the same. -/
def KeysRecovered (first second : List KeyGenEntry) : Prop :=
  ∀ before other seed pairs others, Generates first before seed pairs →
    Generates second other seed others →
    ∀ (n : Nat) keys restored, pairs[n]? = some keys → others[n]? = some restored → keys = restored

/-- Where both histories generate key pairs from one seed, they have generated
as many before, up to the size of the counter. -/
def SameIds (first second : List KeyGenEntry) : Prop :=
  ∀ before other seed pairs others, Generates first before seed pairs →
    Generates second other seed others → pairs ≠ [] → others ≠ [] →
    idAfter before = idAfter other

/-- A seed has a key pair of its own for every id. -/
def DistinctKeys (lib : KeyGenLib) : Prop :=
  ∀ seed id other, derivedPair lib seed id = derivedPair lib seed other → id = other

theorem idAfter_generates (before : List KeyGenEntry) (seed : ByteArray kMasterSeedSize)
    (pairs : List KeyPair) :
    idAfter (before ++ .seed seed :: pairs.map .pair) =
      idAfter before + UInt64.ofNat pairs.length := by
  have generated : (KeyGenEntry.seed seed :: pairs.map .pair).filterMap pairOf = pairs := by
    induction pairs with
    | nil => rfl
    | cons keys rest ih => exact congrArg (keys :: ·) ih
  rw [idAfter, List.filterMap_append, generated, List.length_append, UInt64.ofNat_add, idAfter]

/-- The `n`-th key pair has the `n`-th id after those used before. -/
theorem Generates.derived {history before : List KeyGenEntry} {seed : ByteArray kMasterSeedSize}
    {pairs : List KeyPair} {n : Nat} {keys : KeyPair} (explained : Explained (Derived lib) history)
    (generates : Generates history before seed pairs) (at_n : pairs[n]? = some keys) :
    keys = derivedPair lib seed (idAfter before + UInt64.ofNat n) := by
  obtain ⟨after, whole⟩ := generates
  obtain ⟨bound, same⟩ := List.getElem?_eq_some_iff.mp at_n
  have split : pairs = pairs.take n ++ keys :: pairs.drop (n + 1) := by
    rw [← same, ← List.drop_eq_getElem_cons bound, List.take_append_drop]
  have earlier : history = (before ++ .seed seed :: (pairs.take n).map .pair) ++
      .pair keys :: ((pairs.drop (n + 1)).map .pair ++ after) := by
    have mapped := congrArg (List.map KeyGenEntry.pair) split
    rw [List.map_append, List.map_cons] at mapped
    rw [whole, mapped]
    simp only [List.append_assoc, List.cons_append]
  obtain ⟨current, last, derived⟩ := explained _ _ _ earlier
  have newest : latest seedOf (before ++ .seed seed :: (pairs.take n).map .pair) = some seed := by
    refine latest_append_cons rfl ?_
    intro entry member
    obtain ⟨pair, _, rfl⟩ := List.mem_map.mp member
    rfl
  cases newest.symm.trans last
  rw [derived, idAfter_generates, List.length_take_of_le bound.le]

theorem keysRecovered_of_sameIds {first second : List KeyGenEntry}
    (explained : Explained (Derived lib) first) (others_explained : Explained (Derived lib) second)
    (same : SameIds first second) : KeysRecovered first second := by
  intro before other seed pairs others generates regenerates n keys restored at_n other_n
  have nonempty : pairs ≠ [] := by
    intro equal
    subst equal
    contradiction
  have others_nonempty : others ≠ [] := by
    intro equal
    subst equal
    contradiction
  rw [generates.derived explained at_n, regenerates.derived others_explained other_n,
    same before other seed pairs others generates regenerates nonempty others_nonempty]

/-- The first key pairs tell the ids apart. -/
theorem sameIds_of_keysRecovered {first second : List KeyGenEntry}
    (explained : Explained (Derived lib) first) (others_explained : Explained (Derived lib) second)
    (distinct : DistinctKeys lib) (recovered : KeysRecovered first second) :
    SameIds first second := by
  intro before other seed pairs others generates regenerates nonempty others_nonempty
  obtain ⟨keys, rest, rfl⟩ := List.exists_cons_of_ne_nil nonempty
  obtain ⟨restored, others, rfl⟩ := List.exists_cons_of_ne_nil others_nonempty
  have same := recovered before other seed _ _ generates regenerates 0 keys restored rfl rfl
  rw [generates.derived (n := 0) explained rfl,
    regenerates.derived (n := 0) others_explained rfl] at same
  have ids := distinct seed _ _ same
  exact (UInt64.add_left_inj _).mp ids

/-- Two runs give the same key pairs for a seed if they had generated as many
key pairs before it, and only then. -/
theorem keys_recovered (lib : KeyGenLib) (events others : List KeyGenEvent) :
    ∃ first second, events.foldlM (KeyGenRun.step lib) .initial = .ok first ∧
      others.foldlM (KeyGenRun.step lib) .initial = .ok second ∧
      (SameIds first.history second.history → KeysRecovered first.history second.history) ∧
      (DistinctKeys lib → KeysRecovered first.history second.history →
        SameIds first.history second.history) := by
  obtain ⟨first, ran, seeded⟩ := run_seeded lib events
  obtain ⟨second, reran, reseeded⟩ := run_seeded lib others
  exact ⟨first, second, ran, reran, keysRecovered_of_sameIds seeded.derived reseeded.derived,
    sameIds_of_keysRecovered seeded.derived reseeded.derived⟩

/-- The phrase that is saved or shown for a seed makes it current again. -/
theorem fillMasterSeedFromString_getSeedString (distinct : lib.en.strings.Nodup)
    (plain : ∀ word ∈ lib.en.strings, Plain word) {content : ByteArray kMasterSeedSize}
    {protection : Protection} (holds : run.widget.masterSeed = .holding content protection) :
    ∃ s next, run.getSeedString lib = .ok (s, next) ∧ ∀ other : KeyGenRun,
      other.fillMasterSeedFromString lib s =
        .ok (((other.enable false true).toStatusBar "Seed phrase is correct.").setMasterSeed
          (.holding content .noAccess)) := by
  obtain ⟨words, encoded, found⟩ :=
    masterSeedToWords_ok lib.calculateHash content protection lib.en
  have converted := wordsToMasterSeed_of_found distinct found false
  have known : ∀ word ∈ words.strings, word ∈ lib.en.strings := by
    intro word member
    have inside := List.mem_map_of_mem (f := some) member
    rw [found] at inside
    obtain ⟨index, _, at_index⟩ := List.mem_map.mp inside
    exact List.mem_of_getElem? at_index
  refine ⟨phrase words.strings, _, by rw [KeyGenRun.getSeedString, holds, encoded]; rfl, ?_⟩
  intro other
  have read := readWords_phrase words known (fun word member => plain word (known word member))
    (fun byte none => absurd none List.not_mem_nil)
  exact fillMasterSeedFromString_correct read converted

/-- The first run loads one seed twice, the second once. -/
theorem reload_histories {text : Bytes} {content : ByteArray kMasterSeedSize}
    {protection : Protection}
    (loads : ∀ run : KeyGenRun, run.fillMasterSeedFromString lib text =
      .ok (((run.enable false true).toStatusBar "Seed phrase is correct.").setMasterSeed
        (.holding content protection))) :
    ∃ first second,
      [.loadSeedFromFile (some text), .genKeyPair, .disableKeyGen, .loadSeedFromFile (some text),
        .genKeyPair].foldlM (KeyGenRun.step lib) .initial = .ok first ∧
      [.loadSeedFromFile (some text), .genKeyPair].foldlM (KeyGenRun.step lib) .initial =
        .ok second ∧
      first.history = [.seed content, .pair (derivedPair lib content 0), .seed content,
        .pair (derivedPair lib content 1)] ∧
      second.history = [.seed content, .pair (derivedPair lib content 0)] :=
  ⟨_, _, foldlM_cons_ok.mpr ⟨_, loads _, foldlM_cons_ok.mpr ⟨_, rfl,
    foldlM_cons_ok.mpr ⟨_, rfl, foldlM_cons_ok.mpr ⟨_, loads _,
      foldlM_cons_ok.mpr ⟨_, rfl, rfl⟩⟩⟩⟩⟩,
    foldlM_cons_ok.mpr ⟨_, loads _, foldlM_cons_ok.mpr ⟨_, rfl, rfl⟩⟩, rfl, rfl⟩

/-- Keys that tell their ids, and nothing else. -/
def numberedKeys : KeyGenLib where
  sign := .transparent
  kdf id _ _ := ⟨toLittleEndian kSeedSize id.toNat, toLittleEndian_length _ _⟩
  calculateHash := zeroSeedHash
  en := numberedDictionary

theorem numberedKeys_distinct : DistinctKeys numberedKeys := by
  intro seed id other same
  have bytes := congrArg (fun keys : KeyPair => littleEndian keys.1.bytes) same
  have numbers : id.toNat % 2 ^ 256 = other.toNat % 2 ^ 256 :=
    (littleEndian_toLittleEndian 32 id.toNat).symm.trans
      (bytes.trans (littleEndian_toLittleEndian 32 other.toNat))
  have bound := id.toNat_lt
  have other_bound := other.toNat_lt
  rw [← UInt64.toNat_inj]
  omega

theorem plain_numberedWord (j : Fin kDictionarySize) : Plain (numberedWord j) := by
  refine ⟨List.cons_ne_nil _ _, ?_⟩
  intro byte member
  have bound : j.val < 2048 := j.isLt
  have letter : 64 ≤ byte.toNat := by
    simp only [numberedWord, List.mem_cons, List.not_mem_nil, or_false] at member
    rcases member with rfl | rfl <;> rw [UInt8.toNat_ofNat'] <;> omega
  simp only [isspace, decide_eq_false_iff_not, UInt8.le_iff_toNat_le, ← UInt8.toNat_inj,
    UInt8.reduceToNat]
  omega

/-- The zero seed is loaded twice in the first run and once in the second. -/
theorem reloaded_seed_gives_other_keys : ∃ first second,
    [.loadSeedFromFile (some (phrase repeatedWord.strings)), .genKeyPair, .disableKeyGen,
      .loadSeedFromFile (some (phrase repeatedWord.strings)), .genKeyPair].foldlM
        (KeyGenRun.step numberedKeys) .initial = .ok first ∧
    [.loadSeedFromFile (some (phrase repeatedWord.strings)), .genKeyPair].foldlM
      (KeyGenRun.step numberedKeys) .initial = .ok second ∧
    ¬KeysRecovered first.history second.history := by
  have plain : ∀ word ∈ repeatedWord.strings, Plain word := by
    intro word member
    rw [List.eq_of_mem_replicate member]
    exact plain_numberedWord 0
  have known : ∀ word ∈ repeatedWord.strings, word ∈ numberedKeys.en.strings := by
    intro word member
    rw [List.eq_of_mem_replicate member]
    rw [numberedKeys, numberedDictionary, List.mem_ofFn]
    exact ⟨0, rfl⟩
  have read := readWords_phrase repeatedWord known plain
    (fun byte none => absurd none List.not_mem_nil)
  have converted : wordsToMasterSeed repeatedWord numberedKeys.en false =
      .ok ⟨.holding (seedOfIndices (List.replicate kNumWords 0)) .noAccess, []⟩ := by
    rw [wordsToMasterSeed_eq, numberedKeys, positions_repeatedWord]
  obtain ⟨first, second, ran, reran, first_history, second_history⟩ := reload_histories
    (fun _ => fillMasterSeedFromString_correct read converted)
  refine ⟨first, second, ran, reran, ?_⟩
  rw [first_history, second_history]
  intro recovered
  have same := recovered [.seed _, .pair _] [] _ [_] [_] ⟨[], rfl⟩ ⟨[], rfl⟩ 0 _ _ rfl rfl
  exact absurd (numberedKeys_distinct _ 1 0 same) (by decide)

end Cscrypto.Gui
