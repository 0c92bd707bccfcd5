import Cscrypto.Gui.SeedPhrase
import Cscrypto.Mnemonic.English

namespace Cscrypto.Gui

open Cscrypto.Data Cscrypto.KeysDerivation Cscrypto.Mnemonic

/-! # Phrases of English words

With the dictionary that is shipped nothing is assumed of its words.  Whoever
writes down a phrase can spell it with any white space, and has the seed and all
keys again.
-/

/-- The library with the English dictionary. -/
def KeyGenLib.english (lib : KeyGenLib) : KeyGenLib := { lib with en := Mnemonic.en }

theorem en_plain : ∀ word ∈ en.strings, Plain word := by
  intro word member
  have checked := List.all_eq_true.mp en_words word member
  simp only [CString.isWord, Bool.and_eq_true, decide_eq_true_eq, List.all_eq_true] at checked
  obtain ⟨⟨long, _⟩, letters⟩ := checked
  refine ⟨fun empty => by rw [empty] at long; contradiction, ?_⟩
  intro byte inside
  have letter := (letters byte inside).1
  simp only [isspace, decide_eq_false_iff_not]
  rw [UInt8.le_iff_toNat_le] at letter
  simp only [UInt8.le_iff_toNat_le, ← UInt8.toNat_inj, UInt8.reduceToNat] at letter ⊢
  omega

variable {lib : KeyGenLib}

/-- `genKeyPair` pressed `count` times. -/
def KeyGenRun.generate (lib : KeyGenLib) (count : Nat) (run : KeyGenRun) : Except Fault KeyGenRun :=
  (List.replicate count .genKeyPair).foldlM (KeyGenRun.step lib) run

/-- The next key pairs of a seed. -/
def nextPairs (lib : KeyGenLib) (seed : ByteArray kMasterSeedSize) : Nat → KeyId → List KeyPair
  | 0, _ => []
  | count + 1, id => derivedPair lib seed id :: nextPairs lib seed count (id + 1)

/-- The run after a key pair of the seed. -/
def KeyGenRun.paired (lib : KeyGenLib) (run : KeyGenRun) (seed : ByteArray kMasterSeedSize) :
    KeyGenRun where
  widget := { run.widget with
    masterSeed := .holding seed .noAccess
    nextKeyId := run.widget.nextKeyId + 1
    keys := run.widget.keys ++ [derivedPair lib seed run.widget.nextKeyId] }
  history := run.history ++ [.pair (derivedPair lib seed run.widget.nextKeyId)]

theorem step_paired {run : KeyGenRun} {seed : ByteArray kMasterSeedSize} {protection : Protection}
    (holds : run.widget.masterSeed = .holding seed protection)
    (enabled : run.widget.keyGen = true) :
    run.step lib .genKeyPair = .ok (run.paired lib seed) := by
  rw [KeyGenRun.step, if_pos enabled, KeyGenRun.genKeyPair, holds, deriveKeyPair_holding]
  rfl

theorem generate_pairs {run : KeyGenRun} {seed : ByteArray kMasterSeedSize}
    {protection : Protection} (holds : run.widget.masterSeed = .holding seed protection)
    (enabled : run.widget.keyGen = true) (count : Nat) :
    ∃ last, run.generate lib count = .ok last ∧
      last.widget.keys = run.widget.keys ++ nextPairs lib seed count run.widget.nextKeyId := by
  induction count generalizing run protection with
  | zero => exact ⟨run, rfl, (List.append_nil _).symm⟩
  | succ count ih =>
      obtain ⟨last, ran, keys⟩ := @ih (run.paired lib seed) .noAccess rfl enabled
      refine ⟨last, foldlM_cons_ok.mpr ⟨_, step_paired holds enabled, ran⟩, ?_⟩
      rw [keys, nextPairs, KeyGenRun.paired, List.append_assoc, List.singleton_append]

theorem getSeedString_words (lib : KeyGenLib) {run : KeyGenRun} {seed : ByteArray kMasterSeedSize}
    {protection : Protection} (holds : run.widget.masterSeed = .holding seed protection) :
    ∃ (words : WordList) (saved : KeyGenRun),
      run.getSeedString lib = .ok (phrase words.strings, saved) ∧
      saved.widget = { run.widget with masterSeed := .holding seed .noAccess } ∧
      words.strings.map some =
        (indicesOf lib.calculateHash seed).map fun index => lib.en.strings[index]? := by
  obtain ⟨words, encoded, found⟩ := masterSeedToWords_ok lib.calculateHash seed protection lib.en
  refine ⟨words, run.update ({ · with masterSeed := .holding seed .noAccess }), ?_, rfl, found⟩
  rw [KeyGenRun.getSeedString, holds, encoded]
  rfl

theorem known_of_found {en : Dictionary} {words : List CString} {indices : List Nat}
    (found : words.map some = indices.map fun index => en.strings[index]?) :
    ∀ word ∈ words, word ∈ en.strings := by
  intro word member
  have inside := List.mem_map_of_mem (f := some) member
  rw [found] at inside
  obtain ⟨index, _, at_index⟩ := List.mem_map.mp inside
  exact List.mem_of_getElem? at_index

/-- A text that spells the words of a seed makes the seed current. -/
theorem fillMasterSeedFromString_spelled (lib : KeyGenLib) {words : WordList}
    {seed : ByteArray kMasterSeedSize}
    (found : words.strings.map some =
      (indicesOf lib.calculateHash seed).map fun index => en.strings[index]?)
    {text : Bytes} (spelled : tokens isspace text = words.strings.map CString.bytes)
    (run : KeyGenRun) :
    run.fillMasterSeedFromString lib.english text =
      .ok (((run.enable false true).toStatusBar "Seed phrase is correct.").setMasterSeed
        (.holding seed .noAccess)) := by
  have spells : IsPhrase en text words := ⟨spelled, known_of_found found⟩
  exact fillMasterSeedFromString_correct ((readWords_iff en_plain text words).mpr spells.begins)
    (wordsToMasterSeed_of_found en_distinct found false)

/-- Whatever a window has gone through, the phrase of its seed consists of
English words, and a text of the same words, with any white space, restores the
seed in any other window. From there the same key pairs follow, when both
windows have counted as many. -/
theorem english_phrase_restores_keys (lib : KeyGenLib) {events : List KeyGenEvent}
    {first second : KeyGenRun}
    (ran : events.foldlM (KeyGenRun.step lib.english) .initial = .ok first)
    (enabled : first.widget.keyGen = true)
    (counted : second.widget.nextKeyId = first.widget.nextKeyId) :
    ∃ (words : WordList) (saved : KeyGenRun),
      first.getSeedString lib.english = .ok (phrase words.strings, saved) ∧
      (∀ word ∈ words.strings, word ∈ en.strings) ∧
      tokens isspace (phrase words.strings) = words.strings.map CString.bytes ∧
      ∀ text, tokens isspace text = words.strings.map CString.bytes →
        ∃ next, second.fillMasterSeedFromString lib.english text = .ok next ∧
          next.widget.statusBar = "Seed phrase is correct." ∧
          ∀ count, ∃ pairs last restored,
            saved.generate lib.english count = .ok last ∧
            last.widget.keys = saved.widget.keys ++ pairs ∧
            next.generate lib.english count = .ok restored ∧
            restored.widget.keys = next.widget.keys ++ pairs := by
  obtain ⟨reached, same, seeded⟩ := run_seeded lib.english events
  cases ran.symm.trans same
  obtain ⟨seed, last⟩ := seeded.current enabled
  obtain ⟨protection, holds⟩ := seeded.seeded seed last
  obtain ⟨words, saved, written, widget, found⟩ := getSeedString_words lib.english holds
  have known : ∀ word ∈ words.strings, word ∈ en.strings := known_of_found found
  have split := tokens_phrase (fun word member => en_plain word (known word member)) []
  rw [List.append_nil, tokens_nil, List.append_nil] at split
  refine ⟨words, saved, written, known, split, ?_⟩
  intro text spelled
  have filled := fillMasterSeedFromString_spelled lib found spelled second
  refine ⟨_, filled, rfl, fun count => ?_⟩
  have saved_holds : saved.widget.masterSeed = .holding seed .noAccess := by rw [widget]
  obtain ⟨last, generated, keys⟩ :=
    @generate_pairs lib.english saved seed .noAccess saved_holds (by rw [widget]; exact enabled) count
  obtain ⟨restored, regenerated, others⟩ := @generate_pairs lib.english
    (((second.enable false true).toStatusBar "Seed phrase is correct.").setMasterSeed
      (.holding seed .noAccess)) seed .noAccess rfl rfl count
  refine ⟨_, last, restored, generated, keys, regenerated, ?_⟩
  have next_id : saved.widget.nextKeyId = second.widget.nextKeyId := by rw [widget, counted]
  rw [others, next_id]
  rfl

/-- A seed that was generated and used once, in a window whose counter is at
one. -/
theorem english_phrase_restores_keys_once : ∃ first second : KeyGenRun,
    ∃ (words : WordList) (saved : KeyGenRun),
      first.getSeedString numberedKeys.english = .ok (phrase words.strings, saved) ∧
      ∃ next, second.fillMasterSeedFromString numberedKeys.english (phrase words.strings) = .ok next ∧
        ∀ count, ∃ pairs last restored,
          saved.generate numberedKeys.english count = .ok last ∧
          last.widget.keys = saved.widget.keys ++ pairs ∧
          next.generate numberedKeys.english count = .ok restored ∧
          restored.widget.keys = next.widget.keys ++ pairs := by
  obtain ⟨words, saved, written, _, split, restores⟩ :=
    @english_phrase_restores_keys numberedKeys [.genNewSeed (.replicate _ 1), .genKeyPair] _
      ⟨{ KeyGenWidget.initial with nextKeyId := 1 }, []⟩ rfl rfl rfl
  obtain ⟨next, filled, _, follows⟩ := restores _ split
  exact ⟨_, _, words, saved, written, next, filled, follows⟩

end Cscrypto.Gui
