import Cscrypto.Data.Tokens
import Cscrypto.Gui.KeyRecovery

namespace Cscrypto.Gui

open Cscrypto.Data Cscrypto.Mnemonic

/-! # Which texts are seed phrases

The loop reads 24 tokens of the text and compares each, up to a NUL, with the
dictionary.  It does not ask what follows the last one.
-/

variable {lib : KeyGenLib} {run : KeyGenRun} {en : Dictionary}

theorem word_of_spaces {s : Bytes} (spaces : s.dropWhile isspace = []) :
    IStringStream.word ⟨s, false⟩ = ([], ⟨[], true⟩) := by
  simp [IStringStream.word, spaces]

theorem word_of_token {s : Bytes} (found : s.dropWhile isspace ≠ []) :
    IStringStream.word ⟨s, false⟩ =
      ((s.dropWhile isspace).takeWhile (!isspace ·),
        ⟨(s.dropWhile isspace).dropWhile (!isspace ·), false⟩) := by
  simp [IStringStream.word, found]

/-- The tokens as `c_str` shows them. -/
def shownTokens (text : Bytes) : List CString := (tokens isspace text).map cStr

theorem shownTokens_of_spaces {s : Bytes} (spaces : s.dropWhile isspace = []) :
    shownTokens s = [] := by
  rw [shownTokens, ← tokens_dropWhile, spaces, tokens_nil, List.map_nil]

/-- The text begins with the words, up to NULs in them. -/
structure Begins (en : Dictionary) (text : Bytes) (words : StringArray size) : Prop where
  shown : (shownTokens text).take size = words.strings
  known : ∀ word ∈ words.strings, word ∈ en.strings

/-- One word in front of others. -/
def consWord (word : CString) (rest : StringArray size) : StringArray (size + 1) :=
  ⟨word :: rest.strings, length_cons_strings word rest⟩

theorem exists_consWord (words : StringArray (size + 1)) :
    ∃ (word : CString) (rest : StringArray size), words = consWord word rest := by
  obtain ⟨strings, length⟩ := words
  cases strings with
  | nil => contradiction
  | cons word rest => exact ⟨word, ⟨rest, Nat.succ.inj length⟩, rfl⟩

theorem consWord_inj {word other : CString} {rest others : StringArray size} :
    consWord word rest = consWord other others ↔ word = other ∧ rest = others := by
  cases rest
  cases others
  simp [consWord]

theorem not_begins_of_spaces {s : Bytes} {word : CString} {rest : StringArray size}
    (spaces : s.dropWhile isspace = []) : ¬Begins en s (consWord word rest) := by
  intro begins
  have taken := begins.shown
  rw [shownTokens_of_spaces spaces, List.take_nil] at taken
  contradiction

theorem begins_cons_iff {s : Bytes} {word : CString} {rest : StringArray size}
    (found : s.dropWhile isspace ≠ []) :
    Begins en s (consWord word rest) ↔ cStr (IStringStream.word ⟨s, false⟩).1 = word ∧
      word ∈ en.strings ∧ Begins en (IStringStream.word ⟨s, false⟩).2.rest rest := by
  have first : shownTokens s = cStr (IStringStream.word ⟨s, false⟩).1 ::
      shownTokens (IStringStream.word ⟨s, false⟩).2.rest := by
    rw [word_of_token found, shownTokens, tokens_eq_cons found]
    rfl
  constructor
  · intro begins
    have taken := begins.shown
    rw [first, List.take_succ_cons, consWord, List.cons.injEq] at taken
    exact ⟨taken.1, begins.known _ (.head _), taken.2,
      fun other member => begins.known other (.tail _ member)⟩
  · intro parts
    obtain ⟨same, known, remaining⟩ := parts
    refine ⟨?_, ?_⟩
    · rw [first, List.take_succ_cons, same, remaining.shown, consWord]
    · intro other member
      rcases List.mem_cons.mp member with rfl | later
      · exact known
      · exact remaining.known other later

theorem findWordInDictionary_eq_none {word : CString} (unknown : word ∉ en.strings) :
    findWordInDictionary en word = none := by
  rcases findWord_eq word en.strings 0 none with ⟨k, at_k, _⟩ | ⟨_, same⟩
  · exact absurd (List.mem_of_getElem? at_k) unknown
  · exact same

theorem readWords_unknown {s : Bytes} (size : Nat)
    (unknown : cStr (IStringStream.word ⟨s, false⟩).1 ∉ en.strings) :
    readWords en (size + 1) ⟨s, false⟩ = .ok none := by
  simp only [readWords, Bool.false_eq_true, if_false, findWordInDictionary_eq_none unknown]

theorem readWords_known {s : Bytes} (size : Nat)
    (known : cStr (IStringStream.word ⟨s, false⟩).1 ∈ en.strings) :
    readWords en (size + 1) ⟨s, false⟩ = (do
      let rest ← readWords en size (IStringStream.word ⟨s, false⟩).2
      return rest.map (consWord (cStr (IStringStream.word ⟨s, false⟩).1))) := by
  obtain ⟨index, found⟩ := findWordInDictionary_of_mem known
  simp only [readWords, Bool.false_eq_true, if_false, found, getElem_findWordInDictionary found]
  rfl

/-- The loop reads exactly the words that the text begins with. -/
theorem readWords_iff (plain : ∀ word ∈ en.strings, Plain word) (s : Bytes)
    (words : StringArray size) :
    readWords en size ⟨s, false⟩ = .ok (some words) ↔ Begins en s words := by
  induction size generalizing s with
  | zero =>
      obtain ⟨strings, length⟩ := words
      have empty := List.eq_nil_of_length_eq_zero length
      subst empty
      exact ⟨fun _ => ⟨rfl, fun _ none => absurd none List.not_mem_nil⟩, fun _ => rfl⟩
  | succ size ih =>
      obtain ⟨word, rest, rfl⟩ := exists_consWord words
      by_cases found : s.dropWhile isspace = []
      · have empty : cStr (IStringStream.word ⟨s, false⟩).1 ∉ en.strings := by
          rw [word_of_spaces found]
          exact fun member => (plain _ member).1 rfl
        rw [readWords_unknown _ empty]
        refine ⟨fun read => (by cases read), ?_⟩
        exact fun begins => absurd begins (not_begins_of_spaces found)
      rw [begins_cons_iff found]
      by_cases known : cStr (IStringStream.word ⟨s, false⟩).1 ∈ en.strings
      · have next : (IStringStream.word ⟨s, false⟩).2 =
            ⟨(IStringStream.word ⟨s, false⟩).2.rest, false⟩ := by rw [word_of_token found]
        obtain ⟨others, read⟩ := readWords_ok en size (IStringStream.word ⟨s, false⟩).2
        rw [readWords_known _ known, ← ih, ← next, read, ok_bind, pure_eq_ok, Except.ok.injEq,
          Except.ok.injEq, Option.map_eq_some_iff]
        constructor
        · intro built
          obtain ⟨_, rfl, same⟩ := built
          obtain ⟨rfl, rfl⟩ := consWord_inj.mp same
          exact ⟨rfl, known, rfl⟩
        · intro parts
          obtain ⟨rfl, _, same⟩ := parts
          exact ⟨rest, same, rfl⟩
      · rw [readWords_unknown _ known]
        refine ⟨fun read => (by cases read), ?_⟩
        intro parts
        exact absurd (parts.1 ▸ parts.2.1) known

/-- The tokens of the text are 24 words of the dictionary. -/
structure IsPhrase (en : Dictionary) (text : Bytes) (words : WordList) : Prop where
  spelled : tokens isspace text = words.strings.map CString.bytes
  known : ∀ word ∈ words.strings, word ∈ en.strings

theorem shownTokens_of_spelled {text : Bytes} {words : List CString}
    (spelled : tokens isspace text = words.map CString.bytes) : shownTokens text = words := by
  rw [shownTokens, spelled, List.map_map]
  exact (List.map_congr_left fun word _ => cStr_bytes word).trans (List.map_id words)

theorem IsPhrase.begins {text : Bytes} {words : WordList} (phrase : IsPhrase en text words) :
    Begins en text words where
  shown := by
    rw [shownTokens_of_spelled phrase.spelled, List.take_of_length_le words.size_eq.le]
  known := phrase.known

/-- Exactly 24 tokens without a NUL. -/
def Whole (text : Bytes) : Prop :=
  (tokens isspace text).length = kNumWords ∧ ∀ token ∈ tokens isspace text, 0 ∉ token

theorem IsPhrase.whole {text : Bytes} {words : WordList} (phrase : IsPhrase en text words) :
    Whole text := by
  rw [Whole, phrase.spelled]
  refine ⟨by rw [List.length_map, words.size_eq], ?_⟩
  intro token member
  obtain ⟨word, _, rfl⟩ := List.mem_map.mp member
  exact word.noNul

/-- Words that are written out are the first tokens of the text. -/
theorem tokens_phrase {words : List CString} (plain : ∀ word ∈ words, Plain word) (rest : Bytes) :
    tokens isspace (phrase words ++ rest) =
      words.map CString.bytes ++ tokens isspace rest := by
  induction words with
  | nil => rfl
  | cons word others ih =>
      obtain ⟨nonempty, letters⟩ := plain word (.head _)
      have text : phrase (word :: others) ++ rest = word.bytes ++ 32 :: (phrase others ++ rest) := by
        simp [phrase]
      rw [text, tokens_append_cons _ _ (by decide), tokens_letters nonempty letters,
        ih fun other member => plain other (.tail _ member)]
      rfl

theorem bytes_cStr {token : Bytes} (noNul : 0 ∉ token) : (cStr token).bytes = token :=
  congrArg CString.bytes (cStr_bytes ⟨token, noNul⟩)

theorem Begins.isPhrase {text : Bytes} {words : WordList} (begins : Begins en text words)
    (whole : Whole text) : IsPhrase en text words where
  spelled := by
    have all : shownTokens text = words.strings := by
      rw [← begins.shown, List.take_of_length_le]
      rw [shownTokens, List.length_map, whole.1]
    rw [← all, shownTokens, List.map_map]
    refine ((List.map_congr_left fun token member => ?_).trans (List.map_id _)).symm
    exact bytes_cStr (whole.2 token member)
  known := begins.known

theorem Begins.unique {text : Bytes} {words others : WordList} (begins : Begins en text words)
    (again : Begins en text others) : others = words := by
  have same := again.shown.symm.trans begins.shown
  cases words
  cases others
  cases same
  rfl

/-- A phrase makes its seed current, any other text changes no seed. -/
structure Parsed (lib : KeyGenLib) (text : Bytes) (before after : KeyGenRun) : Prop where
  accepted : ∀ words, IsPhrase lib.en text words →
    after.widget.statusBar = "Seed phrase is correct." ∧
      ∃ messages, wordsToMasterSeed words lib.en false = .ok ⟨after.widget.masterSeed, messages⟩
  refused : (∀ words, ¬IsPhrase lib.en text words) →
    after.widget.statusBar = "Incorrect seed phrase!" ∧
      after.widget.masterSeed = before.widget.masterSeed

def ParsesExactly (lib : KeyGenLib) (text : Bytes) (run : KeyGenRun) : Prop :=
  ∃ next, run.fillMasterSeedFromString lib text = .ok next ∧ Parsed lib text run next

theorem fillMasterSeedFromString_begins (plain : ∀ word ∈ lib.en.strings, Plain word)
    {text : Bytes} {words : WordList} (begins : Begins lib.en text words) :
    ∃ next messages, run.fillMasterSeedFromString lib text = .ok next ∧
      next.widget.statusBar = "Seed phrase is correct." ∧
      wordsToMasterSeed words lib.en false = .ok ⟨next.widget.masterSeed, messages⟩ := by
  have read := (readWords_iff plain text words).mpr begins
  obtain ⟨content, protection, messages, converted⟩ := wordsToMasterSeed_holding words lib.en false
  exact ⟨_, messages, fillMasterSeedFromString_correct read converted, rfl, converted⟩

theorem parsesExactly_of_unread (plain : ∀ word ∈ lib.en.strings, Plain word) {text : Bytes}
    (unread : ¬∃ words : WordList, Begins lib.en text words) : ParsesExactly lib text run := by
  obtain ⟨words, read⟩ := readWords_ok lib.en kNumWords ⟨text, false⟩
  cases words with
  | some words => exact absurd ⟨words, (readWords_iff plain text words).mp read⟩ unread
  | none =>
      have refused : run.fillMasterSeedFromString lib text =
          .ok (run.toStatusBar "Incorrect seed phrase!").disableKeyGen := by
        rw [KeyGenRun.fillMasterSeedFromString, read]
        rfl
      refine ⟨_, refused, ?_, fun _ => ⟨rfl, rfl⟩⟩
      intro words phrase
      exact absurd ⟨words, phrase.begins⟩ unread

/-- When 24 words are read, the seed is replaced, whatever the text is. -/
theorem parsesExactly_iff_whole (plain : ∀ word ∈ lib.en.strings, Plain word) {text : Bytes}
    {words : WordList} (begins : Begins lib.en text words) :
    ParsesExactly lib text run ↔ Whole text := by
  obtain ⟨reached, messages, ran, correct, converted⟩ :=
    @fillMasterSeedFromString_begins lib run plain text words begins
  constructor
  · intro parses
    obtain ⟨next, same, parsed⟩ := parses
    cases ran.symm.trans same
    by_contra partly
    have message := (parsed.refused fun others phrase => partly phrase.whole).1
    exact absurd (correct.symm.trans message) (by decide)
  · intro whole
    have phrase := begins.isPhrase whole
    refine ⟨reached, ran, ?_, fun none => absurd phrase (none words)⟩
    intro others again
    cases begins.unique again.begins
    exact ⟨correct, messages, converted⟩

/-- A text is treated as its grammar says unless it begins with 24 words and
is not over then, or has a NUL behind a word; the text of a seed restores it. -/
theorem seed_phrase_exact_iff (distinct : lib.en.strings.Nodup)
    (plain : ∀ word ∈ lib.en.strings, Plain word) :
    (∀ run text, ParsesExactly lib text run ↔
      ((∃ words : WordList, Begins lib.en text words) → Whole text)) ∧
    ∀ (run : KeyGenRun) content protection, run.widget.masterSeed = .holding content protection →
      ∃ s saved, run.getSeedString lib = .ok (s, saved) ∧ ∀ other : KeyGenRun,
        ∃ next, other.fillMasterSeedFromString lib s = .ok next ∧
          next.widget.statusBar = "Seed phrase is correct." ∧
          next.widget.masterSeed = .holding content .noAccess := by
  refine ⟨?_, ?_⟩
  · intro run text
    by_cases read : ∃ words : WordList, Begins lib.en text words
    · obtain ⟨words, begins⟩ := read
      rw [parsesExactly_iff_whole plain begins]
      exact ⟨fun whole _ => whole, fun condition => condition ⟨words, begins⟩⟩
    · exact ⟨fun _ some => absurd some read, fun _ => parsesExactly_of_unread plain read⟩
  · intro run content protection holds
    obtain ⟨s, saved, written, loads⟩ :=
      fillMasterSeedFromString_getSeedString distinct plain holds
    exact ⟨s, saved, written, fun other => ⟨_, loads other, rfl, rfl⟩⟩

theorem plain_numberedKeys : ∀ word ∈ numberedKeys.en.strings, Plain word := by
  intro word member
  rw [numberedKeys, numberedDictionary] at member
  simp only [List.mem_ofFn] at member
  obtain ⟨j, rfl⟩ := member
  exact plain_numberedWord j

theorem isPhrase_repeatedWord :
    IsPhrase numberedKeys.en (phrase repeatedWord.strings) repeatedWord where
  spelled := by
    have plain : ∀ word ∈ repeatedWord.strings, Plain word := by
      intro word member
      rw [List.eq_of_mem_replicate member]
      exact plain_numberedWord 0
    have split := tokens_phrase plain []
    rwa [List.append_nil, tokens_nil, List.append_nil] at split
  known := by
    intro word member
    rw [List.eq_of_mem_replicate member, numberedKeys, numberedDictionary, List.mem_ofFn]
    exact ⟨0, rfl⟩

theorem seed_phrase_exact_repeatedWord :
    ParsesExactly numberedKeys (phrase repeatedWord.strings) .initial := by
  have distinct : numberedKeys.en.strings.Nodup := by
    rw [numberedKeys]
    exact numberedDictionary_distinct
  have exact := (seed_phrase_exact_iff distinct plain_numberedKeys).1 .initial
  exact (exact _).mpr fun _ => isPhrase_repeatedWord.whole

/-- A word that is not in the dictionary, after 24 that are. -/
theorem long_phrase_accepted :
    ¬ParsesExactly numberedKeys (phrase repeatedWord.strings ++ [97]) .initial := by
  have plain : ∀ word ∈ repeatedWord.strings, Plain word :=
    fun word member => plain_numberedKeys word (isPhrase_repeatedWord.known word member)
  have read := tokens_phrase plain [97]
  have letter : ∀ byte ∈ [(97 : Byte)], isspace byte = false := by
    intro byte member
    rw [List.mem_singleton.mp member]
    decide
  have last : tokens isspace [97] = [[97]] := tokens_letters (List.cons_ne_nil _ _) letter
  rw [last] at read
  have begins : Begins numberedKeys.en (phrase repeatedWord.strings ++ [97]) repeatedWord := by
    refine ⟨?_, isPhrase_repeatedWord.known⟩
    have shown : shownTokens (phrase repeatedWord.strings ++ [97]) =
        repeatedWord.strings ++ [cStr [97]] := by
      rw [shownTokens, read, List.map_append, ← isPhrase_repeatedWord.spelled]
      exact congrArg (· ++ _) (shownTokens_of_spelled isPhrase_repeatedWord.spelled)
    rw [shown, List.take_append_of_le_length repeatedWord.size_eq.ge,
      List.take_of_length_le repeatedWord.size_eq.le]
  intro parses
  have length := ((parsesExactly_iff_whole plain_numberedKeys begins).mp parses).1
  rw [read, List.length_append, List.length_map, repeatedWord.size_eq] at length
  exact Nat.succ_ne_self _ length

end Cscrypto.Gui
