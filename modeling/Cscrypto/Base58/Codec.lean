import Cscrypto.Core.Types
import Cscrypto.Data.Radix

namespace Cscrypto.Base58

open Cscrypto.Data

/-! # Base58

`EncodeBase58` and `DecodeBase58` of the vendored `base58.cpp`.  The buffers of
the source are big-endian vectors walked from their ends; here they are the
little-endian lists of the same digits.
-/

/-- All alphanumeric characters except for "0", "I", "O", and "l". -/
def pszBase58 : Bytes := ascii "123456789ABCDEFGHJKLMNPQRSTUVWXYZabcdefghijkmnopqrstuvwxyz"

def mapBase58 : List Int := [
  -1,-1,-1,-1,-1,-1,-1,-1, -1,-1,-1,-1,-1,-1,-1,-1,
  -1,-1,-1,-1,-1,-1,-1,-1, -1,-1,-1,-1,-1,-1,-1,-1,
  -1,-1,-1,-1,-1,-1,-1,-1, -1,-1,-1,-1,-1,-1,-1,-1,
  -1, 0, 1, 2, 3, 4, 5, 6,  7, 8,-1,-1,-1,-1,-1,-1,
  -1, 9,10,11,12,13,14,15, 16,-1,17,18,19,20,21,-1,
  22,23,24,25,26,27,28,29, 30,31,32,-1,-1,-1,-1,-1,
  -1,33,34,35,36,37,38,39, 40,41,42,43,-1,44,45,46,
  47,48,49,50,51,52,53,54, 55,56,57,-1,-1,-1,-1,-1] ++ List.replicate 128 (-1)

/-- The C locale's `isspace`. -/
def isspace (character : Byte) : Bool :=
  character = 32 ∨ (9 ≤ character ∧ character ≤ 13)

def one : Byte := 49

/-- `str.c_str()` as a C string: what stands before the first NUL. -/
def cStr (text : Bytes) : Bytes := text.takeWhile (· ≠ 0)

def charOf (digit : Nat) : Byte := pszBase58.getD digit 0

/-- The digit for a character; `none` is the table's -1. -/
def digitOf (character : Byte) : Option Nat :=
  match mapBase58.getD character.toNat (-1) with
  | .ofNat digit => some digit
  | .negSucc _ => none

def EncodeBase58 (bytes : Bytes) : Bytes :=
  let zeroes := (bytes.takeWhile (· = 0)).length
  let rest := bytes.dropWhile (· = 0)
  let size := rest.length * 138 / 100 + 1
  let (b58, length) := (rest.map UInt8.toNat).foldl (mulAdd 256 58) (List.replicate size 0, 0)
  let digits := (b58.reverse.drop (size - length)).dropWhile (· = 0)
  List.replicate zeroes one ++ digits.map charOf

/-- The loop of `DecodeBase58`: stops before a space and fails on a character
that is no digit. -/
def decodeLoop : Bytes → List Nat × Nat → Option (Bytes × List Nat × Nat)
  | [], buffer => some ([], buffer)
  | character :: psz, buffer =>
      if isspace character then some (character :: psz, buffer)
      else
        match digitOf character with
        | none => none
        | some carry => decodeLoop psz (mulAdd 58 256 buffer carry)

def DecodeBase58 (text : Bytes) : Option Bytes :=
  let psz := (cStr text).dropWhile isspace
  let zeroes := (psz.takeWhile (· = one)).length
  let psz := psz.dropWhile (· = one)
  let size := psz.length * 733 / 1000 + 1
  match decodeLoop psz (List.replicate size 0, 0) with
  | none => none
  | some (psz, b256, length) =>
      if psz.dropWhile isspace ≠ [] then none
      else
        let bytes := (b256.reverse.drop (size - length)).dropWhile (· = 0)
        some (List.replicate zeroes 0 ++ bytes.map Nat.toUInt8)

theorem digitOf_charOf : ∀ digit : Fin 58, digitOf (charOf digit) = some digit.val := by
  decide +kernel

theorem charOf_not_isspace : ∀ digit : Fin 58, isspace (charOf digit) = false := by
  decide +kernel

theorem charOf_ne_zero : ∀ digit : Fin 58, charOf digit ≠ 0 := by
  decide +kernel

theorem charOf_eq_one_iff : ∀ digit : Fin 58, charOf digit = one ↔ digit.val = 0 := by
  decide +kernel

def bigEndian (base value : Nat) : List Nat := (Nat.digits base value).reverse

theorem bigEndian_lt (large : 1 < base) : ∀ digit ∈ bigEndian base value, digit < base :=
  fun _ member => Nat.digits_lt_base large (List.mem_reverse.mp member)

theorem ofBigEndian_bigEndian (base value : Nat) :
    ofBigEndian base (bigEndian base value) = value := by
  rw [ofBigEndian, bigEndian, List.reverse_reverse, Nat.ofDigits_digits]

theorem ofBigEndian_lt {factor : Nat} (large : 1 < factor) {inputs : List Nat}
    (small : ∀ input ∈ inputs, input < factor) :
    ofBigEndian factor inputs < factor ^ inputs.length := by
  rw [ofBigEndian, ← List.length_reverse]
  exact Nat.ofDigits_lt_base_pow_length large (fun input member =>
    small input (List.mem_reverse.mp member))

def valueOf (bytes : Bytes) : Nat := ofBigEndian 256 (bytes.map UInt8.toNat)

/-- `EncodeBase58` writes a `1` for every leading zero, then the number in
base 58. Its buffer is always large enough. -/
theorem EncodeBase58_eq (bytes : Bytes) :
    EncodeBase58 bytes = List.replicate (bytes.takeWhile (· = 0)).length one ++
      (bigEndian 58 (valueOf (bytes.dropWhile (· = 0)))).map charOf := by
  generalize rest_eq : bytes.dropWhile (· = 0) = rest
  have small : ∀ input ∈ rest.map UInt8.toNat, input < 256 := by
    intro input member
    obtain ⟨byte, _, rfl⟩ := List.mem_map.mp member
    exact byte.toNat_lt
  have fits : valueOf rest < 58 ^ (rest.length * 138 / 100 + 1) := by
    have below := ofBigEndian_lt (by decide) small
    rw [List.length_map] at below
    exact below.trans_le (pow_le_pow_of_ratio (by decide) (by norm_num) (by decide) rest.length)
  have holds := foldl_mulAdd_holds (by decide) (by decide) (rest.map UInt8.toNat) fits
  simp only [EncodeBase58, rest_eq]
  rw [holds.read (by decide)]
  rfl

theorem charOf_digitOf : ∀ code : Fin 256, ∀ digit ∈ digitOf (UInt8.ofNat code),
    digit < 58 ∧ charOf digit = UInt8.ofNat code := by decide +kernel

theorem digitOf_eq_some {character : Byte} {digit : Nat} (found : digitOf character = some digit) :
    digit < 58 ∧ charOf digit = character := by
  have coded : UInt8.ofNat character.toNat = character := UInt8.ofNat_toNat
  have held := charOf_digitOf ⟨character.toNat, character.toNat_lt⟩ digit
  rw [coded] at held
  exact held found

theorem decodeLoop_append {digits : List Nat} (small : ∀ digit ∈ digits, digit < 58) {rest : Bytes}
    (ends : ∀ character ∈ rest.head?, isspace character = true) (buffer : List Nat × Nat) :
    decodeLoop (digits.map charOf ++ rest) buffer =
      some (rest, digits.foldl (mulAdd 58 256) buffer) := by
  induction digits generalizing buffer with
  | nil =>
      cases rest with
      | nil => rfl
      | cons character rest =>
          have space : isspace character = true := ends character rfl
          rw [List.map_nil, List.nil_append, decodeLoop, if_pos space]
          rfl
  | cons digit others ih =>
      have bound : digit < 58 := small digit List.mem_cons_self
      have plain := charOf_not_isspace ⟨digit, bound⟩
      have found := digitOf_charOf ⟨digit, bound⟩
      simp only at plain found
      rw [List.map_cons, List.cons_append, decodeLoop, plain, found]
      exact ih (fun other member => small other (List.mem_cons_of_mem _ member)) _

/-- What the loop read is digits, and what it left begins with a space. -/
theorem decodeLoop_reads {psz rest : Bytes} {buffer buffer' : List Nat × Nat}
    (ran : decodeLoop psz buffer = some (rest, buffer')) :
    ∃ digits : List Nat, (∀ digit ∈ digits, digit < 58) ∧ psz = digits.map charOf ++ rest := by
  induction psz generalizing buffer with
  | nil =>
      cases ran
      exact ⟨[], by simp, rfl⟩
  | cons character psz ih =>
      rw [decodeLoop] at ran
      split at ran
      · cases ran
        exact ⟨[], by simp, rfl⟩
      split at ran
      · contradiction
      · rename_i digit found
        obtain ⟨bound, coded⟩ := digitOf_eq_some found
        obtain ⟨digits, small, rfl⟩ := ih ran
        refine ⟨digit :: digits, ?_, by rw [List.map_cons, coded, List.cons_append]⟩
        intro other member
        rcases List.mem_cons.mp member with rfl | later
        · exact bound
        · exact small other later

theorem replicate_length_takeWhile (byte : Byte) (bytes : Bytes) :
    List.replicate (bytes.takeWhile (· = byte)).length byte = bytes.takeWhile (· = byte) := by
  refine (List.eq_replicate_of_mem ?_).symm
  intro other member
  simpa using List.mem_takeWhile_imp member

theorem EncodeBase58_forall {predicate : Byte → Prop} (first : predicate one)
    (others : ∀ digit : Fin 58, predicate (charOf digit)) (bytes : Bytes) :
    ∀ character ∈ EncodeBase58 bytes, predicate character := by
  rw [EncodeBase58_eq]
  intro character found
  rcases List.mem_append.mp found with leading | coded
  · rw [List.eq_of_mem_replicate leading]
    exact first
  · obtain ⟨digit, member, rfl⟩ := List.mem_map.mp coded
    exact others ⟨digit, bigEndian_lt (by decide) digit member⟩

theorem bigEndian_head_ne_zero {base value : Nat} {digit : Nat} {rest : List Nat}
    (same : bigEndian base value = digit :: rest) : digit ≠ 0 := by
  intro zero
  have digits : Nat.digits base value = rest.reverse ++ [digit] := by
    rw [← List.reverse_cons, ← same, bigEndian, List.reverse_reverse]
  have positive : value ≠ 0 := by
    intro equal
    subst equal
    simp at digits
  have last := Nat.getLast_digit_ne_zero base positive
  simp only [digits, List.getLast_append_singleton] at last
  exact last zero

/-- Digits in base 58 without a leading zero. -/
structure Numeral (digits : List Nat) : Prop where
  small : ∀ digit ∈ digits, digit < 58
  leads : ∀ digit ∈ digits.head?, digit ≠ 0

theorem numeral_bigEndian (value : Nat) : Numeral (bigEndian 58 value) where
  small := bigEndian_lt (by decide)
  leads := by
    intro digit first
    obtain ⟨rest, same⟩ := List.head?_eq_some_iff.mp first
    exact bigEndian_head_ne_zero same

theorem Numeral.bigEndian_ofBigEndian {digits : List Nat} (numeral : Numeral digits) :
    bigEndian 58 (ofBigEndian 58 digits) = digits := by
  rw [bigEndian, ← dropWhile_zero_eq_digits (by decide) numeral.small]
  cases digits with
  | nil => rfl
  | cons digit rest =>
      have other : digit ≠ 0 := numeral.leads digit rfl
      rw [List.dropWhile_cons_of_neg (by simpa using other)]

theorem dropWhile_one {digits : List Nat} (numeral : Numeral digits) (zeroes : Nat) {rest : Bytes}
    (ends : ∀ character ∈ rest.head?, isspace character = true) :
    (List.replicate zeroes one ++ digits.map charOf ++ rest).takeWhile (· = one) =
        List.replicate zeroes one ∧
      (List.replicate zeroes one ++ digits.map charOf ++ rest).dropWhile (· = one) =
        digits.map charOf ++ rest := by
  have leading : ∀ character ∈ List.replicate zeroes one, decide (character = one) = true := by
    intro character member
    rw [List.eq_of_mem_replicate member]
    decide
  rw [List.append_assoc, List.takeWhile_append_of_pos leading, List.dropWhile_append_of_pos leading]
  rcases digits with _ | ⟨digit, others⟩
  · rcases rest with _ | ⟨character, rest⟩
    · simp
    · have other : character ≠ one := by
        intro equal
        subst equal
        have space := ends one rfl
        contradiction
      simp [other]
  · have bound : digit < 58 := numeral.small digit List.mem_cons_self
    have other : charOf digit ≠ one := fun same =>
      numeral.leads digit rfl ((charOf_eq_one_iff ⟨digit, bound⟩).mp same)
    simp [other]

theorem dropWhile_isspace {before after : Bytes} {digits : List Nat} (numeral : Numeral digits)
    (zeroes : Nat) (spaceBefore : ∀ character ∈ before, isspace character = true)
    (spaceAfter : ∀ character ∈ after, isspace character = true) :
    ∃ rest : Bytes, (∀ character ∈ rest, isspace character = true) ∧
      (before ++ (List.replicate zeroes one ++ digits.map charOf ++ after)).dropWhile isspace =
        List.replicate zeroes one ++ digits.map charOf ++ rest := by
  have plain : ∀ character ∈ List.replicate zeroes one ++ digits.map charOf,
      isspace character = false := by
    intro character member
    rcases List.mem_append.mp member with leading | coded
    · rw [List.eq_of_mem_replicate leading]
      decide
    · obtain ⟨digit, inside, rfl⟩ := List.mem_map.mp coded
      exact charOf_not_isspace ⟨digit, numeral.small digit inside⟩
  rw [List.dropWhile_append_of_pos spaceBefore]
  generalize List.replicate zeroes one ++ digits.map charOf = number at plain ⊢
  cases number with
  | nil =>
      -- a text of spaces only: all of them are skipped at once
      exact ⟨[], by simp, List.dropWhile_eq_nil_iff.mpr spaceAfter⟩
  | cons character others =>
      refine ⟨after, spaceAfter, ?_⟩
      rw [List.cons_append, List.dropWhile_cons_of_neg (by rw [plain character (.head _)]; decide)]

theorem bigEndian_valueOf (bytes : Bytes) :
    (bigEndian 256 (valueOf (bytes.dropWhile (· = 0)))).map Nat.toUInt8 =
      bytes.dropWhile (· = 0) := by
  have small : ∀ digit ∈ (bytes.dropWhile (· = 0)).map UInt8.toNat, digit < 256 := by
    intro digit member
    obtain ⟨byte, _, rfl⟩ := List.mem_map.mp member
    exact byte.toNat_lt
  have zero : (fun byte : Byte => decide (byte.toNat = 0)) = fun byte => decide (byte = 0) := by
    funext byte
    exact decide_eq_decide.mpr (UInt8.toNat_inj (b := 0))
  have digits := dropWhile_zero_eq_digits (by decide) small
  rw [List.dropWhile_map] at digits
  simp only [Function.comp_def, zero, List.dropWhile_idempotent _ _] at digits
  rw [valueOf, bigEndian, ← digits, List.map_map]
  simp [Function.comp_def]

/-- The bytes of a text: a zero for each leading one, then the number. -/
def bytesOf (zeroes value : Nat) : Bytes :=
  List.replicate zeroes 0 ++ (bigEndian 256 value).map Nat.toUInt8

theorem bytesOf_valueOf (bytes : Bytes) :
    bytesOf (bytes.takeWhile (· = 0)).length (valueOf (bytes.dropWhile (· = 0))) = bytes := by
  rw [bytesOf, bigEndian_valueOf, replicate_length_takeWhile, List.takeWhile_append_dropWhile]

theorem bytesOf_cut (zeroes value : Nat) :
    (bytesOf zeroes value).takeWhile (· = 0) = List.replicate zeroes 0 ∧
      (bytesOf zeroes value).dropWhile (· = 0) = (bigEndian 256 value).map Nat.toUInt8 := by
  have leading : ∀ byte ∈ List.replicate zeroes (0 : Byte), decide (byte = 0) = true := by
    intro byte member
    rw [List.eq_of_mem_replicate member]
    decide
  rw [bytesOf, List.takeWhile_append_of_pos leading, List.dropWhile_append_of_pos leading]
  rcases digits : bigEndian 256 value with _ | ⟨digit, rest⟩
  · simp
  · have bound : digit < 256 := bigEndian_lt (by decide) digit (by rw [digits]; simp)
    have other : digit.toUInt8 ≠ 0 := by
      intro zero
      have same := congrArg UInt8.toNat zero
      rw [Nat.toUInt8_eq, UInt8.toNat_ofNat_of_lt' bound] at same
      exact bigEndian_head_ne_zero digits same
    simp [other]

theorem valueOf_bigEndian (value : Nat) :
    valueOf ((bigEndian 256 value).map Nat.toUInt8) = value := by
  have same : ((bigEndian 256 value).map Nat.toUInt8).map UInt8.toNat = bigEndian 256 value := by
    rw [List.map_map]
    refine (List.map_congr_left ?_).trans (List.map_id _)
    intro digit member
    exact UInt8.toNat_ofNat_of_lt' (bigEndian_lt (by decide) digit member)
  rw [valueOf, same, ofBigEndian_bigEndian]

theorem EncodeBase58_bytesOf (zeroes value : Nat) :
    EncodeBase58 (bytesOf zeroes value) =
      List.replicate zeroes one ++ (bigEndian 58 value).map charOf := by
  obtain ⟨zeros, number⟩ := bytesOf_cut zeroes value
  rw [EncodeBase58_eq, zeros, number, valueOf_bigEndian, List.length_replicate]

/-- The buffer of the decoder has room for the number that its text stands for. -/
theorem decoded_fits (length : Nat) : 58 ^ length ≤ 256 ^ (length * 733 / 1000 + 1) := by
  have ratio : 58 ^ length ≤ 256 ^ (length * 52 / 71 + 1) :=
    pow_le_pow_of_ratio (by decide) (by norm_num) (by decide) _
  exact ratio.trans (Nat.pow_le_pow_right (by decide) (by omega))

/-- The loops of `DecodeBase58` on a number between spaces. The buffer is
large enough also when spaces follow. -/
theorem DecodeBase58_of_cStr {text before after : Bytes} {digits : List Nat} {zeroes : Nat}
    (numeral : Numeral digits) (spaceBefore : ∀ character ∈ before, isspace character = true)
    (spaceAfter : ∀ character ∈ after, isspace character = true)
    (ended : cStr text = before ++ (List.replicate zeroes one ++ digits.map charOf ++ after)) :
    DecodeBase58 text = some (bytesOf zeroes (ofBigEndian 58 digits)) := by
  obtain ⟨rest, space, skipped⟩ := dropWhile_isspace numeral zeroes spaceBefore spaceAfter
  rw [← ended] at skipped
  have ends : ∀ character ∈ rest.head?, isspace character = true :=
    fun character first => space character (List.mem_of_mem_head? first)
  obtain ⟨ones, number⟩ := dropWhile_one numeral zeroes ends
  have blank : rest.dropWhile isspace = [] := List.dropWhile_eq_nil_iff.mpr space
  have fits : ofBigEndian 58 digits <
      256 ^ ((digits.map charOf ++ rest).length * 733 / 1000 + 1) := by
    have below := ofBigEndian_lt (by decide) numeral.small
    have room := decoded_fits digits.length
    refine below.trans_le (room.trans (Nat.pow_le_pow_right (by decide) ?_))
    rw [List.length_append, List.length_map]
    omega
  have holds := foldl_mulAdd_holds (by decide) (by decide) digits fits
  rw [DecodeBase58, skipped, ones, number, decodeLoop_append numeral.small ends]
  simp only [blank, ne_eq, not_true_eq_false, if_false, List.length_replicate]
  rw [holds.read (by decide)]
  rfl

/-- The texts that the decoder accepts for some bytes: their encoding between
spaces, and anything after a NUL. -/
theorem DecodeBase58_eq_some_iff {text bytes : Bytes} :
    DecodeBase58 text = some bytes ↔ ∃ before after : Bytes,
      (∀ character ∈ before, isspace character = true) ∧
        (∀ character ∈ after, isspace character = true) ∧
          cStr text = before ++ (EncodeBase58 bytes ++ after) := by
  constructor
  · intro decoded
    generalize psz_eq : ((cStr text).dropWhile isspace).dropWhile (· = one) = psz
    have decoded' := decoded
    simp only [DecodeBase58, psz_eq] at decoded'
    split at decoded'
    · contradiction
    rename_i rest b256 length ran
    split at decoded'
    · contradiction
    rename_i blank
    obtain ⟨digits, small, cut⟩ := decodeLoop_reads ran
    have spaceAfter : ∀ character ∈ rest, isspace character = true :=
      List.dropWhile_eq_nil_iff.mp (not_not.mp blank)
    have spaceBefore : ∀ character ∈ (cStr text).takeWhile isspace, isspace character = true :=
      fun character member => List.mem_takeWhile_imp member
    have numeral : Numeral digits := by
      refine ⟨small, ?_⟩
      intro digit first same
      subst same
      have leads := List.head?_dropWhile_not (fun character : Byte => decide (character = one))
        ((cStr text).dropWhile isspace)
      obtain ⟨others, rfl⟩ := List.head?_eq_some_iff.mp first
      rw [psz_eq, cut] at leads
      exact absurd (show decide (charOf 0 = one) = false from leads) (by decide)
    have ended : cStr text = (cStr text).takeWhile isspace ++
        (List.replicate (((cStr text).dropWhile isspace).takeWhile (· = one)).length one ++
          digits.map charOf ++ rest) := by
      rw [replicate_length_takeWhile, List.append_assoc, ← cut, ← psz_eq,
        List.takeWhile_append_dropWhile, List.takeWhile_append_dropWhile]
    have read := DecodeBase58_of_cStr numeral spaceBefore spaceAfter ended
    rw [decoded] at read
    cases read
    rw [EncodeBase58_bytesOf, numeral.bigEndian_ofBigEndian]
    exact ⟨_, rest, spaceBefore, spaceAfter, ended⟩
  · intro given
    obtain ⟨before, after, spaceBefore, spaceAfter, ended⟩ := given
    rw [← bytesOf_valueOf bytes, EncodeBase58_bytesOf] at ended
    rw [DecodeBase58_of_cStr (numeral_bigEndian _) spaceBefore spaceAfter ended,
      ofBigEndian_bigEndian, bytesOf_valueOf]

/-- Decoding an encoded text returns the bytes, whatever their number. -/
theorem DecodeBase58_EncodeBase58 (bytes : Bytes) :
    DecodeBase58 (EncodeBase58 bytes) = some bytes := by
  have ended : cStr (EncodeBase58 bytes) = EncodeBase58 bytes := by
    rw [cStr, List.takeWhile_eq_self_iff]
    exact EncodeBase58_forall (by decide) (fun digit => by simpa using charOf_ne_zero digit) bytes
  exact DecodeBase58_eq_some_iff.mpr ⟨[], [], by simp, by simp, by rw [ended]; simp⟩

theorem EncodeBase58_injective {bytes other : Bytes}
    (same : EncodeBase58 bytes = EncodeBase58 other) : bytes = other := by
  have decoded := congrArg DecodeBase58 same
  rw [DecodeBase58_EncodeBase58, DecodeBase58_EncodeBase58] at decoded
  exact Option.some.inj decoded

/-- A text without white space and NUL. -/
def Plain (text : Bytes) : Prop := ∀ character ∈ text, isspace character = false ∧ character ≠ 0

instance (text : Bytes) : Decidable (Plain text) :=
  inferInstanceAs (Decidable (∀ character ∈ text, isspace character = false ∧ character ≠ 0))

theorem EncodeBase58_plain (bytes : Bytes) : Plain (EncodeBase58 bytes) :=
  EncodeBase58_forall (by decide)
    (fun digit => ⟨charOf_not_isspace digit, charOf_ne_zero digit⟩) bytes

/-- An accepted text is the encoding of what it decodes to exactly if it is plain. -/
theorem EncodeBase58_eq_iff_plain {text bytes : Bytes} (decoded : DecodeBase58 text = some bytes) :
    EncodeBase58 bytes = text ↔ Plain text := by
  constructor
  · intro same
    rw [← same]
    exact EncodeBase58_plain bytes
  · intro plain
    obtain ⟨before, after, spaceBefore, spaceAfter, ended⟩ := DecodeBase58_eq_some_iff.mp decoded
    have whole : cStr text = text := by
      rw [cStr, List.takeWhile_eq_self_iff]
      intro character member
      simpa using (plain character member).2
    rw [whole] at ended
    have noneBefore : before = [] := by
      apply List.eq_nil_iff_forall_not_mem.mpr
      intro character member
      have plainly := (plain character (by rw [ended]; simp [member])).1
      rw [spaceBefore character member] at plainly
      contradiction
    have noneAfter : after = [] := by
      apply List.eq_nil_iff_forall_not_mem.mpr
      intro character member
      have plainly := (plain character (by rw [ended]; simp [member])).1
      rw [spaceAfter character member] at plainly
      contradiction
    rw [ended, noneBefore, noneAfter, List.nil_append, List.append_nil]

end Cscrypto.Base58
