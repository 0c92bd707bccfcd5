import Cscrypto.Base58.Codec
import Cscrypto.Data.Run

namespace Cscrypto.Base58.Machine

open Cscrypto.Data

/-! # Base58 on bytes

The loops of `base58.cpp` as they run: the digits are bytes of a vector, the
carry is an `int`, the indices of the decoder are too, and after each pass
`assert(carry == 0)` is checked.  On texts of at most `INT_MAX` characters nothing
overflows, nothing is cut off, and no assertion fails.  The one thing that is not
defined is `isspace` on a negative `char`.
-/

/-- How a run can go wrong: a number does not fit its type, a character is no
argument of `isspace`, or an assertion fails. -/
inductive Failure where
  | overflow
  | argument
  | assertion

/-- The greatest `int`, `ptrdiff_t` and `size_t`. -/
def intMax : Nat := 2 ^ 31 - 1

def ptrdiffMax : Nat := 2 ^ 63 - 1

def sizeMax : Nat := 2 ^ 64 - 1

/-- The inner loop on the reversed vector. The carry is an `int`, and the index
goes up to the limit of its own type. -/
def carryPass (factor base limit length : Nat) : List Byte → (carry i : Nat) →
    Except Failure (List Byte × Nat × Nat)
  | [], carry, i => .ok ([], carry, i)
  | digit :: rest, carry, i =>
      if carry ≠ 0 ∨ i < length then
        let carry := carry + factor * digit.toNat
        if intMax < carry ∨ limit < i + 1 then .error .overflow
        else
          match carryPass factor base limit length rest (carry / base) (i + 1) with
          | .error failure => .error failure
          | .ok (rest, left, i) => .ok ((carry % base).toUInt8 :: rest, left, i)
      else .ok (digit :: rest, carry, i)

def mulAdd (factor base limit : Nat) (buffer : List Byte × Nat) (input : Nat) :
    Except Failure (List Byte × Nat) :=
  match carryPass factor base limit buffer.2 buffer.1 input 0 with
  | .error failure => .error failure
  | .ok (digits, carry, length) => if carry = 0 then .ok (digits, length) else .error .assertion

/-- The size is computed as a `ptrdiff_t`. -/
def EncodeBase58 (bytes : Bytes) : Except Failure Bytes :=
  let zeroes := (bytes.takeWhile (· = 0)).length
  let rest := bytes.dropWhile (· = 0)
  if ptrdiffMax < rest.length * 138 then .error .overflow
  else
    let size := rest.length * 138 / 100 + 1
    match (rest.map UInt8.toNat).foldlM (mulAdd 256 58 sizeMax) (List.replicate size 0, 0) with
    | .error failure => .error failure
    | .ok (b58, length) =>
        let digits := (b58.reverse.drop (size - length)).dropWhile (· = 0)
        .ok (List.replicate zeroes one ++ digits.map fun digit => charOf digit.toNat)

/-- As a signed `char` the byte is negative and not `EOF`. -/
def Negative (character : Byte) : Prop := 128 ≤ character ∧ character ≠ 255

instance (character : Byte) : Decidable (Negative character) :=
  inferInstanceAs (Decidable (_ ∧ _))

/-- `isspace(*psz)` -/
def isspaceOf (character : Byte) : Except Failure Bool :=
  if Negative character then .error .argument else .ok (isspace character)

def skipSpaces : Bytes → Except Failure Bytes
  | [] => .ok []
  | character :: psz =>
      match isspaceOf character with
      | .error failure => .error failure
      | .ok true => skipSpaces psz
      | .ok false => .ok (character :: psz)

/-- `return false` is `none`. The digits before a wrong character are added to
the buffer. -/
def decodeLoop : Bytes → List Byte × Nat → Except Failure (Option (Bytes × List Byte × Nat))
  | [], buffer => .ok (some ([], buffer))
  | character :: psz, buffer =>
      match isspaceOf character with
      | .error failure => .error failure
      | .ok true => .ok (some (character :: psz, buffer))
      | .ok false =>
        match digitOf character with
        | none => .ok none
        | some carry =>
            match mulAdd 58 256 intMax buffer carry with
            | .error failure => .error failure
            | .ok buffer => decodeLoop psz buffer

/-- The size is computed as a `size_t`, which wraps around. -/
def DecodeBase58 (text : Bytes) : Except Failure (Option Bytes) :=
  match skipSpaces (cStr text) with
  | .error failure => .error failure
  | .ok psz =>
    let zeroes := (psz.takeWhile (· = one)).length
    let psz := psz.dropWhile (· = one)
    let size := psz.length * 733 % (sizeMax + 1) / 1000 + 1
    match decodeLoop psz (List.replicate size 0, 0) with
    | .error failure => .error failure
    | .ok none => .ok none
    | .ok (some (psz, b256, length)) =>
        match skipSpaces psz with
        | .error failure => .error failure
        | .ok psz =>
          if psz ≠ [] then .ok none
          else
            let bytes := (b256.reverse.drop (size - length)).dropWhile (· = 0)
            .ok (some (List.replicate zeroes 0 ++ bytes))

/-- The numbers in a buffer of bytes. -/
def numbers (buffer : List Byte × Nat) : List Nat × Nat := (buffer.1.map UInt8.toNat, buffer.2)

/-- Digits of the base fit bytes, and a digit times the factor with a carry
fits an `int`. -/
structure Fits (factor base : Nat) : Prop where
  positive : 0 < base
  byte : base ≤ 256
  int : factor * base ≤ intMax

theorem carryPass_eq {factor base limit : Nat} (fits : Fits factor base) (length : Nat)
    {digits : List Byte} (small : ∀ digit ∈ digits, digit.toNat < base) {carry : Nat}
    (below : carry < factor) (i : Nat) (indices : i + digits.length ≤ limit) :
    ∃ digits' carry' i',
      carryPass factor base limit length digits carry i = .ok (digits', carry', i') ∧
      Data.carryPass factor base length (digits.map UInt8.toNat) carry i =
        (digits'.map UInt8.toNat, carry', i') := by
  induction digits generalizing carry i with
  | nil => exact ⟨[], carry, i, rfl, rfl⟩
  | cons digit rest ih =>
      by_cases continues : carry ≠ 0 ∨ i < length
      · have total : carry + factor * digit.toNat < factor * base := by
          have digit_small := small digit List.mem_cons_self
          have room := Nat.mul_le_mul_left factor (Nat.succ_le_of_lt digit_small)
          rw [Nat.mul_succ] at room
          omega
        rw [List.length_cons] at indices
        have inside : ¬(intMax < carry + factor * digit.toNat ∨ limit < i + 1) := by
          have int := fits.int
          omega
        have next : (carry + factor * digit.toNat) / base < factor :=
          Nat.div_lt_of_lt_mul (by rwa [Nat.mul_comm base])
        have kept : ((carry + factor * digit.toNat) % base).toUInt8.toNat =
            (carry + factor * digit.toNat) % base :=
          UInt8.toNat_ofNat_of_lt' ((Nat.mod_lt _ fits.positive).trans_le fits.byte)
        obtain ⟨rest', carry', i', ran, same⟩ :=
          ih (fun other member => small other (List.mem_cons_of_mem _ member)) next (i + 1)
            (by omega)
        refine ⟨((carry + factor * digit.toNat) % base).toUInt8 :: rest', carry', i', ?_, ?_⟩
        · simp only [carryPass, if_pos continues, if_neg inside, ran]
        · simp only [List.map_cons, Data.carryPass, if_pos continues, same, kept]
      · exact ⟨digit :: rest, carry, i, by simp only [carryPass, if_neg continues],
          by simp only [List.map_cons, Data.carryPass, if_neg continues]⟩

/-- A pass adds its digit when the number still fits the buffer. -/
theorem mulAdd_eq {factor base limit size value : Nat} (fits : Fits factor base)
    {buffer : List Byte × Nat} (holds : Holds base size value (numbers buffer)) {input : Nat}
    (below : input < factor) (room : value * factor + input < base ^ size)
    (indices : size ≤ limit) :
    ∃ next, mulAdd factor base limit buffer input = .ok next ∧
      numbers next = Data.mulAdd factor base (numbers buffer) input ∧
      Holds base size (value * factor + input) (numbers next) := by
  have small : ∀ digit ∈ buffer.1, digit.toNat < base := fun digit member =>
    holds.used.small _ (List.mem_map_of_mem member)
  have length : buffer.1.length = size := (List.length_map _).symm.trans holds.size_eq
  obtain ⟨digits, carry, length, ran, same⟩ :=
    @carryPass_eq _ _ limit fits buffer.2 _ small _ below 0 (by omega)
  obtain ⟨digits', length', added, after⟩ := carryPass_holds fits.positive holds room
  have exact : (digits.map UInt8.toNat, carry, length) = (digits', 0, length') :=
    same.symm.trans added
  cases exact
  refine ⟨(digits, length), ?_, ?_, after⟩
  · simp only [mulAdd, ran, if_true]
  · rw [Data.mulAdd, added, numbers]

theorem numbers_zero (size : Nat) :
    numbers (List.replicate size 0, 0) = (List.replicate size 0, 0) := by
  rw [numbers, List.map_replicate]
  rfl

theorem foldlM_mulAdd {factor base limit size : Nat} (fits : Fits factor base)
    (positive : 0 < factor) (inputs : List Nat) (below : ∀ input ∈ inputs, input < factor)
    (room : ofBigEndian factor inputs < base ^ size) (indices : size ≤ limit) :
    ∃ buffer, inputs.foldlM (mulAdd factor base limit) (List.replicate size 0, 0) = .ok buffer ∧
      numbers buffer = inputs.foldl (Data.mulAdd factor base) (List.replicate size 0, 0) := by
  induction inputs using List.reverseRecOn with
  | nil => exact ⟨_, rfl, numbers_zero size⟩
  | append_singleton inputs input ih =>
      have earlier : ofBigEndian factor inputs < base ^ size := by
        rw [ofBigEndian_append_singleton] at room
        have smaller := Nat.le_mul_of_pos_right (ofBigEndian factor inputs) positive
        omega
      obtain ⟨buffer, ran, same⟩ :=
        ih (fun other member => below other (List.mem_append_left _ member)) earlier
      have holds := foldl_mulAdd_holds positive fits.positive inputs earlier
      rw [← same] at holds
      rw [ofBigEndian_append_singleton] at room
      obtain ⟨next, added, numbered, _⟩ :=
        mulAdd_eq fits holds (below input (List.mem_append_right _ List.mem_cons_self)) room
          indices
      refine ⟨next, foldlM_concat_ok.mpr ⟨buffer, ran, added⟩, ?_⟩
      rw [numbered, same, List.foldl_append]
      rfl

theorem dropWhile_numbers (digits : List Byte) :
    (digits.map UInt8.toNat).dropWhile (· = 0) =
      (digits.dropWhile (· = 0)).map UInt8.toNat := by
  have zero : (fun byte : Byte => decide (byte.toNat = 0)) = fun byte => decide (byte = 0) := by
    funext byte
    exact decide_eq_decide.mpr (UInt8.toNat_inj (b := 0))
  rw [List.dropWhile_map]
  simp only [Function.comp_def, zero]

/-- What is read of a buffer at the end. -/
theorem read_numbers (buffer : List Byte × Nat) (size : Nat) :
    ((numbers buffer).1.reverse.drop (size - (numbers buffer).2)).dropWhile (· = 0) =
      ((buffer.1.reverse.drop (size - buffer.2)).dropWhile (· = 0)).map UInt8.toNat := by
  rw [← dropWhile_numbers, numbers, ← List.map_reverse, ← List.map_drop]

theorem EncodeBase58_eq {bytes : Bytes} (short : bytes.length * 138 ≤ ptrdiffMax) :
    EncodeBase58 bytes = .ok (Base58.EncodeBase58 bytes) := by
  have below : ∀ input ∈ (bytes.dropWhile (· = 0)).map UInt8.toNat, input < 256 := by
    intro input member
    obtain ⟨byte, _, rfl⟩ := List.mem_map.mp member
    exact byte.toNat_lt
  have room : ofBigEndian 256 ((bytes.dropWhile (· = 0)).map UInt8.toNat) <
      58 ^ ((bytes.dropWhile (· = 0)).length * 138 / 100 + 1) := by
    have small := ofBigEndian_lt (by decide) below
    rw [List.length_map] at small
    exact small.trans_le (pow_le_pow_of_ratio (by decide) (by norm_num) (by decide) _)
  have length : (bytes.dropWhile (· = 0)).length ≤ bytes.length :=
    (List.dropWhile_suffix _).length_le
  have inside : ¬ptrdiffMax < (bytes.dropWhile (· = 0)).length * 138 := by omega
  have indices : (bytes.dropWhile (· = 0)).length * 138 / 100 + 1 ≤ sizeMax := by
    unfold ptrdiffMax sizeMax at *
    omega
  obtain ⟨buffer, ran, same⟩ :=
    foldlM_mulAdd ⟨by decide, by decide, by decide⟩ (by decide) _ below room indices
  have read := read_numbers buffer ((bytes.dropWhile (· = 0)).length * 138 / 100 + 1)
  simp only [EncodeBase58, if_neg inside, ran, Base58.EncodeBase58, ← same, read, List.map_map,
    Function.comp_def]

/-- A run comes to a value, unless it meets a negative character of the text. -/
def Agrees {Value : Type} (psz : Bytes) (ran : Except Failure Value) (value : Value) : Prop :=
  ran = .ok value ∨ (ran = .error .argument ∧ ∃ character ∈ psz, Negative character)

theorem Agrees.of_cons {Value : Type} {character : Byte} {psz : Bytes} {ran : Except Failure Value}
    {value : Value} (agrees : Agrees psz ran value) : Agrees (character :: psz) ran value :=
  agrees.imp_right fun given =>
    ⟨given.1, given.2.imp fun _ found => ⟨List.mem_cons_of_mem _ found.1, found.2⟩⟩

theorem Agrees.of_suffix {Value : Type} {psz rest : Bytes} (suffix : rest <:+ psz)
    {ran : Except Failure Value} {value : Value} (agrees : Agrees rest ran value) :
    Agrees psz ran value :=
  agrees.imp_right fun given =>
    ⟨given.1, given.2.imp fun _ found => ⟨suffix.subset found.1, found.2⟩⟩

theorem skipSpaces_agrees (psz : Bytes) :
    Agrees psz (skipSpaces psz) (psz.dropWhile isspace) := by
  induction psz with
  | nil => exact .inl rfl
  | cons character psz ih =>
      by_cases negative : Negative character
      · refine .inr ⟨?_, character, List.mem_cons_self, negative⟩
        simp only [skipSpaces, isspaceOf, if_pos negative]
      · cases space : isspace character with
        | true =>
            simp only [skipSpaces, isspaceOf, if_neg negative, space, List.dropWhile_cons, if_true]
            exact ih.of_cons
        | false =>
            refine .inl ?_
            simp only [skipSpaces, isspaceOf, if_neg negative, space, List.dropWhile_cons,
              Bool.false_eq_true, if_false]

/-- The loop on a text of which a part is in the buffer already. The buffer is
large enough for all that is left, also before a wrong character. -/
theorem decodeLoop_agrees {size total value : Nat} {psz : Bytes} {buffer : List Byte × Nat}
    (holds : Holds 256 size value (numbers buffer)) {read : Nat} (small : value < 58 ^ read)
    (left : read + psz.length ≤ total) (room : 58 ^ total ≤ 256 ^ size) (indices : size ≤ intMax) :
    Agrees psz
      ((decodeLoop psz buffer).map (Option.map fun result => (result.1, numbers result.2)))
      (Base58.decodeLoop psz (numbers buffer)) := by
  induction psz generalizing buffer value read with
  | nil => exact .inl rfl
  | cons character psz ih =>
      by_cases negative : Negative character
      · refine .inr ⟨?_, character, List.mem_cons_self, negative⟩
        simp only [decodeLoop, isspaceOf, if_pos negative]
        rfl
      cases space : isspace character with
      | true =>
          simp only [decodeLoop, isspaceOf, if_neg negative, space, if_true, Base58.decodeLoop]
          exact .inl rfl
      | false =>
          cases found : digitOf character with
          | none =>
              simp only [decodeLoop, isspaceOf, if_neg negative, space, Bool.false_eq_true,
                if_false, found, Base58.decodeLoop]
              exact .inl rfl
          | some digit =>
              have bound := (digitOf_eq_some found).1
              have grown : value * 58 + digit < 58 ^ (read + 1) := by
                rw [Nat.pow_succ]
                omega
              have less : read + 1 ≤ total := by
                rw [List.length_cons] at left
                omega
              have fits := grown.trans_le ((Nat.pow_le_pow_right (by decide) less).trans room)
              obtain ⟨next, added, same, after⟩ :=
                mulAdd_eq ⟨by decide, by decide, by decide⟩ holds bound fits indices
              have rest := ih after grown (by rw [List.length_cons] at left; omega)
              simp only [decodeLoop, isspaceOf, if_neg negative, space, Bool.false_eq_true,
                if_false, found, added, Base58.decodeLoop]
              rw [← same]
              exact rest.of_cons

theorem decodeLoop_suffix {psz rest : Bytes} {buffer buffer' : List Byte × Nat}
    (ran : decodeLoop psz buffer = .ok (some (rest, buffer'))) : rest <:+ psz := by
  induction psz generalizing buffer with
  | nil =>
      cases ran
      exact List.suffix_refl _
  | cons character psz ih =>
      rw [decodeLoop] at ran
      split at ran
      · contradiction
      · cases ran
        exact List.suffix_refl _
      split at ran
      · cases ran
      split at ran
      · contradiction
      · exact (ih ran).trans (List.suffix_cons _ _)

theorem DecodeBase58_agrees {text : Bytes} (short : (cStr text).length ≤ intMax) :
    Agrees (cStr text) (DecodeBase58 text) (Base58.DecodeBase58 text) := by
  rcases skipSpaces_agrees (cStr text) with skipped | ⟨failed, negative⟩
  swap
  · exact .inr ⟨by simp only [DecodeBase58, failed], negative⟩
  generalize psz_eq : ((cStr text).dropWhile isspace).dropWhile (· = one) = psz
  have suffix : psz <:+ cStr text := by
    rw [← psz_eq]
    exact (List.dropWhile_suffix _).trans (List.dropWhile_suffix _)
  have length := suffix.length_le
  have wraps : psz.length * 733 % (sizeMax + 1) = psz.length * 733 := by
    refine Nat.mod_eq_of_lt ?_
    unfold intMax at short
    unfold sizeMax
    omega
  have indices : psz.length * 733 / 1000 + 1 ≤ intMax := by
    unfold intMax at *
    omega
  have start : Holds 256 (psz.length * 733 / 1000 + 1) 0
      (numbers (List.replicate (psz.length * 733 / 1000 + 1) 0, 0)) := by
    rw [numbers_zero]
    exact holds_zero (by decide) _
  have ran := @decodeLoop_agrees _ psz.length 0 psz _ start 0 (by decide) (Nat.zero_add _).le
    (decoded_fits psz.length) indices
  rw [numbers_zero] at ran
  simp only [DecodeBase58, skipped, Base58.DecodeBase58, psz_eq, wraps]
  cases machine : decodeLoop psz (List.replicate (psz.length * 733 / 1000 + 1) 0, 0) with
  | error failure =>
      rw [machine] at ran
      rcases ran with impossible | ⟨failed, negative⟩
      · contradiction
      · cases failed
        exact Agrees.of_suffix suffix (.inr ⟨rfl, negative⟩)
  | ok result =>
      rw [machine] at ran
      have same := Except.ok.inj (ran.resolve_right fun given => by simp [Except.map] at given)
      cases result with
      | none =>
          rw [← same]
          exact .inl rfl
      | some result =>
          obtain ⟨rest, buffer⟩ := result
          have shorter := (decodeLoop_suffix machine).trans suffix
          rw [← same, Option.map_some]
          dsimp only
          rcases skipSpaces_agrees rest with skipped | ⟨failed, negative⟩
          · refine .inl ?_
            simp only [skipped]
            split
            · rfl
            · rw [read_numbers, List.map_map]
              simp [Function.comp_def]
          · refine Agrees.of_suffix shorter (.inr ⟨?_, negative⟩)
            simp only [failed]

/-- Neither the encoder nor the decoder overflows or fails an assertion, and the
decoder goes wrong only on a negative character. Otherwise a text is decoded to
some bytes if and only if it is what the encoder makes of them, between spaces
and up to a NUL. -/
theorem codec_exact {bytes text : Bytes} (short : bytes.length * 138 ≤ ptrdiffMax)
    (short' : (cStr text).length ≤ intMax) :
    ∃ encoded, EncodeBase58 bytes = .ok encoded ∧
      ((∃ decoded, DecodeBase58 text = .ok decoded ∧
        (decoded = some bytes ↔ ∃ before after : Bytes,
          (∀ character ∈ before, isspace character = true) ∧
            (∀ character ∈ after, isspace character = true) ∧
              cStr text = before ++ (encoded ++ after))) ∨
        (DecodeBase58 text = .error .argument ∧
          ∃ character ∈ cStr text, Negative character)) := by
  refine ⟨_, EncodeBase58_eq short, (DecodeBase58_agrees short').imp_left fun decoded => ?_⟩
  exact ⟨_, decoded, DecodeBase58_eq_some_iff⟩

theorem codec_exact_spaced : ∃ encoded, EncodeBase58 [0, 1] = .ok encoded ∧
    DecodeBase58 (32 :: encoded ++ [10, 0, 200]) = .ok (some [0, 1]) := by
  have encoded : EncodeBase58 [0, 1] = .ok (ascii "12") := by rfl
  refine ⟨_, encoded, ?_⟩
  obtain ⟨encoded', same, ⟨decoded, ran, exact⟩ | ⟨_, character, member, negative⟩⟩ :=
    @codec_exact [0, 1] (32 :: ascii "12" ++ [10, 0, 200]) (by decide) (by decide)
  · cases encoded.symm.trans same
    have space : [32].all isspace = true := by decide
    have newline : [10].all isspace = true := by decide
    rw [ran, exact.mpr ⟨[32], [10], List.all_eq_true.mp space, List.all_eq_true.mp newline,
      by decide⟩]
  · have plain : (cStr (32 :: ascii "12" ++ [10, 0, 200])).all
        (fun character => !decide (Negative character)) = true := by decide
    have kept := List.all_eq_true.mp plain character member
    simp only [negative, decide_true, Bool.not_true, Bool.false_eq_true] at kept

end Cscrypto.Base58.Machine
