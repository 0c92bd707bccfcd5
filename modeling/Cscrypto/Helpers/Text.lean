import Cscrypto.Base58.Codec
import Cscrypto.Data.Sextets
import Mathlib.Data.List.GetD

namespace Cscrypto.Helpers

open Cscrypto.Base58 Cscrypto.Data

/-! # Bytes as text

`bin2Hex`, `bin2Base64` and their decoders in `helpers.cpp`.  The encoders of
libsodium end a text with a NUL, as in C, and the decoders skip a NUL wherever
they may skip a character.
-/

inductive Base64Variant where
  | original
  | originalNoPadding
  | urlSafe
  | urlSafeNoPadding
deriving DecidableEq

namespace Base64Variant

def padded : Base64Variant → Bool
  | .original => true
  | .originalNoPadding => false
  | .urlSafe => true
  | .urlSafeNoPadding => false

def alphabet : Base64Variant → Bytes
  | .original | .originalNoPadding =>
      ascii "ABCDEFGHIJKLMNOPQRSTUVWXYZabcdefghijklmnopqrstuvwxyz0123456789+/"
  | .urlSafe | .urlSafeNoPadding =>
      ascii "ABCDEFGHIJKLMNOPQRSTUVWXYZabcdefghijklmnopqrstuvwxyz0123456789-_"

def charOf (var : Base64Variant) (digit : Nat) : Byte := var.alphabet.getD digit 0

/-- The number of `=` behind the text of `len` bytes. -/
def padding (var : Base64Variant) (len : Nat) : Nat := if var.padded then (3 - len % 3) % 3 else 0

/-- The length of the text of `len` bytes. -/
def textLength (var : Base64Variant) (len : Nat) : Nat :=
  if var.padded then (len + 2) / 3 * 4 else (4 * len + 2) / 3

end Base64Variant

/-- The character `=`. -/
abbrev padChar : Byte := 61

def hexDigit (value : Nat) : Byte := (ascii "0123456789abcdef").getD value 0

/-- The value of a hexadecimal digit in either case. -/
def hexValue (character : Byte) : Option Nat :=
  if 48 ≤ character ∧ character ≤ 57 then some (character.toNat - 48)
  else if 65 ≤ character ∧ character ≤ 70 then some (character.toNat - 55)
  else if 97 ≤ character ∧ character ≤ 102 then some (character.toNat - 87)
  else none

def hexText (bin : Bytes) : Bytes :=
  bin.flatMap fun byte => [hexDigit (byte.toNat / 16), hexDigit (byte.toNat % 16)]

def base64Text (var : Base64Variant) (bin : Bytes) : Bytes :=
  (sextets bin).map var.charOf ++ List.replicate (var.padding bin.length) padChar

/-- `strchr` in the C string `ignore` finds the character, or the terminator. -/
def strchr (ignore : Bytes) (character : Byte) : Bool := character = 0 ∨ character ∈ ignore

/-- A hexadecimal text of the bytes, in which characters to be ignored may stand
between two bytes. -/
inductive HexReads (ignore : Bytes) : Bytes → Bytes → Prop where
  | nil : HexReads ignore [] []
  | skip (other : hexValue character = none) (skipped : strchr ignore character = true)
      (rest : HexReads ignore text bytes) : HexReads ignore (character :: text) bytes
  | byte (first : hexValue high = some a) (second : hexValue low = some b)
      (rest : HexReads ignore text bytes) :
      HexReads ignore (high :: low :: text) (UInt8.ofNat (16 * a + b) :: bytes)

/-- A character that is not of the alphabet is skipped if it is ignored. -/
def skips (var : Base64Variant) (ignore : Bytes) (character : Byte) : Bool :=
  character ∉ var.alphabet ∧ strchr ignore character

/-- Without the characters to be skipped, the text is a Base64 text of the
bytes. -/
def Base64Reads (var : Base64Variant) (ignore text bytes : Bytes) : Prop :=
  ∃ digits, (∀ digit ∈ digits, digit < 64) ∧ octets digits = some bytes ∧
    text.filter (!skips var ignore ·) =
      digits.map var.charOf ++ List.replicate (var.padding bytes.length) padChar

/-- The functions of libsodium. A buffer that is written to comes first, and
is returned. -/
structure TextCodec where
  bin2hex : Bytes → Bytes → Bytes
  hex2bin : Bytes → Bytes → Bytes → Bool × Bytes
  base64EncodedLen : Nat → Base64Variant → Nat
  bin2base64 : Bytes → Bytes → Base64Variant → Bytes
  base642bin : Bytes → Bytes → Bytes → Base64Variant → Bool × Bytes

/-- What is documented of them. The encoders write the text and a terminator,
`bin2base64` up to the end of the buffer. The decoders are called without an end
pointer and accept a text that they can read to its end, if the bytes fit. -/
structure TextLaws (codec : TextCodec) : Prop where
  bin2hex : ∀ hex bin, 2 * bin.length < hex.length →
    codec.bin2hex hex bin = hexText bin ++ 0 :: hex.drop (2 * bin.length + 1)
  hex2bin : ∀ bin hex ignore bytes, HexReads ignore hex bytes → bytes.length ≤ bin.length →
    codec.hex2bin bin hex ignore = (true, bytes ++ bin.drop bytes.length)
  base64EncodedLen : ∀ len var, codec.base64EncodedLen len var = var.textLength len + 1
  bin2base64 : ∀ b64 bin var, var.textLength bin.length < b64.length →
    codec.bin2base64 b64 bin var =
      base64Text var bin ++ List.replicate (b64.length - var.textLength bin.length) 0
  base642bin : ∀ bin b64 ignore var bytes, (var.padded = true → padChar ∉ ignore) →
    Base64Reads var ignore b64 bytes → bytes.length ≤ bin.length →
    codec.base642bin bin b64 ignore var = (true, bytes ++ bin.drop bytes.length)

def bin2Hex (codec : TextCodec) (bin : Bytes) : Bytes :=
  let res := List.replicate (bin.length * 2 + 1) 0
  codec.bin2hex res bin

def hex2Bin (codec : TextCodec) (bin hex ignore : Bytes) : Bool × Bytes :=
  codec.hex2bin bin hex (cStr ignore)

def bin2Base64 (codec : TextCodec) (bin : Bytes) (var : Base64Variant) : Bytes :=
  let res := List.replicate (codec.base64EncodedLen bin.length var) 0
  codec.bin2base64 res bin var

def base642Bin (codec : TextCodec) (bin base64 : Bytes) (var : Base64Variant) (ignore : Bytes) :
    Bool × Bytes :=
  codec.base642bin bin base64 (cStr ignore) var

theorem hexValue_hexDigit : ∀ value : Fin 16, hexValue (hexDigit value) = some value.val := by
  decide

theorem hexText_cons (byte : Byte) (bin : Bytes) :
    hexText (byte :: bin) =
      hexDigit (byte.toNat / 16) :: hexDigit (byte.toNat % 16) :: hexText bin := rfl

theorem length_hexText (bin : Bytes) : (hexText bin).length = 2 * bin.length := by
  induction bin with
  | nil => rfl
  | cons byte rest ih =>
      rw [hexText_cons, List.length_cons, List.length_cons, ih, List.length_cons]
      omega

/-- The variants have two alphabets. -/
theorem alphabet_cases {predicate : Bytes → Prop}
    (original : predicate (Base64Variant.alphabet .original))
    (urlSafe : predicate (Base64Variant.alphabet .urlSafe)) (var : Base64Variant) :
    predicate var.alphabet := by
  cases var with
  | original => exact original
  | originalNoPadding => exact original
  | urlSafe => exact urlSafe
  | urlSafeNoPadding => exact urlSafe

theorem length_alphabet : ∀ var : Base64Variant, var.alphabet.length = 64 :=
  @alphabet_cases (·.length = 64) (by decide +kernel) (by decide +kernel)

theorem charOf_mem (var : Base64Variant) {digit : Nat} (small : digit < 64) :
    var.charOf digit ∈ var.alphabet := by
  rw [Base64Variant.charOf, List.getD_eq_getElem _ _ (by rwa [length_alphabet])]
  exact List.getElem_mem _

theorem length_base64Text (var : Base64Variant) (bin : Bytes) :
    (base64Text var bin).length = var.textLength bin.length := by
  rw [base64Text, List.length_append, List.length_map, List.length_replicate, length_sextets,
    Base64Variant.padding, Base64Variant.textLength]
  cases var.padded with
  | false => rfl
  | true =>
      simp only [if_true]
      omega

theorem base64Text_mem {var : Base64Variant} {bin : Bytes} {character : Byte}
    (member : character ∈ base64Text var bin) :
    character ∈ var.alphabet ∨ (var.padded = true ∧ character = padChar) := by
  rcases List.mem_append.mp member with inside | inside
  · obtain ⟨digit, found, rfl⟩ := List.mem_map.mp inside
    exact .inl (charOf_mem var (sextets_lt bin digit found))
  · obtain ⟨some_left, same⟩ := List.mem_replicate.mp inside
    refine .inr ⟨?_, same⟩
    by_contra unpadded
    rw [Base64Variant.padding, if_neg unpadded] at some_left
    contradiction

theorem nul_not_mem : ∀ var : Base64Variant, (0 : Byte) ∉ var.alphabet :=
  @alphabet_cases (0 ∉ ·) (by decide +kernel) (by decide +kernel)

theorem padChar_not_mem : ∀ var : Base64Variant, padChar ∉ var.alphabet :=
  @alphabet_cases (padChar ∉ ·) (by decide +kernel) (by decide +kernel)

variable {codec : TextCodec}

theorem bin2Hex_eq (laws : TextLaws codec) (bin : Bytes) :
    bin2Hex codec bin = hexText bin ++ [0] := by
  have size : (List.replicate (bin.length * 2 + 1) (0 : Byte)).length = 2 * bin.length + 1 := by
    rw [List.length_replicate, Nat.mul_comm]
  rw [bin2Hex, laws.bin2hex _ _ (by rw [size]; exact Nat.lt_succ_self _),
    List.drop_eq_nil_of_le size.le]

theorem bin2Base64_eq (laws : TextLaws codec) (bin : Bytes) (var : Base64Variant) :
    bin2Base64 codec bin var = base64Text var bin ++ [0] := by
  have size : (List.replicate (codec.base64EncodedLen bin.length var) (0 : Byte)).length =
      var.textLength bin.length + 1 := by
    rw [List.length_replicate, laws.base64EncodedLen]
  rw [bin2Base64, laws.bin2base64 _ _ _ (by rw [size]; exact Nat.lt_succ_self _), size,
    Nat.add_sub_cancel_left]
  rfl

/-- The string is the hexadecimal digits of the bytes. -/
structure ExactHex (codec : TextCodec) (bin : Bytes) : Prop where
  length : (bin2Hex codec bin).length = 2 * bin.length
  digits : bin2Hex codec bin = hexText bin
  joins : ∀ other, bin2Hex codec (bin ++ other) = bin2Hex codec bin ++ bin2Hex codec other

/-- The string is a Base64 text of the length that the variant prescribes. -/
structure ExactBase64 (codec : TextCodec) (var : Base64Variant) (bin : Bytes) : Prop where
  length : (bin2Base64 codec bin var).length = var.textLength bin.length
  symbols : ∀ character ∈ bin2Base64 codec bin var,
    character ∈ var.alphabet ∨ (var.padded = true ∧ character = padChar)

/-- No string is exactly the text: each has a NUL behind it. -/
theorem text_never_exact (laws : TextLaws codec) (bin : Bytes) (var : Base64Variant) :
    (¬ExactHex codec bin ∧ bin2Hex codec bin = hexText bin ++ [0]) ∧
      ¬ExactBase64 codec var bin ∧ bin2Base64 codec bin var = base64Text var bin ++ [0] := by
  have hex := bin2Hex_eq laws bin
  have base64 := bin2Base64_eq laws bin var
  refine ⟨⟨?_, hex⟩, ?_, base64⟩
  · intro exact
    have length := exact.length
    rw [hex, List.length_append, length_hexText, List.length_singleton] at length
    omega
  · intro exact
    have length := exact.length
    rw [base64, List.length_append, length_base64Text, List.length_singleton] at length
    omega

theorem hexReads_hexText (ignore bin : Bytes) : HexReads ignore (hexText bin ++ [0]) bin := by
  induction bin with
  | nil => exact .skip (by decide) rfl .nil
  | cons byte rest ih =>
      have bound := byte.toNat_lt
      have high := hexValue_hexDigit ⟨byte.toNat / 16, by omega⟩
      have low := hexValue_hexDigit ⟨byte.toNat % 16, by omega⟩
      have whole := HexReads.byte high low ih
      rwa [Nat.div_add_mod, UInt8.ofNat_toNat] at whole

/-- A character of the text is not skipped, the terminator is. -/
theorem base64Reads_base64Text {var : Base64Variant} {ignore : Bytes}
    (kept : var.padded = true → padChar ∉ ignore) (bin : Bytes) :
    Base64Reads var ignore (base64Text var bin ++ [0]) bin := by
  refine ⟨sextets bin, sextets_lt bin, octets_sextets bin, ?_⟩
  have symbols : ∀ character ∈ base64Text var bin, (!skips var ignore character) = true := by
    intro character member
    rw [Bool.not_eq_true', skips, decide_eq_false_iff_not, not_and]
    intro other ignored
    rcases base64Text_mem member with inside | ⟨padded, rfl⟩
    · exact other inside
    · rcases of_decide_eq_true ignored with nul | inside
      · contradiction
      · exact kept padded inside
  have terminator : skips var ignore 0 = true := by
    rw [skips, decide_eq_true_eq]
    exact ⟨nul_not_mem var, rfl⟩
  rw [List.filter_append, List.filter_eq_self.mpr symbols, List.filter_cons_of_neg (by
    rw [terminator]; decide), List.filter_nil, List.append_nil]
  rfl

/-- Every text decodes to the bytes it was made of, whatever is ignored. -/
theorem text_round_trip (laws : TextLaws codec) (b ignore bin : Bytes)
    (room : b.length ≤ bin.length) :
    hex2Bin codec bin (bin2Hex codec b) ignore = (true, b ++ bin.drop b.length) ∧
      ∀ var : Base64Variant, (var.padded = true → padChar ∉ ignore) →
        base642Bin codec bin (bin2Base64 codec b var) var ignore =
          (true, b ++ bin.drop b.length) := by
  constructor
  · rw [hex2Bin, bin2Hex_eq laws]
    exact laws.hex2bin bin _ _ b (hexReads_hexText _ b) room
  · intro var kept
    have outside : var.padded = true → padChar ∉ cStr ignore :=
      fun padded inside => kept padded ((List.takeWhile_prefix _).subset inside)
    rw [base642Bin, bin2Base64_eq laws]
    exact laws.base642bin bin _ _ var b outside (base64Reads_base64Text outside b) room

/-- The hexadecimal decoder, which keeps the first digit of a byte until the
second one. -/
def hexRead (ignore : Bytes) : Bytes → Option Nat → Option Bytes
  | [], none => some []
  | [], some _ => none
  | character :: text, pending =>
      match hexValue character, pending with
      | some value, none => hexRead ignore text (some value)
      | some value, some first =>
          (hexRead ignore text none).map (UInt8.ofNat (16 * first + value) :: ·)
      | none, none => if strchr ignore character then hexRead ignore text none else none
      | none, some _ => none

/-- The decoder for Base64, on the text without the characters it skips. -/
def base64Read (var : Base64Variant) (kept : Bytes) : Option Bytes :=
  let symbols := kept.takeWhile (· ∈ var.alphabet)
  (octets (symbols.map var.alphabet.idxOf)).filter fun bytes =>
    kept = symbols ++ List.replicate (var.padding bytes.length) padChar

/-- The end of a decoder: the bytes are written if they fit. -/
def store (bin : Bytes) : Option Bytes → Bool × Bytes
  | some bytes =>
      if bytes.length ≤ bin.length then (true, bytes ++ bin.drop bytes.length) else (false, bin)
  | none => (false, bin)

def TextCodec.reference : TextCodec where
  bin2hex hex bin := hexText bin ++ 0 :: hex.drop (2 * bin.length + 1)
  hex2bin bin hex ignore := store bin (hexRead ignore hex none)
  base64EncodedLen len var := var.textLength len + 1
  bin2base64 b64 bin var :=
    base64Text var bin ++ List.replicate (b64.length - var.textLength bin.length) 0
  base642bin bin b64 ignore var :=
    store bin (base64Read var (b64.filter (!skips var ignore ·)))

theorem hexRead_eq {ignore text bytes : Bytes} (reads : HexReads ignore text bytes) :
    hexRead ignore text none = some bytes := by
  induction reads with
  | nil => rfl
  | skip other skipped _ ih => simp only [hexRead, other, skipped, if_true, ih]
  | byte first second _ ih => simp only [hexRead, first, second, ih, Option.map_some]

theorem idxOf_charOf (var : Base64Variant) {digit : Nat} (small : digit < 64) :
    var.alphabet.idxOf (var.charOf digit) = digit := by
  have distinct : var.alphabet.Nodup :=
    @alphabet_cases List.Nodup (by decide +kernel) (by decide +kernel) var
  have bound : digit < var.alphabet.length := by rwa [length_alphabet]
  rw [Base64Variant.charOf, List.getD_eq_getElem _ _ bound]
  exact distinct.idxOf_getElem digit bound

theorem base64Read_eq {var : Base64Variant} {digits : List Nat} {bytes : Bytes}
    (small : ∀ digit ∈ digits, digit < 64) (read : octets digits = some bytes) :
    base64Read var
      (digits.map var.charOf ++ List.replicate (var.padding bytes.length) padChar) =
        some bytes := by
  have letters : ∀ character ∈ digits.map var.charOf,
      decide (character ∈ var.alphabet) = true := by
    intro character member
    obtain ⟨digit, inside, rfl⟩ := List.mem_map.mp member
    exact decide_eq_true (charOf_mem var (small digit inside))
  have stops : (List.replicate (var.padding bytes.length) padChar).takeWhile
      (fun character => decide (character ∈ var.alphabet)) = [] := by
    cases var.padding bytes.length with
    | zero => rfl
    | succ count =>
        rw [List.replicate_succ, List.takeWhile_cons_of_neg]
        exact fun inside => padChar_not_mem var (of_decide_eq_true inside)
  have symbols : (digits.map var.charOf ++
      List.replicate (var.padding bytes.length) padChar).takeWhile
        (fun character => decide (character ∈ var.alphabet)) = digits.map var.charOf := by
    rw [List.takeWhile_append_of_pos letters, stops, List.append_nil]
  have values : (digits.map var.charOf).map var.alphabet.idxOf = digits := by
    rw [List.map_map]
    refine (List.map_congr_left fun digit inside => ?_).trans (List.map_id digits)
    exact idxOf_charOf var (small digit inside)
  simp only [base64Read, symbols, values, read, Option.filter_some, decide_true, if_true]

theorem reference_laws : TextLaws .reference where
  bin2hex _ _ _ := rfl
  hex2bin bin hex ignore bytes := by
    intro reads room
    show store bin (hexRead ignore hex none) = _
    rw [hexRead_eq reads, store, if_pos room]
  base64EncodedLen _ _ := rfl
  bin2base64 _ _ _ _ := rfl
  base642bin bin b64 ignore var bytes := by
    intro _ reads room
    obtain ⟨digits, small, read, kept⟩ := reads
    show store bin (base64Read var (b64.filter (!skips var ignore ·))) = _
    rw [kept, base64Read_eq small read, store, if_pos room]

/-- One byte, with a space to be ignored. -/
theorem text_round_trip_reference :
    hex2Bin .reference [0] (bin2Hex .reference [255]) [32] = (true, [255]) ∧
      base642Bin .reference [0] (bin2Base64 .reference [255] .original) .original [32] =
        (true, [255]) :=
  have trips := text_round_trip reference_laws [255] [32] [0] (by decide)
  ⟨trips.1, trips.2 .original (by decide)⟩

theorem text_never_exact_reference :
    ¬ExactHex .reference [255] ∧ ¬ExactBase64 .reference .urlSafe [255] :=
  have never := text_never_exact reference_laws [255] .urlSafe
  ⟨never.1.1, never.2.1⟩

theorem one_byte_text : bin2Hex .reference [255] = [102, 102, 0] ∧
    ¬ExactHex .reference [255] := by
  refine ⟨by decide, ?_⟩
  intro exact
  exact absurd exact.length (by decide)

end Cscrypto.Helpers
