import Cscrypto.Cipher.Data

namespace Cscrypto.Cipher

/-! # The formats of encrypted data

A secret box behind its nonce, and a sealed box.  What `decryptData` accepts is
compared with what `encryptData` writes, for byte strings of every length.
-/

/-- A subtraction on `size_t` that must not wrap. -/
def checkedSub (left right : Nat) : Except Fault Nat :=
  if right ≤ left then .ok (left - right) else .error .lengthError

theorem checkedSub_ok {left right : Nat} (fits : right ≤ left) :
    checkedSub left right = .ok (left - right) := if_pos fits

/-- `decryptData` that stops with a fault where a length would wrap. -/
def decryptDataChecked (box : SecretBox) (target source : Bytes) (key : CipherKey) :
    Except Fault (Bool × Bytes × CipherKey) :=
  if source.length < kMacBytes + kNonceBytes then .ok (false, target, key)
  else do
    let nonce ← copyArray kNonceBytes source 0
    let rest ← checkedSub source.length kMacBytes
    let count ← checkedSub rest kNonceBytes
    let target := resize target count
    let key ← key.mprotect .readOnly
    let secret ← key.read
    let boxed ← checkedSub source.length kNonceBytes
    let (opened, target) ← openInto box secret nonce target
      ((source.drop kNonceBytes).take boxed)
    if opened then return (true, target, ← key.mprotect .noAccess)
    else return (false, target, ← key.mprotect .noAccess)

/-- `openData` that stops with a fault where a length would wrap. -/
def openDataChecked (sodium : Sodium) (box : SealedBox) (target source : Bytes)
    (privKey : PrivateKey) : Except Fault (Bool × Bytes) :=
  if source.length < kSealBytes then .ok (false, target)
  else do
    let count ← checkedSub source.length kSealBytes
    let target := resize target count
    let keys ← getEncryptionKeysFromPrivate sodium box privKey
    openSealed box target source keys

theorem decryptDataChecked_eq (box : SecretBox) (target source : Bytes) (key : CipherKey) :
    decryptDataChecked box target source key = decryptData box target source key := by
  unfold decryptDataChecked decryptData
  split
  · rfl
  rename_i long
  have mac : checkedSub source.length kMacBytes = .ok (source.length - kMacBytes) :=
    checkedSub_ok (by omega)
  have nonce : checkedSub (source.length - kMacBytes) kNonceBytes =
      .ok (source.length - kMacBytes - kNonceBytes) := checkedSub_ok (by omega)
  have boxed : checkedSub source.length kNonceBytes = .ok (source.length - kNonceBytes) :=
    checkedSub_ok (by omega)
  have whole : (source.drop kNonceBytes).take (source.length - kNonceBytes) =
      source.drop kNonceBytes := List.take_of_length_le (by rw [List.length_drop])
  simp only [mac, nonce, boxed, whole, ok_bind]

theorem openDataChecked_eq (sodium : Sodium) (box : SealedBox) (target source : Bytes)
    (privKey : PrivateKey) :
    openDataChecked sodium box target source privKey = openData sodium box target source privKey := by
  unfold openDataChecked openData
  split
  · rfl
  rename_i long
  rw [checkedSub_ok (by omega), ok_bind]

/-- What opening accepts is what boxing returns. -/
def SecretBox.OpensExactly (box : SecretBox) : Prop :=
  ∀ secret nonce c plain, box.openEasy secret nonce c = some plain ↔
    (box.easy secret nonce plain.bytes).bytes = c

/-- An opening that is exact for plain texts in their type is exact for byte
strings. -/
theorem opened_iff {opened : Option (ByteArray size)} {image : Bytes → Prop}
    (exact : ∀ plain, opened = some plain ↔ image plain.bytes)
    (sized : ∀ m, image m → m.length = size) (m : Bytes) :
    opened.map ByteArray.bytes = some m ↔ image m := by
  rw [Option.map_eq_some_iff]
  constructor
  · intro given
    obtain ⟨plain, found, rfl⟩ := given
    exact (exact plain).mp found
  · intro boxed
    exact ⟨⟨m, sized m boxed⟩, (exact ⟨m, sized m boxed⟩).mpr boxed, rfl⟩

theorem SecretBox.OpensExactly.iff {box : SecretBox} (exact : box.OpensExactly) (secret : StreamKey)
    (nonce : Nonce) (c m : Bytes) :
    (box.openEasy secret nonce c).map ByteArray.bytes = some m ↔
      (box.easy secret nonce m).bytes = c := by
  apply opened_iff (exact secret nonce c)
  intro m same
  subst same
  rw [ByteArray.size_eq, Nat.add_sub_cancel]

theorem openInto_resized (box : SecretBox) (secret : StreamKey) (nonce : Nonce)
    (target c : Bytes) :
    openInto box secret nonce (resize target (c.length - kMacBytes)) c =
      .ok (match (box.openEasy secret nonce c).map ByteArray.bytes with
        | none => (false, resize target (c.length - kMacBytes))
        | some m => (true, m)) := by
  cases opened : box.openEasy secret nonce c with
  | none => exact openInto_none opened _
  | some plain => exact openInto_some opened target

theorem decryptData_short {target source : Bytes} {key : CipherKey} (box : SecretBox)
    (short : source.length < kMacBytes + kNonceBytes) :
    decryptData box target source key = .ok (false, target, key) := if_pos short

theorem decryptData_boxed (box : SecretBox) (secret : StreamKey) (protection : Protection)
    (target : Bytes) (nonce : Nonce) {c : Bytes} (long : kMacBytes ≤ c.length) :
    decryptData box target (nonce.bytes ++ c) (.holding secret protection) =
      .ok (match (box.openEasy secret nonce c).map ByteArray.bytes with
        | none => (false, resize target (c.length - kMacBytes), .holding secret .noAccess)
        | some m => (true, m, .holding secret .noAccess)) := by
  rw [decryptData_append box target nonce secret protection long, openInto_resized, ok_bind]
  cases (box.openEasy secret nonce c).map ByteArray.bytes <;> rfl

theorem cut_nonce {source : Bytes} (long : kMacBytes + kNonceBytes ≤ source.length) :
    ∃ (nonce : Nonce) (c : Bytes), kMacBytes ≤ c.length ∧ source = nonce.bytes ++ c := by
  have size : (source.take kNonceBytes).length = kNonceBytes := by
    rw [List.length_take]
    omega
  refine ⟨⟨source.take kNonceBytes, size⟩, source.drop kNonceBytes, ?_, ?_⟩
  · rw [List.length_drop]
    omega
  · rw [List.take_append_drop]

/-- `decryptData` accepts a nonce and a secret box, and nothing else. -/
theorem decryptData_iff {box : SecretBox} (exact : box.OpensExactly) (secret : StreamKey)
    (protection : Protection) (target source m : Bytes) :
    (∃ key, decryptData box target source (.holding secret protection) = .ok (true, m, key)) ↔
      ∃ nonce : Nonce, source = nonce.bytes ++ (box.easy secret nonce m).bytes := by
  by_cases short : source.length < kMacBytes + kNonceBytes
  · rw [decryptData_short box short]
    constructor
    · intro given
      obtain ⟨_, refused⟩ := given
      cases refused
    · intro given
      obtain ⟨nonce, rfl⟩ := given
      rw [List.length_append, nonce.size_eq, ByteArray.size_eq] at short
      omega
  obtain ⟨nonce, c, long, rfl⟩ := cut_nonce (Nat.le_of_not_lt short)
  rw [decryptData_boxed box secret protection target nonce long]
  have accepted := exact.iff secret nonce c m
  constructor
  · intro given
    obtain ⟨key, ran⟩ := given
    cases opened : (box.openEasy secret nonce c).map ByteArray.bytes with
    | none =>
        rw [opened] at ran
        cases ran
    | some plain =>
        rw [opened] at ran
        cases ran
        exact ⟨nonce, by rw [accepted.mp opened]⟩
  · intro given
    obtain ⟨nonce', same⟩ := given
    obtain ⟨nonces, boxed⟩ := List.append_inj same (by rw [nonce.size_eq, nonce'.size_eq])
    cases ByteArray.ext_bytes nonces
    rw [accepted.mpr boxed.symm]
    exact ⟨_, rfl⟩

theorem decryptData_returns (box : SecretBox) (secret : StreamKey) (protection : Protection)
    (target source : Bytes) :
    ∃ result, decryptData box target source (.holding secret protection) = .ok result := by
  by_cases short : source.length < kMacBytes + kNonceBytes
  · exact ⟨_, decryptData_short box short⟩
  · obtain ⟨nonce, c, long, rfl⟩ := cut_nonce (Nat.le_of_not_lt short)
    exact ⟨_, decryptData_boxed box secret protection target nonce long⟩

/-- What opening with a derived key pair accepts is what sealing for its public
key returns, with whatever key pair the sealing draws. -/
def SealedBox.OpensExactly (box : SealedBox) : Prop :=
  ∀ seed pk sk, box.boxSeedKeypair seed = some (pk, sk) → ∀ c plain,
    box.boxSealOpen pk sk c = some plain ↔
      ∃ random, (box.boxSeal random pk plain.bytes).bytes = c

theorem getPubCipherKey_some {sodium : Sodium} {box : SealedBox} {privKey : PrivateKey}
    {pk : PubCipherKey} (got : getPubCipherKey sodium box privKey = .ok (some pk)) :
    ∃ seed sk, box.boxSeedKeypair seed = some (pk, sk) ∧
      getEncryptionKeysFromPrivate sodium box privKey = .ok (some (pk, sk)) := by
  obtain ⟨keys, derived, same⟩ := bind_eq_ok.mp got
  obtain ⟨⟨pk', sk⟩, rfl, rfl⟩ := Option.map_eq_some_iff.mp (Except.ok.inj same)
  obtain ⟨extracted, _, paired⟩ := bind_eq_ok.mp derived
  cases extracted with
  | none => cases paired
  | some seed => exact ⟨seed, sk, Except.ok.inj paired, derived⟩

theorem openSealed_resized (box : SealedBox) (target source : Bytes) (pk : PubCipherKey)
    (sk : DecryptionSecKey) :
    openSealed box (resize target (source.length - kSealBytes)) source (some (pk, sk)) =
      .ok (match (box.boxSealOpen pk sk source).map ByteArray.bytes with
        | none => (false, resize target (source.length - kSealBytes))
        | some m => (true, m)) := by
  cases opened : box.boxSealOpen pk sk source with
  | none => simp only [openSealed, opened, Option.map_none]
  | some plain =>
      simp only [openSealed, opened, copyInto_resized target plain.size_eq, ok_bind, pure_eq_ok,
        Option.map_some]

/-- `decryptData` with a private key accepts the sealed boxes for its public
cipher key, and nothing else. -/
theorem openData_iff {sodium : Sodium} {box : SealedBox} (exact : box.OpensExactly)
    {privKey : PrivateKey} {pk : PubCipherKey}
    (got : getPubCipherKey sodium box privKey = .ok (some pk)) (target source m : Bytes) :
    openData sodium box target source privKey = .ok (true, m) ↔
      ∃ random, source = sealData box random m pk := by
  obtain ⟨seed, sk, paired, derived⟩ := getPubCipherKey_some got
  have sized : ∀ m : Bytes, (∃ random, (box.boxSeal random pk m).bytes = source) →
      m.length + kSealBytes = source.length := by
    intro m given
    obtain ⟨random, rfl⟩ := given
    rw [ByteArray.size_eq]
  have accepted := opened_iff (exact seed pk sk paired source)
    (fun m boxed => (Nat.sub_eq_of_eq_add (sized m boxed).symm).symm) m
  have image : (∃ random, source = sealData box random m pk) ↔
      ∃ random, (box.boxSeal random pk m).bytes = source :=
    exists_congr fun _ => eq_comm
  rw [image]
  by_cases short : source.length < kSealBytes
  · rw [openData, if_pos short]
    constructor
    · intro refused
      cases refused
    · intro boxed
      have long := sized m boxed
      omega
  · rw [openData, if_neg short, derived, ok_bind, openSealed_resized, ← accepted]
    cases (box.boxSealOpen pk sk source).map ByteArray.bytes <;> simp

theorem openData_returns {sodium : Sodium} {box : SealedBox} {privKey : PrivateKey}
    {pk : PubCipherKey} (got : getPubCipherKey sodium box privKey = .ok (some pk))
    (target source : Bytes) :
    ∃ result, openData sodium box target source privKey = .ok result := by
  obtain ⟨seed, sk, _, derived⟩ := getPubCipherKey_some got
  by_cases short : source.length < kSealBytes
  · exact ⟨_, if_pos short⟩
  · rw [openData, if_neg short, derived, ok_bind, openSealed_resized]
    exact ⟨_, rfl⟩

/-- What is encrypted decrypts to the same data; what decrypts to some data is
an encryption of it; and no length wraps on the way. -/
theorem data_formats_exact {sodium : Sodium} {box : SecretBox} {sealedBox : SealedBox}
    (exact : box.OpensExactly) (sealExact : sealedBox.OpensExactly) :
    (∀ secret protection nonce m target,
      encryptData box nonce m (.holding secret protection) >>=
          (fun (b, key) => decryptData box target b key) =
        .ok (true, m, .holding secret .noAccess)) ∧
    (∀ secret protection target b m,
      (∃ key, decryptData box target b (.holding secret protection) = .ok (true, m, key)) ↔
        ∃ nonce : Nonce, b = nonce.bytes ++ (box.easy secret nonce m).bytes) ∧
    (∀ privKey pk, getPubCipherKey sodium sealedBox privKey = .ok (some pk) → ∀ target b m,
      openData sodium sealedBox target b privKey = .ok (true, m) ↔
        ∃ random, b = sealData sealedBox random m pk) ∧
    (∀ secret protection target b,
      ∃ result, decryptDataChecked box target b (.holding secret protection) = .ok result ∧
        decryptData box target b (.holding secret protection) = .ok result) ∧
    (∀ privKey pk, getPubCipherKey sodium sealedBox privKey = .ok (some pk) → ∀ target b,
      ∃ result, openDataChecked sodium sealedBox target b privKey = .ok result ∧
        openData sodium sealedBox target b privKey = .ok result) := by
  refine ⟨?_, ?_, ?_, ?_, ?_⟩
  · intro secret protection nonce m target
    have long : kMacBytes ≤ (box.easy secret nonce m).bytes.length := by
      rw [ByteArray.size_eq]
      omega
    rw [encryptData_holding, ok_bind]
    dsimp only
    rw [decryptData_boxed box secret .noAccess target nonce long, (exact.iff _ _ _ m).mpr rfl]
  · exact fun secret protection target b m => decryptData_iff exact secret protection target b m
  · exact fun privKey pk got target b m => openData_iff sealExact got target b m
  · intro secret protection target b
    obtain ⟨result, ran⟩ := decryptData_returns box secret protection target b
    exact ⟨result, by rw [decryptDataChecked_eq, ran], ran⟩
  · intro privKey pk got target b
    obtain ⟨result, ran⟩ := openData_returns got target b
    exact ⟨result, by rw [openDataChecked_eq, ran], ran⟩

theorem SecretBox.transparent_opensExactly : SecretBox.transparent.OpensExactly := by
  intro secret nonce c plain
  have boxed (m : Bytes) : (SecretBox.transparent.easy secret nonce m).bytes =
      mac secret nonce m ++ m := rfl
  rw [boxed]
  unfold SecretBox.transparent
  dsimp only
  constructor
  · intro opened
    split at opened
    · rename_i authentic
      cases opened
      rw [← authentic, List.take_append_drop]
    · contradiction
  · obtain ⟨m, size⟩ := plain
    intro same
    dsimp only at same
    subst same
    have start : (mac secret nonce m ++ m).take kMacBytes = mac secret nonce m :=
      List.take_left' (length_mac _ _ _)
    have rest : (mac secret nonce m ++ m).drop kMacBytes = m := List.drop_left' (length_mac _ _ _)
    rw [if_pos (by rw [start, rest])]
    exact congrArg some (ByteArray.ext_bytes rest)

namespace SealedBox

def tag (ephemeral : Bytes) (pk : PubCipherKey) (m : Bytes) : Bytes :=
  (Sodium.checksum (ephemeral ++ pk.bytes ++ m)).bytes.take kMacBytes

theorem length_tag (ephemeral : Bytes) (pk : PubCipherKey) (m : Bytes) :
    (tag ephemeral pk m).length = kMacBytes := by
  rw [tag, List.length_take, ByteArray.size_eq]
  rfl

/-- The drawn key and a checksum before the message. -/
def transparent : SealedBox where
  boxSeedKeypair seed := some (Sodium.checksum seed.bytes, seed)
  boxSeal random pk m := ⟨random.bytes ++ (tag random.bytes pk m ++ m), by
    rw [List.length_append, List.length_append, length_tag, random.size_eq, kMacBytes, kSeedSize,
      kSealBytes]
    omega⟩
  boxSealOpen pk _ c :=
    if kSealBytes ≤ c.length ∧
        (c.drop kSeedSize).take kMacBytes = tag (c.take kSeedSize) pk (c.drop kSealBytes) then
      some ⟨c.drop kSealBytes, List.length_drop⟩
    else none

theorem transparent_opensExactly : transparent.OpensExactly := by
  intro seed pk sk _ c plain
  have sealed (random : ByteArray kSeedSize) (m : Bytes) : (transparent.boxSeal random pk m).bytes =
      random.bytes ++ (tag random.bytes pk m ++ m) := rfl
  simp only [sealed]
  unfold transparent
  dsimp only
  constructor
  · intro opened
    split at opened
    · rename_i authentic
      cases opened
      obtain ⟨long, authentic⟩ := authentic
      have size : (c.take kSeedSize).length = kSeedSize := by
        rw [List.length_take, kSeedSize]
        rw [kSealBytes] at long
        omega
      have rest : (c.drop kSeedSize).drop kMacBytes = c.drop kSealBytes := List.drop_drop
      refine ⟨⟨c.take kSeedSize, size⟩, ?_⟩
      dsimp only
      rw [← authentic, ← rest, List.take_append_drop, List.take_append_drop]
    · contradiction
  · obtain ⟨m, size⟩ := plain
    intro given
    obtain ⟨random, same⟩ := given
    dsimp only at same
    subst same
    have front : (random.bytes ++ (tag random.bytes pk m ++ m)).take kSeedSize = random.bytes :=
      List.take_left' random.size_eq
    have back : (random.bytes ++ (tag random.bytes pk m ++ m)).drop kSeedSize =
        tag random.bytes pk m ++ m := List.drop_left' random.size_eq
    have rest : (random.bytes ++ (tag random.bytes pk m ++ m)).drop kSealBytes = m := by
      have cut := congrArg (List.drop kMacBytes) back
      rw [List.drop_drop] at cut
      exact cut.trans (List.drop_left' (length_tag _ _ _))
    have long : kSealBytes ≤ (random.bytes ++ (tag random.bytes pk m ++ m)).length := by
      rw [List.length_append, List.length_append, random.size_eq, length_tag, ← Nat.add_assoc]
      exact Nat.le_add_right _ _
    rw [if_pos]
    · exact congrArg some (ByteArray.ext_bytes rest)
    · exact ⟨long, by rw [front, back, rest, List.take_left' (length_tag _ _ _)]⟩

end SealedBox

/-- Two bytes, in a secret box and in a sealed box. -/
theorem data_formats_exact_transparent :
    (∃ key, decryptData .transparent [] ((ByteArray.replicate kNonceBytes 2).bytes ++
        (SecretBox.transparent.easy (.replicate 32 1) (.replicate kNonceBytes 2) [104, 105]).bytes)
          (.holding (.replicate 32 1) .noAccess) = .ok (true, [104, 105], key)) ∧
      openData .transparent .transparent [] (sealData .transparent (.replicate kSeedSize 3)
          [104, 105] (Sodium.checksum (Sodium.seedOf (.replicate kPrivateKeySize 1)).bytes))
        (.holding (.replicate kPrivateKeySize 1)) = .ok (true, [104, 105]) := by
  obtain ⟨_, boxes, seals, _⟩ := @data_formats_exact .transparent _ _
    SecretBox.transparent_opensExactly SealedBox.transparent_opensExactly
  exact ⟨(boxes _ _ [] _ _).mpr ⟨_, rfl⟩, (seals _ _ rfl [] _ _).mpr ⟨_, rfl⟩⟩

end Cscrypto.Cipher
