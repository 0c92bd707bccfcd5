import Cscrypto.Cipher.DataFormat

namespace Cscrypto.Cipher

/-! # What a failed decryption leaves

Both overloads of `decryptData` resize the target before the step that can
fail.
-/

/-- When the call returns `false`, the target is what it was. -/
def LeavesTarget (target : Bytes) (call : Except Fault (Bool × Bytes)) : Prop :=
  ∀ left, call = .ok (false, left) → left = target

theorem leavesTarget_unchanged (target : Bytes) (opened : Bool) :
    LeavesTarget target (.ok (opened, target)) := by
  intro left returned
  cases returned
  rfl

theorem leavesTarget_opened (target m : Bytes) : LeavesTarget target (.ok (true, m)) := by
  intro left returned
  cases returned

theorem leavesTarget_fault (target : Bytes) (fault : Fault) :
    LeavesTarget target (.error fault) := by
  intro left returned
  cases returned

theorem resize_eq_self_iff {bytes : Bytes} {count : Nat} :
    resize bytes count = bytes ↔ bytes.length = count := by
  constructor
  · intro same
    rw [← same, length_resize]
  · intro size
    rw [resize, List.take_of_length_le size.le, size, Nat.sub_self, List.replicate_zero,
      List.append_nil]

/-- A call that fails after the target was resized. -/
theorem leavesTarget_resized_iff {target : Bytes} {count : Nat} :
    LeavesTarget target (.ok (false, resize target count)) ↔ target.length = count := by
  rw [← resize_eq_self_iff]
  constructor
  · intro leaves
    exact leaves _ rfl
  · intro same
    rw [same]
    exact leavesTarget_unchanged target false

/-- What the caller sees of `decryptData`. -/
def decrypted (box : SecretBox) (target source : Bytes) (key : CipherKey) :
    Except Fault (Bool × Bytes) :=
  (decryptData box target source key).map fun (opened, target, _) => (opened, target)

/-- The box behind the nonce is not authentic under the key. -/
def RefusesBox (box : SecretBox) (source : Bytes) (key : CipherKey) : Prop :=
  ∃ secret protection, key = .holding secret protection ∧
    ∃ (nonce : Nonce) (c : Bytes), source = nonce.bytes ++ c ∧ box.openEasy secret nonce c = none

/-- The cipher keys cannot be derived, or the sealed box is not authentic under
them. -/
def RefusesSealed (sodium : Sodium) (box : SealedBox) (source : Bytes) (privKey : PrivateKey) :
    Prop :=
  ∃ keys, getEncryptionKeysFromPrivate sodium box privKey = .ok keys ∧
    keys.bind (fun (pk, sk) => box.boxSealOpen pk sk source) = none

theorem refusesBox_holding_iff {box : SecretBox} {secret : StreamKey} {protection : Protection}
    {nonce : Nonce} {c : Bytes} :
    RefusesBox box (nonce.bytes ++ c) (.holding secret protection) ↔
      box.openEasy secret nonce c = none := by
  constructor
  · intro given
    obtain ⟨_, _, held, nonce', c', same, refused⟩ := given
    cases held
    obtain ⟨nonces, boxes⟩ := List.append_inj same (by rw [nonce.size_eq, nonce'.size_eq])
    cases ByteArray.ext_bytes nonces
    cases boxes
    exact refused
  · intro refused
    exact ⟨secret, protection, rfl, nonce, c, rfl, refused⟩

theorem refusesBox_null {box : SecretBox} {source : Bytes} : ¬RefusesBox box source ⟨none⟩ := by
  intro given
  obtain ⟨_, _, held, _⟩ := given
  cases held

theorem decryptData_null {box : SecretBox} {target source : Bytes}
    (long : kMacBytes + kNonceBytes ≤ source.length) :
    decryptData box target source ⟨none⟩ = .error .misuse := by
  obtain ⟨nonce, copied, _⟩ : ∃ nonce, copyArray kNonceBytes source 0 = .ok nonce ∧ _ :=
    copyArray_ok (by omega)
  rw [decryptData, if_neg (Nat.not_lt_of_le long), copied]
  rfl

theorem decryptData_leaves_iff (box : SecretBox) (target source : Bytes) (key : CipherKey) :
    LeavesTarget target (decrypted box target source key) ↔
      source.length < kMacBytes + kNonceBytes ∨
        target.length = source.length - kMacBytes - kNonceBytes ∨ ¬RefusesBox box source key := by
  by_cases short : source.length < kMacBytes + kNonceBytes
  · rw [decrypted, decryptData_short box short]
    exact iff_of_true (leavesTarget_unchanged target false) (.inl short)
  simp only [short, false_or]
  obtain ⟨_ | ⟨secret, protection⟩⟩ := key
  · rw [decrypted, decryptData_null (Nat.le_of_not_lt short)]
    exact iff_of_true (leavesTarget_fault target _) (.inr refusesBox_null)
  · obtain ⟨nonce, c, long, rfl⟩ := cut_nonce (Nat.le_of_not_lt short)
    have count : (nonce.bytes ++ c).length - kMacBytes - kNonceBytes = c.length - kMacBytes := by
      rw [List.length_append, nonce.size_eq]
      omega
    have refuses := @refusesBox_holding_iff box secret protection nonce c
    have ran := decryptData_boxed box secret protection target nonce long
    rw [MemGuard.holding] at refuses ran
    rw [count, decrypted, refuses, ran]
    cases opened : box.openEasy secret nonce c with
    | none =>
        simp only [not_true_eq_false, or_false]
        exact leavesTarget_resized_iff
    | some plain =>
        simp only [reduceCtorEq, not_false_eq_true, or_true, iff_true]
        exact leavesTarget_opened target _

theorem openData_leaves_iff (sodium : Sodium) (box : SealedBox) (target source : Bytes)
    (privKey : PrivateKey) :
    LeavesTarget target (openData sodium box target source privKey) ↔
      source.length < kSealBytes ∨ target.length = source.length - kSealBytes ∨
        ¬RefusesSealed sodium box source privKey := by
  by_cases short : source.length < kSealBytes
  · rw [openData, if_pos short]
    exact iff_of_true (leavesTarget_unchanged target false) (.inl short)
  simp only [short, false_or]
  rw [openData, if_neg short]
  cases derived : getEncryptionKeysFromPrivate sodium box privKey with
  | error fault =>
      have keyless : ¬RefusesSealed sodium box source privKey := by
        intro given
        obtain ⟨_, found, _⟩ := given
        cases derived.symm.trans found
      exact iff_of_true (leavesTarget_fault target _) (.inr keyless)
  | ok keys =>
      rw [ok_bind]
      cases opened : keys.bind (fun (pk, sk) => box.boxSealOpen pk sk source) with
      | none =>
          have refuses : RefusesSealed sodium box source privKey := ⟨keys, derived, opened⟩
          have ran : openSealed box (resize target (source.length - kSealBytes)) source keys =
              .ok (false, resize target (source.length - kSealBytes)) := by
            rcases keys with _ | ⟨pk, sk⟩
            · rfl
            · have unopened : box.boxSealOpen pk sk source = none := opened
              rw [openSealed_resized, unopened]
              rfl
          simp only [ran, refuses, not_true_eq_false, or_false]
          exact leavesTarget_resized_iff
      | some plain =>
          have accepts : ¬RefusesSealed sodium box source privKey := by
            intro given
            obtain ⟨_, found, refused⟩ := given
            cases derived.symm.trans found
            cases opened.symm.trans refused
          obtain ⟨⟨pk, sk⟩, rfl, found⟩ := Option.bind_eq_some_iff.mp opened
          have unsealed : box.boxSealOpen pk sk source = some plain := found
          rw [openSealed_resized, unsealed]
          exact iff_of_true (leavesTarget_opened target _) (.inr accepts)

/-- A failed call leaves the target as it was exactly if the source is too
short, or the target already has the length of the data; otherwise it is
resized. -/
theorem target_left_iff (sodium : Sodium) (box : SecretBox) (sealedBox : SealedBox)
    (target source : Bytes) :
    (∀ key, LeavesTarget target (decrypted box target source key) ↔
      source.length < kMacBytes + kNonceBytes ∨
        target.length = source.length - kMacBytes - kNonceBytes ∨ ¬RefusesBox box source key) ∧
    ∀ privKey, LeavesTarget target (openData sodium sealedBox target source privKey) ↔
      source.length < kSealBytes ∨ target.length = source.length - kSealBytes ∨
        ¬RefusesSealed sodium sealedBox source privKey :=
  ⟨decryptData_leaves_iff box target source, openData_leaves_iff sodium sealedBox target source⟩

/-- A source of forty ones is no secret box: one byte in the target is lost. -/
theorem refused_box_empties_target :
    ¬LeavesTarget [7] (decrypted .transparent [7] (List.replicate 40 1)
      (.holding (.replicate _ 0) .noAccess)) := by
  intro leaves
  have kept := leaves [] rfl
  contradiction

end Cscrypto.Cipher
