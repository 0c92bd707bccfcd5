import Cscrypto.Gui.Composition
import Cscrypto.Gui.SigningKey

namespace Cscrypto.Gui

open Cscrypto.Base58 Cscrypto.Cipher Cscrypto.Data Cscrypto.KeysDerivation

/-! # Signatures from one window to another

A user signs with a key of his list, and another one enters the two lines and
the same input.  For a text the signature is accepted; in file mode it is
accepted with any file, because what is signed is a buffer that stays zero.
-/

/-- What is signed or verified: a text, or a file with its content. -/
inductive SignInput where
  | text (message : Bytes)
  | file (fileName : String) (content : Bytes)

namespace SignInput

def events : SignInput → List SignEvent
  | .text message => [.activateFileMode .unchecked, .editMessage message]
  | .file fileName content => [.activateFileMode .checked, .loadDataFromFile fileName (some content)]

/-- The text, or the buffer for the hash of the file, which stays as it was
before the hash was computed. -/
def message : SignInput → Bytes
  | .text message => message
  | .file _ _ => List.replicate kHashSize 0

/-- The text is not empty, and a file has been chosen. -/
def Given : SignInput → Prop
  | .text message => message ≠ []
  | .file fileName _ => fileName ≠ ""

theorem Given.nonempty {input : SignInput} (given : input.Given) : input.message ≠ [] := by
  cases input with
  | text message => exact given
  | file fileName content => simp [message]

end SignInput

namespace SignRun

variable {calculateHash : Bytes → Hash} {sodium : Sodium} {run : SignRun}

/-- The input is the message, and the keys, the lines and the buttons are left
alone. -/
theorem steps_input (invariant : run.Invariant) {input : SignInput} (given : input.Given) :
    ∃ fileMode signingMsg fileHash fileName statusBar loaded,
      run.steps calculateHash sodium input.events = .ok
        ⟨{ run.widget with fileMode, signingMsg, fileHash, fileName, statusBar }, loaded,
          run.calls⟩ ∧
      (if fileMode then fileHash else signingMsg) = input.message := by
  cases input with
  | text message =>
      exact ⟨false, message, run.widget.fileHash, run.widget.fileName, _, run.loaded, rfl, rfl⟩
  | file fileName content =>
      have stays : run.widget.fileHash.take kHashSize ++
          List.replicate (kHashSize - run.widget.fileHash.length) 0 =
          (List.replicate kHashSize 0 : Bytes) := by
        rcases invariant.file with ⟨_, before⟩ | ⟨_, before⟩ <;> rw [before] <;> rfl
      refine ⟨true, run.widget.signingMsg, List.replicate kHashSize 0, fileName, "File was loaded!",
        some content, ?_, rfl⟩
      have named : fileName ≠ "" := given
      simp [steps, SignInput.events, step, activateFileMode, update, loadDataFromFile, named, stays]

/-- What a user does to sign with a row of the list. -/
def signs (run : SignRun) (row : Nat) (input : SignInput) : List SignEvent :=
  [.activateSignMode, .chooseSigningKey, .signingKeyChosen row,
    .setSigningKey run.widget.dialogs.length] ++ input.events ++ [.signMsg]

/-- What another one does to verify what is in the two lines. -/
def verifies (publicKey signature : Bytes) (input : SignInput) : List SignEvent :=
  [.activateVerificationMode] ++ input.events ++
    [.editSignature signature, .editKey publicKey, .verifySignature]

/-- Ok in a new dialog, whatever other dialogs are open. -/
theorem steps_chooses {row : Nat} {pair : KeyPair} (listed : run.widget.keys[row]? = some pair) :
    ∃ next, run.steps calculateHash sodium [.activateSignMode, .chooseSigningKey,
        .signingKeyChosen row, .setSigningKey run.widget.dialogs.length] = .ok next ∧
      next.widget.operatingKeyLine = EncodeBase58 pair.1.bytes ∧ next.widget.signEnabled = true ∧
      KeyListModel.getKeyPair next.widget.keys next.widget.currentIndex = pair := by
  obtain ⟨below, _⟩ := List.getElem?_eq_some_iff.mp listed
  have rows : run.widget.keys ≠ [] := by
    intro none
    rw [none] at below
    contradiction
  have opens : run.activateSignMode.chooseSigningKey =
      run.activateSignMode.update fun widget => { widget with dialogs := widget.dialogs ++ [false] } :=
    if_neg rows
  have opened : run.activateSignMode.chooseSigningKey.widget.dialogs =
      run.widget.dialogs ++ [false] := by rw [opens]; rfl
  have chosen : run.activateSignMode.chooseSigningKey.step calculateHash sodium
      (.signingKeyChosen row) = .ok (run.activateSignMode.chooseSigningKey.signingKeyChosen row) := by
    refine congrArg Except.ok (if_pos ⟨?_, ?_⟩)
    · simp [opened]
    · rw [opens]
      exact below
  have pressed : (run.activateSignMode.chooseSigningKey.signingKeyChosen row).widget.dialogs[
      run.widget.dialogs.length]? = some true := by
    rw [signingKeyChosen, update, opened]
    simp
  refine ⟨(run.activateSignMode.chooseSigningKey.signingKeyChosen row).setSigningKey
    run.widget.dialogs.length, ?_, ?_, rfl, ?_⟩
  · exact foldlM_cons_ok.mpr ⟨_, rfl, foldlM_cons_ok.mpr ⟨_, rfl, foldlM_cons_ok.mpr ⟨_, chosen,
      foldlM_cons_ok.mpr ⟨_, congrArg Except.ok (if_pos pressed), rfl⟩⟩⟩⟩
  · rw [opens]
    simp [setSigningKey, signingKeyChosen, update, activateSignMode, KeyListModel.data, listed]
  · rw [opens]
    simp [setSigningKey, signingKeyChosen, update, activateSignMode, KeyListModel.getKeyPair, listed]

/-- The signature of the input, whatever the window shows before. -/
theorem steps_signs (invariant : run.Invariant) {row : Nat} {publicKey : PublicKey}
    {secret : SecretKey} (listed : run.widget.keys[row]? = some (publicKey, .holding secret))
    {input : SignInput} (given : input.Given) :
    ∃ next, run.steps calculateHash sodium (run.signs row input) = .ok next ∧
      next.widget.statusBar = "Message signed. New signature has been generated." ∧
      next.widget.operatingKeyLine = EncodeBase58 publicKey.bytes ∧
      next.widget.signatureLine = EncodeBase58 (sodium.signDetached secret input.message).bytes := by
  obtain ⟨ready, chosen, line, enabled, key⟩ := @steps_chooses calculateHash sodium run row _ listed
  have still : ready.Invariant :=
    foldlM_preserves (fun _ _ _ invariant stepped => invariant.step (step_effect stepped)) invariant
      chosen
  obtain ⟨fileMode, signingMsg, fileHash, fileName, statusBar, loaded, entered, message⟩ :=
    @steps_input calculateHash sodium ready still input given
  generalize same : SignRun.mk _ _ _ = entry at entered
  have button : entry.widget.signEnabled = true := by
    rw [← same]
    exact enabled
  have current : KeyListModel.getKeyPair entry.widget.keys entry.widget.currentIndex =
      (publicKey, .holding secret) := by
    rw [← same]
    exact key
  have shown : entry.widget.operatingKeyLine = EncodeBase58 publicKey.bytes := by
    rw [← same]
    exact line
  have said : entry.message = input.message := by
    rw [← same]
    exact message
  have nonempty : entry.message ≠ [] := said ▸ given.nonempty
  obtain ⟨next, signed, status, kept, signature⟩ : ∃ next,
      entry.step calculateHash sodium .signMsg = .ok next ∧
      next.widget.statusBar = "Message signed. New signature has been generated." ∧
      next.widget.operatingKeyLine = entry.widget.operatingKeyLine ∧
      next.widget.signatureLine =
        EncodeBase58 (sodium.signDetached secret input.message).bytes := by
    rw [step, if_pos button, signMsg, if_neg nonempty, current, said]
    exact ⟨_, rfl, rfl, rfl, rfl⟩
  refine ⟨next, ?_, status, kept.trans shown, signature⟩
  rw [signs, steps, List.append_assoc, List.foldlM_append]
  refine bind_eq_ok.mpr ⟨_, chosen, ?_⟩
  exact foldlM_concat_ok.mpr ⟨_, entered, signed⟩

theorem decodeArray_EncodeBase58 {size : Nat} (bytes : ByteArray size) :
    decodeArray size (EncodeBase58 bytes.bytes) = some bytes := by
  simp only [decodeArray, DecodeBase58_EncodeBase58, bytes.size_eq, dif_pos]

theorem encodeBase58_ne_nil {size : Nat} (bytes : ByteArray (size + 1)) :
    EncodeBase58 bytes.bytes ≠ [] := by
  intro empty
  have same := @EncodeBase58_injective bytes.bytes [] (empty.trans rfl)
  have length := bytes.size_eq
  rw [same] at length
  contradiction

theorem verifySignature_lines {publicKey : PublicKey} {signature : Signature}
    (line : run.widget.signatureLine = EncodeBase58 signature.bytes)
    (key : run.widget.operatingKeyLine = EncodeBase58 publicKey.bytes)
    (nonempty : run.message ≠ []) :
    (run.verifySignature sodium).widget.statusBar =
      if Cscrypto.verifySignature sodium signature publicKey run.message
      then "Correct signature!" else "Incorrect signature!" := by
  have entered : run.widget.signatureLine ≠ [] := line ▸ encodeBase58_ne_nil signature
  have known : run.widget.operatingKeyLine ≠ [] := key ▸ encodeBase58_ne_nil publicKey
  rw [verifySignature, if_neg entered, if_neg nonempty, if_neg known]
  simp only [line, key, decodeArray_EncodeBase58]
  rfl

theorem steps_verifies (invariant : run.Invariant) (publicKey : PublicKey) (signature : Signature)
    {input : SignInput} (given : input.Given) :
    ∃ next, run.steps calculateHash sodium
        (verifies (EncodeBase58 publicKey.bytes) (EncodeBase58 signature.bytes) input) = .ok next ∧
      next.widget.statusBar = if Cscrypto.verifySignature sodium signature publicKey input.message
        then "Correct signature!" else "Incorrect signature!" := by
  have still : run.activateVerificationMode.Invariant := invariant.step (.kept rfl rfl rfl)
  obtain ⟨fileMode, signingMsg, fileHash, fileName, statusBar, loaded, entered, message⟩ :=
    @steps_input calculateHash sodium run.activateVerificationMode still input given
  generalize same : SignRun.mk _ _ _ = entry at entered
  have editable : entry.widget.signatureReadOnly = false ∧ entry.widget.keyReadOnly = false ∧
      entry.widget.verifyEnabled = true := by
    rw [← same]
    exact ⟨rfl, rfl, rfl⟩
  have said : entry.message = input.message := by
    rw [← same]
    exact message
  obtain ⟨signatureEditable, keyEditable, button⟩ := editable
  generalize filling : (entry.update ({ · with
    signatureLine := EncodeBase58 signature.bytes })).update ({ · with
    operatingKeyLine := EncodeBase58 publicKey.bytes }) = filled
  have filled_message : filled.message = input.message := by
    rw [← filling]
    exact said
  have first : entry.step calculateHash sodium (.editSignature (EncodeBase58 signature.bytes)) =
      .ok (entry.update ({ · with signatureLine := EncodeBase58 signature.bytes })) :=
    congrArg Except.ok (if_neg (by simp [signatureEditable]))
  have second : (entry.update ({ · with signatureLine := EncodeBase58 signature.bytes })).step
      calculateHash sodium (.editKey (EncodeBase58 publicKey.bytes)) = .ok filled := by
    rw [← filling]
    exact congrArg Except.ok (if_neg (by simp [update, keyEditable]))
  have third : filled.step calculateHash sodium .verifySignature =
      .ok (filled.verifySignature sodium) := by
    rw [← filling]
    exact congrArg Except.ok (if_pos button)
  refine ⟨filled.verifySignature sodium, ?_, ?_⟩
  · rw [verifies, steps, List.append_assoc, List.foldlM_append]
    refine bind_eq_ok.mpr ⟨_, rfl, ?_⟩
    rw [List.foldlM_append]
    refine bind_eq_ok.mpr ⟨_, entered, ?_⟩
    exact foldlM_cons_ok.mpr ⟨_, first, foldlM_cons_ok.mpr ⟨_, second,
      foldlM_cons_ok.mpr ⟨_, third, rfl⟩⟩⟩
  · rw [← filled_message]
    refine verifySignature_lines ?_ ?_ ?_
    · rw [← filling]
      rfl
    · rw [← filling]
      rfl
    · rw [filled_message]
      exact given.nonempty

end SignRun

namespace System

variable {lib : MainLib} {memory : Nat → Memory} {disks : Nat → Disk}
  {records : Nat → Option Table} {system : System} {name : Nat}

theorem run_sign (up : system.down name = false) {events : List SignEvent}
    (taken : ∀ event ∈ events, ∀ window : MainWidget, window.takes (.sign event) = true)
    {sign : SignRun}
    (ran : (system.windows name).sign.steps lib.calculateHash lib.sodium events = .ok sign) :
    system.run lib (events.map fun event => ⟨name, .sign event⟩) =
      system.setWindow name { system.windows name with sign } := by
  refine run_tab MainEvent.sign (fun sign => { system.windows name with sign }) up rfl
    (fun _ => rfl) ?_ ran
  intro tab event next member stepped
  exact ⟨⟨by simp, by simp⟩, taken event member _, bind_eq_ok.mpr ⟨_, stepped, rfl⟩⟩

def signs (system : System) (name row : Nat) (input : SignInput) : List Happening :=
  ((system.windows name).sign.signs row input).map fun event => ⟨name, .sign event⟩

def verifies (name : Nat) (publicKey signature : Bytes) (input : SignInput) : List Happening :=
  (SignRun.verifies publicKey signature input).map fun event => ⟨name, .sign event⟩

/-- A process has used its sign tab, and this is its message. -/
structure Says (system next : System) (name : Nat) (message : String) : Prop
    extends OnlyIn name system next where
  message : (next.windows name).sign.widget.statusBar = message

theorem Composed.sign_invariant (composed : Composed lib memory disks system) (name : Nat) :
    (system.windows name).sign.Invariant :=
  (composed.windows name).sign.preserves
    (fun _ _ _ invariant stepped => invariant.step (SignRun.step_effect stepped))
    ⟨.inl ⟨rfl, rfl⟩, fun _ member => absurd member List.not_mem_nil⟩

theorem Composed.signs (composed : Composed lib memory disks system)
    (up : system.down name = false) {row : Nat} {publicKey : PublicKey} {secret : SecretKey}
    (listed : (system.windows name).keyFiles.widget.keys[row]? =
      some (publicKey, .holding secret)) {input : SignInput} (given : input.Given) :
    Says system (system.run lib (system.signs name row input)) name
        "Message signed. New signature has been generated." ∧
      ((system.run lib (system.signs name row input)).windows name).sign.widget.operatingKeyLine =
        EncodeBase58 publicKey.bytes ∧
      ((system.run lib (system.signs name row input)).windows name).sign.widget.signatureLine =
        EncodeBase58 (lib.sodium.signDetached secret input.message).bytes := by
  rw [← (composed.windows name).signKeys] at listed
  obtain ⟨sign, ran, status, line, signature⟩ := @SignRun.steps_signs lib.calculateHash lib.sodium
    _ (composed.sign_invariant name) row publicKey secret listed input given
  have taken : ∀ event ∈ (system.windows name).sign.signs row input, ∀ window : MainWidget,
      window.takes (.sign event) = true := by
    intro event member window
    cases event with
    | addKeyPair pair => cases input <;> simp [SignRun.signs, SignInput.events] at member
    | _ => rfl
  have own : (system.setWindow name { system.windows name with sign }).windows name =
      { system.windows name with sign } := Function.update_self _ _ _
  rw [System.signs, run_sign up taken ran, own]
  exact ⟨⟨onlyIn_setWindow rfl, by rw [own]; exact status⟩, line, signature⟩

theorem Composed.verifies (composed : Composed lib memory disks system)
    (up : system.down name = false) (publicKey : PublicKey) (signature : Signature)
    {input : SignInput} (given : input.Given) :
    Says system (system.run lib (verifies name (EncodeBase58 publicKey.bytes)
        (EncodeBase58 signature.bytes) input)) name
      (if Cscrypto.verifySignature lib.sodium signature publicKey input.message
        then "Correct signature!" else "Incorrect signature!") := by
  obtain ⟨sign, ran, status⟩ := @SignRun.steps_verifies lib.calculateHash lib.sodium _
    (composed.sign_invariant name) publicKey signature input given
  have taken : ∀ event ∈ SignRun.verifies (EncodeBase58 publicKey.bytes)
      (EncodeBase58 signature.bytes) input, ∀ window : MainWidget,
      window.takes (.sign event) = true := by
    intro event member window
    cases event with
    | addKeyPair pair => cases input <;> simp [SignRun.verifies, SignInput.events] at member
    | _ => rfl
  have own : (system.setWindow name { system.windows name with sign }).windows name =
      { system.windows name with sign } := Function.update_self _ _ _
  rw [System.verifies, run_sign up taken ran]
  exact ⟨onlyIn_setWindow rfl, by rw [own]; exact status⟩

end System

/-- In any reachable state of any number of processes: what a user signs with a
key of his list is accepted by another one exactly if libsodium accepts it for
the other's message, and two files have the same message. -/
theorem signatures_travel {lib : MainLib} (carries : Carries lib.sign) {memory : Nat → Memory}
    {disks : Nat → Disk} {records : Nat → Option Table} {happenings : List Happening}
    {system : System} (reached : system = (System.initial memory disks records).run lib happenings)
    {signer verifier row : Nat} {pair : KeyPair} (up : system.down signer = false)
    (up' : system.down verifier = false)
    (listed : (system.windows signer).keyFiles.widget.keys[row]? = some pair) {input : SignInput}
    (given : input.Given) :
    ∃ secret signature signed, pair = (lib.sign.skToPk secret, .holding secret) ∧
      signature = lib.sodium.signDetached secret input.message ∧
      signed = system.run lib (system.signs signer row input) ∧
      System.Says system signed signer "Message signed. New signature has been generated." ∧
      ∀ input' : SignInput, input'.Given →
        ∃ verified, verified = signed.run lib (System.verifies verifier
            (signed.windows signer).sign.widget.operatingKeyLine
            (signed.windows signer).sign.widget.signatureLine input') ∧
          System.Says signed verified verifier
            (if verifySignature lib.sodium signature pair.1 input'.message
              then "Correct signature!" else "Incorrect signature!") ∧
          (SignsFor lib.sodium pair.1 secret → input'.message = input.message →
            (verified.windows verifier).sign.widget.statusBar = "Correct signature!") := by
  have composed := System.run_composed carries memory disks records happenings
  rw [← reached] at composed
  obtain ⟨secret, rfl⟩ := (composed.windows signer).held pair (List.mem_of_getElem? listed)
  obtain ⟨signed, line, signature⟩ := composed.signs up listed given
  refine ⟨secret, _, _, rfl, rfl, rfl, signed, ?_⟩
  intro input' given'
  have later := System.run_composed carries memory disks records
    (happenings ++ system.signs signer row input)
  rw [System.run, List.foldl_append, ← System.run, ← System.run, ← reached] at later
  have verified := later.verifies ((signed.down verifier).trans up') (lib.sign.skToPk secret)
    (lib.sodium.signDetached secret input.message) given'
  rw [line, signature]
  refine ⟨_, rfl, verified, fun accepts same => ?_⟩
  rw [verified.message, same]
  exact if_pos (accepts _)

/-- The signature of one file is accepted with another file. -/
theorem signatures_travel_files : ∃ signed verified,
    signed = (freshSystem.run .transparent twoPairs).run .transparent
      ((freshSystem.run .transparent twoPairs).signs 0 1 (.file "first" [1])) ∧
    verified = signed.run .transparent (System.verifies 1
      (signed.windows 0).sign.widget.operatingKeyLine
      (signed.windows 0).sign.widget.signatureLine (.file "second" [2])) ∧
    (verified.windows 1).sign.widget.statusBar = "Correct signature!" := by
  have up : (freshSystem.run .transparent twoPairs).down 0 = false := rfl
  have up' : (freshSystem.run .transparent twoPairs).down 1 = false := rfl
  obtain ⟨pair, listed⟩ : ∃ pair, ((freshSystem.run .transparent twoPairs).windows
      0).keyFiles.widget.keys[1]? = some pair := ⟨_, rfl⟩
  have given : (SignInput.file "first" [1]).Given := fun (same : "first" = "") => by contradiction
  have given' : (SignInput.file "second" [2]).Given := fun (same : "second" = "") => by contradiction
  obtain ⟨secret, _, signed, rfl, _, ran, _, verifies⟩ :=
    @signatures_travel .transparent carries_transparent (fun _ => someMemory)
      (fun _ => .single "source" [1, 2, 3]) (fun _ => some []) twoPairs
      (freshSystem.run .transparent twoPairs) rfl 0 1 1 pair up up' listed _ given
  obtain ⟨verified, again, _, accepts⟩ := verifies _ given'
  exact ⟨signed, verified, ran, again, accepts (transparent_signsFor secret) rfl⟩

end Cscrypto.Gui
