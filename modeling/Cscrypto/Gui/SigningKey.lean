import Cscrypto.Gui.SignWidget

namespace Cscrypto.Gui

open Cscrypto.Base58 Cscrypto.Data

/-! # The key that is shown and the key that signs

The key line is written when the Ok button of a key dialog is pressed, and
`signMsg` reads the current row of the list when the Sign button is.  In between
the row, the line and the button change independently of each other.
-/

/-- The public key in a row of the list whose private key can sign. -/
def SignWidget.keyAt (widget : SignWidget) (row : Option Nat) : Option PublicKey :=
  match row.bind (widget.keys[·]?) with
  | some (publicKey, ⟨some _⟩) => some publicKey
  | _ => none

/-- The key with which a click on Sign would sign. -/
def SignWidget.signingKey (widget : SignWidget) : Option PublicKey :=
  if widget.signEnabled then widget.keyAt widget.currentIndex else none

namespace SignRun

/-- The signature is made with the private key of the public key in the line. -/
def SignedWithShown (sodium : Sodium) (run : SignRun) (publicKey : PublicKey)
    (signature : Signature) : Prop :=
  run.widget.operatingKeyLine = EncodeBase58 publicKey.bytes ∧
    ∃ privateKey, (publicKey, privateKey) ∈ run.widget.keys ∧
      generateSignature sodium privateKey run.message = .ok signature

/-- The events by which the user sets what is signed. -/
def SetsMessage : SignEvent → Prop
  | .activateFileMode _ => True
  | .editMessage _ => True
  | .loadDataFromFile _ _ => True
  | _ => False

/-- Whatever is set as the message first, if anything, a click on Sign that
makes a signature makes it with the key that is shown. -/
def SignsShown (calculateHash : Bytes → Hash) (sodium : Sodium) (run : SignRun) : Prop :=
  ∀ events, (∀ event ∈ events, SetsMessage event) → ∀ ready signed,
    run.steps calculateHash sodium events = .ok ready →
    ready.step calculateHash sodium .signMsg = .ok signed →
    ∀ use publicKey signature, signed.calls = ready.calls ++ [.signed use publicKey signature] →
      SignedWithShown sodium ready publicKey signature

/-- While the Sign button is enabled the mode is not chosen again, no row with
another key is selected, and the line is not edited. -/
def KeepsShown (run : SignRun) : SignEvent → Prop
  | .activateSignMode => run.widget.signingKey = none
  | .moveCurrentIndex row => run.widget.dialogs ≠ [] → run.widget.signEnabled = true →
      ∀ publicKey, run.widget.keyAt (some row) = some publicKey →
        run.widget.operatingKeyLine = EncodeBase58 publicKey.bytes
  | .signingKeyChosen row => run.widget.dialogs ≠ [] → run.widget.signEnabled = true →
      ∀ publicKey, run.widget.keyAt (some row) = some publicKey →
        run.widget.operatingKeyLine = EncodeBase58 publicKey.bytes
  | .editKey text => run.widget.keyReadOnly = false →
      ∀ publicKey, run.widget.signingKey = some publicKey → text = EncodeBase58 publicKey.bytes
  | _ => True

/-- The line shows the key that would sign. -/
def Shown (run : SignRun) : Prop :=
  ∀ publicKey, run.widget.signingKey = some publicKey →
    run.widget.operatingKeyLine = EncodeBase58 publicKey.bytes

def ValidIndex (run : SignRun) : Prop :=
  ∀ row, run.widget.currentIndex = some row → row < run.widget.keys.length

variable {calculateHash : Bytes → Hash} {sodium : Sodium} {run next : SignRun}

theorem keyAt_eq_some {widget : SignWidget} {row : Option Nat} {publicKey : PublicKey} :
    widget.keyAt row = some publicKey ↔
      ∃ secret, row.bind (widget.keys[·]?) = some (publicKey, .holding secret) := by
  unfold SignWidget.keyAt PrivateKey.holding
  rcases row.bind (widget.keys[·]?) with _ | ⟨found, ⟨_ | secret⟩⟩ <;> simp

/-- A signature is made with the key of the current row. -/
theorem signMsg_signed {use : Use} {publicKey : PublicKey} {signature : Signature}
    (stepped : run.step calculateHash sodium .signMsg = .ok next)
    (calls : next.calls = run.calls ++ [.signed use publicKey signature]) :
    run.widget.signingKey = some publicKey ∧
      ∃ privateKey, (publicKey, privateKey) ∈ run.widget.keys ∧
        generateSignature sodium privateKey run.message = .ok signature := by
  have longer : next.calls ≠ run.calls := by simp [calls]
  simp only [step] at stepped
  split at stepped
  · rename_i enabled
    unfold signMsg at stepped
    split at stepped
    · cases stepped
      exact absurd rfl longer
    · obtain ⟨made, generated, same⟩ := bind_eq_ok.mp stepped
      cases same
      have last := List.append_cancel_left calls
      cases last
      cases found : run.widget.currentIndex.bind (run.widget.keys[·]?) with
      | none =>
          rw [KeyListModel.getKeyPair, found] at generated
          contradiction
      | some pair =>
          obtain ⟨publicKey, ⟨_ | secret⟩⟩ := pair
          · rw [KeyListModel.getKeyPair, found] at generated
            contradiction
          · have pair : KeyListModel.getKeyPair run.widget.keys run.widget.currentIndex =
                (publicKey, .holding secret) := by
              rw [KeyListModel.getKeyPair, found]
              rfl
            rw [pair] at generated ⊢
            refine ⟨?_, .holding secret, ?_, generated⟩
            · rw [SignWidget.signingKey, if_pos enabled, keyAt_eq_some]
              exact ⟨secret, found⟩
            · obtain ⟨row, _, at_row⟩ := Option.bind_eq_some_iff.mp found
              exact List.mem_of_getElem? at_row
  · cases stepped
    exact absurd rfl longer

theorem signMsg_of_signingKey {publicKey : PublicKey}
    (key : run.widget.signingKey = some publicKey) (nonempty : run.message ≠ []) :
    ∃ next signature, run.step calculateHash sodium .signMsg = .ok next ∧
      next.calls = run.calls ++ [.signed run.use publicKey signature] := by
  unfold SignWidget.signingKey at key
  split at key
  · rename_i enabled
    obtain ⟨secret, found⟩ := keyAt_eq_some.mp key
    have pair : KeyListModel.getKeyPair run.widget.keys run.widget.currentIndex =
        (publicKey, .holding secret) := by
      rw [KeyListModel.getKeyPair, found]
      rfl
    have ran : run.step calculateHash sodium .signMsg = run.signMsg sodium := if_pos enabled
    rw [ran, signMsg, if_neg nonempty, pair]
    exact ⟨_, _, rfl, rfl⟩
  · contradiction

structure SameKey (run next : SignRun) : Prop where
  line : next.widget.operatingKeyLine = run.widget.operatingKeyLine
  enabled : next.widget.signEnabled = run.widget.signEnabled
  index : next.widget.currentIndex = run.widget.currentIndex
  keys : next.widget.keys = run.widget.keys

theorem SameKey.refl (run : SignRun) : SameKey run run := ⟨rfl, rfl, rfl, rfl⟩

theorem SameKey.trans {last : SignRun} (first : SameKey run next) (second : SameKey next last) :
    SameKey run last where
  line := second.line.trans first.line
  enabled := second.enabled.trans first.enabled
  index := second.index.trans first.index
  keys := second.keys.trans first.keys

theorem SameKey.of_ite {left right : SignRun} {condition : Prop} [Decidable condition]
    (yes : SameKey run left) (no : SameKey run right) :
    SameKey run (if condition then left else right) := by
  split
  · exact yes
  · exact no

theorem SameKey.signingKey (same : SameKey run next) :
    next.widget.signingKey = run.widget.signingKey := by
  rw [SignWidget.signingKey, SignWidget.signingKey, SignWidget.keyAt, SignWidget.keyAt,
    same.enabled, same.index, same.keys]

theorem SameKey.shown (same : SameKey run next) (shown : run.Shown) : next.Shown := by
  intro publicKey key
  rw [same.signingKey] at key
  rw [same.line]
  exact shown publicKey key

theorem SameKey.validIndex (same : SameKey run next) (valid : run.ValidIndex) :
    next.ValidIndex := by
  intro row at_row
  rw [same.index] at at_row
  rw [same.keys]
  exact valid row at_row

theorem loadDataFromFile_sameKey (run : SignRun) (fileName : String) (content : Option Bytes) :
    SameKey run (run.loadDataFromFile calculateHash fileName content) := by
  unfold loadDataFromFile
  split
  · exact ⟨rfl, rfl, rfl, rfl⟩
  · cases content with
    | none => exact ⟨rfl, rfl, rfl, rfl⟩
    | some data => exact ⟨rfl, rfl, rfl, rfl⟩

theorem signMsg_sameKey (ran : run.signMsg sodium = .ok next) : SameKey run next := by
  unfold signMsg at ran
  split at ran
  · cases ran
    exact ⟨rfl, rfl, rfl, rfl⟩
  · obtain ⟨signature, _, same⟩ := bind_eq_ok.mp ran
    cases same
    exact ⟨rfl, rfl, rfl, rfl⟩

theorem verifySignature_sameKey (run : SignRun) : SameKey run (run.verifySignature sodium) := by
  unfold verifySignature
  split
  · exact ⟨rfl, rfl, rfl, rfl⟩
  split
  · exact ⟨rfl, rfl, rfl, rfl⟩
  split
  all_goals
    dsimp only
    split
    · exact ⟨rfl, rfl, rfl, rfl⟩
    split
    · exact ⟨rfl, rfl, rfl, rfl⟩
    · exact ⟨rfl, rfl, rfl, rfl⟩

theorem setsMessage_sameKey {event : SignEvent} (sets : SetsMessage event)
    (stepped : run.step calculateHash sodium event = .ok next) : SameKey run next := by
  cases event with
  | activateFileMode value =>
      cases stepped
      cases value with
      | unchecked => exact ⟨rfl, rfl, rfl, rfl⟩
      | checked => exact ⟨rfl, rfl, rfl, rfl⟩
      | partiallyChecked => exact .refl _
  | editMessage text =>
      cases stepped
      exact .of_ite (.refl run) ⟨rfl, rfl, rfl, rfl⟩
  | loadDataFromFile fileName content =>
      cases stepped
      exact .of_ite (loadDataFromFile_sameKey run fileName content) (.refl run)
  | _ => contradiction

theorem steps_sameKey {events : List SignEvent} (sets : ∀ event ∈ events, SetsMessage event)
    (ran : run.steps calculateHash sodium events = .ok next) : SameKey run next := by
  induction events generalizing run with
  | nil =>
      cases ran
      exact .refl _
  | cons event rest ih =>
      obtain ⟨middle, stepped, ran⟩ := foldlM_cons_ok.mp ran
      have first := setsMessage_sameKey (sets event List.mem_cons_self) stepped
      exact first.trans (ih (fun other inside => sets other (List.mem_cons_of_mem _ inside)) ran)

/-- The user can always type a message. -/
theorem signsShown_iff (calculateHash : Bytes → Hash) (sodium : Sodium) (run : SignRun) :
    run.SignsShown calculateHash sodium ↔ run.Shown := by
  constructor
  · intro signs publicKey key
    let typing : List SignEvent := [.activateFileMode .unchecked, .editMessage (ascii "a")]
    have sets : ∀ event ∈ typing, SetsMessage event := by simp [typing, SetsMessage]
    obtain ⟨ready, ran, nonempty⟩ : ∃ ready, run.steps calculateHash sodium typing = .ok ready ∧
        ready.message ≠ [] := ⟨_, rfl, List.cons_ne_nil _ _⟩
    have same := steps_sameKey sets ran
    obtain ⟨signed, signature, stepped, calls⟩ :=
      signMsg_of_signingKey (same.signingKey.trans key) nonempty
    rw [← same.line]
    exact (signs typing sets ready signed ran stepped _ publicKey signature calls).1
  · intro shown events sets ready signed ran stepped use publicKey signature calls
    obtain ⟨key, listed⟩ := signMsg_signed stepped calls
    exact ⟨(steps_sameKey sets ran).shown shown publicKey key, listed⟩

theorem encoded_nonempty (publicKey : PublicKey) : EncodeBase58 publicKey.bytes ≠ [] := by
  intro empty
  have decoded := DecodeBase58_EncodeBase58 publicKey.bytes
  rw [empty] at decoded
  have sizes := congrArg List.length (Option.some.inj decoded)
  rw [publicKey.size_eq] at sizes
  contradiction

theorem keyAt_data {keys : List KeyPair} {widget : SignWidget} {row : Option Nat}
    {publicKey : PublicKey} (same : widget.keys = keys)
    (key : widget.keyAt row = some publicKey) :
    KeyListModel.data keys row = EncodeBase58 publicKey.bytes := by
  obtain ⟨secret, found⟩ := keyAt_eq_some.mp key
  rw [same] at found
  rw [KeyListModel.data, found]

/-- Selecting a row of the list. -/
theorem select_shown {row : Nat} {dialogs : List Bool} (keeps : run.widget.signEnabled = true →
      ∀ publicKey, run.widget.keyAt (some row) = some publicKey →
        run.widget.operatingKeyLine = EncodeBase58 publicKey.bytes) :
    Shown (run.update ({ · with currentIndex := some row, dialogs })) := by
  intro publicKey key
  unfold SignWidget.signingKey at key
  split at key
  · rename_i enabled
    exact keeps enabled publicKey key
  · contradiction

/-- A new pair comes after the current row. -/
theorem addKeyPair_shown (shown : run.Shown) (valid : run.ValidIndex) (pair : KeyPair) :
    Shown (run.update (fun widget => { widget with keys := widget.keys ++ [pair] })) := by
  intro publicKey key
  refine shown publicKey ?_
  rw [← key]
  have found : run.widget.currentIndex.bind ((run.widget.keys ++ [pair])[·]?) =
      run.widget.currentIndex.bind (run.widget.keys[·]?) := by
    cases at_row : run.widget.currentIndex with
    | none => rfl
    | some row => exact List.getElem?_append_left (valid row at_row)
  simp only [SignWidget.signingKey, SignWidget.keyAt, update, found]

theorem addKeyPair_validIndex (valid : run.ValidIndex) (pair : KeyPair) :
    ValidIndex (run.update (fun widget => { widget with keys := widget.keys ++ [pair] })) := by
  intro row at_row
  refine (valid row at_row).trans ?_
  simp [update]

/-- The events that reach the row, the line, the list or the Sign button. -/
def TouchesKey : SignEvent → Bool
  | .activateSignMode | .activateVerificationMode | .moveCurrentIndex _ | .signingKeyChosen _
  | .setSigningKey _ | .editKey _ | .addKeyPair _ => true
  | _ => false

theorem step_sameKey {event : SignEvent} (apart : TouchesKey event = false)
    (stepped : run.step calculateHash sodium event = .ok next) : SameKey run next := by
  cases event with
  | signMsg =>
      rw [SignRun.step] at stepped
      split at stepped
      · exact signMsg_sameKey stepped
      · cases stepped
        exact .refl run
  | verifySignature =>
      cases stepped
      exact .of_ite (verifySignature_sameKey run) (.refl run)
  | chooseSigningKey =>
      cases stepped
      exact .of_ite (.of_ite (.refl run) ⟨rfl, rfl, rfl, rfl⟩) (.refl run)
  | closeDialog dialog =>
      cases stepped
      exact ⟨rfl, rfl, rfl, rfl⟩
  | editSignature text =>
      cases stepped
      exact .of_ite (.refl run) ⟨rfl, rfl, rfl, rfl⟩
  | activateFileMode value => exact setsMessage_sameKey (by trivial) stepped
  | editMessage text => exact setsMessage_sameKey (by trivial) stepped
  | loadDataFromFile fileName content => exact setsMessage_sameKey (by trivial) stepped
  | _ => contradiction

theorem ValidIndex.step (valid : run.ValidIndex) {event : SignEvent}
    (stepped : run.step calculateHash sodium event = .ok next) : next.ValidIndex := by
  cases apart : TouchesKey event with
  | false => exact (step_sameKey apart stepped).validIndex valid
  | true =>
      cases event with
      | moveCurrentIndex row | signingKeyChosen row =>
          cases stepped
          split
          · rename_i effective
            rintro _ ⟨⟩
            exact effective.2
          · exact valid
      | setSigningKey dialog | editKey text =>
          cases stepped
          split <;> exact valid
      | addKeyPair pair =>
          cases stepped
          exact addKeyPair_validIndex valid pair
      | activateSignMode | activateVerificationMode =>
          cases stepped
          exact valid
      | _ => contradiction

/-- Ok writes the key of the current row into the line. -/
theorem setSigningKey_shown (run : SignRun) (dialog : Nat) : (run.setSigningKey dialog).Shown :=
  fun _ key => keyAt_data rfl key

theorem Shown.step (shown : run.Shown) (valid : run.ValidIndex) {event : SignEvent}
    (keeps : run.KeepsShown event) (stepped : run.step calculateHash sodium event = .ok next) :
    next.Shown := by
  cases apart : TouchesKey event with
  | false => exact (step_sameKey apart stepped).shown shown
  | true =>
      cases event with
      | activateSignMode =>
          cases stepped
          intro publicKey key
          have none_key : run.widget.signingKey = none := keeps
          exact absurd (none_key.symm.trans key) (Option.some_ne_none publicKey).symm
      | activateVerificationMode =>
          cases stepped
          intro publicKey key
          cases key
      | moveCurrentIndex row | signingKeyChosen row =>
          cases stepped
          split
          · rename_i effective
            exact select_shown (keeps effective.1)
          · exact shown
      | setSigningKey dialog =>
          cases stepped
          split
          · exact run.setSigningKey_shown dialog
          · exact shown
      | editKey text =>
          cases stepped
          split
          · exact shown
          · rename_i editable
            exact fun publicKey key => keeps (Bool.eq_false_iff.mpr editable) publicKey key
      | addKeyPair pair =>
          cases stepped
          exact addKeyPair_shown shown valid pair
      | _ => contradiction

theorem initial_validIndex : initial.ValidIndex := by
  intro row at_row
  contradiction

theorem lt_of_keyAt {widget : SignWidget} {row : Nat} {publicKey : PublicKey}
    (key : widget.keyAt (some row) = some publicKey) : row < widget.keys.length := by
  obtain ⟨secret, found⟩ := keyAt_eq_some.mp key
  obtain ⟨inside, _⟩ := List.getElem?_eq_some_iff.mp found
  exact inside

theorem select_hides {row : Nat} {dialogs : List Bool} {publicKey : PublicKey}
    (enabled : run.widget.signEnabled = true)
    (key : run.widget.keyAt (some row) = some publicKey)
    (hidden : run.widget.operatingKeyLine ≠ EncodeBase58 publicKey.bytes) :
    ¬Shown (run.update ({ · with currentIndex := some row, dialogs })) := by
  intro shown
  refine hidden (shown publicKey ?_)
  rw [← key]
  exact if_pos enabled

/-- Every event against the condition leaves a key that signs and is not shown. -/
theorem breaks_shown {event : SignEvent} (against : ¬run.KeepsShown event) :
    ∃ next, run.step calculateHash sodium event = .ok next ∧ ¬next.Shown := by
  cases event with
  | activateSignMode =>
      obtain ⟨publicKey, key⟩ := Option.ne_none_iff_exists'.mp against
      refine ⟨_, rfl, ?_⟩
      intro shown
      exact encoded_nonempty publicKey (shown publicKey key).symm
  | moveCurrentIndex row =>
      simp only [KeepsShown, Classical.not_imp, not_forall] at against
      obtain ⟨shows, enabled, publicKey, key, hidden⟩ := against
      refine ⟨_, rfl, ?_⟩
      rw [if_pos ⟨shows, lt_of_keyAt key⟩]
      exact select_hides enabled key hidden
  | signingKeyChosen row =>
      simp only [KeepsShown, Classical.not_imp, not_forall] at against
      obtain ⟨shows, enabled, publicKey, key, hidden⟩ := against
      refine ⟨_, rfl, ?_⟩
      rw [if_pos ⟨shows, lt_of_keyAt key⟩]
      exact select_hides enabled key hidden
  | editKey text =>
      simp only [KeepsShown, Classical.not_imp, not_forall] at against
      obtain ⟨editable, publicKey, key, hidden⟩ := against
      refine ⟨_, rfl, ?_⟩
      rw [editable, if_neg Bool.false_ne_true]
      intro shown
      exact hidden (shown publicKey key)
  | _ => exact absurd trivial against

/-- Ok was pressed in an open dialog, and since then no event has separated the
row, the line and the button. -/
def KeptSinceOk (calculateHash : Bytes → Hash) (sodium : Sodium) (events : List SignEvent) : Prop :=
  ∃ before dialog between run, events = before ++ .setSigningKey dialog :: between ∧
    initial.steps calculateHash sodium before = .ok run ∧ run.widget.dialogs[dialog]? = some true ∧
    EveryStep (fun run event => run.step calculateHash sodium event) KeepsShown
      (run.setSigningKey dialog) between

theorem KeptSinceOk.shown {events : List SignEvent} (kept : KeptSinceOk calculateHash sodium events)
    (ran : initial.steps calculateHash sodium events = .ok run) : run.Shown := by
  obtain ⟨before, dialog, between, start, rfl, reached, opened, keeps⟩ := kept
  rw [steps, List.foldlM_append] at ran
  obtain ⟨_, reached', ran⟩ := bind_eq_ok.mp ran
  cases reached.symm.trans reached'
  obtain ⟨_, confirmed, ran⟩ := foldlM_cons_ok.mp ran
  simp only [SignRun.step, if_pos opened, Except.ok.injEq] at confirmed
  subst confirmed
  have valid : start.ValidIndex :=
    foldlM_preserves (fun _ _ _ valid stepped => valid.step stepped) initial_validIndex reached
  have always := @EveryStep.always _ _ _ _ _ (fun run => run.Shown ∧ run.ValidIndex)
    (fun _ _ _ given keeps stepped => ⟨given.1.step given.2 keeps stepped, given.2.step stepped⟩)
    between _ ⟨start.setSigningKey_shown dialog, valid⟩ keeps
  exact (always_iff_split.mp always between [] run (List.append_nil _).symm ran).1

/-- The key that is shown is the key that signs, in every state of a run,
exactly if no event of the run separates the row, the line and the button.  For
the signatures that the run makes it is enough that none has since the last Ok. -/
theorem shown_key_signs_iff (calculateHash : Bytes → Hash) (sodium : Sodium)
    (events : List SignEvent) :
    (Always (fun run event => run.step calculateHash sodium event)
        (SignsShown calculateHash sodium) initial events ↔
      EveryStep (fun run event => run.step calculateHash sodium event) KeepsShown initial events) ∧
    ∀ before after ready signed, events = before ++ .signMsg :: after →
      initial.steps calculateHash sodium before = .ok ready →
      ready.step calculateHash sodium .signMsg = .ok signed →
      KeptSinceOk calculateHash sodium before →
      ∀ use publicKey signature, signed.calls = ready.calls ++ [.signed use publicKey signature] →
        SignedWithShown sodium ready publicKey signature := by
  have shown : initial.Shown := by
    intro publicKey key
    contradiction
  have start : initial.Shown ∧ initial.ValidIndex := ⟨shown, initial_validIndex⟩
  constructor
  · refine @always_iff_everyStep _ _ _ _ _ (fun run => run.Shown ∧ run.ValidIndex) _ ?_ ?_ ?_ _ _
      start
    · exact fun run event next given keeps stepped =>
        ⟨given.1.step given.2 keeps stepped, given.2.step stepped⟩
    · exact fun run given => (signsShown_iff calculateHash sodium run).mpr given.1
    · intro run event _ against
      obtain ⟨next, stepped, hidden⟩ : ∃ next, run.step calculateHash sodium event = .ok next ∧
          ¬next.Shown := breaks_shown against
      exact ⟨next, stepped, fun signs => hidden ((signsShown_iff _ _ _).mp signs)⟩
  · intro before after ready signed _ ran stepped kept use publicKey signature calls
    obtain ⟨key, listed⟩ := signMsg_signed stepped calls
    exact ⟨kept.shown ran publicKey key, listed⟩

/-- The second key is looked at, and the dialog closed without Ok. -/
def browseKeys : List SignEvent := [
  .addKeyPair (.replicate 32 1, .holding (.replicate 64 1)),
  .addKeyPair (.replicate 32 2, .holding (.replicate 64 2)),
  .activateSignMode, .chooseSigningKey, .signingKeyChosen 0, .setSigningKey 0,
  .chooseSigningKey, .signingKeyChosen 1, .closeDialog 0]

/-- The line shows the first key, and the second one signs. -/
theorem browsed_key_signs : ¬Always (fun run event => run.step hashOfSample .transparent event)
    (SignsShown hashOfSample .transparent) initial browseKeys := by
  intro always
  have signs := always_iff_split.mp always browseKeys [] _ rfl rfl
  have signed := signs [] (by simp) _ _ rfl rfl _ _ _ rfl
  have same := EncodeBase58_injective signed.1
  contradiction

end SignRun

end Cscrypto.Gui
