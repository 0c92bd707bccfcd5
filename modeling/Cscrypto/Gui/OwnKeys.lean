import Cscrypto.Gui.KeyRecovery
import Cscrypto.Gui.MainWidget
import Cscrypto.Gui.SigningKey

namespace Cscrypto.Gui

open Cscrypto.Base58 Cscrypto.Cipher Cscrypto.Data Cscrypto.KeysDerivation

/-! # The list of own keys

What the tabs and the key exchange do to the list that they share: some add key
pairs that belong together, and the others leave it alone.
-/

/-- Only key pairs that are added come to the list of the sign tab. -/
theorem SignRun.step_keys {calculateHash : Bytes → Hash} {sodium : Sodium} {run next : SignRun}
    {event : SignEvent} (ran : run.step calculateHash sodium event = .ok next)
    (others : ∀ pair, event ≠ .addKeyPair pair) : next.widget.keys = run.widget.keys := by
  cases event with
  | signMsg =>
      simp only [step] at ran
      split at ran
      · exact (signMsg_sameKey ran).keys
      · cases ran
        rfl
  | verifySignature =>
      cases ran
      exact (SameKey.of_ite (verifySignature_sameKey run) (.refl run)).keys
  | loadDataFromFile fileName content =>
      cases ran
      exact (SameKey.of_ite (loadDataFromFile_sameKey run fileName content) (.refl run)).keys
  | activateFileMode value =>
      cases ran
      cases value <;> rfl
  | chooseSigningKey =>
      cases ran
      split
      · unfold chooseSigningKey
        split <;> rfl
      · rfl
  | addKeyPair pair => exact absurd rfl (others pair)
  | activateSignMode | activateVerificationMode | closeDialog _ =>
      cases ran
      rfl
  | moveCurrentIndex _ | signingKeyChosen _ | setSigningKey _ | editMessage _ | editSignature _
      | editKey _ =>
      cases ran
      split <;> rfl

/-- A pair whose private key is there and belongs to the public key. -/
def HeldBy (sign : SignKeys) (pair : KeyPair) : Prop :=
  ∃ secret, pair = (sign.skToPk secret, .holding secret)

/-- A list that has grown by such pairs. -/
def GrowsHeld (sign : SignKeys) (before after : List KeyPair) : Prop :=
  ∃ pairs, after = before ++ pairs ∧ ∀ pair ∈ pairs, HeldBy sign pair

theorem GrowsHeld.refl (sign : SignKeys) (keys : List KeyPair) : GrowsHeld sign keys keys :=
  ⟨[], (List.append_nil keys).symm, by simp⟩

theorem GrowsHeld.concat {sign : SignKeys} {pair : KeyPair} (held : HeldBy sign pair)
    (keys : List KeyPair) : GrowsHeld sign keys (keys ++ [pair]) :=
  ⟨[pair], rfl, by simpa using held⟩

theorem GrowsHeld.drop {sign : SignKeys} {before after : List KeyPair}
    (grows : GrowsHeld sign before after) :
    after = before ++ after.drop before.length ∧
      ∀ pair ∈ after.drop before.length, HeldBy sign pair := by
  obtain ⟨pairs, rfl, held⟩ := grows
  rw [List.drop_left]
  exact ⟨rfl, held⟩

/-- What is documented of `crypto_sign`: the secret key of a seed carries its
public key. -/
def Carries (sign : SignKeys) : Prop :=
  ∀ seed, sign.skToPk (sign.seedKeypair seed).2 = (sign.seedKeypair seed).1

theorem Carries.generated {sign : SignKeys} (carries : Carries sign) (seed : ByteArray kSeedSize) :
    HeldBy sign (generateKeyPair sign seed) :=
  ⟨(sign.seedKeypair seed).2, by rw [carries seed]; rfl⟩

theorem KeyGenRun.fillMasterSeedFromString_keys {lib : KeyGenLib} {run next : KeyGenRun} {s : Bytes}
    (ran : run.fillMasterSeedFromString lib s = .ok next) :
    next.widget.keys = run.widget.keys := by
  obtain ⟨words, _, ran⟩ := bind_eq_ok.mp ran
  cases words with
  | none =>
      cases ran
      rfl
  | some words =>
      obtain ⟨result, _, ran⟩ := bind_eq_ok.mp ran
      cases ran
      rfl

theorem KeyGenRun.getSeedString_keys {lib : KeyGenLib} {run next : KeyGenRun} {s : Bytes}
    (ran : run.getSeedString lib = .ok (s, next)) : next.widget.keys = run.widget.keys := by
  obtain ⟨⟨words, seed⟩, _, ran⟩ := bind_eq_ok.mp ran
  cases ran
  rfl

/-- Key pairs are generated from the seed, and nothing else is added. -/
theorem KeyGenRun.step_grows {lib : KeyGenLib} (carries : Carries lib.sign) {run next : KeyGenRun}
    (seeded : Seeded lib run) {event : KeyGenEvent} (ran : run.step lib event = .ok next) :
    GrowsHeld lib.sign run.widget.keys next.widget.keys := by
  have unchanged {other : KeyGenRun} (same : other.widget.keys = run.widget.keys) :
      GrowsHeld lib.sign run.widget.keys other.widget.keys := same ▸ GrowsHeld.refl _ _
  cases event with
  | genNewSeed random =>
      simp only [step] at ran
      split at ran
      · obtain ⟨seed, _, ran⟩ := bind_eq_ok.mp ran
        cases ran
        exact unchanged rfl
      · cases ran
        exact unchanged rfl
  | showTypeSeedDialog | disableKeyGen =>
      cases ran
      split <;> exact unchanged rfl
  | closeTypeSeedDialog =>
      cases ran
      exact unchanged rfl
  | handleInputSeed text =>
      simp only [step] at ran
      split at ran
      · have kept := fillMasterSeedFromString_keys ran
        exact unchanged kept
      · cases ran
        exact unchanged rfl
  | loadSeedFromFile text =>
      simp only [step] at ran
      split at ran
      · cases text with
        | none =>
            cases ran
            exact unchanged rfl
        | some text => exact unchanged (fillMasterSeedFromString_keys ran)
      · cases ran
        exact unchanged rfl
  | genKeyPair =>
      simp only [step] at ran
      split at ran
      · rename_i enabled
        obtain ⟨content, last⟩ := seeded.current enabled
        obtain ⟨protection, holds⟩ := seeded.seeded content last
        rw [genKeyPair, holds, deriveKeyPair_holding] at ran
        cases ran
        exact .concat (carries.generated _) _
      · cases ran
        exact unchanged rfl
  | setSeedOnMsBox =>
      simp only [step] at ran
      split at ran
      · obtain ⟨⟨s, middle⟩, shown, ran⟩ := bind_eq_ok.mp ran
        cases ran
        have kept := getSeedString_keys shown
        exact unchanged kept
      · cases ran
        exact unchanged rfl
  | saveSeedToFile opened =>
      simp only [step] at ran
      split at ran
      · cases opened with
        | false =>
            cases ran
            exact unchanged rfl
        | true =>
            obtain ⟨⟨s, middle⟩, shown, ran⟩ := bind_eq_ok.mp ran
            cases ran
            have kept := getSeedString_keys shown
            exact unchanged kept
      · cases ran
        exact unchanged rfl

theorem KeyFilesRun.Loads.grows {lib : KeyFilesLib} {run next : KeyFilesRun} {file : Bytes}
    (loads : Loads lib run file next) :
    GrowsHeld lib.sign run.widget.keys next.widget.keys := by
  cases loads with
  | refused message same => exact same ▸ GrowsHeld.refl _ _
  | loaded secret written clear same =>
      subst same
      exact .concat ⟨secret, rfl⟩ _
  | asked bytes read long same => exact same ▸ GrowsHeld.refl _ _

theorem KeyFilesRun.Decrypts.grows {lib : KeyFilesLib} {run next : KeyFilesRun}
    (decrypts : Decrypts lib run next) :
    GrowsHeld lib.sign run.widget.keys next.widget.keys := by
  cases decrypts with
  | refused message same => exact same ▸ GrowsHeld.refl _ _
  | decrypted secret found written same =>
      subst same
      exact .concat ⟨secret, rfl⟩ _

/-- Files add pairs that match, and nothing else is added. -/
theorem KeyFilesRun.step_grows {lib : KeyFilesLib} {run next : KeyFilesRun} {event : KeyFileEvent}
    (ran : run.step lib event = .ok next)
    (added : ∀ pair, event = .addKeyPair pair → HeldBy lib.sign pair) :
    GrowsHeld lib.sign run.widget.keys next.widget.keys := by
  have unchanged {other : KeyFilesRun} (same : other.widget.keys = run.widget.keys) :
      GrowsHeld lib.sign run.widget.keys other.widget.keys := same ▸ GrowsHeld.refl _ _
  have written {other last : KeyFilesRun}
      (cases : ∃ message, last = other.toStatusBar message ∨
        ∃ file, last = (other.toStatusBar message).record (.dumped file))
      (same : other.widget.keys = run.widget.keys) :
      GrowsHeld lib.sign run.widget.keys last.widget.keys := by
    obtain ⟨message, rfl | ⟨file, rfl⟩⟩ := cases
    · exact unchanged same
    · exact unchanged same
  cases event with
  | addKeyPair pair =>
      cases ran
      exact .concat (added pair rfl) _
  | clicked _ | typePassword _ | closeDecryptDialog =>
      cases ran
      exact unchanged rfl
  | dumpKeysToFile =>
      simp only [step] at ran
      split at ran
      all_goals
        cases ran
        exact unchanged rfl
  | dumpKeysEncrypted opened random =>
      simp only [step] at ran
      split at ran
      · cases ran
        exact unchanged rfl
      · have cases := DumpKeysEncrypted_cases ran
        exact written cases rfl
  | dumpKeysClear opened =>
      simp only [step] at ran
      split at ran
      · cases ran
        exact unchanged rfl
      · have cases := DumpKeysClear_cases ran
        exact written cases rfl
  | loadKeysFromFile file =>
      cases file with
      | none =>
          cases ran
          exact unchanged rfl
      | some file =>
          obtain ⟨reached, loaded, loads⟩ := @loadKeysFromFile_loads lib run file
          cases loaded.symm.trans ran
          exact loads.grows
  | decryptKeys =>
      simp only [step] at ran
      split at ran
      · cases ran
        exact unchanged rfl
      · exact (decryptKeys_decrypts ran).grows

namespace KeyFilesRun

/-- Where a key can be dumped, a row of the list is chosen. -/
def RowChosen (run : KeyFilesRun) : Prop :=
  run.widget.keysOperations = true ∨ 0 < run.widget.encDialogs →
    ∃ row, run.widget.currentIndex = some row ∧ row < run.widget.keys.length

theorem initial_rowChosen : initial.RowChosen := by
  intro enabled
  simp [initial] at enabled

/-- A change that enables nothing and takes no row away. -/
theorem RowChosen.kept {run next : KeyFilesRun} (chosen : run.RowChosen)
    (operations : next.widget.keysOperations = run.widget.keysOperations)
    (dialogs : next.widget.encDialogs ≤ run.widget.encDialogs)
    (index : next.widget.currentIndex = run.widget.currentIndex)
    (keys : run.widget.keys.length ≤ next.widget.keys.length) : next.RowChosen := by
  intro enabled
  rw [operations] at enabled
  obtain ⟨row, current, below⟩ := chosen (enabled.imp_right (fun some => some.trans_le dialogs))
  exact ⟨row, index.trans current, below.trans_le keys⟩

theorem step_rowChosen {lib : KeyFilesLib} {run next : KeyFilesRun} {event : KeyFileEvent}
    (chosen : run.RowChosen) (inside : ∀ row, event = .clicked row → row < run.widget.keys.length)
    (ran : run.step lib event = .ok next) : next.RowChosen := by
  have written {other last : KeyFilesRun}
      (cases : ∃ message, last = other.toStatusBar message ∨
        ∃ file, last = (other.toStatusBar message).record (.dumped file))
      (before : other.RowChosen) : last.RowChosen := by
    obtain ⟨message, rfl | ⟨file, rfl⟩⟩ := cases
    · exact before.kept rfl le_rfl rfl le_rfl
    · exact before.kept rfl le_rfl rfl le_rfl
  have added {keys : KeyPair} {entry : KeyFileEntry} {message : String} :
      ((run.addKeyPair keys entry).toStatusBar message).RowChosen :=
    chosen.kept rfl le_rfl rfl (List.sublist_append_left _ _).length_le
  cases event with
  | clicked row =>
      cases ran
      exact fun _ => ⟨row, rfl, inside row rfl⟩
  | addKeyPair keys =>
      cases ran
      exact chosen.kept rfl le_rfl rfl (List.sublist_append_left _ _).length_le
  | typePassword text =>
      cases ran
      exact chosen.kept rfl le_rfl rfl le_rfl
  | dumpKeysToFile =>
      simp only [step] at ran
      split at ran
      · rename_i enabled
        cases ran
        exact fun _ => chosen (.inl enabled)
      · cases ran
        exact chosen
  | dumpKeysEncrypted opened random =>
      simp only [step] at ran
      split at ran
      · cases ran
        exact chosen
      · have cases := DumpKeysEncrypted_cases ran
        exact written cases (chosen.kept rfl (Nat.sub_le _ _) rfl le_rfl)
  | dumpKeysClear opened =>
      simp only [step] at ran
      split at ran
      · cases ran
        exact chosen
      · have cases := DumpKeysClear_cases ran
        exact written cases (chosen.kept rfl (Nat.sub_le _ _) rfl le_rfl)
  | loadKeysFromFile file =>
      cases file with
      | none =>
          cases ran
          exact chosen.kept rfl le_rfl rfl le_rfl
      | some file =>
          obtain ⟨reached, loaded, loads⟩ := @loadKeysFromFile_loads lib run file
          cases loaded.symm.trans ran
          cases loads with
          | refused message same => exact same ▸ chosen.kept rfl le_rfl rfl le_rfl
          | loaded secret written clear same => exact same ▸ added
          | asked bytes read long same => exact same ▸ chosen.kept rfl le_rfl rfl le_rfl
  | closeDecryptDialog =>
      cases ran
      exact chosen.kept rfl le_rfl rfl le_rfl
  | decryptKeys =>
      simp only [step] at ran
      split at ran
      · cases ran
        exact chosen
      · cases decryptKeys_decrypts ran with
        | refused message same => exact same ▸ chosen.kept rfl le_rfl rfl le_rfl
        | decrypted secret found written same =>
            subst same
            exact chosen.kept rfl le_rfl rfl
              (List.sublist_append_left _ _).length_le

end KeyFilesRun

namespace SignRun

/-- Where a message can be signed, or Ok pressed, a row of the list is
chosen. -/
def RowChosen (run : SignRun) : Prop :=
  run.widget.signEnabled = true ∨ true ∈ run.widget.dialogs →
    ∃ row, run.widget.currentIndex = some row ∧ row < run.widget.keys.length

theorem initial_rowChosen : initial.RowChosen := by
  intro enabled
  simp [initial, SignWidget.initial] at enabled

theorem RowChosen.kept {run next : SignRun} (chosen : run.RowChosen) (same : SameKey run next)
    (dialogs : true ∈ next.widget.dialogs → true ∈ run.widget.dialogs) : next.RowChosen := by
  intro enabled
  rw [same.enabled] at enabled
  obtain ⟨row, current, below⟩ := chosen (enabled.imp_right dialogs)
  exact ⟨row, same.index.trans current, same.keys ▸ below⟩

/-- The dialogs are left alone by what is signed, verified and loaded. -/
theorem signMsg_dialogs {sodium : Sodium} {run next : SignRun}
    (ran : run.signMsg sodium = .ok next) : next.widget.dialogs = run.widget.dialogs := by
  unfold signMsg at ran
  split at ran
  · cases ran
    rfl
  · obtain ⟨signature, _, same⟩ := bind_eq_ok.mp ran
    cases same
    rfl

theorem verifySignature_dialogs (sodium : Sodium) (run : SignRun) :
    (run.verifySignature sodium).widget.dialogs = run.widget.dialogs := by
  unfold verifySignature
  split
  · rfl
  split
  · rfl
  split
  all_goals
    dsimp only
    split
    · rfl
    split
    · rfl
    · rfl

theorem loadDataFromFile_dialogs (calculateHash : Bytes → Hash) (run : SignRun)
    (fileName : String) (content : Option Bytes) :
    (run.loadDataFromFile calculateHash fileName content).widget.dialogs = run.widget.dialogs := by
  unfold loadDataFromFile
  split
  · rfl
  · cases content <;> rfl

theorem step_rowChosen {calculateHash : Bytes → Hash} {sodium : Sodium} {run next : SignRun}
    {event : SignEvent} (chosen : run.RowChosen)
    (ran : run.step calculateHash sodium event = .ok next) : next.RowChosen := by
  cases event with
  | signMsg =>
      simp only [step] at ran
      split at ran
      · exact chosen.kept (signMsg_sameKey ran) (by rw [signMsg_dialogs ran]; exact id)
      · cases ran
        exact chosen
  | verifySignature =>
      cases ran
      split
      · exact chosen.kept (verifySignature_sameKey run)
          (by rw [verifySignature_dialogs]; exact id)
      · exact chosen
  | loadDataFromFile fileName content =>
      cases ran
      split
      · exact chosen.kept (loadDataFromFile_sameKey run fileName content)
          (by rw [loadDataFromFile_dialogs]; exact id)
      · exact chosen
  | activateFileMode value =>
      cases ran
      cases value <;> exact chosen.kept ⟨rfl, rfl, rfl, rfl⟩ id
  | activateSignMode =>
      cases ran
      exact chosen
  | activateVerificationMode =>
      cases ran
      exact fun enabled => chosen (.inr (enabled.resolve_left (by simp [activateVerificationMode,
        update])))
  | chooseSigningKey =>
      cases ran
      split
      · unfold chooseSigningKey
        split
        · exact chosen
        · refine chosen.kept ⟨rfl, rfl, rfl, rfl⟩ ?_
          simp [update]
      · exact chosen
  | moveCurrentIndex row | signingKeyChosen row =>
      cases ran
      split
      · rename_i inside
        exact fun _ => ⟨row, rfl, inside.2⟩
      · exact chosen
  | setSigningKey dialog =>
      cases ran
      split
      · rename_i pressed
        exact fun _ => chosen (.inr (List.mem_of_getElem? pressed))
      · exact chosen
  | closeDialog dialog =>
      cases ran
      exact chosen.kept ⟨rfl, rfl, rfl, rfl⟩ List.mem_of_mem_eraseIdx
  | editMessage _ | editSignature _ | editKey _ =>
      cases ran
      split
      · exact chosen
      · exact chosen
  | addKeyPair pair =>
      cases ran
      intro enabled
      obtain ⟨row, current, below⟩ := chosen enabled
      exact ⟨row, current, by simp only [update, List.length_append]; omega⟩

end SignRun

theorem KeyFilesRun.addKeyPairs (lib : KeyFilesLib) (run : KeyFilesRun) (pairs : List KeyPair) :
    ∃ next, pairs.foldlM (fun run pair => run.step lib (.addKeyPair pair)) run = .ok next ∧
      Reaches (KeyFilesRun.step lib) run next ∧
      next.widget.keys = run.widget.keys ++ pairs := by
  induction pairs generalizing run with
  | nil => exact ⟨run, rfl, .refl _ run, (List.append_nil _).symm⟩
  | cons pair rest ih =>
      obtain ⟨next, ran, reaches, keys⟩ := ih (run.addKeyPair pair (.other pair))
      obtain ⟨events, reaches⟩ := reaches
      refine ⟨next, ran, ⟨.addKeyPair pair :: events, reaches⟩, ?_⟩
      rw [keys]
      exact List.append_assoc _ [pair] rest

theorem SignRun.addKeyPairs (calculateHash : Bytes → Hash) (sodium : Sodium) (run : SignRun)
    (pairs : List KeyPair) :
    ∃ next, pairs.foldlM (fun run pair => run.step calculateHash sodium (.addKeyPair pair)) run =
        .ok next ∧
      Reaches (fun run event => run.step calculateHash sodium event) run next ∧
      next.widget.keys = run.widget.keys ++ pairs := by
  induction pairs generalizing run with
  | nil => exact ⟨run, rfl, .refl _ run, (List.append_nil _).symm⟩
  | cons pair rest ih =>
      obtain ⟨next, ran, reaches, keys⟩ :=
        ih (run.update fun widget => { widget with keys := widget.keys ++ [pair] })
      obtain ⟨events, reaches⟩ := reaches
      refine ⟨next, ran, ⟨.addKeyPair pair :: events, reaches⟩, ?_⟩
      rw [keys]
      exact List.append_assoc _ [pair] rest

/-- The rows that come from the network, in the cipher tab. -/
theorem CipherRun.newKeys (lib : CipherLib) (run : CipherRun) (keys : List (Bytes × Bytes)) :
    ∃ next, keys.foldlM (fun run key => run.step lib (.newKeys key.1 key.2)) run = .ok next ∧
      (keys.map fun key => CipherEvent.newKeys key.1 key.2).foldlM (CipherRun.step lib) run =
        .ok next := by
  induction keys generalizing run with
  | nil => exact ⟨run, rfl, rfl⟩
  | cons key rest ih =>
      obtain ⟨next, ran, events⟩ := ih (run.update (·.newKeys key.1 key.2))
      exact ⟨next, ran, events⟩

theorem Node.notify_keys (source : String) (events : List Event) (widget : KeyExchangeWidget) :
    (events.foldl (notify source) widget).keys = widget.keys := by
  induction events generalizing widget with
  | nil => rfl
  | cons event rest ih =>
      rw [List.foldl_cons, ih]
      cases event <;> rfl

theorem KeyExchangeWidget.slot_keys (widget : KeyExchangeWidget) {event : WidgetEvent}
    (others : ∀ pair, event ≠ .addKeyPair pair) : (widget.slot event).1.keys = widget.keys := by
  cases event with
  | addKeyPair pair => exact absurd rfl (others pair)
  | inspectKeyIdText found =>
      simp only [slot]
      split
      · rfl
      · cases found <;> rfl
  | sendKeyExchangeRequest =>
      simp only [slot, sendKeyExchangeRequest]
      split
      · split <;> rfl
      · rfl
  | closeDialog => rfl
  | closeMessageBox =>
      simp only [slot, closeMessageBox]
      split <;> rfl
  | moveCurrentIndex _ | setOwnKey _ | hostNameEnterDialog | setHostName _
      | enableIncomingConnections =>
      simp only [slot]
      split <;> rfl

theorem KeyExchangeWidget.step_keys (widget : KeyExchangeWidget) {event : WidgetEvent}
    (others : ∀ pair, event ≠ .addKeyPair pair) : (widget.step event).1.keys = widget.keys := by
  rcases widget.step_cases event with blocked | taken
  · rw [blocked]
  · rw [taken]
    exact widget.slot_keys others

theorem Node.step_addKeyPair (sodium : Sodium) (node : Node) (pair : KeyPair) :
    node.step sodium (.widget (.addKeyPair pair)) =
      .ok ({ node with widget := { node.widget with keys := node.widget.keys ++ [pair] } },
        []) := by
  rw [step, onWidget, KeyExchangeWidget.step_addKeyPair]

theorem Node.onWidget_keys (node : Node) {event : WidgetEvent}
    (others : ∀ pair, event ≠ .addKeyPair pair) :
    (node.onWidget event).1.widget.keys = node.widget.keys := by
  have kept := node.widget.step_keys others
  unfold onWidget
  rcases stepped : node.widget.step event with ⟨widget, _ | ⟨hostName, ownKeys⟩ | serverKeys⟩
  all_goals
    rw [stepped] at kept
    exact kept

theorem Node.step_keys {sodium : Sodium} {node next : Node} {act : NodeAction} {events : List Event}
    (ran : node.step sodium act = .ok (next, events))
    (others : ∀ pair, act ≠ .widget (.addKeyPair pair)) :
    next.widget.keys = node.widget.keys := by
  cases step_steps ran with
  | ignored _ _ => rfl
  | widget event =>
      exact node.onWidget_keys fun pair same => others pair (congrArg NodeAction.widget same)
  | connected client _ _ _ => rfl
  | receive env bytes client process _ _ _ => exact notify_keys "" events node.widget
  | socketError errorType => exact notify_keys "" _ node.widget
  | incoming env memory arrivals ownKeys outcome _ _ =>
      exact notify_keys "Server error: " _ node.widget

namespace World

variable {sodium : Sodium}

/-- An action of one node: the others stay, and what enters the log is of this
node. -/
theorem step_frame (world : World) (action : Action) :
    (∀ other, other ≠ action.node →
      (world.step sodium action).nodes other = world.nodes other) ∧
    ∃ added, (world.step sodium action).log = world.log ++ added ∧
      ∀ entry ∈ added, entry.party.node = action.node := by
  cases crashed : (world.nodes action.node).crashed with
  | true =>
      have same : world.step sodium action = world := by
        simp only [World.step, crashed, if_true]
      rw [same]
      exact ⟨fun _ _ => rfl, [], (List.append_nil _).symm, by simp⟩
  | false =>
      rcases ran : (world.nodes action.node).step sodium action.act with fault | ⟨node, events⟩
      · obtain ⟨_, others, log⟩ := step_crash crashed ran
        exact ⟨others, [], by rw [log, List.append_nil], by simp⟩
      · obtain ⟨_, others, log⟩ := step_ok crashed ran
        refine ⟨others, _, log, ?_⟩
        intro entry member
        obtain ⟨event, _, rfl⟩ := List.mem_map.mp member
        exact Node.party_node _ _ _

theorem step_keys (world : World) {action : Action}
    (others : ∀ pair, action.act ≠ .widget (.addKeyPair pair)) (name : Nat) :
    ((world.step sodium action).nodes name).widget.keys = (world.nodes name).widget.keys := by
  by_cases same : name = action.node
  · subst same
    cases crashed : (world.nodes action.node).crashed with
    | true => simp only [World.step, crashed, if_true]
    | false =>
        rcases ran : (world.nodes action.node).step sodium action.act with fault | ⟨node, events⟩
        · rw [(step_crash crashed ran).1]
        · rw [(step_ok crashed ran).1]
          exact Node.step_keys ran others
  · rw [(@step_frame sodium world action).1 name same]

/-- Pairs that are added to the list of a node that has not crashed. -/
theorem run_addKeyPairs (world : World) {name : Nat}
    (running : (world.nodes name).crashed = false) (pairs : List KeyPair) :
    ∃ node, world.run sodium (pairs.map fun pair => ⟨name, .widget (.addKeyPair pair)⟩) =
        { world with nodes := Function.update world.nodes name node } ∧
      node.widget.keys = (world.nodes name).widget.keys ++ pairs ∧
      node.widget.rows = (world.nodes name).widget.rows ∧ node.crashed = false := by
  induction pairs generalizing world with
  | nil => exact ⟨world.nodes name, by simp [run], (List.append_nil _).symm, rfl, running⟩
  | cons pair rest ih =>
      have ran := (world.nodes name).step_addKeyPair sodium pair
      obtain ⟨first, _, _⟩ := step_ok running ran
      have stepped : world.step sodium ⟨name, .widget (.addKeyPair pair)⟩ =
          { world with
            nodes := Function.update world.nodes name { world.nodes name with
              widget := { (world.nodes name).widget with
                keys := (world.nodes name).widget.keys ++ [pair] } } } := by
        simp only [step, running, Bool.false_eq_true, if_false, ran, List.map_nil, List.append_nil]
      obtain ⟨node, reached, keys, rows, running⟩ := ih
        (world.step sodium ⟨name, .widget (.addKeyPair pair)⟩) (by rw [first]; exact running)
      refine ⟨node, ?_, ?_, ?_, running⟩
      · rw [List.map_cons, run, List.foldl_cons, ← run, reached, stepped, Function.update_idem]
      · rw [keys, first]
        exact List.append_assoc _ [pair] rest
      · rw [rows, first]
        rfl

/-- Actions of one node leave the others alone. -/
theorem run_others (world : World) {name other : Nat} (different : other ≠ name)
    {actions : List Action} (every : ∀ action ∈ actions, action.node = name) :
    (world.run sodium actions).nodes other = world.nodes other := by
  induction actions generalizing world with
  | nil => rfl
  | cons action rest ih =>
      have first := every action List.mem_cons_self
      rw [run, List.foldl_cons, ← run, ih _ fun action inside => every action (.tail _ inside)]
      exact (@step_frame sodium world action).1 other (by rwa [first])

end World

end Cscrypto.Gui
