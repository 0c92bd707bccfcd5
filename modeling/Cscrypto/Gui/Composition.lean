import Cscrypto.Gui.HonestExchange
import Cscrypto.Gui.OwnKeys

namespace Cscrypto.Gui

open Cscrypto.Base58 Cscrypto.Cipher Cscrypto.Data Cscrypto.KeysDerivation

/-! # The tabs of a process together

In any run of a system every tab goes through a run of its own, and the lists
that the tabs share are the same in all of them.
-/

namespace MainWidget

/-- Every tab has reached its state by itself. The node is the part of this
process in the network, and the rows are the session keys in its lists. -/
structure Composed (lib : MainLib) (disk : Disk) (node : Node)
    (rows : List (Bytes × Bytes)) (window : MainWidget) : Prop where
  keygen : Reaches (KeyGenRun.step lib.keygen) .initial window.keygen
  keyFiles : Reaches (KeyFilesRun.step lib.keyFiles) .initial window.keyFiles
  sign : Reaches (fun run event => run.step lib.calculateHash lib.sodium event) .initial window.sign
  hash : ∃ events, window.hash = HashRun.initial.steps lib.blake2s events
  cipher : ∃ events, (CipherRun.initial disk).steps lib.cipher events = .ok window.cipher ∧
    rowsOf .encryption events = rows.map Prod.fst ∧ rowsOf .decryption events = rows.map Prod.snd
  held : ∀ pair ∈ window.keyFiles.widget.keys, HeldBy lib.sign pair
  rowChosen : window.keyFiles.RowChosen
  signKeys : window.sign.widget.keys = window.keyFiles.widget.keys
  exchangeKeys : node.widget.keys = window.keyFiles.widget.keys

variable {lib : MainLib} {disk : Disk} {node : Node}
  {rows : List (Bytes × Bytes)} {window next : MainWidget} {pairs : List KeyPair}

theorem initial_composed (lib : MainLib) (disk : Disk) (records : Option Table) (memory : Memory) :
    (initial disk records).Composed lib disk (.initial memory) [] where
  keygen := .refl _ _
  keyFiles := .refl _ _
  sign := .refl _ _
  hash := ⟨[], rfl⟩
  cipher := ⟨[], rfl, rfl, rfl⟩
  held := by simp [initial, KeyFilesRun.initial]
  rowChosen := KeyFilesRun.initial_rowChosen
  signKeys := rfl
  exchangeKeys := rfl

/-- A typed private key gives a pair that belongs together. -/
theorem handlePrivKeyLine_held {sign : SignKeys} {privStr : Bytes} {keys : Option KeyPair}
    (ran : Gui.handlePrivKeyLine sign privStr = .ok keys) : ∀ pair ∈ keys.toList, HeldBy sign pair := by
  unfold Gui.handlePrivKeyLine at ran
  split at ran
  · cases ran
    simp
  · rename_i vecPriv _
    split at ran
    · cases ran
      simp
    · rename_i size
      dsimp only at ran
      rw [readFromBytes, dif_pos (not_not.mp size), getMatchingPublic, PrivateKey.access_holding,
        ok_bind, pure_eq_ok, ok_bind] at ran
      cases ran
      intro pair member
      rw [List.mem_singleton.mp member]
      exact ⟨_, rfl⟩

/-- The pairs that a slot adds, with the other tabs as they were. -/
theorem Composed.slot (carries : Carries lib.sign)
    (composed : window.Composed lib disk node rows) {event : MainEvent}
    (takes : window.takes event = true) (ran : window.slot lib event = .ok (next, pairs)) :
    next.Composed lib disk node rows ∧ ∀ pair ∈ pairs, HeldBy lib.sign pair := by
  cases event with
  | keygen event =>
      obtain ⟨keygen, stepped, ran⟩ := bind_eq_ok.mp ran
      cases ran
      have seeded := composed.keygen.preserves (fun run event next seeded stepped => by
        obtain ⟨other, same, kept⟩ := step_seeded seeded event
        cases same.symm.trans stepped
        exact kept) (seeded_initial lib.keygen)
      exact ⟨{ composed with keygen := composed.keygen.tail stepped },
        (KeyGenRun.step_grows carries seeded stepped).drop.2⟩
  | genPublicFromPrivateDialog =>
      cases ran
      exact ⟨{ composed with }, by simp⟩
  | typePrivateKey text =>
      cases ran
      split
      · exact ⟨composed, by simp⟩
      · exact ⟨{ composed with }, by simp⟩
  | handlePrivKeyLine =>
      simp only [MainWidget.slot] at ran
      split at ran
      · cases ran
        exact ⟨composed, by simp⟩
      · obtain ⟨keys, handled, ran⟩ := bind_eq_ok.mp ran
        cases ran
        exact ⟨{ composed with }, handlePrivKeyLine_held handled⟩
  | sign event =>
      obtain ⟨sign, stepped, ran⟩ := bind_eq_ok.mp ran
      cases ran
      have kept := SignRun.step_keys stepped (by
        rintro pair rfl
        contradiction)
      exact ⟨{ composed with
        sign := composed.sign.tail stepped
        signKeys := kept.trans composed.signKeys }, by simp⟩
  | hash event =>
      cases ran
      obtain ⟨events, reached⟩ := composed.hash
      exact ⟨{ composed with hash := ⟨events ++ [event], by
        rw [HashRun.steps, List.foldl_append, reached]; rfl⟩ }, by simp⟩
  | cipher event =>
      obtain ⟨cipher, stepped, ran⟩ := bind_eq_ok.mp ran
      cases ran
      obtain ⟨events, reached, first, second⟩ := composed.cipher
      have silent (mode : Mode) : event.row? mode = none := by
        cases event with
        | newKeys b58SendSk b58ReceiveSk => contradiction
        | _ => rfl
      have extended := foldlM_concat_ok.mpr ⟨_, reached, stepped⟩
      refine ⟨{ composed with cipher := ⟨events ++ [event], extended, ?_, ?_⟩ }, by simp⟩
      · rw [rowsOf_concat, silent, first, Option.toList_none, List.append_nil]
      · rw [rowsOf_concat, silent, second, Option.toList_none, List.append_nil]
  | storage action =>
      cases ran
      split
      · exact ⟨{ composed with }, by simp⟩
      · exact ⟨composed, by simp⟩
  | updateRowInTable row writable record =>
      cases ran
      split
      · exact ⟨{ composed with }, by simp⟩
      · exact ⟨composed, by simp⟩
  | keyFiles event =>
      cases ran
      exact ⟨composed, by simp⟩
  | exchange act =>
      cases ran
      exact ⟨composed, by simp⟩

theorem addToKeyFiles_eq (lib : MainLib) (window : MainWidget) (pairs : List KeyPair) :
    ∃ keyFiles, window.addToKeyFiles lib pairs = .ok { window with keyFiles } ∧
      Reaches (KeyFilesRun.step lib.keyFiles) window.keyFiles keyFiles ∧
      keyFiles.widget.keys = window.keyFiles.widget.keys ++ pairs ∧
      (window.keyFiles.RowChosen → keyFiles.RowChosen) := by
  obtain ⟨keyFiles, ran, reaches, keys⟩ := window.keyFiles.addKeyPairs lib.keyFiles pairs
  refine ⟨keyFiles, by rw [addToKeyFiles, ran]; rfl, reaches, keys, fun chosen => ?_⟩
  refine foldlM_preserves (fun run pair next chosen stepped => ?_) chosen ran
  exact KeyFilesRun.step_rowChosen chosen (by simp) stepped

theorem addToSign_eq (lib : MainLib) (window : MainWidget) (pairs : List KeyPair) :
    ∃ sign, window.addToSign lib pairs = .ok { window with sign } ∧
      Reaches (fun run event => run.step lib.calculateHash lib.sodium event) window.sign sign ∧
      sign.widget.keys = window.sign.widget.keys ++ pairs := by
  obtain ⟨sign, ran, reaches, keys⟩ := window.sign.addKeyPairs lib.calculateHash lib.sodium pairs
  exact ⟨sign, by rw [addToSign, ran]; rfl, reaches, keys⟩

theorem every_append {sign : SignKeys} {keys pairs : List KeyPair}
    (every : ∀ pair ∈ keys, HeldBy sign pair) (held : ∀ pair ∈ pairs, HeldBy sign pair) :
    ∀ pair ∈ keys ++ pairs, HeldBy sign pair := by
  intro pair member
  exact (List.mem_append.mp member).elim (every pair) (held pair)

/-- The pairs are added to the list of the sign tab. -/
structure Signs (lib : MainLib) (window : MainWidget) (pairs : List KeyPair) (sign : SignRun) :
    Prop where
  reaches : Reaches (fun run event => run.step lib.calculateHash lib.sodium event) window.sign sign
  keys : sign.widget.keys = window.sign.widget.keys ++ pairs

/-- The ways in which a process takes a step: a slot of the key files tab adds
its pairs itself. -/
inductive Steps (lib : MainLib) (window : MainWidget) :
    MainEvent → MainWidget → List KeyPair → Prop
  | keyFiles (event : KeyFileEvent) (keyFiles : KeyFilesRun) (sign : SignRun)
      (stepped : window.keyFiles.step lib.keyFiles event = .ok keyFiles)
      (signs : window.Signs lib
        (keyFiles.widget.keys.drop window.keyFiles.widget.keys.length) sign) :
      Steps lib window (.keyFiles event) { window with keyFiles, sign }
        (keyFiles.widget.keys.drop window.keyFiles.widget.keys.length)
  | slot (event : MainEvent) (middle : MainWidget) (pairs : List KeyPair) (keyFiles : KeyFilesRun)
      (sign : SignRun) (ran : window.slot lib event = .ok (middle, pairs))
      (reaches : Reaches (KeyFilesRun.step lib.keyFiles) middle.keyFiles keyFiles)
      (keys : keyFiles.widget.keys = middle.keyFiles.widget.keys ++ pairs)
      (chosen : middle.keyFiles.RowChosen → keyFiles.RowChosen)
      (signs : middle.Signs lib pairs sign) :
      Steps lib window event { middle with keyFiles, sign } pairs

theorem step_slot {event : MainEvent} (other : ∀ event', event ≠ .keyFiles event') :
    window.step lib event = (do
      let (window, pairs) ← window.slot lib event
      let window ← window.addToKeyFiles lib pairs
      let window ← window.addToSign lib pairs
      return (window, pairs)) := by
  cases event with
  | keyFiles event => exact absurd rfl (other event)
  | _ => rfl

theorem step_of_slot {event : MainEvent} (other : ∀ event', event ≠ .keyFiles event')
    {middle : MainWidget} (ran : window.slot lib event = .ok (middle, pairs)) :
    ∃ next, window.step lib event = .ok (next, pairs) ∧ Steps lib window event next pairs := by
  obtain ⟨keyFiles, first, reaches, keys, chosen⟩ := addToKeyFiles_eq lib middle pairs
  obtain ⟨sign, second, signs⟩ := addToSign_eq lib { middle with keyFiles } pairs
  refine ⟨{ middle with keyFiles, sign }, ?_,
    .slot event middle pairs keyFiles sign ran reaches keys chosen ⟨signs.1, signs.2⟩⟩
  simp only [step_slot other, ran, ok_bind, first, second, pure_eq_ok]

theorem step_of_keyFiles {event : KeyFileEvent} {keyFiles : KeyFilesRun}
    (stepped : window.keyFiles.step lib.keyFiles event = .ok keyFiles) :
    ∃ next, window.step lib (.keyFiles event) = .ok (next,
        keyFiles.widget.keys.drop window.keyFiles.widget.keys.length) ∧
      Steps lib window (.keyFiles event) next
        (keyFiles.widget.keys.drop window.keyFiles.widget.keys.length) := by
  obtain ⟨sign, added, signs⟩ := addToSign_eq lib { window with keyFiles }
    (keyFiles.widget.keys.drop window.keyFiles.widget.keys.length)
  refine ⟨{ window with keyFiles, sign }, ?_,
    .keyFiles event keyFiles sign stepped ⟨signs.1, signs.2⟩⟩
  simp only [MainWidget.step, stepped, ok_bind, added, pure_eq_ok]

theorem step_steps {event : MainEvent} (ran : window.step lib event = .ok (next, pairs)) :
    Steps lib window event next pairs := by
  by_cases file : ∃ event', event = .keyFiles event'
  · obtain ⟨event, rfl⟩ := file
    obtain ⟨keyFiles, stepped, _⟩ := bind_eq_ok.mp ran
    obtain ⟨last, same, steps⟩ := step_of_keyFiles stepped
    cases same.symm.trans ran
    exact steps
  · have other : ∀ event', event ≠ .keyFiles event' := fun event' same => file ⟨event', same⟩
    have whole := ran
    rw [step_slot other] at ran
    obtain ⟨⟨middle, added⟩, slot, _⟩ := bind_eq_ok.mp ran
    obtain ⟨last, same, steps⟩ := step_of_slot other slot
    cases same.symm.trans whole
    exact steps

/-- An event of a tab, when the key exchange is told of the new pairs. -/
theorem Composed.step (carries : Carries lib.sign)
    (composed : window.Composed lib disk node rows) {event : MainEvent}
    (takes : window.takes event = true) (ran : window.step lib event = .ok (next, pairs))
    {node' : Node} (told : node'.widget.keys = node.widget.keys ++ pairs) :
    next.Composed lib disk node' rows := by
  cases step_steps ran with
  | keyFiles event keyFiles sign stepped signs =>
      have grows := KeyFilesRun.step_grows stepped (by
        rintro pair rfl
        contradiction)
      obtain ⟨grown, held⟩ := grows.drop
      obtain ⟨events, reaches⟩ := signs.reaches
      exact { composed with
        keyFiles := composed.keyFiles.tail stepped
        sign := composed.sign.append reaches
        held := by
          rw [grown]
          exact every_append composed.held held
        rowChosen := by
          refine KeyFilesRun.step_rowChosen composed.rowChosen ?_ stepped
          rintro row rfl
          exact of_decide_eq_true takes
        signKeys := by
          rw [signs.keys, composed.signKeys]
          exact grown.symm
        exchangeKeys := by
          rw [told, composed.exchangeKeys]
          exact grown.symm }
  | slot event middle pairs keyFiles sign slot reaches keys chosen signs =>
      obtain ⟨composed, held⟩ := composed.slot carries takes slot
      obtain ⟨events, reaches⟩ := reaches
      obtain ⟨events', reaches'⟩ := signs.reaches
      exact { composed with
        keyFiles := composed.keyFiles.append reaches
        sign := composed.sign.append reaches'
        held := by
          rw [keys]
          exact every_append composed.held held
        rowChosen := chosen composed.rowChosen
        signKeys := by
          rw [keys, signs.keys]
          exact congrArg (· ++ pairs) composed.signKeys
        exchangeKeys := by
          rw [told, keys]
          exact congrArg (· ++ pairs) composed.exchangeKeys }

theorem rowsOf_newKeys (mode : Mode) (keys : List (Bytes × Bytes)) :
    rowsOf mode (keys.map fun key => CipherEvent.newKeys key.1 key.2) =
      keys.map (match mode with | .encryption => Prod.fst | .decryption => Prod.snd) := by
  rw [rowsOf, List.filterMap_map]
  cases mode with
  | encryption => exact congrFun (@List.filterMap_eq_map _ _ Prod.fst) keys
  | decryption => exact congrFun (@List.filterMap_eq_map _ _ Prod.snd) keys

/-- The rows that the network brings are taken over, and no other tab sees
them. -/
theorem Composed.receiveKeys (composed : window.Composed lib disk node rows)
    (keys : List (Bytes × Bytes)) {node' : Node} (same : node'.widget.keys = node.widget.keys) :
    ∃ next, window.receiveKeys lib keys = .ok next ∧
      next.Composed lib disk node' (rows ++ keys) := by
  obtain ⟨cipher, ran, reached⟩ := window.cipher.newKeys lib.cipher keys
  obtain ⟨events, before, first, second⟩ := composed.cipher
  refine ⟨{ window with cipher }, by rw [MainWidget.receiveKeys, ran]; rfl, { composed with
    cipher := ⟨events ++ keys.map fun key => .newKeys key.1 key.2, ?_, ?_, ?_⟩
    exchangeKeys := same.trans composed.exchangeKeys }⟩
  · rw [CipherRun.steps, List.foldlM_append]
    exact bind_eq_ok.mpr ⟨_, before, reached⟩
  · have added := rowsOf_newKeys .encryption keys
    rw [rowsOf, List.filterMap_append, List.map_append, ← first, ← added]
    rfl
  · have added := rowsOf_newKeys .decryption keys
    rw [rowsOf, List.filterMap_append, List.map_append, ← second, ← added]
    rfl

/-- A process that has ended stays as it was. -/
theorem Composed.ended (composed : window.Composed lib disk node rows) (ended : Bool)
    {node' : Node} (same : node'.widget.keys = node.widget.keys) :
    { window with ended }.Composed lib disk node' rows :=
  { composed with exchangeKeys := same.trans composed.exchangeKeys }

end MainWidget

namespace System

variable {lib : MainLib} {memory : Nat → Memory} {disks : Nat → Disk}
  {records : Nat → Option Table} {system : System}

/-- Without the database nothing happens.  With it the network takes a step, and
the window changes in its cipher tab only. -/
theorem exchange_cases (lib : MainLib) (system : System) (name : Nat) (act : NodeAction) :
    (system.windows name).dbOpener = false ∧ system.exchange lib name act = system ∨
      (system.windows name).dbOpener = true ∧ ∃ cipher, system.exchange lib name act =
        { system.setWindow name { system.windows name with cipher } with
          network := system.network.step lib.sodium
            ⟨name, (system.windows name).observed act⟩ } := by
  cases opened : (system.windows name).dbOpener with
  | false =>
      refine .inl ⟨rfl, ?_⟩
      simp only [System.exchange, opened, Bool.false_eq_true, if_false]
  | true =>
      obtain ⟨cipher, received, _⟩ := (system.windows name).cipher.newKeys lib.cipher
        (((system.network.step lib.sodium
          ⟨name, (system.windows name).observed act⟩).nodes name).widget.rows.drop
            (system.network.nodes name).widget.rows.length)
      refine .inr ⟨rfl, cipher, ?_⟩
      simp only [System.exchange, opened, if_true, MainWidget.receiveKeys, received, ok_bind,
        pure_eq_ok]
      rfl

theorem step_exchange {name : Nat} {act : NodeAction} (up : system.down name = false)
    (takes : (system.windows name).takes (.exchange act) = true) :
    system.step lib ⟨name, .exchange act⟩ = system.exchange lib name act := by
  simp only [System.step, up, takes, Bool.not_true, Bool.or_false, Bool.false_eq_true, if_false]

/-- The network and every process by themselves. -/
structure Composed (lib : MainLib) (memory : Nat → Memory) (disks : Nat → Disk)
    (system : System) : Prop where
  network : ∃ actions, system.network = (World.initial memory).run lib.sodium actions
  windows : ∀ name, (system.windows name).Composed lib (disks name)
    (system.network.nodes name) (system.network.nodes name).widget.rows

theorem initial_composed (lib : MainLib) (memory : Nat → Memory) (disks : Nat → Disk)
    (records : Nat → Option Table) :
    Composed lib memory disks (initial memory disks records) where
  network := ⟨[], rfl⟩
  windows name := MainWidget.initial_composed lib (disks name) (records name) (memory name)

/-- A change of one process and of its part of the network. -/
theorem Composed.setWindow (composed : Composed lib memory disks system) {name : Nat}
    {window : MainWidget} {network : World}
    (run : ∃ actions, network = (World.initial memory).run lib.sodium actions)
    (others : ∀ other, other ≠ name → network.nodes other = system.network.nodes other)
    (own : window.Composed lib (disks name) (network.nodes name)
      (network.nodes name).widget.rows) :
    Composed lib memory disks { system.setWindow name window with network } where
  network := run
  windows := by
    intro other
    by_cases same : other = name
    · subst same
      simp only [System.setWindow, Function.update_self]
      exact own
    · simp only [System.setWindow, Function.update_of_ne same, others other same]
      exact composed.windows other

theorem Composed.tab (carries : Carries lib.sign)
    (composed : Composed lib memory disks system) {name : Nat}
    (up : system.down name = false) {event : MainEvent}
    (takes : (system.windows name).takes event = true) :
    Composed lib memory disks (system.tab lib name event) := by
  have before := composed.windows name
  obtain ⟨actions, reached⟩ := composed.network
  rcases ran : (system.windows name).step lib event with fault | ⟨window, pairs⟩
  · simp only [System.tab, ran]
    exact composed.setWindow ⟨actions, reached⟩ (fun _ _ => rfl) (before.ended true rfl)
  · have running := (Bool.or_eq_false_iff.mp up).2
    obtain ⟨node, told, keys, rows, _⟩ :=
      @World.run_addKeyPairs lib.sodium system.network name running pairs
    simp only [System.tab, ran]
    refine composed.setWindow ?_ ?_ ?_
    · exact ⟨actions ++ pairs.map fun pair => ⟨name, .widget (.addKeyPair pair)⟩, by
        rw [World.run_append, reached]⟩
    · intro other different
      rw [told]
      exact Function.update_of_ne different _ _
    · rw [told]
      simp only [Function.update_self, rows]
      exact before.step carries takes ran keys

theorem Composed.exchange (composed : Composed lib memory disks system) {name : Nat}
    {act : NodeAction} (others : ∀ pair, act ≠ .widget (.addKeyPair pair)) :
    Composed lib memory disks (system.exchange lib name act) := by
  have before := composed.windows name
  obtain ⟨actions, reached⟩ := composed.network
  simp only [System.exchange]
  split
  · obtain ⟨frame, _⟩ :=
      @World.step_frame lib.sodium system.network ⟨name, (system.windows name).observed act⟩
    have kept := @World.step_keys lib.sodium system.network
      ⟨name, (system.windows name).observed act⟩ (by
        intro pair same
        cases act <;> simp_all [MainWidget.observed]) name
    have listed : World.Listed name system.network := by
      rw [reached]
      exact World.run_listed lib.sodium memory actions name
    obtain ⟨keys, rows⟩ := @World.Listed.step_rows lib.sodium _ _ listed
      ⟨name, (system.windows name).observed act⟩
    obtain ⟨window, received, after⟩ := before.receiveKeys keys kept
    rw [rows] at after
    rw [← rows, List.drop_left, received]
    refine composed.setWindow ?_ ?_ after
    · exact ⟨actions ++ [⟨name, (system.windows name).observed act⟩], by
        rw [World.run_append, ← reached]; rfl⟩
    · exact fun other different => frame other different
  · exact ⟨⟨actions, reached⟩, composed.windows⟩

theorem Composed.step (carries : Carries lib.sign)
    (composed : Composed lib memory disks system) (happening : Happening) :
    Composed lib memory disks (system.step lib happening) := by
  unfold System.step
  split
  · exact composed
  · rename_i possible
    simp only [Bool.or_eq_true, Bool.not_eq_true', not_or, Bool.not_eq_true, Bool.not_eq_false]
      at possible
    obtain ⟨up, takes⟩ := possible
    cases event : happening.event with
    | exchange act =>
        refine composed.exchange ?_
        rintro pair rfl
        rw [event] at takes
        contradiction
    | _ =>
        rw [event] at takes
        exact composed.tab carries up takes

theorem Composed.run (carries : Carries lib.sign) (composed : Composed lib memory disks system)
    (happenings : List Happening) : Composed lib memory disks (system.run lib happenings) :=
  foldl_preserves (fun _ happening composed => composed.step carries happening) happenings composed

theorem run_composed (carries : Carries lib.sign) (memory : Nat → Memory) (disks : Nat → Disk)
    (records : Nat → Option Table) (happenings : List Happening) :
    Composed lib memory disks ((initial memory disks records).run lib happenings) :=
  (initial_composed lib memory disks records).run carries happenings

/-- Nothing has changed outside of one process, which has not ended. -/
structure OnlyIn (name : Nat) (system next : System) : Prop where
  others : ∀ other, other ≠ name → next.windows other = system.windows other
  network : next.network = system.network
  down : ∀ other, next.down other = system.down other

theorem onlyIn_setWindow {name : Nat} {window : MainWidget}
    (ended : window.ended = (system.windows name).ended) :
    OnlyIn name system (system.setWindow name window) := by
  have others : ∀ other, other ≠ name →
      (system.setWindow name window).windows other = system.windows other :=
    fun other different => Function.update_of_ne different _ _
  refine ⟨others, rfl, fun other => ?_⟩
  by_cases same : other = name
  · subst same
    simp only [System.down, setWindow, Function.update_self, ended]
  · rw [System.down, others other same]
    rfl

/-- The events of the tabs that add nothing to the list of own keys by
themselves. -/
def InTab (event : MainEvent) : Prop :=
  (∀ event', event ≠ .keyFiles event') ∧ ∀ act, event ≠ .exchange act

theorem step_slot {name : Nat} {event : MainEvent} {window : MainWidget}
    (up : system.down name = false) (inTab : InTab event)
    (takes : (system.windows name).takes event = true)
    (slot : (system.windows name).slot lib event = .ok (window, [])) :
    system.step lib ⟨name, event⟩ = system.setWindow name window := by
  have stepped : (system.windows name).step lib event = .ok (window, []) := by
    rw [MainWidget.step_slot inTab.1, slot]
    rfl
  have inside : system.step lib ⟨name, event⟩ = system.tab lib name event := by
    simp only [System.step, up, takes, Bool.not_true, Bool.or_false, Bool.false_eq_true, if_false]
    cases event with
    | exchange act => exact absurd rfl (inTab.2 act)
    | _ => rfl
  rw [inside]
  simp only [System.tab, stepped]
  rfl

/-- A run of one tab, seen in the system. -/
theorem run_tab {Tab Event : Type} {step : Tab → Event → Except Fault Tab}
    (act : Event → MainEvent) (put : Tab → MainWidget) {name : Nat} {events : List Event}
    {start last : Tab} (up : system.down name = false) (current : put start = system.windows name)
    (ended : ∀ tab, (put tab).ended = (system.windows name).ended)
    (slots : ∀ tab event next, event ∈ events → step tab event = .ok next → InTab (act event) ∧
      (put tab).takes (act event) = true ∧ (put tab).slot lib (act event) = .ok (put next, []))
    (ran : events.foldlM step start = .ok last) :
    system.run lib (events.map fun event => ⟨name, act event⟩) =
      system.setWindow name (put last) := by
  have one : ∀ tab event next, event ∈ events → step tab event = .ok next →
      (system.setWindow name (put tab)).step lib ⟨name, act event⟩ =
        system.setWindow name (put next) := by
    intro tab event next member stepped
    obtain ⟨inTab, takes, slot⟩ := slots tab event next member stepped
    have own : (system.setWindow name (put tab)).windows name = put tab := Function.update_self _ _ _
    have up := ((onlyIn_setWindow (ended tab)).down name).trans up
    rw [step_slot up inTab (by rw [own]; exact takes) (by rw [own]; exact slot)]
    simp only [setWindow, Function.update_idem]
  have whole := @foldl_map_of_foldlM _ _ _ (System.step lib) _ _ step
    (fun tab => system.setWindow name (put tab)) (fun event => ⟨name, act event⟩) events start last
    one ran
  have same : system.setWindow name (put start) = system := by
    rw [current]
    simp only [setWindow, Function.update_eq_self]
  rwa [same] at whole

/-- The lists of a process. -/
structure Shared (lib : MainLib) (system : System) (name : Nat) : Prop where
  sign : (system.windows name).sign.widget.keys = (system.windows name).keyFiles.widget.keys
  exchange : (system.network.nodes name).widget.keys =
    (system.windows name).keyFiles.widget.keys
  held : ∀ pair ∈ (system.windows name).keyFiles.widget.keys, HeldBy lib.sign pair
  sessions : ∃ rows : List (Bytes × Bytes),
    (system.windows name).cipher.window.encKeysComboBox.model = rows.map Prod.fst ∧
    (system.windows name).cipher.window.decKeysComboBox.model = rows.map Prod.snd ∧
    (system.network.nodes name).widget.encryptionKeys = rows.map Prod.fst ∧
    (system.network.nodes name).widget.decryptionKeys = rows.map Prod.snd ∧
    ∀ row ∈ rows, RowExplained lib.sodium name system.network.log row.1 row.2

end System

/-- In any run of any number of processes the three tabs that show the own keys
show the same, and each of these keys has the private key that belongs to it.
The file cipher offers row by row what the key exchange has brought, and every
row is one of an authenticated message. -/
theorem shared_lists {lib : MainLib} (carries : Carries lib.sign) (memory : Nat → Memory)
    (disks : Nat → Disk) (records : Nat → Option Table) (happenings : List Happening)
    (name : Nat) : ((System.initial memory disks records).run lib happenings).Shared lib name := by
  have composed := System.run_composed carries memory disks records happenings
  obtain ⟨actions, reached⟩ := composed.network
  have own := composed.windows name
  have listed := World.run_listed lib.sodium memory actions name
  have explained := run_keysExplained lib.sodium memory actions
  rw [← reached] at listed explained
  obtain ⟨encryption, decryption, stacked⟩ := listed
  obtain ⟨events, steps, first, second⟩ := own.cipher
  obtain ⟨_, _, lists⟩ := CipherRun.steps_invariant steps
  exact {
    sign := own.signKeys
    exchange := own.exchangeKeys
    held := own.held
    sessions := ⟨_, lists.encRows.trans first, lists.decRows.trans second, encryption, decryption,
      fun row member => rowExplained_of_mem explained (stacked.mem_of_popped member)⟩ }

/-- Every part as in the examples of the tabs. -/
def MainLib.transparent : MainLib where
  sign := .transparent
  kdf := numberedKeys.kdf
  blake2s := checksumBlake
  en := numberedKeys.en
  aead := .transparent
  sodium := .transparent
  pwhash := CipherLib.oneFile.pwhash
  ss := CipherLib.oneFile.ss

theorem carries_transparent : Carries MainLib.transparent.sign := by
  intro seed
  apply ByteArray.ext_bytes
  exact List.drop_left' seed.size_eq

/-- Two processes, and a seed with two key pairs in the first one. -/
def twoPairs : List Happening := [
  ⟨0, .keygen (.genNewSeed (.replicate _ 1))⟩,
  ⟨1, .hash .clickHmac⟩,
  ⟨0, .keygen .genKeyPair⟩,
  ⟨0, .keygen .genKeyPair⟩]

def freshSystem : System :=
  .initial (fun _ => someMemory) (fun _ => .single "source" [1, 2, 3]) (fun _ => some [])

def numberedKey (id : Nat) : PublicKey :=
  ⟨toLittleEndian kPublicKeySize id, toLittleEndian_length _ _⟩

/-- Two users make key pairs, and each imports the key of the other one. -/
def knowEachOther : List Happening := [
  ⟨0, .keygen (.genNewSeed (.replicate _ 1))⟩,
  ⟨0, .keygen .genKeyPair⟩,
  ⟨1, .keygen (.genNewSeed (.replicate _ 2))⟩,
  ⟨1, .keygen .genKeyPair⟩,
  ⟨1, .keygen .genKeyPair⟩,
  ⟨0, .storage (.add (StorageWidget.importOf (EncodeBase58 (numberedKey 1).bytes)))⟩,
  ⟨1, .storage (.add (StorageWidget.importOf (EncodeBase58 (numberedKey 0).bytes)))⟩]

/-- The first one waits for connections, and the second one connects. -/
def connects : List Happening := knowEachOther ++ [
  ⟨0, .exchange (.widget (.setOwnKey 0))⟩,
  ⟨0, .exchange (.widget .enableIncomingConnections)⟩,
  ⟨1, .exchange (.widget (.setOwnKey 1))⟩,
  ⟨1, .exchange (.widget (.inspectKeyIdText (some (trustedRecord (numberedKey 0)))))⟩,
  ⟨1, .exchange (.widget .hostNameEnterDialog)⟩,
  ⟨1, .exchange (.widget (.setHostName "peer"))⟩,
  ⟨1, .exchange (.widget .sendKeyExchangeRequest)⟩,
  ⟨1, .exchange .connected⟩]

def writtenAfter (happenings : List Happening) (party : Party) : Bytes :=
  (latest (writtenBy party) (freshSystem.run .transparent happenings).network.log).getD []

/-- The query and the reply are delivered, and both users close the message
boxes with the new keys. -/
def answers : List Happening := connects ++ [
  ⟨0, .exchange (.incoming (trusting []) someMemory [writtenAfter connects (.client 1)])⟩]

def exchanges : List Happening := answers ++ [
  ⟨1, .exchange (.receive (trusting []) (writtenAfter answers (.handler 0 0)))⟩,
  ⟨1, .exchange (.widget .closeMessageBox)⟩, ⟨0, .exchange (.widget .closeMessageBox)⟩]

def exchangedKeys : Bytes × Bytes :=
  (ascii "1tJ93RwaVfE1PEMxd5rpZZuPtLCwbEaDCrNBhAy8Cw",
    ascii "4vHwdmWqQzNdhWCsTtXkkJoAQT6uth9A5WjsP1AgvsH")

theorem shared_lists_exchanges :
    (freshSystem.run .transparent exchanges).Shared .transparent 0 ∧
      ((freshSystem.run .transparent exchanges).windows 0).keyFiles.widget.keys.length = 1 ∧
      ((freshSystem.run .transparent exchanges).windows 0).cipher.window.encKeysComboBox.model =
        [exchangedKeys.1] ∧
      ((freshSystem.run .transparent exchanges).windows 0).cipher.window.decKeysComboBox.model =
        [exchangedKeys.2] :=
  ⟨shared_lists carries_transparent _ _ _ exchanges 0, by decide +kernel⟩

end Cscrypto.Gui
