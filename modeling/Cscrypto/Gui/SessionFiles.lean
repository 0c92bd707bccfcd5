import Cscrypto.Gui.Composition
import Cscrypto.Gui.HonestExchange

namespace Cscrypto.Gui

open Cscrypto.Base58 Cscrypto.Cipher Cscrypto.Data Cscrypto.KeyExchange Cscrypto.KeysDerivation

/-! # Files under exchanged keys

What the key exchange is for: in any reachable state of any number of processes
a file that one user encrypts with a row of his list is opened by another one
with a row that was computed in the same exchange, and with no other row.
-/

def Mode.activate : Mode → CipherEvent
  | .encryption => .activateEncryptionMode
  | .decryption => .activateDecryptionMode

def Mode.choose (row : Nat) : Mode → CipherEvent
  | .encryption => .chooseEncKey row
  | .decryption => .chooseDecKey row

/-- The clicks that choose a task and show the list of its mode. -/
def CipherWindow.opens (window : CipherWindow) (task : Task) : List CipherEvent :=
  [.getSrcFileName task.source, .getTrgFileName task.target, task.mode.activate] ++
    if window.useKeysCheckBox = .unchecked then [.clickUseKeys] else []

/-- The clicks that choose a task and a row of that list. -/
def CipherWindow.clicks (window : CipherWindow) (task : Task) (row : Nat) : List CipherEvent :=
  window.opens task ++ [task.mode.choose row]

theorem latest_opens (past : List CipherEvent) (window : CipherWindow) (task : Task) :
    latest CipherEvent.source? (past ++ window.opens task) = some task.source ∧
      latest CipherEvent.target? (past ++ window.opens task) = some task.target ∧
      latest CipherEvent.mode? (past ++ window.opens task) = some task.mode := by
  obtain ⟨source, target, mode⟩ := task
  have chosen : latest CipherEvent.source? (window.opens ⟨source, target, mode⟩) = some source ∧
      latest CipherEvent.target? (window.opens ⟨source, target, mode⟩) = some target ∧
      latest CipherEvent.mode? (window.opens ⟨source, target, mode⟩) = some mode := by
    unfold CipherWindow.opens
    cases mode <;> split <;> exact ⟨rfl, rfl, rfl⟩
  obtain ⟨first, second, third⟩ := chosen
  simp only [latest_append, first, second, third, Option.some_or, and_self]

theorem taskOf_clicks (past : List CipherEvent) (window : CipherWindow) {task : Task}
    (source : task.source ≠ "") (target : task.target ≠ "") (row : Nat) :
    taskOf (past ++ window.clicks task row) = some task := by
  have silent : (task.mode.choose row).source? = none ∧ (task.mode.choose row).target? = none ∧
      (task.mode.choose row).mode? = none := by
    cases task.mode <;> exact ⟨rfl, rfl, rfl⟩
  obtain ⟨first, second, third⟩ := latest_opens past window task
  simp [taskOf, chosenName, CipherWindow.clicks, ← List.append_assoc, latest_concat, first, second,
    third, silent, Option.filter_some, source, target]

theorem taskOf_changeFiles (past : List CipherEvent) (files : Disk) :
    taskOf (past ++ [.changeFiles files]) = taskOf past := by
  simp only [taskOf, chosenName, latest_concat, CipherEvent.source?, CipherEvent.target?,
    CipherEvent.mode?, Option.none_or]

theorem KeyInput.secret_row (lib : CipherLib) (secret : StreamKey) :
    KeyInput.secret lib (.row (EncodeBase58 secret.bytes)) = some secret := by
  simp only [KeyInput.secret, DecodeBase58_EncodeBase58, Option.bind_some, secret.size_eq, dif_pos]

theorem rowsOf_opens (mode : Mode) (past : List CipherEvent) (window : CipherWindow) (task : Task) :
    rowsOf mode (past ++ window.opens task) = rowsOf mode past := by
  have silent : (window.opens task).filterMap (CipherEvent.row? mode) = [] := by
    unfold CipherWindow.opens
    cases task.mode <;> split <;> rfl
  rw [rowsOf, List.filterMap_append, silent, List.append_nil, rowsOf]

/-- What a user does for a task on the files of a disk. -/
def CipherWindow.performs (window : CipherWindow) (task : Task) (row : Nat) (disk : Disk)
    (header stack : Header) (fuel : Nat) : List CipherEvent :=
  window.clicks task row ++ [.changeFiles disk, .start header stack fuel]

/-- Choosing the files and a mode leaves the check box as it is. -/
theorem CipherWindow.activateMode_checkBox (window : CipherWindow) (task : Task)
    (message : String) :
    (((window.getSrcFileName task.source).getTrgFileName task.target).activateMode task.mode
        message).useKeysCheckBox = window.useKeysCheckBox ∧
      (((window.getSrcFileName task.source).getTrgFileName task.target).activateMode task.mode
        message).useKeysEnabled = window.useKeysEnabled := by
  obtain ⟨_, source⟩ := window.getSrcFileName_eq task.source
  obtain ⟨_, target⟩ := (window.getSrcFileName task.source).getTrgFileName_eq task.target
  obtain ⟨_, _, _, _, active⟩ := ((window.getSrcFileName task.source).getTrgFileName
    task.target).activateMode_eq task.mode message
  rw [active, target, source]
  exact ⟨rfl, rfl⟩

namespace CipherRun

variable {lib : CipherLib} {past : List CipherEvent} {run : CipherRun}

/-- The list is shown, whatever was shown before. -/
theorem steps_opens (invariant : Invariant past run) (task : Task)
    (rows : rowsOf .encryption past ≠ []) :
    ∃ window, run.steps lib (run.window.opens task) = .ok ⟨window, run.disk⟩ ∧
      window.useKeysCheckBox = .checked := by
  obtain ⟨_, shows, lists⟩ := invariant
  obtain ⟨window, ran, state, enabled⟩ : ∃ window, run.steps lib [.getSrcFileName task.source,
      .getTrgFileName task.target, task.mode.activate] = .ok ⟨window, run.disk⟩ ∧
      window.useKeysCheckBox = run.window.useKeysCheckBox ∧
      window.useKeysEnabled = run.window.useKeysEnabled := by
    have kept := run.window.activateMode_checkBox task
    cases mode : task.mode with
    | encryption =>
        rw [mode] at kept
        exact ⟨_, rfl, kept "Encryption mode activated."⟩
    | decryption =>
        rw [mode] at kept
        exact ⟨_, rfl, kept "Decryption mode activated."⟩
  rw [lists.enabled.mpr rows] at enabled
  rw [CipherWindow.opens, steps, List.foldlM_append]
  by_cases unchecked : run.window.useKeysCheckBox = .unchecked
  · obtain ⟨_, _, _, _, changed⟩ := window.setCheckState_eq .checked
    have clicked : window.clickUseKeys = window.setCheckState .checked := by
      rw [CipherWindow.clickUseKeys, if_pos enabled, if_pos (state.trans unchecked)]
    refine ⟨window.clickUseKeys, ?_, by rw [clicked, changed]⟩
    rw [if_pos unchecked]
    exact bind_eq_ok.mpr ⟨_, ran, rfl⟩
  · refine ⟨window, ?_, state.trans (shows.states.resolve_left unchecked)⟩
    rw [if_neg unchecked]
    exact bind_eq_ok.mpr ⟨_, ran, rfl⟩

/-- After the clicks the row is the key on the screen. -/
theorem steps_clicks {disk : Disk} (reached : (initial disk).steps lib past = .ok run)
    {task : Task} {row : Nat} {text : Bytes} (listed : (rowsOf task.mode past)[row]? = some text) :
    ∃ window, run.steps lib (run.window.clicks task row) = .ok ⟨window, run.disk⟩ ∧
      window.inputs = [.row text] := by
  have rows : rowsOf .encryption past ≠ [] := by
    intro empty
    rw [rowsOf_eq_nil empty] at listed
    contradiction
  obtain ⟨window, opened, state⟩ := @steps_opens lib past run (steps_invariant reached) task rows
  have whole : (initial disk).steps lib (past ++ run.window.opens task) = .ok ⟨window, run.disk⟩ := by
    rw [steps, List.foldlM_append]
    exact bind_eq_ok.mpr ⟨_, reached, opened⟩
  obtain ⟨follows, shows, lists⟩ := steps_invariant whole
  obtain ⟨_, _, chosen⟩ := latest_opens past run.window task
  have encryption := follows.encryption
  have decryption := follows.decryption
  have pswd := shows.pswd
  have enc := shows.enc
  have dec := shows.dec
  rw [chosen] at encryption decryption
  rw [state] at pswd enc dec
  dsimp only at pswd enc dec encryption decryption
  rw [encryption] at enc
  rw [decryption] at dec
  rw [CipherWindow.clicks, steps, List.foldlM_append]
  cases mode : task.mode with
  | encryption =>
      have model := lists.encRows
      rw [rowsOf_opens] at model
      rw [mode] at listed enc dec
      refine ⟨_, bind_eq_ok.mpr ⟨_, opened, rfl⟩, ?_⟩
      have text := @ComboBox.choose_currentText window.encKeysComboBox row text enc (model ▸ listed)
      simp [CipherWindow.inputs, enc, dec, pswd, text]
  | decryption =>
      have model := lists.decRows
      rw [rowsOf_opens] at model
      rw [mode] at listed enc dec
      refine ⟨_, bind_eq_ok.mpr ⟨_, opened, rfl⟩, ?_⟩
      have text := @ComboBox.choose_currentText window.decKeysComboBox row text dec (model ▸ listed)
      simp [CipherWindow.inputs, enc, dec, pswd, text]

/-- Until the last click the window is about to do the task with the key of the
row. -/
theorem steps_prepared {disk : Disk} (reached : (initial disk).steps lib past = .ok run)
    {task : Task} (source : task.source ≠ "") (target : task.target ≠ "") {row : Nat}
    {secret : StreamKey} (listed : (rowsOf task.mode past)[row]? = some (EncodeBase58 secret.bytes))
    (files : Disk) :
    ∃ window, run.steps lib (run.window.clicks task row ++ [.changeFiles files]) =
        .ok ⟨window, files⟩ ∧
      Prepared lib (past ++ run.window.clicks task row ++ [.changeFiles files]) ⟨window, files⟩ task
        secret := by
  obtain ⟨window, clicked, shown⟩ := @steps_clicks lib past run disk reached task row _ listed
  have changed : run.steps lib (run.window.clicks task row ++ [.changeFiles files]) =
      .ok ⟨window, files⟩ := foldlM_concat_ok.mpr ⟨_, clicked, rfl⟩
  refine ⟨window, changed, @steps_invariant lib _ disk _ ?_, ?_, _, shown, ?_⟩
  · rw [List.append_assoc, steps, List.foldlM_append]
    exact bind_eq_ok.mpr ⟨_, reached, changed⟩
  · rw [taskOf_changeFiles, taskOf_clicks _ _ source target]
  · exact KeyInput.secret_row lib secret

theorem steps_encrypts {disk : Disk} (reached : (initial disk).steps lib past = .ok run)
    {source target : Path} (named : source ≠ "") (named' : target ≠ "") {row : Nat}
    {secret : StreamKey}
    (listed : (rowsOf .encryption past)[row]? = some (EncodeBase58 secret.bytes)) {content : Bytes}
    {files : Disk} (ready : FilesReady target source content files) (header stack : Header)
    {fuel : Nat} (enough : content.length / kChunkSize < fuel) :
    ∃ next, run.steps lib (run.window.performs ⟨source, target, .encryption⟩ row files header stack
        fuel) = .ok next ∧
      next.window.statusBar = "Source file successfully encrypted." ∧
      next.disk.files target = some (streamFile lib.ss secret header (fileMessages content)) ∧
      ∀ path, path ≠ target → next.disk.files path = files.files path := by
  obtain ⟨window, changed, prepared⟩ := @steps_prepared lib past run disk reached
    ⟨source, target, .encryption⟩ named named' row secret listed files
  obtain ⟨encrypted, started, written, others⟩ := prepared.encrypts ready header stack enough
  refine ⟨⟨window.toStatusBar _, encrypted⟩, ?_, rfl, written, others⟩
  rw [CipherWindow.performs, List.append_cons]
  exact foldlM_concat_ok.mpr ⟨_, changed, started⟩

theorem steps_decrypts {contents : StreamKey → Header → Option Bytes}
    (ideal : lib.ss.Ideal (fun secret header => (contents secret header).map fileMessages))
    {sender secret : StreamKey} {header : Header} {content : Bytes}
    (logged : contents sender header = some content)
    (fresh : ∀ other, other ≠ sender → contents other header = none) {disk : Disk}
    (reached : (initial disk).steps lib past = .ok run) {source target : Path}
    (named : source ≠ "") (named' : target ≠ "") {row : Nat}
    (listed : (rowsOf .decryption past)[row]? = some (EncodeBase58 secret.bytes)) {files : Disk}
    (ready : FilesReady target source (streamFile lib.ss sender header (fileMessages content)) files)
    (header' stack : Header) {fuel : Nat}
    (enough : (streamFile lib.ss sender header (fileMessages content)).length /
      (kChunkSize + kABytes) < fuel) :
    ∃ next, run.steps lib (run.window.performs ⟨source, target, .decryption⟩ row files header' stack
        fuel) = .ok next ∧
      next.window.statusBar = (if secret = sender then "Source file successfully decrypted."
        else "Unsuccessfull operation!") ∧
      next.disk.files target = some (if secret = sender then content else []) ∧
      ∀ path, path ≠ target → next.disk.files path = files.files path := by
  obtain ⟨window, changed, prepared⟩ := @steps_prepared lib past run disk reached
    ⟨source, target, .decryption⟩ named named' row secret listed files
  obtain ⟨decrypted, started, written, others⟩ :=
    prepared.decrypts ideal logged fresh ready header' stack enough
  refine ⟨⟨window.toStatusBar _, decrypted⟩, ?_, rfl, written, others⟩
  rw [CipherWindow.performs, List.append_cons]
  exact foldlM_concat_ok.mpr ⟨_, changed, started⟩

end CipherRun

namespace System

variable {lib : MainLib} {system : System} {name : Nat}

theorem run_cipher (up : system.down name = false) {events : List CipherEvent}
    (taken : ∀ event ∈ events, ∀ window : MainWidget, window.takes (.cipher event) = true)
    {cipher : CipherRun} (ran : (system.windows name).cipher.steps lib.cipher events = .ok cipher) :
    system.run lib (events.map fun event => ⟨name, .cipher event⟩) =
      system.setWindow name { system.windows name with cipher } := by
  refine run_tab MainEvent.cipher (fun cipher => { system.windows name with cipher }) up rfl
    (fun _ => rfl) ?_ ran
  intro tab event next member stepped
  exact ⟨⟨by simp, by simp⟩, taken event member _, bind_eq_ok.mpr ⟨_, stepped, rfl⟩⟩

/-- What the user of a process does for a task. -/
def performs (system : System) (name : Nat) (task : Task) (row : Nat) (files : Disk)
    (header stack : Header) (fuel : Nat) : List Happening :=
  ((system.windows name).cipher.window.performs task row files header stack fuel).map
    fun event => ⟨name, .cipher event⟩

theorem takes_performs (other : CipherWindow) (task : Task) (row : Nat) (files : Disk)
    (header stack : Header) (fuel : Nat) :
    ∀ event ∈ other.performs task row files header stack fuel, ∀ window : MainWidget,
      window.takes (.cipher event) = true := by
  intro event member window
  cases event with
  | newKeys b58SendSk b58ReceiveSk =>
      exfalso
      have silent : rowsOf .encryption (other.performs task row files header stack fuel) = [] := by
        unfold CipherWindow.performs CipherWindow.clicks CipherWindow.opens
        cases task.mode <;> split <;> rfl
      exact absurd (List.filterMap_eq_nil_iff.mp silent _ member) (by simp [CipherEvent.row?])
  | _ => rfl

end System

/-- Two rows of one exchange: each side has used its own private key and the
exchange key of the other. -/
structure OneExchange (sodium : Sodium) (row row' : Bytes × Bytes) : Prop where
  keys : ∃ serverSide secret secret' epk esk epk' esk',
    exchangeKeys sodium secret = some (epk, esk) ∧
    exchangeKeys sodium secret' = some (epk', esk') ∧
    commonKeys sodium serverSide secret epk' = some row ∧
    commonKeys sodium (!serverSide) secret' epk = some row'

theorem OneExchange.crosswise {sodium : Sodium} (laws : ExchangeLaws sodium)
    {row row' : Bytes × Bytes} (exchange : OneExchange sodium row row') :
    row.1 = row'.2 ∧ row.2 = row'.1 := by
  obtain ⟨serverSide, secret, secret', epk, esk, epk', esk', own, peer, first, second⟩ :=
    exchange.keys
  cases serverSide with
  | true =>
      obtain ⟨_, _, server, client⟩ := commonKeys_crosswise laws peer own
      rw [server] at first
      rw [Bool.not_true, client] at second
      cases first
      cases second
      exact ⟨rfl, rfl⟩
  | false =>
      obtain ⟨_, _, server, client⟩ := commonKeys_crosswise laws own peer
      rw [client] at first
      rw [Bool.not_false, server] at second
      cases first
      cases second
      exact ⟨rfl, rfl⟩

/-- The rows of the two lists. -/
def CipherWindow.rows (window : CipherWindow) : List (Bytes × Bytes) :=
  window.encKeysComboBox.model.zip window.decKeysComboBox.model

namespace System

variable {lib : MainLib} {memory : Nat → Memory} {disks : Nat → Disk}
  {records : Nat → Option Table} {system : System} {name : Nat}

/-- The file cipher offers the rows of the key exchange. -/
theorem Composed.rows_eq (composed : Composed lib memory disks system) (name : Nat) :
    (system.windows name).cipher.window.rows = (system.network.nodes name).widget.rows ∧
      ∃ events, (CipherRun.initial (disks name)).steps lib.cipher events =
          .ok (system.windows name).cipher ∧
        rowsOf .encryption events = (system.windows name).cipher.window.rows.map Prod.fst ∧
        rowsOf .decryption events = (system.windows name).cipher.window.rows.map Prod.snd := by
  obtain ⟨events, steps, first, second⟩ := (composed.windows name).cipher
  obtain ⟨_, _, lists⟩ := CipherRun.steps_invariant steps
  have rows : (system.windows name).cipher.window.rows =
      (system.network.nodes name).widget.rows := by
    rw [CipherWindow.rows, lists.encRows, lists.decRows, first, second, List.zip_map']
    exact List.map_id _
  exact ⟨rows, events, steps, by rw [first, rows], by rw [second, rows]⟩

theorem Composed.row_keys (composed : Composed lib memory disks system) {name row : Nat}
    {keys : Bytes × Bytes} (shown : (system.windows name).cipher.window.rows[row]? = some keys) :
    ∃ send receive : StreamKey, keys = (EncodeBase58 send.bytes, EncodeBase58 receive.bytes) := by
  obtain ⟨actions, reached⟩ := composed.network
  have explained := run_keysExplained lib.sodium memory actions
  have listed := World.run_listed lib.sodium memory actions name
  rw [← reached] at explained listed
  have member := List.mem_of_getElem? shown
  rw [(composed.rows_eq name).1] at member
  obtain ⟨⟨send, receive, first, second⟩, _⟩ :=
    rowExplained_of_mem explained (listed.stacked.mem_of_popped member)
  exact ⟨send, receive, Prod.ext first second⟩

/-- A process has done a task on the files of its disk: its message, the file
that it has written, and all others as they were. -/
structure Done (system next : System) (name : Nat) (target : Path) (files : Disk) (message : String)
    (output : Bytes) : Prop extends OnlyIn name system next where
  message : (next.windows name).cipher.window.statusBar = message
  output : (next.windows name).cipher.disk.files target = some output
  untouched : ∀ path, path ≠ target → (next.windows name).cipher.disk.files path = files.files path

theorem done_setWindow {cipher : CipherRun} {target : Path} {files : Disk} {message : String}
    {output : Bytes} (status : cipher.window.statusBar = message)
    (written : cipher.disk.files target = some output)
    (others : ∀ path, path ≠ target → cipher.disk.files path = files.files path) :
    Done system (system.setWindow name { system.windows name with cipher }) name target files
      message output := by
  have own : (system.setWindow name { system.windows name with cipher }).windows name =
      { system.windows name with cipher } := Function.update_self _ _ _
  refine ⟨onlyIn_setWindow rfl, ?_, ?_, ?_⟩ <;> rw [own]
  exacts [status, written, others]

theorem Composed.encrypts (composed : Composed lib memory disks system) {row : Nat}
    (up : system.down name = false) {send : StreamKey} {keys : Bytes × Bytes}
    (shown : (system.windows name).cipher.window.rows[row]? = some keys)
    (text : keys.1 = EncodeBase58 send.bytes) {source target : Path} (named : source ≠ "")
    (named' : target ≠ "") {content : Bytes} {files : Disk}
    (ready : FilesReady target source content files) (header stack : Header) {fuel : Nat}
    (enough : content.length / kChunkSize < fuel) :
    Done system (system.run lib (system.performs name ⟨source, target, .encryption⟩ row files header
      stack fuel)) name target files "Source file successfully encrypted."
      (streamFile lib.ss send header (fileMessages content)) := by
  obtain ⟨_, events, steps, first, _⟩ := composed.rows_eq name
  have listed : (rowsOf .encryption events)[row]? = some (EncodeBase58 send.bytes) := by
    rw [first, List.getElem?_map, shown, Option.map_some, text]
  obtain ⟨cipher, ran, status, written, others⟩ := @CipherRun.steps_encrypts lib.cipher events _ _
    steps source target named named' row send listed content files ready header stack fuel enough
  rw [performs, run_cipher up (takes_performs _ _ _ _ _ _ _) ran]
  exact done_setWindow status written others

theorem Composed.decrypts {contents : StreamKey → Header → Option Bytes}
    (ideal : lib.ss.Ideal (fun secret header => (contents secret header).map fileMessages))
    {sender receive : StreamKey} {header : Header} {content : Bytes}
    (logged : contents sender header = some content)
    (fresh : ∀ other, other ≠ sender → contents other header = none)
    (composed : Composed lib memory disks system) {row : Nat}
    (up : system.down name = false) {keys : Bytes × Bytes}
    (shown : (system.windows name).cipher.window.rows[row]? = some keys)
    (text : keys.2 = EncodeBase58 receive.bytes) {source target : Path} (named : source ≠ "")
    (named' : target ≠ "") {files : Disk}
    (ready : FilesReady target source (streamFile lib.ss sender header (fileMessages content)) files)
    (header' stack : Header) {fuel : Nat}
    (enough : (streamFile lib.ss sender header (fileMessages content)).length /
      (kChunkSize + kABytes) < fuel) :
    Done system (system.run lib (system.performs name ⟨source, target, .decryption⟩ row files
      header' stack fuel)) name target files
      (if receive = sender then "Source file successfully decrypted." else "Unsuccessfull operation!")
      (if receive = sender then content else []) := by
  obtain ⟨_, events, steps, _, second⟩ := composed.rows_eq name
  have listed : (rowsOf .decryption events)[row]? = some (EncodeBase58 receive.bytes) := by
    rw [second, List.getElem?_map, shown, Option.map_some, text]
  obtain ⟨cipher, ran, status, written, others⟩ := @CipherRun.steps_decrypts lib.cipher events _
    contents ideal sender receive header content logged fresh _ steps source target named named'
    row listed files ready header' stack fuel enough
  rw [performs, run_cipher up (takes_performs _ _ _ _ _ _ _) ran]
  exact done_setWindow status written others

end System

/-- In any reachable state of any number of processes: whatever a user encrypts
with a row of his list, another one opens with a row of his own exactly if the
key is the same, all other files stay as they were, and the rows of one exchange
have the same keys crosswise. -/
theorem session_keys_carry_files {lib : MainLib} (carries : Carries lib.sign)
    (laws : ExchangeLaws lib.sodium) {contents : StreamKey → Header → Option Bytes}
    (ideal : lib.ss.Ideal (fun secret header => (contents secret header).map fileMessages))
    {memory : Nat → Memory} {disks : Nat → Disk} {records : Nat → Option Table}
    {happenings : List Happening} {system : System}
    (reached : system = (System.initial memory disks records).run lib happenings)
    {sender receiver : Nat} (up : system.down sender = false) (up' : system.down receiver = false)
    {row row' : Nat} {keys keys' : Bytes × Bytes}
    (shown : (system.windows sender).cipher.window.rows[row]? = some keys)
    (shown' : (system.windows receiver).cipher.window.rows[row']? = some keys') :
    (OneExchange lib.sodium keys keys' → keys.1 = keys'.2 ∧ keys.2 = keys'.1) ∧
    ∃ secret : StreamKey, keys.1 = EncodeBase58 secret.bytes ∧
      ∀ (source target : Path) (content : Bytes) (files : Disk) (header stack : Header)
        (fuel : Nat), source ≠ "" → target ≠ "" → FilesReady target source content files →
        content.length / kChunkSize < fuel → contents secret header = some content →
        (∀ other, other ≠ secret → contents other header = none) →
        ∃ image sent, sent = system.run lib (system.performs sender ⟨source, target, .encryption⟩
            row files header stack fuel) ∧
          System.Done system sent sender target files "Source file successfully encrypted." image ∧
          ∀ (source' target' : Path) (files' : Disk) (header' stack' : Header) (fuel' : Nat),
            source' ≠ "" → target' ≠ "" → FilesReady target' source' image files' →
            image.length / (kChunkSize + kABytes) < fuel' →
            System.Done sent (sent.run lib (sent.performs receiver ⟨source', target', .decryption⟩
                row' files' header' stack' fuel')) receiver target' files'
              (if keys'.2 = keys.1 then "Source file successfully decrypted."
                else "Unsuccessfull operation!")
              (if keys'.2 = keys.1 then content else []) := by
  have composed := System.run_composed carries memory disks records happenings
  rw [← reached] at composed
  obtain ⟨secret, receive, rfl⟩ := composed.row_keys shown
  obtain ⟨send', secret', rfl⟩ := composed.row_keys shown'
  refine ⟨fun exchange => exchange.crosswise laws, secret, rfl, ?_⟩
  intro source target content files header stack fuel named named' ready enough logged fresh
  have encrypted := composed.encrypts up shown rfl named named' ready header stack enough
  generalize sending : system.performs sender ⟨source, target, .encryption⟩ row files header stack
    fuel = sendings at encrypted ⊢
  refine ⟨_, _, rfl, encrypted, ?_⟩
  intro source' target' files' header' stack' fuel' named named' ready enough
  have later := System.run_composed carries memory disks records (happenings ++ sendings)
  rw [System.run, List.foldl_append, ← System.run, ← System.run, ← reached] at later
  have listed := (later.rows_eq receiver).1
  rw [encrypted.network, ← (composed.rows_eq receiver).1] at listed
  have decrypted := later.decrypts ideal logged fresh ((encrypted.down receiver).trans up')
    (listed ▸ shown') rfl named named' ready header' stack' enough
  have same : EncodeBase58 secret'.bytes = EncodeBase58 secret.bytes ↔ secret' = secret :=
    ⟨fun texts => ByteArray.ext_bytes (EncodeBase58_injective texts), fun keys => by rw [keys]⟩
  simp only [same]
  exact decrypted

/-- The one file that is sent under the first of these keys. -/
def sentFile (secret : StreamKey) (header : Header) : Option Bytes :=
  if EncodeBase58 secret.bytes = exchangedKeys.1 ∧ header = .replicate _ 9 then some [1, 2, 3]
  else none

def MainLib.sendsFile : MainLib :=
  { MainLib.transparent with
    ss := idealStream (fun secret header => (sentFile secret header).map fileMessages) }

theorem exchanges_rows :
    (freshSystem.run .sendsFile exchanges).down 0 = false ∧
      (freshSystem.run .sendsFile exchanges).down 1 = false ∧
      ((freshSystem.run .sendsFile exchanges).windows 0).cipher.window.rows[0]? =
        some exchangedKeys ∧
      ((freshSystem.run .sendsFile exchanges).windows 1).cipher.window.rows[0]? =
        some exchangedKeys.swap := by
  decide +kernel

theorem session_keys_carry_files_exchange : ∃ image sent received,
    sent = (freshSystem.run .sendsFile exchanges).run .sendsFile
      ((freshSystem.run .sendsFile exchanges).performs 0 ⟨"source", "target", .encryption⟩ 0
        (.single "source" [1, 2, 3]) (.replicate _ 9) (.replicate _ 0) 1) ∧
    System.Done (freshSystem.run .sendsFile exchanges) sent 0 "target" (.single "source" [1, 2, 3])
      "Source file successfully encrypted." image ∧
    received = sent.run .sendsFile (sent.performs 1 ⟨"source", "target", .decryption⟩ 0
      (.single "source" image) (.replicate _ 0) (.replicate _ 0) (image.length + 1)) ∧
    System.Done sent received 1 "target" (.single "source" image)
      "Source file successfully decrypted." [1, 2, 3] := by
  obtain ⟨up, up', shown, shown'⟩ := exchanges_rows
  obtain ⟨_, secret, text, carries⟩ := @session_keys_carry_files .sendsFile carries_transparent
    transparent_exchangeLaws sentFile (idealStream_ideal _) (fun _ => someMemory)
    (fun _ => .single "source" [1, 2, 3]) (fun _ => some []) exchanges
    (freshSystem.run .sendsFile exchanges) rfl 0 1 up up' 0 0 _ _ shown shown'
  have logged : sentFile secret (.replicate _ 9) = some [1, 2, 3] := if_pos ⟨text.symm, rfl⟩
  have fresh : ∀ other, other ≠ secret → sentFile other (.replicate _ 9) = none := by
    intro other different
    refine if_neg fun same => different (ByteArray.ext_bytes (EncodeBase58_injective ?_))
    exact same.1.trans text
  obtain ⟨image, sent, ran, done, opens⟩ := carries "source" "target" [1, 2, 3] _ _ (.replicate _ 0) 1
    (by decide) (by decide) (ready_single [1, 2, 3]) (by decide) logged fresh
  have opened := opens "source" "target" _ (.replicate _ 0) (.replicate _ 0) (image.length + 1)
    (by decide) (by decide) (ready_single image) (Nat.lt_succ_of_le (Nat.div_le_self _ _))
  rw [Prod.snd_swap, if_pos rfl, if_pos rfl] at opened
  exact ⟨image, sent, _, ran, done, rfl, opened⟩

end Cscrypto.Gui
