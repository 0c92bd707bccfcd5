import Cscrypto.Gui.Composition
import Cscrypto.Gui.ListedKeys
import Cscrypto.Gui.Segmentation

namespace Cscrypto.Gui

open Cscrypto.Base58 Cscrypto.Cipher Cscrypto.Data Cscrypto.KeyExchange Cscrypto.KeysDerivation

/-! # What ends a process

Every slot is either proved to get through in all reachable states, or there is
a condition that says exactly when it does not.  The events of a process come one
after another; accesses to a key that overlap are in `Memory.AccessGuard`.
-/

namespace RequestMaster

variable {sodium : Sodium} {master : RequestMaster}

/-- The own private key is there when it is asked for. -/
def Equipped (master : RequestMaster) : Prop :=
  master.validOwnKeys = true → ∃ secret, master.ownKeys.2 = .holding secret

theorem keysOnReply_exists {publicKey : PublicKey} {secret : SecretKey}
    (own : master.ownKeys = (publicKey, .holding secret)) (type : RequestType) :
    ∃ events, keysOnReply sodium master type = .ok events := by
  unfold keysOnReply
  split
  · exact ⟨_, formCommonKeys_holding own⟩
  · exact ⟨[], rfl⟩

theorem Equipped.own (equipped : master.Equipped) (valid : master.validOwnKeys = true) :
    ∃ publicKey secret, master.ownKeys = (publicKey, .holding secret) := by
  obtain ⟨secret, holds⟩ := equipped valid
  exact ⟨master.ownKeys.1, secret, Prod.ext rfl holds⟩

theorem validate_exists (equipped : master.Equipped) (env : Environment) (process : Process)
    (type : RequestType) (request : Bytes) :
    ∃ result, master.validate sodium env process type request = .ok result := by
  cases ran : master.validate sodium env process type request with
  | ok result => exact ⟨result, rfl⟩
  | error fault =>
      obtain ⟨valid, usable, sender, exchange, signature, passes⟩ := validate_error ran
      obtain ⟨publicKey, secret, own⟩ := equipped.own valid
      obtain ⟨events, formed⟩ := @keysOnReply_exists sodium
        { master with exchangePubKey := exchange } publicKey secret own type
      rw [validate_passes valid usable passes, formed] at ran
      contradiction

/-- Without an exchange key the message stays empty. -/
theorem form_underived {type : RequestType} {publicKey : PublicKey} {secret : SecretKey}
    (known : requestSize type = 128) (valid : master.validOwnKeys = true)
    (own : master.ownKeys = (publicKey, .holding secret))
    (underived : exchangeKeys sodium secret = none) : form sodium master type = .ok ([], []) := by
  have size : (sizeT 128 + 1) % 2 ^ 64 = 129 := by decide
  have first : copyInto (List.replicate 129 0) 0 [type] = .ok ([type] ++ List.replicate 128 0) :=
    (copyInto_zeros rfl rfl : copyInto ([] ++ List.replicate 129 0) 0 [type] =
      .ok ([] ++ [type] ++ List.replicate 128 0))
  have second : copyInto ([type] ++ List.replicate 128 0) 1 publicKey.bytes =
      .ok ([type] ++ publicKey.bytes ++ List.replicate 96 0) :=
    copyInto_zeros rfl (by rw [publicKey.size_eq])
  simp only [form, valid, own, known, size, Bool.not_true, Bool.false_eq_true, if_false, first,
    second, ok_bind, getPubExchangeKey_holding, underived, Option.map_none, pure_eq_ok]

theorem form_exists (equipped : master.Equipped) {type : RequestType}
    (known : requestSize type = 128) : ∃ formed, form sodium master type = .ok formed := by
  cases valid : master.validOwnKeys with
  | false => exact ⟨([], []), by simp only [form, valid, Bool.not_false, if_true]⟩
  | true =>
      obtain ⟨publicKey, secret, own⟩ := equipped.own valid
      cases derived : exchangeKeys sodium secret with
      | none => exact ⟨_, form_underived known valid own derived⟩
      | some keys =>
          obtain ⟨events, formed⟩ := @keysOnReply_exists sodium master publicKey secret own type
          exact ⟨_, by rw [form_holding known valid own derived, formed]; rfl⟩

end RequestMaster

theorem IncomingConnectionHandler.run_exists (sodium : Sodium) (env : Environment)
    {ownKeys : KeyPair} (memory : Memory) (process : Process) (arrivals : List Bytes)
    {secret : SecretKey} (holds : ownKeys.2 = .holding secret) :
    ∃ outcome, run sodium env ownKeys memory process arrivals = .ok outcome := by
  have equipped (master : RequestMaster) (own : master.ownKeys = ownKeys) : master.Equipped :=
    fun _ => ⟨secret, by rw [own, holds]⟩
  unfold run
  dsimp only
  split
  · exact ⟨_, rfl⟩
  cases read : readRequest sodium env ⟨memory.senderPubKey, memory.exchangePubKey,
      memory.signature, ownKeys, true, true, false⟩ process arrivals with
  | error fault =>
      obtain ⟨type, request, _, failed⟩ := readRequest_error read
      obtain ⟨result, ran⟩ := RequestMaster.validate_exists (equipped ⟨memory.senderPubKey,
        memory.exchangePubKey, memory.signature, ownKeys, true, true, false⟩ rfl) env process type
        request
      rw [ran] at failed
      contradiction
  | ok result =>
      rw [ok_bind]
      cases readRequest_reads read with
      | failed message => exact ⟨_, rfl⟩
      | rejected type request result received validated rejected => exact ⟨_, rfl⟩
      | accepted type request result received validated accepted =>
          obtain ⟨own, _⟩ := RequestMaster.validate_ok received.known validated
          obtain ⟨⟨reply, events⟩, formed⟩ :=
            @RequestMaster.form_exists sodium _ (equipped _ own) keyExchangeReply rfl
          refine ⟨⟨result.process, result.events ++ (events ++ [.written reply])⟩, ?_⟩
          simp only [sendReply, formed, ok_bind, pure_eq_ok]

namespace Node

variable {sodium : Sodium} {node : Node}

/-- The first unread byte is no type of a message. -/
def Misread (node : Node) : NodeAction → Prop
  | .receive _ bytes => node.client.socket = .connected ∧
      ∃ type ∈ (node.client.unread bytes).head?, ¬Expected type
  | _ => False

theorem misread_receive {env : Environment} {bytes rest : Bytes} {type : RequestType}
    (connected : node.client.socket = .connected)
    (arrived : node.client.unread bytes = type :: rest) (other : ¬Expected type) :
    node.Misread (.receive env bytes) :=
  ⟨connected, type, by rw [arrived]; rfl, other⟩

theorem step_exists {sign : SignKeys} (listed : node.UsesListed)
    (held : ∀ pair ∈ node.widget.keys, HeldBy sign pair) {act : NodeAction}
    (read : ¬node.Misread act) : ∃ result, node.step sodium act = .ok result := by
  have equipped : node.client.requestMaster.Equipped := by
    intro valid
    rcases listed.client with none | member
    · rw [none.2] at valid
      contradiction
    · obtain ⟨secret, same⟩ := held _ member
      exact ⟨secret, by rw [same]⟩
  cases act with
  | widget event => exact ⟨_, rfl⟩
  | socketError errorType => exact ⟨_, rfl⟩
  | connected =>
      simp only [step]
      split
      · obtain ⟨⟨bytes, events⟩, formed⟩ :=
          @RequestMaster.form_exists sodium _ equipped keyExchangeQuery rfl
        simp only [Client.onConnected, formed, ok_bind, pure_eq_ok]
        exact ⟨_, rfl⟩
      · exact ⟨_, rfl⟩
  | incoming env memory arrivals =>
      cases serving : node.server with
      | none => exact ⟨_, by simp only [step, serving]; rfl⟩
      | some ownKeys =>
          obtain ⟨secret, same⟩ := held _ (listed.server ownKeys serving)
          obtain ⟨outcome, ran⟩ := IncomingConnectionHandler.run_exists sodium env memory
            node.process arrivals (congrArg Prod.snd same)
          exact ⟨_, by simp only [step, serving, ran, ok_bind, pure_eq_ok]; rfl⟩
  | receive env bytes =>
      by_cases connected : node.client.socket = .connected
      · have expected : ∀ type ∈ (node.client.unread bytes).head?, Expected type := by
          intro type first
          by_contra other
          exact read ⟨connected, type, first, other⟩
        obtain ⟨⟨client, process, events⟩, received⟩ : ∃ result,
            node.client.receive sodium env node.process bytes = .ok result := by
          cases @Client.receive_handles sodium env node.client node.process bytes expected with
          | waits later _ _ ran => exact ⟨_, ran⟩
          | aborts later _ ran => exact ⟨_, ran⟩
          | validates type request rest _ _ ran =>
              obtain ⟨result, validated⟩ :=
                @RequestMaster.validate_exists sodium _ equipped env node.process type request
              exact ⟨_, by rw [ran, validated]; rfl⟩
        exact ⟨_, step_receive connected received⟩
      · exact ⟨_, if_neg connected⟩

theorem step_misread {act : NodeAction} (misread : node.Misread act) :
    ∃ fault, node.step sodium act = .error fault := by
  cases act with
  | receive env bytes =>
      obtain ⟨connected, type, first, other⟩ := misread
      obtain ⟨available, arrived⟩ := List.head?_eq_some_iff.mp first
      have different : type ≠ unknown := fun same => other (.inr (.inr same))
      have fails := @Client.receive_unsized sodium env node.client node.process bytes available type
        (requestSize_of_not_expected other) different arrived
      exact ⟨.lengthError, by simp only [step, if_pos connected, fails]; rfl⟩
  | _ => exact misread.elim

/-- A node that works with pairs of its list, all of which have a private
key, is ended by such a byte and by nothing else. -/
theorem step_fails_iff {sign : SignKeys} (listed : node.UsesListed)
    (held : ∀ pair ∈ node.widget.keys, HeldBy sign pair) (act : NodeAction) :
    (∃ fault, node.step sodium act = .error fault) ↔ node.Misread act := by
  refine ⟨fun failed => ?_, step_misread⟩
  by_contra read
  obtain ⟨fault, failed⟩ := failed
  obtain ⟨result, ran⟩ := @step_exists sodium node sign listed held act read
  rw [ran] at failed
  contradiction

end Node

theorem getKeyPair_held {sign : SignKeys} {keys : List KeyPair} {index : Option Nat} {row : Nat}
    (held : ∀ pair ∈ keys, HeldBy sign pair) (current : index = some row)
    (below : row < keys.length) : HeldBy sign (KeyListModel.getKeyPair keys index) := by
  rw [KeyListModel.getKeyPair, current, Option.bind_some, List.getElem?_eq_getElem below,
    Option.getD_some]
  exact held _ (List.getElem_mem below)

/-- A message can always be signed. -/
theorem SignRun.step_exists {sign : SignKeys} (calculateHash : Bytes → Hash) (sodium : Sodium)
    {run : SignRun} (chosen : run.RowChosen) (held : ∀ pair ∈ run.widget.keys, HeldBy sign pair)
    (event : SignEvent) : ∃ next, run.step calculateHash sodium event = .ok next := by
  cases event with
  | signMsg =>
      simp only [step]
      split
      · rename_i enabled
        unfold signMsg
        split
        · exact ⟨_, rfl⟩
        · obtain ⟨row, current, below⟩ := chosen (.inl enabled)
          obtain ⟨secret, same⟩ := getKeyPair_held held current below
          rw [same]
          exact ⟨_, rfl⟩
      · exact ⟨_, rfl⟩
  | _ => exact ⟨_, rfl⟩

namespace KeyFilesRun

/-- The password hash fails, or the file holds more than an encrypted key. -/
def Fails (lib : KeyFilesLib) (run : KeyFilesRun) : KeyFileEvent → Prop
  | .dumpKeysEncrypted opened _ => run.widget.encDialogs ≠ 0 ∧ opened = true ∧
      kMinPswdSize ≤ run.widget.encryptionPswdLineEdit.length ∧
      lib.aead.pwhash run.widget.encryptionPswdLineEdit salt = none
  | .decryptKeys => run.widget.decryptDialogs ≠ 0 ∧ run.widget.encryptionPswdLineEdit ≠ [] ∧
      kNpubBytes + kAeadABytes ≤ run.widget.keysToDecrypt.2.length ∧
      (lib.aead.pwhash run.widget.encryptionPswdLineEdit salt = none ∨
        kNpubBytes + kPrivateKeySize + kAeadABytes < run.widget.keysToDecrypt.2.length)
  | _ => False

variable {lib : KeyFilesLib} {run : KeyFilesRun}

theorem getEncrypted_exists {aead : Aead} {passwd : Bytes} {key : ByteArray kAeadKeySize}
    (hashed : aead.pwhash passwd salt = some key) (secret : SecretKey)
    (random : ByteArray kNpubBytes) :
    ∃ bytes, (PrivateKey.holding secret).getEncrypted aead passwd random = .ok bytes := by
  cases encrypted : aead.encrypt key random secret.bytes with
  | none =>
      refine ⟨[], ?_⟩
      simp only [PrivateKey.getEncrypted, Heap.getKeyFromPassword_eq, hashed,
        PrivateKey.access_holding, MemGuard.new_eq_holding, MemGuard.write_readWrite,
        MemGuard.read_readWrite, ok_bind, encrypted, pure_eq_ok]
  | some c => exact ⟨_, PrivateKey.getEncrypted_holding hashed encrypted⟩

theorem DumpKeysEncrypted_fails_iff {secret : SecretKey}
    (holds : run.currentPair.2 = .holding secret) (opened : Bool) (random : ByteArray kNpubBytes) :
    (∃ fault, run.DumpKeysEncrypted lib opened random = .error fault) ↔ opened = true ∧
      kMinPswdSize ≤ run.widget.encryptionPswdLineEdit.length ∧
      lib.aead.pwhash run.widget.encryptionPswdLineEdit salt = none := by
  simp only [DumpKeysEncrypted]
  by_cases short : run.widget.encryptionPswdLineEdit.length < kMinPswdSize
  · simp [short, Nat.not_le_of_lt short]
  have filled : run.widget.encryptionPswdLineEdit ≠ [] := by
    intro empty
    rw [empty] at short
    exact short (by decide)
  cases opened with
  | false => simp [short]
  | true =>
      rw [if_neg short, if_neg (by decide), if_neg filled, holds]
      cases hashed : lib.aead.pwhash run.widget.encryptionPswdLineEdit salt with
      | none =>
          obtain ⟨fault, failed⟩ := PrivateKey.getEncrypted_unhashed (.holding secret) random hashed
          rw [failed]
          exact iff_of_true ⟨fault, rfl⟩ ⟨rfl, Nat.le_of_not_lt short, rfl⟩
      | some key =>
          obtain ⟨bytes, ran⟩ := getEncrypted_exists hashed secret random
          rw [ran]
          exact iff_of_false (fun failed => by obtain ⟨_, failed⟩ := failed; contradiction)
            (fun given => by simp at given)

theorem readFromEncrypted_fails_iff (aead : Aead) (bytes passwd : Bytes) :
    (∃ fault, PrivateKey.readFromEncrypted aead bytes passwd = .error fault) ↔
      kNpubBytes + kAeadABytes ≤ bytes.length ∧ (aead.pwhash passwd salt = none ∨
        kNpubBytes + kPrivateKeySize + kAeadABytes < bytes.length) := by
  by_cases short : bytes.length < kNpubBytes
  · rw [PrivateKey.readFromEncrypted, if_pos short]
    simp only [reduceCtorEq, exists_false, false_iff]
    omega
  rw [PrivateKey.readFromEncrypted_eq aead passwd (Nat.le_of_not_lt short)]
  have rest : (bytes.drop kNpubBytes).length = bytes.length - kNpubBytes := List.length_drop
  by_cases untagged : (bytes.drop kNpubBytes).length < kAeadABytes
  · rw [PrivateKey.opening_untagged _ _ untagged]
    simp only [reduceCtorEq, exists_false, false_iff]
    omega
  cases hashed : aead.pwhash passwd salt with
  | none =>
      rw [PrivateKey.opening_unhashed _ untagged]
      exact iff_of_true ⟨_, rfl⟩ ⟨by omega, .inl rfl⟩
  | some key =>
      rw [PrivateKey.opening_hashed _ _ untagged]
      by_cases exceeds : kPrivateKeySize < (bytes.drop kNpubBytes).length - kAeadABytes
      · rw [if_pos exceeds]
        exact iff_of_true ⟨_, rfl⟩ ⟨by omega, .inr (by omega)⟩
      · rw [if_neg exceeds]
        simp only [reduceCtorEq, exists_false, false_or, false_iff]
        omega

/-- What comes after the reading gets through. -/
theorem decryptKeys_fails_iff (run : KeyFilesRun) :
    (∃ fault, run.decryptKeys lib = .error fault) ↔ run.widget.encryptionPswdLineEdit ≠ [] ∧
      kNpubBytes + kAeadABytes ≤ run.widget.keysToDecrypt.2.length ∧
      (lib.aead.pwhash run.widget.encryptionPswdLineEdit salt = none ∨
        kNpubBytes + kPrivateKeySize + kAeadABytes < run.widget.keysToDecrypt.2.length) := by
  rw [← readFromEncrypted_fails_iff, decryptKeys]
  by_cases empty : run.widget.encryptionPswdLineEdit = []
  · simp [empty]
  rw [if_neg empty]
  cases read : PrivateKey.readFromEncrypted lib.aead run.widget.keysToDecrypt.2
      run.widget.encryptionPswdLineEdit with
  | error fault => exact iff_of_true ⟨fault, rfl⟩ ⟨empty, fault, rfl⟩
  | ok second =>
      refine iff_of_false (fun failed => ?_) (fun given => ?_)
      · obtain ⟨fault, failed⟩ := failed
        rw [ok_bind] at failed
        obtain ⟨_ | secret⟩ := second
        · contradiction
        · rw [if_neg (by simp), getMatchingPublic, PrivateKey.access, ok_bind, pure_eq_ok,
            ok_bind] at failed
          split at failed <;> contradiction
      · obtain ⟨_, fault, failed⟩ := given
        contradiction

theorem step_fails_iff {sign : SignKeys} (chosen : run.RowChosen)
    (held : ∀ pair ∈ run.widget.keys, HeldBy sign pair) (event : KeyFileEvent) :
    (∃ fault, run.step lib event = .error fault) ↔ run.Fails lib event := by
  have current (open_ : 0 < run.widget.encDialogs) :
      ∃ secret, run.closeEncDialog.currentPair.2 = .holding secret := by
    obtain ⟨row, index, below⟩ := chosen (.inr open_)
    obtain ⟨secret, same⟩ := getKeyPair_held held index below
    exact ⟨secret, congrArg Prod.snd same⟩
  cases event with
  | dumpKeysEncrypted opened random =>
      simp only [step]
      by_cases closed : run.widget.encDialogs = 0
      · rw [if_pos closed]
        exact iff_of_false (by simp) (fun given => given.1 closed)
      · rw [if_neg closed]
        obtain ⟨secret, holds⟩ := current (Nat.pos_of_ne_zero closed)
        have fails := @DumpKeysEncrypted_fails_iff lib run.closeEncDialog secret holds opened random
        exact fails.trans ⟨fun given => ⟨closed, given⟩, fun given => given.2⟩
  | decryptKeys =>
      simp only [step]
      by_cases closed : run.widget.decryptDialogs = 0
      · rw [if_pos closed]
        exact iff_of_false (by simp) (fun given => given.1 closed)
      · rw [if_neg closed]
        have fails := @decryptKeys_fails_iff lib run.closeDecryptDialog
        exact fails.trans ⟨fun given => ⟨closed, given⟩, fun given => given.2⟩
  | dumpKeysClear opened =>
      refine iff_of_false (fun failed => ?_) id
      obtain ⟨fault, failed⟩ := failed
      simp only [step] at failed
      split at failed
      · contradiction
      · rename_i open_
        obtain ⟨secret, holds⟩ := current (Nat.pos_of_ne_zero open_)
        cases opened with
        | false => contradiction
        | true =>
            simp only [DumpKeysClear, Bool.not_true, Bool.false_eq_true, if_false, holds,
              PrivateKey.access_holding] at failed
            contradiction
  | loadKeysFromFile file =>
      refine iff_of_false (fun failed => ?_) id
      obtain ⟨fault, failed⟩ := failed
      cases file with
      | none => contradiction
      | some file =>
          obtain ⟨next, loaded, _⟩ := @loadKeysFromFile_loads lib run file
          cases loaded.symm.trans failed
  | dumpKeysToFile =>
      refine iff_of_false (fun failed => ?_) id
      obtain ⟨fault, failed⟩ := failed
      simp only [step] at failed
      split at failed <;> contradiction
  | clicked _ | addKeyPair _ | typePassword _ | closeDecryptDialog =>
      refine iff_of_false (fun failed => ?_) id
      obtain ⟨fault, failed⟩ := failed
      contradiction

end KeyFilesRun

namespace MainWidget

variable {lib : MainLib} {disk : Disk} {records : Option Table} {node : Node}
  {rows : List (Bytes × Bytes)} {window : MainWidget}

/-- What ends the process of a window with this node. -/
def Breaks (lib : MainLib) (window : MainWidget) (node : Node) : MainEvent → Prop
  | .keyFiles event => window.keyFiles.Fails lib.keyFiles event
  | .exchange act => window.dbOpener = true ∧ node.Misread act
  | _ => False

theorem breaks_exchange {act : NodeAction} (opened : window.dbOpener = true)
    (misread : node.Misread act) : window.Breaks lib node (.exchange act) := ⟨opened, misread⟩

theorem handlePrivKeyLine_exists (sign : SignKeys) (privStr : Bytes) :
    ∃ keys, Gui.handlePrivKeyLine sign privStr = .ok keys := by
  unfold Gui.handlePrivKeyLine
  split
  · exact ⟨none, rfl⟩
  · rename_i vecPriv _
    split
    · exact ⟨none, rfl⟩
    · rename_i size
      rw [readFromBytes, dif_pos (not_not.mp size)]
      exact ⟨_, rfl⟩

theorem Composed.slot_exists (composed : window.Composed lib disk node rows)
    {event : MainEvent}
    (idle : ∀ header stack fuel, event ≠ .cipher (.start header stack fuel)) :
    ∃ result, window.slot lib event = .ok result := by
  cases event with
  | keygen event =>
      have seeded := composed.keygen.preserves (fun run event next seeded stepped => by
        obtain ⟨other, same, kept⟩ := step_seeded seeded event
        cases same.symm.trans stepped
        exact kept) (seeded_initial lib.keygen)
      obtain ⟨next, stepped, _⟩ := step_seeded seeded event
      exact ⟨_, by rw [MainWidget.slot, stepped]; rfl⟩
  | sign event =>
      have chosen := composed.sign.preserves (fun run event next chosen stepped =>
        SignRun.step_rowChosen chosen stepped) SignRun.initial_rowChosen
      have held : ∀ pair ∈ window.sign.widget.keys, HeldBy lib.sign pair := by
        rw [composed.signKeys]
        exact composed.held
      obtain ⟨next, stepped⟩ := SignRun.step_exists lib.calculateHash lib.sodium chosen held event
      exact ⟨_, by rw [MainWidget.slot, stepped]; rfl⟩
  | handlePrivKeyLine =>
      obtain ⟨keys, handled⟩ :=
        handlePrivKeyLine_exists lib.sign window.privateKeys.privateKeyLineEdit
      rw [MainWidget.slot]
      split
      · exact ⟨_, rfl⟩
      · exact ⟨_, by rw [handled]; rfl⟩
  | cipher event =>
      cases event with
      | start header stack fuel => exact absurd rfl (idle header stack fuel)
      | _ => exact ⟨_, rfl⟩
  | _ => exact ⟨_, rfl⟩

theorem Composed.step_fails_iff (composed : window.Composed lib disk node rows)
    {event : MainEvent} (tab : ∀ act, event ≠ .exchange act)
    (idle : ∀ header stack fuel, event ≠ .cipher (.start header stack fuel)) :
    (∃ fault, window.step lib event = .error fault) ↔ window.Breaks lib node event := by
  by_cases file : ∃ event', event = .keyFiles event'
  · obtain ⟨event, rfl⟩ := file
    refine Iff.trans ?_ (KeyFilesRun.step_fails_iff composed.rowChosen composed.held event)
    cases stepped : window.keyFiles.step lib.keyFiles event with
    | error fault => exact iff_of_true ⟨fault, by rw [MainWidget.step, stepped]; rfl⟩ ⟨fault, rfl⟩
    | ok keyFiles =>
        obtain ⟨next, ran, _⟩ := step_of_keyFiles stepped
        rw [ran]
        exact iff_of_false (fun failed => by obtain ⟨_, failed⟩ := failed; contradiction)
          (fun failed => by obtain ⟨_, failed⟩ := failed; contradiction)
  · have other : ∀ event', event ≠ .keyFiles event' := fun event' same => file ⟨event', same⟩
    obtain ⟨⟨middle, pairs⟩, slot⟩ := composed.slot_exists idle
    obtain ⟨next, ran, _⟩ := step_of_slot other slot
    rw [ran]
    refine iff_of_false (fun failed => by obtain ⟨_, failed⟩ := failed; contradiction) ?_
    cases event with
    | keyFiles event => exact absurd rfl (other event)
    | exchange act => exact absurd rfl (tab act)
    | _ => exact id

/-- A slot that gets through does not end the process. -/
theorem slot_ended {next : MainWidget} {event : MainEvent} {pairs : List KeyPair}
    (ran : window.slot lib event = .ok (next, pairs)) : next.ended = window.ended := by
  cases event with
  | keygen event | sign event | cipher event =>
      obtain ⟨_, _, ran⟩ := bind_eq_ok.mp ran
      cases ran
      rfl
  | handlePrivKeyLine =>
      simp only [MainWidget.slot] at ran
      split at ran
      · cases ran
        rfl
      · obtain ⟨_, _, ran⟩ := bind_eq_ok.mp ran
        cases ran
        rfl
  | typePrivateKey text | storage action | updateRowInTable row writable record =>
      cases ran
      split <;> rfl
  | keyFiles event | genPublicFromPrivateDialog | hash event | exchange act =>
      cases ran
      rfl

theorem step_ended {next : MainWidget} {event : MainEvent} {pairs : List KeyPair}
    (ran : window.step lib event = .ok (next, pairs)) : next.ended = window.ended := by
  cases step_steps ran with
  | keyFiles event keyFiles sign stepped signs => rfl
  | slot event middle pairs keyFiles sign slot _ _ _ _ =>
      exact @slot_ended lib window middle event pairs slot

theorem misread_observed (window : MainWidget) (node : Node) (act : NodeAction) :
    node.Misread (window.observed act) ↔ node.Misread act := by
  cases act <;> exact Iff.rfl

end MainWidget

/-- Only the step that fails marks a node. -/
theorem Node.step_crashed {sodium : Sodium} {node next : Node} {act : NodeAction}
    {events : List Event} (ran : node.step sodium act = .ok (next, events)) :
    next.crashed = node.crashed := by
  cases step_steps ran with
  | widget event =>
      unfold onWidget
      rcases node.widget.step event with ⟨widget, _ | ⟨hostName, ownKeys⟩ | serverKeys⟩ <;> rfl
  | _ => rfl

namespace System

variable {lib : MainLib} {memory : Nat → Memory} {disks : Nat → Disk}
  {records : Nat → Option Table} {system : System}

theorem tab_down_iff (composed : Composed lib memory disks system) {name : Nat}
    (up : system.down name = false) {event : MainEvent} (tab : ∀ act, event ≠ .exchange act)
    (idle : ∀ header stack fuel, event ≠ .cipher (.start header stack fuel)) :
    (system.tab lib name event).down name = true ↔
      (system.windows name).Breaks lib (system.network.nodes name) event := by
  rw [← (composed.windows name).step_fails_iff tab idle]
  obtain ⟨ended, running⟩ := Bool.or_eq_false_iff.mp up
  cases ran : (system.windows name).step lib event with
  | error fault =>
      refine iff_of_true ?_ ⟨fault, rfl⟩
      simp only [System.tab, ran, System.down, System.setWindow, Function.update_self,
        Bool.true_or]
  | ok result =>
      obtain ⟨window, pairs⟩ := result
      refine iff_of_false ?_ (fun failed => by obtain ⟨_, failed⟩ := failed; contradiction)
      obtain ⟨node, told, _, crashed⟩ :=
        @World.run_addKeyPairs lib.sodium system.network name running pairs
      simp only [System.tab, ran, System.down, System.setWindow, told, Function.update_self,
        MainWidget.step_ended ran, ended, crashed, Bool.or_false, Bool.false_eq_true,
        not_false_eq_true]

theorem exchange_down_iff (composed : Composed lib memory disks system) {name : Nat}
    (up : system.down name = false) (act : NodeAction) :
    (system.exchange lib name act).down name = true ↔
      (system.windows name).dbOpener = true ∧ (system.network.nodes name).Misread act := by
  obtain ⟨ended, running⟩ := Bool.or_eq_false_iff.mp up
  obtain ⟨actions, reached⟩ := composed.network
  have listed := (World.run_usesListed lib.sodium memory actions).nodes name
  rw [← reached] at listed
  have held : ∀ pair ∈ (system.network.nodes name).widget.keys, HeldBy lib.sign pair := by
    rw [(composed.windows name).exchangeKeys]
    exact (composed.windows name).held
  have fails := @Node.step_fails_iff lib.sodium _ lib.sign listed held
    ((system.windows name).observed act)
  rw [MainWidget.misread_observed] at fails
  rcases exchange_cases lib system name act with ⟨unopened, next⟩ | ⟨opened, cipher, next⟩
  · rw [next, up, unopened]
    exact iff_of_false Bool.false_ne_true fun breaks => Bool.false_ne_true breaks.1
  · rw [next]
    simp only [System.down, System.setWindow, Function.update_self, ended, Bool.false_or, opened,
      true_and]
    rw [← fails]
    rcases ran : (system.network.nodes name).step lib.sodium ((system.windows name).observed act)
      with fault | ⟨node, events⟩
    · rw [(World.step_crash running ran).1]
      exact iff_of_true rfl ⟨fault, rfl⟩
    · rw [(World.step_ok running ran).1, Node.step_crashed ran, running]
      exact iff_of_false Bool.false_ne_true
        (fun failed => by obtain ⟨_, failed⟩ := failed; contradiction)

/-- What happens in one process ends no other. -/
theorem step_down_others (lib : MainLib) (system : System) (happening : Happening) {other : Nat}
    (different : other ≠ happening.name) :
    (system.step lib happening).down other = system.down other := by
  obtain ⟨name, event⟩ := happening
  have kept {window : MainWidget} {network : World}
      (nodes : network.nodes other = system.network.nodes other) :
      System.down { system.setWindow name window with network } other = system.down other := by
    simp only [System.down, System.setWindow, Function.update_of_ne different, nodes]
  unfold System.step
  split
  · rfl
  · cases event with
    | exchange act =>
        rcases exchange_cases lib system name act with ⟨_, next⟩ | ⟨_, cipher, next⟩
        · exact congrArg (System.down · other) next
        · have nodes := (@World.step_frame lib.sodium system.network
            ⟨name, (system.windows name).observed act⟩).1 other different
          exact (congrArg (System.down · other) next).trans (kept nodes)
    | _ =>
        simp only [System.tab]
        split
        · exact kept rfl
        · refine kept (World.run_others _ different ?_)
          intro action member
          obtain ⟨pair, _, rfl⟩ := List.mem_map.mp member
          rfl

end System

/-- In any run of any number of processes, and starting the file cipher apart,
an event ends its process in three cases: a first byte from the network that is
no type of a message, a password hash that fails where an encrypted key file is
written or read, and a key file that holds more than an encrypted key.  No event
ends another process. -/
theorem process_ends_iff {lib : MainLib} (carries : Carries lib.sign) (memory : Nat → Memory)
    (disks : Nat → Disk) (records : Nat → Option Table) (happenings : List Happening) (name : Nat)
    {event : MainEvent}
    (idle : ∀ header stack fuel, event ≠ .cipher (.start header stack fuel)) :
    ((((System.initial memory disks records).run lib happenings).step lib ⟨name, event⟩).down
        name = true ↔
      ((System.initial memory disks records).run lib happenings).down name = true ∨
        (((System.initial memory disks records).run lib happenings).windows name).Breaks lib
          (((System.initial memory disks records).run lib happenings).network.nodes name) event) ∧
      ∀ other, other ≠ name →
        (((System.initial memory disks records).run lib happenings).step lib ⟨name, event⟩).down
            other = ((System.initial memory disks records).run lib happenings).down other := by
  have composed := System.run_composed carries memory disks records happenings
  generalize (System.initial memory disks records).run lib happenings = system at composed ⊢
  refine ⟨?_, fun other different => System.step_down_others lib system ⟨name, event⟩ different⟩
  cases up : system.down name with
  | true =>
      have same : system.step lib ⟨name, event⟩ = system := by simp [System.step, up]
      simp [same, up]
  | false =>
      cases takes : (system.windows name).takes event with
      | false =>
          have same : system.step lib ⟨name, event⟩ = system := by simp [System.step, takes]
          have harmless : ¬(system.windows name).Breaks lib (system.network.nodes name) event := by
            intro breaks
            cases event with
            | keyFiles event => cases event <;> simp_all [MainWidget.takes, MainWidget.Breaks,
                KeyFilesRun.Fails]
            | exchange act => cases act <;> simp_all [MainWidget.takes, MainWidget.Breaks,
                Node.Misread]
            | _ => exact breaks
          simp [same, up, harmless]
      | true =>
          simp only [Bool.false_eq_true, false_or]
          by_cases tab : ∃ act, event = .exchange act
          · obtain ⟨act, rfl⟩ := tab
            rw [System.step_exchange up takes]
            exact System.exchange_down_iff composed up act
          · have other : ∀ act, event ≠ .exchange act := fun act same => tab ⟨act, same⟩
            have stepped : system.step lib ⟨name, event⟩ = system.tab lib name event := by
              cases event with
              | exchange act => exact absurd rfl (other act)
              | _ => simp [System.step, up, takes]
            rw [stepped]
            exact System.tab_down_iff composed up other idle

/-- The first process has sent a request and is connected. -/
def connectedClient : List Happening := twoPairs ++ [
  ⟨0, .exchange (.widget (.setOwnKey 0))⟩,
  ⟨0, .exchange (.widget (.inspectKeyIdText (some ⟨0, ascii "1", "yes"⟩)))⟩,
  ⟨0, .exchange (.widget .hostNameEnterDialog)⟩,
  ⟨0, .exchange (.widget (.setHostName "localhost"))⟩,
  ⟨0, .exchange (.widget .sendKeyExchangeRequest)⟩,
  ⟨0, .exchange .connected⟩]

/-- One byte ends it, and the other process goes on. -/
theorem process_ends_misread :
    (System.step .transparent (freshSystem.run .transparent connectedClient)
        ⟨0, .exchange (.receive (trusting []) [dataTransfer])⟩).down 0 = true ∧
      (System.step .transparent (freshSystem.run .transparent connectedClient)
        ⟨0, .exchange (.receive (trusting []) [dataTransfer])⟩).down 1 = false := by
  have ends := @process_ends_iff .transparent carries_transparent (fun _ => someMemory)
    (fun _ => .single "source" [1, 2, 3]) (fun _ => some []) connectedClient 0
    (.exchange (.receive (trusting []) [dataTransfer])) (by simp)
  rw [← freshSystem] at ends
  have connected : ((freshSystem.run .transparent connectedClient).network.nodes 0).client.socket =
      .connected := by decide +kernel
  have nothing : ((freshSystem.run .transparent connectedClient).network.nodes 0).client.unread
      [dataTransfer] = [dataTransfer] := by decide +kernel
  have opened : ((freshSystem.run .transparent connectedClient).windows 0).dbOpener = true := by
    decide +kernel
  have running : (freshSystem.run .transparent connectedClient).down 1 = false := by
    decide +kernel
  have misread := @Node.misread_receive _ (trusting []) _ _ _ connected nothing (by decide)
  exact ⟨ends.1.mpr (.inr (MainWidget.breaks_exchange opened misread)),
    (ends.2 1 (by decide)).trans running⟩

end Cscrypto.Gui
