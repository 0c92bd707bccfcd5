import Cscrypto.Cipher.File
import Cscrypto.Cipher.Streams
import Cscrypto.Data.Loop

namespace Cscrypto.Cipher

open Cscrypto.Data

/-! # The file loops turn by turn

The loops of `encryptFile` and `decryptFile` over one state, whatever the
streams do.
-/

structure Encrypting (ss : SecretStream) where
  st : ss.State
  streams : Streams
  chunks : List Chunk

namespace Encrypting

variable {ss : SecretStream}

def turn (state : Encrypting ss) : Encrypting ss :=
  let (plain, streams) := state.streams.read kChunkSize
  let tag := if streams.fs.eof then tagFinal else tagMessage
  let (encrypted, st) := ss.push state.st plain tag
  ⟨st, streams.write encrypted, state.chunks ++ [(plain, tag)]⟩

def ended (state : Encrypting ss) : Bool := state.streams.fs.eof

/-- What the next turn pushes. -/
def next (state : Encrypting ss) : Chunk :=
  let (plain, streams) := state.streams.read kChunkSize
  (plain, if streams.fs.eof then tagFinal else tagMessage)

def afterRead (state : Encrypting ss) : Streams := (state.streams.read kChunkSize).2

def encrypted (state : Encrypting ss) : Bytes :=
  (ss.push state.st state.next.1 state.next.2).1

theorem turn_eq (state : Encrypting ss) :
    state.turn = ⟨(ss.push state.st state.next.1 state.next.2).2,
      state.afterRead.write state.encrypted, state.chunks ++ [state.next]⟩ := rfl

theorem encryptLoop_eq (fuel : Nat) (state : Encrypting ss) :
    encryptLoop ss fuel state.st state.streams.fs state.streams.ft state.streams.disk =
      match doWhile turn ended fuel state with
      | none => .error .outOfFuel
      | some last => .ok (last.streams.fs, last.streams.ft, last.streams.disk) := by
  induction fuel generalizing state with
  | zero => rfl
  | succ fuel ih =>
      have rest := ih state.turn
      cases reached : state.turn.ended with
      | true =>
          have eof : (state.streams.disk.fread state.streams.fs kChunkSize).2.1.eof = true := reached
          rw [doWhile_of_done reached]
          simp only [encryptLoop, turn, Streams.read, Streams.write, eof, if_true]
      | false =>
          have eof : (state.streams.disk.fread state.streams.fs kChunkSize).2.1.eof = false :=
            reached
          rw [doWhile_of_continues reached, ← rest]
          simp only [encryptLoop, turn, Streams.read, Streams.write, eof, Bool.false_eq_true,
            if_false]

variable (ss) in
/-- The loop is entered when the header is written. -/
def start (target source : Path) (secret : StreamKey) (header : Header) (disk : Disk) :
    Encrypting ss where
  st := ss.initPush secret header
  streams := (Streams.opened target source disk).write header.bytes
  chunks := []

/-- What every state of the loop has behind it: `st` comes after `chunks`, and
`fwrite` was given the header and their ciphertexts. -/
structure Follows (target : Path) (header : Header) (entered : ss.State) (state : Encrypting ss) :
    Prop where
  accounts : Streams.Accounts target state.streams
  given : state.streams.given = header.bytes ++ (ss.pushAll entered state.chunks).flatten
  pushed : ∀ more, ss.pushAll entered (state.chunks ++ more) =
    ss.pushAll entered state.chunks ++ ss.pushAll state.st more

theorem Follows.turn {target : Path} {header : Header} {entered : ss.State} {state : Encrypting ss}
    (follows : Follows target header entered state) : Follows target header entered state.turn := by
  have single : ss.pushAll state.st [state.next] = [state.encrypted] := rfl
  have chunks : ss.pushAll entered (state.chunks ++ [state.next]) =
      ss.pushAll entered state.chunks ++ [state.encrypted] := by
    rw [follows.pushed, single]
  rw [turn_eq]
  refine ⟨(follows.accounts.read kChunkSize).write _, ?_, ?_⟩
  · have before : state.afterRead.given = state.streams.given := rfl
    dsimp only
    rw [Streams.write_given, before, follows.given, chunks, List.flatten_append,
      List.flatten_singleton, List.append_assoc]
  · intro more
    have rest : ss.pushAll state.st (state.next :: more) =
        state.encrypted :: ss.pushAll (ss.push state.st state.next.1 state.next.2).2 more := rfl
    dsimp only
    rw [chunks, List.append_assoc, List.singleton_append, follows.pushed, rest, List.append_assoc,
      List.singleton_append]

theorem start_follows {target source : Path} {disk : Disk} (opens : disk.TargetOpens)
    (secret : StreamKey) (header : Header) :
    Follows target header (ss.initPush secret header)
      (start ss target source secret header disk) :=
  ⟨(Streams.opened_accounts opens).write _, (List.append_nil _).symm, fun _ => rfl⟩

theorem ends_follows {target source : Path} {disk : Disk} (opens : disk.TargetOpens)
    {secret : StreamKey} {header : Header} {last : Encrypting ss}
    (ends : Ends turn ended (start ss target source secret header disk) last) :
    Follows target header (ss.initPush secret header) last :=
  ends.rule (fun _ follows _ => follows.turn) (fun _ follows _ => follows.turn)
    (start_follows opens secret header)

end Encrypting

theorem encryptFile_opened (ss : SecretStream) (fuel : Nat) {target source : Path}
    (secret : StreamKey) (protection : Protection) (header : Header) {disk : Disk}
    (opensSource : disk.SourceOpens source) (opensTarget : disk.TargetOpens) :
    encryptFile ss fuel target source (.holding secret protection) header disk =
      match doWhile Encrypting.turn Encrypting.ended fuel
        (.start ss target source secret header disk) with
      | none => .error .outOfFuel
      | some last => .ok (true, .holding secret .noAccess, last.streams.close) := by
  obtain ⟨opened, created⟩ := @Disk.opening_both _ target _ opensSource opensTarget
  have loop : encryptLoop ss fuel (ss.initPush secret header) ⟨source, 0, false, []⟩
      ((disk.opening target source).fwrite ⟨target, 0, false, []⟩ header.bytes).2.1
      ((disk.opening target source).fwrite ⟨target, 0, false, []⟩ header.bytes).2.2 =
        match doWhile Encrypting.turn Encrypting.ended fuel
          (.start ss target source secret header disk) with
        | none => .error .outOfFuel
        | some last => .ok (last.streams.fs, last.streams.ft, last.streams.disk) :=
    Encrypting.encryptLoop_eq fuel (.start ss target source secret header disk)
  simp only [encryptFile, opened, created, MemGuard.mprotect_holding, MemGuard.read_readOnly,
    ok_bind, loop]
  cases doWhile Encrypting.turn Encrypting.ended fuel
    (.start ss target source secret header disk) <;> rfl

/-- With both files open, the calls that return are the loops that end. -/
theorem encryptFile_run_iff {ss : SecretStream} {target source : Path} {secret : StreamKey}
    {protection : Protection} {header : Header} {disk : Disk} {result : Bool × CipherKey × Disk}
    (opens : disk.SourceOpens source ∧ disk.TargetOpens) :
    (∃ fuel, encryptFile ss fuel target source (.holding secret protection) header disk =
      .ok result) ↔
      ∃ last, Ends Encrypting.turn Encrypting.ended (.start ss target source secret header disk)
        last ∧ result = (true, .holding secret .noAccess, last.streams.close) := by
  simp only [encryptFile_opened ss _ secret protection header opens.1 opens.2, ends_iff_doWhile]
  constructor
  · intro given
    obtain ⟨fuel, ran⟩ := given
    cases looped : doWhile Encrypting.turn Encrypting.ended fuel
        (.start ss target source secret header disk) with
    | none =>
        rw [looped] at ran
        contradiction
    | some last =>
        rw [looped] at ran
        cases ran
        exact ⟨last, ⟨fuel, looped⟩, rfl⟩
  · intro given
    obtain ⟨last, ⟨fuel, looped⟩, rfl⟩ := given
    exact ⟨fuel, by rw [looped]⟩

theorem encryptFile_unopened (ss : SecretStream) (fuel : Nat) {target source : Path}
    (key : CipherKey) (header : Header) {disk : Disk}
    (unopened : ¬(disk.SourceOpens source ∧ disk.TargetOpens)) :
    encryptFile ss fuel target source key header disk =
      .ok (false, key, disk.opening target source) := by
  rcases @Disk.opening_not_both _ target _ unopened with failed | failed
  · simp only [encryptFile, failed]
    rfl
  · simp only [encryptFile, failed]
    cases (disk.fopenRead source).1 <;> rfl

/-- `verdict` is what the call returns once the loop has ended. -/
structure Decrypting (ss : SecretStream) where
  st : ss.State
  streams : Streams
  pulled : List Chunk
  verdict : Option Bool

namespace Decrypting

variable {ss : SecretStream}

/-- The buffer that a turn hands to `pull`. -/
def buffer (state : Decrypting ss) : Bytes := (state.streams.read (kChunkSize + kABytes)).1

def afterRead (state : Decrypting ss) : Streams := (state.streams.read (kChunkSize + kABytes)).2

def turn (state : Decrypting ss) : Decrypting ss :=
  match ss.pull state.st state.buffer with
  | none => { state with streams := state.afterRead, verdict := some false }
  | some (plain, tag, st) =>
      if tag = tagFinal ∧ state.afterRead.fs.eof = false then
        ⟨st, state.afterRead, state.pulled ++ [(plain, tag)], some false⟩
      else
        ⟨st, state.afterRead.write plain, state.pulled ++ [(plain, tag)],
          if state.afterRead.fs.eof then some true else none⟩

def ended (state : Decrypting ss) : Bool := state.verdict.isSome

theorem accepts_iff (last : Decrypting ss) :
    last.verdict.getD false = true ↔ last.verdict = some true := by
  cases last.verdict <;> simp

theorem rejects_iff {last : Decrypting ss} (finished : last.ended = true) :
    last.verdict.getD false = false ↔ last.verdict = some false := by
  obtain ⟨verdict, decided⟩ := Option.isSome_iff_exists.mp finished
  rw [decided, Option.getD_some, Option.some.injEq]

def result (key : CipherKey) (last : Decrypting ss) : Except Fault Decryption :=
  finish (last.verdict.getD false) key last.streams.fs last.streams.ft last.streams.disk last.pulled

theorem turn_rejected {state : Decrypting ss} (rejected : ss.pull state.st state.buffer = none) :
    state.turn = { state with streams := state.afterRead, verdict := some false } := by
  rw [turn, rejected]

theorem turn_early {state : Decrypting ss} {plain : Bytes} {tag : Byte} {st : ss.State}
    (pulled : ss.pull state.st state.buffer = some (plain, tag, st))
    (early : tag = tagFinal ∧ state.afterRead.fs.eof = false) :
    state.turn = ⟨st, state.afterRead, state.pulled ++ [(plain, tag)], some false⟩ := by
  rw [turn, pulled]
  exact if_pos early

theorem turn_written {state : Decrypting ss} {plain : Bytes} {tag : Byte} {st : ss.State}
    (pulled : ss.pull state.st state.buffer = some (plain, tag, st))
    (allowed : ¬(tag = tagFinal ∧ state.afterRead.fs.eof = false)) :
    state.turn = ⟨st, state.afterRead.write plain, state.pulled ++ [(plain, tag)],
      if state.afterRead.fs.eof then some true else none⟩ := by
  rw [turn, pulled]
  exact if_neg allowed

theorem decryptLoop_eq (key : CipherKey) (fuel : Nat) (state : Decrypting ss) :
    decryptLoop ss key fuel state.st state.streams.fs state.streams.ft state.streams.disk
        state.pulled =
      match doWhile turn ended fuel state with
      | none => .error .outOfFuel
      | some last => last.result key := by
  induction fuel generalizing state with
  | zero => rfl
  | succ fuel ih =>
      have rest := ih state.turn
      cases pulled : ss.pull state.st state.buffer with
      | none =>
          have pulled' : ss.pull state.st (state.streams.disk.fread state.streams.fs
            (kChunkSize + kABytes)).1 = none := pulled
          rw [doWhile_of_done (by rw [turn_rejected pulled]; rfl), turn_rejected pulled]
          simp only [decryptLoop, pulled']
          rfl
      | some chunk =>
          obtain ⟨plain, tag, st⟩ := chunk
          have pulled' : ss.pull state.st (state.streams.disk.fread state.streams.fs
            (kChunkSize + kABytes)).1 = some (plain, tag, st) := pulled
          by_cases early : tag = tagFinal ∧ state.afterRead.fs.eof = false
          · have early' : tag = tagFinal ∧ (state.streams.disk.fread state.streams.fs
              (kChunkSize + kABytes)).2.1.eof = false := early
            rw [doWhile_of_done (by rw [turn_early pulled early]; rfl), turn_early pulled early]
            simp only [decryptLoop, pulled', if_pos early']
            rfl
          · have allowed' : ¬(tag = tagFinal ∧ (state.streams.disk.fread state.streams.fs
              (kChunkSize + kABytes)).2.1.eof = false) := early
            have turned := turn_written pulled early
            cases reached : state.afterRead.fs.eof with
            | true =>
                have reached' : (state.streams.disk.fread state.streams.fs
                  (kChunkSize + kABytes)).2.1.eof = true := reached
                rw [reached, if_pos rfl] at turned
                rw [doWhile_of_done (by rw [turned]; rfl), turned]
                simp only [decryptLoop, pulled', if_neg allowed', if_pos reached']
                rfl
            | false =>
                have continues : ¬(state.streams.disk.fread state.streams.fs
                  (kChunkSize + kABytes)).2.1.eof = true := Bool.eq_false_iff.mp reached
                rw [reached, if_neg Bool.false_ne_true] at turned
                rw [doWhile_of_continues (by rw [turned]; rfl), ← rest, turned]
                simp only [decryptLoop, pulled', if_neg allowed', if_neg continues]
                rfl

variable (ss) in
/-- The loop is entered when the header is accepted. -/
def start (target source : Path) (disk : Disk) (st : ss.State) :
    Decrypting ss where
  st
  streams := ((Streams.opened target source disk).read kHeaderBytes).2
  pulled := []
  verdict := none

/-- Unless the source was rejected, `fwrite` was given the messages of all the
chunks that were pulled. -/
structure Follows (target : Path) (opened : Nat) (state : Decrypting ss) : Prop where
  accounts : Streams.Accounts target state.streams
  opened : state.streams.disk.opened = opened
  given : state.verdict ≠ some false →
    state.streams.given = (state.pulled.map Prod.fst).flatten

theorem accounts_turn {target : Path} {state : Decrypting ss}
    (accounts : Streams.Accounts target state.streams) :
    Streams.Accounts target state.turn.streams := by
  have read : Streams.Accounts target state.afterRead := accounts.read _
  cases pulled : ss.pull state.st state.buffer with
  | none => rwa [turn_rejected pulled]
  | some chunk =>
      obtain ⟨plain, tag, st⟩ := chunk
      by_cases early : tag = tagFinal ∧ state.afterRead.fs.eof = false
      · rwa [turn_early pulled early]
      · rw [turn_written pulled early]
        exact read.write plain

theorem Follows.turn {target : Path} {opened : Nat} {state : Decrypting ss}
    (follows : Follows target opened state) (undecided : state.verdict = none) :
    Follows target opened state.turn := by
  have accounts := accounts_turn follows.accounts
  have read : state.afterRead.disk.opened = opened := by
    rw [afterRead, Streams.read_disk]
    exact follows.opened
  cases pulled : ss.pull state.st state.buffer with
  | none =>
      rw [turn_rejected pulled] at accounts ⊢
      exact ⟨accounts, read, fun accepted => absurd rfl accepted⟩
  | some chunk =>
      obtain ⟨plain, tag, st⟩ := chunk
      by_cases early : tag = tagFinal ∧ state.afterRead.fs.eof = false
      · rw [turn_early pulled early] at accounts ⊢
        exact ⟨accounts, read, fun accepted => absurd rfl accepted⟩
      · rw [turn_written pulled early] at accounts ⊢
        refine ⟨accounts, by rw [Streams.write_opened, read], fun _ => ?_⟩
        have before : state.afterRead.given = state.streams.given := rfl
        have given := follows.given (by rw [undecided]; exact (Option.some_ne_none false).symm)
        dsimp only
        rw [Streams.write_given, before, given, List.map_append, List.flatten_append,
          List.map_singleton, List.flatten_singleton]

theorem ends_follows {target source : Path} {disk : Disk} (opensSource : disk.SourceOpens source)
    (opensTarget : disk.TargetOpens) {st : ss.State} {last : Decrypting ss}
    (ends : Ends turn ended (start ss target source disk st) last) :
    Follows target (disk.opened + 2) last := by
  have entered : Follows target (disk.opened + 2) (start ss target source disk st) := by
    refine ⟨(Streams.opened_accounts opensTarget).read _, ?_, fun _ => rfl⟩
    rw [start, Streams.read_disk, Streams.opened, Disk.tick,
      Disk.opening_opened opensSource opensTarget]
  refine @Ends.rule _ _ _ _ _
    (fun state => Follows target (disk.opened + 2) state ∧ state.verdict = none) _ ?_
    (fun _ before _ => before.1.turn before.2) ends ⟨entered, rfl⟩
  intro state given continues
  obtain ⟨follows, undecided⟩ := given
  exact ⟨follows.turn undecided, Option.not_isSome_iff_eq_none.mp (Bool.eq_false_iff.mp continues)⟩

end Decrypting

/-- The header that `decryptFile` gets, over what was on the stack. -/
def headerRead (target source : Path) (stack : Header) (disk : Disk) : Header :=
  headerOver stack ((disk.opening target source).fread ⟨source, 0, false, []⟩ kHeaderBytes).1
    (Disk.fread_length_le _ _ _)

theorem decryptFile_opened (ss : SecretStream) (fuel : Nat) {target source : Path}
    (secret : StreamKey) (protection : Protection) (stack : Header) {disk : Disk}
    (opensSource : disk.SourceOpens source) (opensTarget : disk.TargetOpens) :
    decryptFile ss fuel target source (.holding secret protection) stack disk =
      match ss.initPull secret (headerRead target source stack disk) with
      | none => .ok ⟨false, .holding secret .noAccess,
          ((Streams.opened target source disk).read kHeaderBytes).2.close, []⟩
      | some st =>
          match doWhile Decrypting.turn Decrypting.ended fuel
            (.start ss target source disk st) with
          | none => .error .outOfFuel
          | some last => .ok ⟨last.verdict.getD false, .holding secret .noAccess,
              last.streams.close, last.pulled⟩ := by
  obtain ⟨opened, created⟩ := @Disk.opening_both _ target _ opensSource opensTarget
  have buffered : headerOver stack ((disk.opening target source).fread ⟨source, 0, false, []⟩
      kHeaderBytes).1 (Disk.fread_length_le _ _ _) = headerRead target source stack disk := rfl
  simp only [decryptFile, opened, created, MemGuard.mprotect_holding, MemGuard.read_readOnly,
    ok_bind, buffered]
  cases ss.initPull secret (headerRead target source stack disk) with
  | none => rfl
  | some st =>
      have loop : decryptLoop ss (.holding secret .readOnly) fuel st
          ((disk.opening target source).fread ⟨source, 0, false, []⟩ kHeaderBytes).2.1
          ⟨target, 0, false, []⟩
          ((disk.opening target source).fread ⟨source, 0, false, []⟩ kHeaderBytes).2.2 [] =
            match doWhile Decrypting.turn Decrypting.ended fuel
              (.start ss target source disk st) with
            | none => .error .outOfFuel
            | some last => last.result (.holding secret .readOnly) :=
        Decrypting.decryptLoop_eq _ fuel (.start ss target source disk st)
      dsimp only
      rw [loop]
      cases doWhile Decrypting.turn Decrypting.ended fuel (.start ss target source disk st) <;> rfl

/-- The same for `decryptFile`, which may also return at the header. -/
theorem decryptFile_run_iff {ss : SecretStream} {target source : Path} {secret : StreamKey}
    {protection : Protection} {stack : Header} {disk : Disk} {result : Decryption}
    (opens : disk.SourceOpens source ∧ disk.TargetOpens) :
    (∃ fuel, decryptFile ss fuel target source (.holding secret protection) stack disk =
      .ok result) ↔
      (ss.initPull secret (headerRead target source stack disk) = none ∧
        result = ⟨false, .holding secret .noAccess,
          ((Streams.opened target source disk).read kHeaderBytes).2.close, []⟩) ∨
      ∃ st last, ss.initPull secret (headerRead target source stack disk) = some st ∧
        Ends Decrypting.turn Decrypting.ended (.start ss target source disk st) last ∧
        result = ⟨last.verdict.getD false, .holding secret .noAccess, last.streams.close,
          last.pulled⟩ := by
  simp only [decryptFile_opened ss _ secret protection stack opens.1 opens.2, ends_iff_doWhile]
  cases started : ss.initPull secret (headerRead target source stack disk) with
  | none =>
      constructor
      · intro given
        obtain ⟨fuel, ran⟩ := given
        cases ran
        exact .inl ⟨rfl, rfl⟩
      · intro either
        rcases either with ⟨_, rfl⟩ | ⟨st, last, started', _⟩
        · exact ⟨0, rfl⟩
        · contradiction
  | some st =>
      dsimp only
      constructor
      · intro given
        obtain ⟨fuel, ran⟩ := given
        cases looped : doWhile Decrypting.turn Decrypting.ended fuel
            (.start ss target source disk st) with
        | none =>
            rw [looped] at ran
            contradiction
        | some last =>
            rw [looped] at ran
            cases ran
            exact .inr ⟨st, last, rfl, ⟨fuel, looped⟩, rfl⟩
      · intro either
        rcases either with ⟨started', _⟩ | ⟨_, last, ⟨⟩, ⟨fuel, looped⟩, rfl⟩
        · contradiction
        · exact ⟨fuel, by rw [looped]⟩

theorem decryptFile_unopened (ss : SecretStream) (fuel : Nat) {target source : Path}
    (key : CipherKey) (stack : Header) {disk : Disk}
    (unopened : ¬(disk.SourceOpens source ∧ disk.TargetOpens)) :
    decryptFile ss fuel target source key stack disk =
      .ok ⟨false, key, disk.opening target source, []⟩ := by
  rcases @Disk.opening_not_both _ target _ unopened with failed | failed
  · simp only [decryptFile, failed]
    rfl
  · simp only [decryptFile, failed]
    cases (disk.fopenRead source).1 <;> rfl

end Cscrypto.Cipher
