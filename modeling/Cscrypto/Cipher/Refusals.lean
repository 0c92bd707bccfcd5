import Cscrypto.Cipher.Calls

namespace Cscrypto.Cipher

open Cscrypto.Data

/-! # The messages before a refused block

Decryption reads the source block by block and writes each message before the
next block is looked at.  Which messages come before the first block that is
refused is a matter of the source, the key and the reads.
-/

/-- The messages of a stream before the first buffer that is refused: by `pull`,
or because it is tagged as the last one and is not. -/
def SecretStream.released (ss : SecretStream) : ss.State → List Bytes → Option (List Bytes)
  | _, [] => none
  | st, buffer :: rest =>
      match ss.pull st buffer with
      | none => some []
      | some (message, tag, next) =>
          if tag = tagFinal ∧ rest ≠ [] then some []
          else (released ss next rest).map (message :: ·)

/-- The block that decryption reads at `position`, after the messages `front`
were written, and whether it is the last one. -/
def Disk.cipherBlock (disk : Disk) (target source : Path) (position : Nat) (front : List Bytes) :
    Bytes × Bool :=
  disk.block target source (kChunkSize + kABytes) (disk.clock + 3) position front

/-- What stays in the target of the messages before a refused block. -/
def Disk.keeps (disk : Disk) (messages : List Bytes) : Bytes :=
  (disk.fate (disk.clock + 5 + 2 * messages.length)).close (disk.writes (disk.clock + 3) messages)

section

variable (ss : SecretStream) (disk : Disk) (target source : Path)

/-- From the block at `position` on, with the messages `front` before it, the
blocks are accepted until one is refused after `messages`.  `ended` says that
the end of the source was seen before. -/
inductive RefusedAfter : ss.State → Nat → Bool → List Bytes → List Bytes → Prop where
  | forged (refused : ss.pull st (disk.cipherBlock target source position front).1 = none) :
      RefusedAfter st position ended front front
  | early
      (opened : ss.pull st (disk.cipherBlock target source position front).1 =
        some (plain, tagFinal, next))
      (more : (ended || (disk.cipherBlock target source position front).2) = false) :
      RefusedAfter st position ended front front
  | later
      (opened : ss.pull st (disk.cipherBlock target source position front).1 =
        some (plain, tag, next))
      (unfinal : tag ≠ tagFinal)
      (more : (ended || (disk.cipherBlock target source position front).2) = false)
      (rest : RefusedAfter next
        (position + (disk.cipherBlock target source position front).1.length) false
        (front ++ [plain]) messages) :
      RefusedAfter st position ended front messages

/-- The source is refused after `messages`: at its header, or at a block. -/
inductive Refuses (secret : StreamKey) (stack : Header) : List Bytes → Prop where
  | header (refused : ss.initPull secret (disk.header target source stack) = none) :
      Refuses secret stack []
  | block (entered : ss.initPull secret (disk.header target source stack) = some st)
      (rest : RefusedAfter ss disk target source st
        (disk.block target source kHeaderBytes (disk.clock + 2) 0 []).1.length
        (disk.block target source kHeaderBytes (disk.clock + 2) 0 []).2 [] messages) :
      Refuses secret stack messages

end

theorem Disk.keeps_nil (disk : Disk) : disk.keeps [] = [] := by
  rw [keeps, writes_nil, Fate.close, Fate.transfer_nil, List.append_nil]

namespace Decrypting

variable {ss : SecretStream} {disk : Disk} {target source : Path} {front : List Bytes}
  {state : Decrypting ss}

/-- The messages `front` were written, and the next block is read. -/
def Reached (disk : Disk) (target source : Path) (front : List Bytes) (state : Decrypting ss) :
    Prop :=
  Streams.At disk target source (disk.clock + 3 + 2 * front.length)
    (disk.writes (disk.clock + 3) front) state.streams

theorem Reached.buffer_eq (reached : Reached disk target source front state) :
    state.buffer = (disk.cipherBlock target source state.streams.fs.pos front).1 := by
  rw [buffer, Streams.read_fst, reached.current, reached.content]
  rfl

theorem Reached.ended_eq (reached : Reached disk target source front state) :
    state.afterRead.fs.eof = (state.streams.fs.eof ||
      (disk.cipherBlock target source state.streams.fs.pos front).2) := by
  rw [afterRead, Streams.read_ended, reached.current, reached.content]
  rfl

theorem Reached.position_eq (reached : Reached disk target source front state) :
    state.afterRead.fs.pos = state.streams.fs.pos +
      (disk.cipherBlock target source state.streams.fs.pos front).1.length := by
  rw [afterRead, Streams.read_pos, ← reached.buffer_eq, buffer]

theorem Reached.write (reached : Reached disk target source front state) (plain : Bytes) :
    Streams.At disk target source (disk.clock + 3 + 2 * (front ++ [plain]).length)
      (disk.writes (disk.clock + 3) (front ++ [plain])) (state.afterRead.write plain) := by
  have later : disk.clock + 3 + 2 * (front ++ [plain]).length =
      disk.clock + 3 + 2 * front.length + 1 + 1 := by
    rw [List.length_append, List.length_singleton]
    omega
  have call : disk.clock + 3 + 1 + 2 * front.length = disk.clock + 3 + 2 * front.length + 1 := by
    omega
  rw [later, Disk.writes_concat, call]
  exact (Streams.At.read reached _).write plain

theorem Reached.close (reached : Reached disk target source front state) :
    state.afterRead.close.files target = some (disk.keeps front) := by
  have later : disk.clock + 5 + 2 * front.length = disk.clock + 3 + 2 * front.length + 1 + 1 := by
    omega
  rw [Disk.keeps, later]
  exact (Streams.At.read reached _).close

theorem Reached.next (reached : Reached disk target source front state) {plain : Bytes}
    (same : state.turn.streams = state.afterRead.write plain) :
    Reached disk target source (front ++ [plain]) state.turn := by
  rw [Reached, same]
  exact reached.write plain

/-- One turn: it refuses a block, is the last one, or writes a message and goes
on. -/
theorem Reached.turn_cases (reached : Reached disk target source front state) :
    (state.turn.verdict = some false ∧ state.turn.streams = state.afterRead ∧
      (ss.pull state.st (disk.cipherBlock target source state.streams.fs.pos front).1 = none ∨
        ∃ plain next,
          ss.pull state.st (disk.cipherBlock target source state.streams.fs.pos front).1 =
            some (plain, tagFinal, next) ∧
          (state.streams.fs.eof ||
            (disk.cipherBlock target source state.streams.fs.pos front).2) = false)) ∨
    state.turn.verdict = some true ∨
    ∃ plain tag,
      ss.pull state.st (disk.cipherBlock target source state.streams.fs.pos front).1 =
        some (plain, tag, state.turn.st) ∧ tag ≠ tagFinal ∧
      (state.streams.fs.eof ||
        (disk.cipherBlock target source state.streams.fs.pos front).2) = false ∧
      state.turn.verdict = none ∧ state.turn.streams = state.afterRead.write plain := by
  rw [← reached.buffer_eq, ← reached.ended_eq]
  cases pulled : ss.pull state.st state.buffer with
  | none =>
      rw [turn_rejected pulled]
      exact .inl ⟨rfl, rfl, .inl rfl⟩
  | some chunk =>
      obtain ⟨plain, tag, st⟩ := chunk
      by_cases early : tag = tagFinal ∧ state.afterRead.fs.eof = false
      · rw [turn_early pulled early]
        exact .inl ⟨rfl, rfl, .inr ⟨plain, st, by rw [early.1], early.2⟩⟩
      · rw [turn_written pulled early]
        cases reached : state.afterRead.fs.eof with
        | true => exact .inr (.inl rfl)
        | false =>
            exact .inr (.inr ⟨plain, tag, rfl, fun final => early ⟨final, reached⟩, rfl, rfl, rfl⟩)

theorem Reached.refused_of_ends {last : Decrypting ss} (ends : Ends turn ended state last)
    (rejected : last.verdict = some false) (reached : Reached disk target source front state) :
    ∃ messages, RefusedAfter ss disk target source state.st state.streams.fs.pos
      state.streams.fs.eof front messages ∧
      last.streams.close.files target = some (disk.keeps messages) := by
  induction ends generalizing front with
  | here finished =>
      rcases reached.turn_cases with ⟨_, same, forged | early⟩ | accepted | ⟨_, _, _, _, _, none, _⟩
      · exact ⟨front, .forged forged, by rw [same, reached.close]⟩
      · obtain ⟨plain, next, opened, more⟩ := early
        exact ⟨front, .early opened more, by rw [same, reached.close]⟩
      · rw [accepted] at rejected
        contradiction
      · rw [none] at rejected
        contradiction
  | @later state last continues _ ih =>
      have undecided : state.turn.verdict = none :=
        Option.not_isSome_iff_eq_none.mp (Bool.eq_false_iff.mp continues)
      rcases reached.turn_cases with ⟨decided, _⟩ | accepted | ⟨plain, tag, opened, unfinal, more,
        _, same⟩
      · rw [undecided] at decided
        contradiction
      · rw [undecided] at accepted
        contradiction
      · obtain ⟨messages, rest, kept⟩ := ih rejected (reached.next same)
        rw [same, Streams.write_fs, reached.position_eq, reached.ended_eq, more] at rest
        exact ⟨messages, .later opened unfinal more rest, kept⟩

theorem Reached.ends_of_refused {st : ss.State} {position : Nat} {seen : Bool}
    {messages : List Bytes}
    (refused : RefusedAfter ss disk target source st position seen front messages)
    (entered : state.st = st) (place : state.streams.fs.pos = position)
    (ahead : state.streams.fs.eof = seen) (reached : Reached disk target source front state) :
    ∃ last, Ends turn ended state last ∧ last.verdict = some false ∧
      last.streams.close.files target = some (disk.keeps messages) := by
  induction refused generalizing state with
  | forged refused =>
      subst entered place
      rw [← reached.buffer_eq] at refused
      have turned := turn_rejected refused
      refine ⟨state.turn, .here (by rw [turned]; rfl), by rw [turned], ?_⟩
      rw [turned, reached.close]
  | early opened more =>
      subst entered place ahead
      rw [← reached.buffer_eq] at opened
      rw [← reached.ended_eq] at more
      have turned := turn_early opened ⟨rfl, more⟩
      refine ⟨state.turn, .here (by rw [turned]; rfl), by rw [turned], ?_⟩
      rw [turned, reached.close]
  | later opened unfinal more _ ih =>
      subst entered place ahead
      rw [← reached.buffer_eq] at opened
      rw [← reached.ended_eq] at more
      have turned := turn_written opened (fun early => unfinal early.1)
      rw [more, if_neg Bool.false_ne_true] at turned
      have same := congrArg Decrypting.streams turned
      obtain ⟨last, ends, rejected, kept⟩ := ih (by rw [turned])
        (by rw [same, Streams.write_fs, reached.position_eq])
        (by rw [same, Streams.write_fs, more]) (reached.next same)
      exact ⟨last, .later (by rw [turned]; rfl) ends, rejected, kept⟩

theorem Reached.start (opens : disk.TargetOpens) (st : ss.State) :
    Reached disk target source [] (start ss target source disk st) :=
  (Streams.At.opened opens).read kHeaderBytes

theorem start_position (opens : disk.TargetOpens) (st : ss.State) :
    (Decrypting.start ss target source disk st).streams.fs.pos =
      (disk.block target source kHeaderBytes (disk.clock + 2) 0 []).1.length := by
  have now := @Streams.At.opened disk target source opens
  rw [Decrypting.start, Streams.read_pos, Streams.read_fst, now.current, now.content]
  exact Nat.zero_add _

theorem start_ended (opens : disk.TargetOpens) (st : ss.State) :
    (Decrypting.start ss target source disk st).streams.fs.eof =
      (disk.block target source kHeaderBytes (disk.clock + 2) 0 []).2 := by
  have now := @Streams.At.opened disk target source opens
  rw [Decrypting.start, Streams.read_ended, now.current, now.content]
  exact Bool.false_or _

end Decrypting

-- The messages of a source that is read without failures.

section

variable {ss : SecretStream} {disk : Disk} {target source : Path}

/-- One block of `RefusedAfter`. -/
theorem refusedAfter_iff {st : ss.State} {position : Nat} {ended : Bool}
    {front messages : List Bytes} :
    RefusedAfter ss disk target source st position ended front messages ↔
      match ss.pull st (disk.cipherBlock target source position front).1 with
      | none => messages = front
      | some (plain, tag, next) =>
          (ended || (disk.cipherBlock target source position front).2) = false ∧
            if tag = tagFinal then messages = front
            else RefusedAfter ss disk target source next
              (position + (disk.cipherBlock target source position front).1.length) false
              (front ++ [plain]) messages := by
  constructor
  · intro refused
    cases refused with
    | forged refused => rw [refused]
    | early opened more =>
        rw [opened]
        exact ⟨more, (if_pos rfl).mpr rfl⟩
    | later opened unfinal more rest =>
        rw [opened]
        exact ⟨more, (if_neg unfinal).mpr rest⟩
  · intro given
    cases opened : ss.pull st (disk.cipherBlock target source position front).1 with
    | none =>
        rw [opened] at given
        cases given
        exact .forged opened
    | some chunk =>
        obtain ⟨plain, tag, next⟩ := chunk
        rw [opened] at given
        obtain ⟨more, rest⟩ := given
        by_cases final : tag = tagFinal
        · rw [if_pos final] at rest
          cases rest
          cases final
          exact .early opened more
        · rw [if_neg final] at rest
          exact .later opened final more rest

variable {image : Bytes}

theorem FilesReady.block_eq (ready : FilesReady target source image disk)
    (count time position : Nat) (outputs : List Bytes) :
    disk.block target source count time position outputs =
      ((image.drop position).take count, decide ((image.drop position).length < count)) := by
  rw [Disk.block, Disk.seen, if_neg ready.different, Disk.content, ready.stored,
    Option.getD_some, Fate.read_of_none (ready.reliable _).1 (ready.reliable _).2]

theorem FilesReady.refusedAfter_iff (ready : FilesReady target source image disk)
    {st : ss.State} {position : Nat} {ended : Bool} {front messages : List Bytes}
    (complete : ended = true → image.drop position = []) :
    RefusedAfter ss disk target source st position ended front messages ↔
      ∃ more, ss.released st (blocks (kChunkSize + kABytes) (image.drop position)) = some more ∧
        messages = front ++ more := by
  induction length : (image.drop position).length using Nat.strong_induction_on
    generalizing st position ended front with
  | _ count ih =>
      rw [Cipher.refusedAfter_iff, Disk.cipherBlock, ready.block_eq]
      by_cases short : (image.drop position).length < kChunkSize + kABytes
      · rw [blocks_short short, List.take_of_length_le (Nat.le_of_lt short), decide_eq_true short,
          Bool.or_true]
        cases opened : ss.pull st (image.drop position) with
        | none => simp [SecretStream.released, opened]
        | some chunk =>
            obtain ⟨plain, tag, next⟩ := chunk
            simp [SecretStream.released, opened]
      · have full := Nat.not_lt.mp short
        have unended : ended = false := by
          refine Bool.eq_false_iff.mpr (fun reached => short ?_)
          rw [complete reached]
          decide
        have shorter : (image.drop (position + (kChunkSize + kABytes))).length < count := by
          rw [← length, List.length_drop, List.length_drop]
          rw [List.length_drop] at full
          have positive : 0 < kChunkSize + kABytes := by decide
          omega
        have rest (st : ss.State) (front : List Bytes) := @ih _ shorter st
          (position + (kChunkSize + kABytes)) false front (fun reached => by contradiction) rfl
        rw [blocks_full (by decide) full, decide_eq_false short, unended, Bool.or_false,
          SecretStream.released]
        cases opened : ss.pull st ((image.drop position).take (kChunkSize + kABytes)) with
        | none => simp
        | some chunk =>
            obtain ⟨plain, tag, next⟩ := chunk
            dsimp only
            rw [List.length_take_of_le full, rest, List.drop_drop]
            have more : blocks (kChunkSize + kABytes)
                (image.drop (position + (kChunkSize + kABytes))) ≠ [] :=
              (blocks_blocked (by decide) _).ne_nil
            by_cases final : tag = tagFinal
            · rw [if_pos final, if_pos ⟨final, more⟩]
              simp
            · rw [if_neg final, if_neg (fun early => final early.1)]
              simp only [Option.map_eq_some_iff, true_and]
              constructor
              · intro given
                obtain ⟨tail, found, rfl⟩ := given
                exact ⟨plain :: tail, ⟨tail, found, rfl⟩, by rw [List.append_assoc]; rfl⟩
              · intro given
                obtain ⟨_, ⟨tail, found, rfl⟩, rfl⟩ := given
                exact ⟨tail, found, by rw [List.append_assoc]; rfl⟩

theorem FilesReady.refuses_iff (ready : FilesReady target source image disk) (secret : StreamKey)
    (stack : Header) (messages : List Bytes) :
    Refuses ss disk target source secret stack messages ↔
      match ss.initPull secret (headerOf stack image) with
      | none => messages = []
      | some st => ss.released st (blocks (kChunkSize + kABytes) (image.drop kHeaderBytes)) =
          some messages := by
  have front : disk.block target source kHeaderBytes (disk.clock + 2) 0 [] =
      (image.take kHeaderBytes, decide (image.length < kHeaderBytes)) := by
    rw [ready.block_eq, List.drop_zero]
  have header : disk.header target source stack = headerOf stack image := by
    simp only [Disk.header, headerOf, front]
  have place : image.drop (image.take kHeaderBytes).length = image.drop kHeaderBytes := by
    by_cases long : kHeaderBytes ≤ image.length
    · rw [List.length_take_of_le long]
    · have all := Nat.le_of_not_le long
      rw [List.take_of_length_le all, List.drop_length, List.drop_eq_nil_of_le all]
  have rest (st : ss.State) := @FilesReady.refusedAfter_iff ss disk target source image ready st
    (image.take kHeaderBytes).length (decide (image.length < kHeaderBytes)) [] messages
    (fun short => by
      rw [place, List.drop_eq_nil_of_le (Nat.le_of_lt (of_decide_eq_true short))])
  simp only [place, List.nil_append, exists_eq_right'] at rest
  constructor
  · intro refuses
    cases refuses with
    | header refused => rw [← header, refused]
    | @block st _ entered refused =>
        rw [front] at refused
        rw [← header, entered]
        exact (rest st).mp refused
  · intro given
    cases entered : ss.initPull secret (headerOf stack image) with
    | none =>
        rw [entered] at given
        cases given
        exact .header (by rw [header, entered])
    | some st =>
        rw [entered] at given
        refine .block (by rw [header, entered]) ?_
        rw [front]
        exact (rest st).mpr given

/-- Without failures all the messages before the refused block are kept. -/
theorem Disk.keeps_of_reliable (reliable : disk.Reliable) (messages : List Bytes) :
    disk.keeps messages = messages.flatten := by
  rw [keeps, Fate.close, Fate.transfer_of_none (reliable _).1]
  exact disk.writes_flatten fun _ output _ => Fate.transfer_of_none (reliable _).1 output

end

end Cscrypto.Cipher
