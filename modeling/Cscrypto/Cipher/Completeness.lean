import Cscrypto.Cipher.FileSecurity
import Cscrypto.Cipher.Refusals

namespace Cscrypto.Cipher

open Cscrypto.Data

/-! # What a successful call leaves in the target

Neither function looks at what `fwrite` and `fclose` return, and `encryptFile`
goes on after a read that failed.  Success says that the target is complete
exactly in the calls in which all the reads and writes went well.
-/

/-- A part of a split list of pieces is the last one if it is marked so. -/
theorem tagged_split {pieces : List Bytes} {front back : List Chunk} {chunk : Chunk}
    (split : tagged pieces = front ++ chunk :: back) :
    chunk.2 = if back.isEmpty then tagFinal else tagMessage := by
  fun_induction tagged pieces generalizing front with
  | case1 => simp at split
  | case2 last =>
      obtain ⟨rfl, same⟩ := List.append_eq_singleton_iff.mp split.symm |>.resolve_right (by simp)
      cases same
      rfl
  | case3 piece next rest ih =>
      cases front with
      | nil =>
          cases split
          rw [if_neg]
          rw [List.isEmpty_iff]
          exact tagged_ne_nil (List.cons_ne_nil next rest)
      | cons first front => exact ih (List.cons.inj split).2

/-- What encryption writes for `chunks`. -/
def SecretStream.outputs (ss : SecretStream) (secret : StreamKey) (header : Header)
    (chunks : List Chunk) : List Bytes :=
  header.bytes :: ss.pushAll (ss.initPush secret header) chunks

section

variable (ss : SecretStream) (target source : Path) (secret : StreamKey) (header : Header)
  (disk : Disk)

/-- What the read after `front` returns in `encryptFile`. -/
def Disk.plainBlock (front : List Chunk) : Bytes × Bool :=
  disk.block target source kChunkSize (disk.clock + 1) (front.map Prod.fst).flatten.length
    (ss.outputs secret header front)

/-- All the calls of an encryption go well: each read returns the next bytes of
the source and comes to its end with the last of them, each write takes the
bytes that it is given, and closing writes out what waits. -/
structure EncryptsWhole : Prop where
  reads : ∀ front chunk back, fileMessages (disk.content source) = front ++ chunk :: back →
    disk.plainBlock ss target source secret header front = (chunk.1, back.isEmpty)
  writes : disk.TakesAll (disk.clock + 1)
    (ss.outputs secret header (fileMessages (disk.content source)))
  closes : (disk.fate (disk.clock + 2 +
      2 * (ss.outputs secret header (fileMessages (disk.content source))).length)).Takes
    (disk.writes (disk.clock + 1)
      (ss.outputs secret header (fileMessages (disk.content source)))).waiting

/-- What `true` promises: the source was encrypted from its beginning to its
end, the target holds the whole stream, and no write was lost. -/
structure EncryptionComplete (after : Disk) : Prop where
  written : after.files target =
    some (streamFile ss secret header (fileMessages (disk.content source)))
  run : ∀ last, Ends Encrypting.turn Encrypting.ended (.start ss target source secret header disk)
    last → last.chunks = fileMessages (disk.content source) ∧ last.streams.Lossless

end

namespace Encrypting

variable {ss : SecretStream} {target source : Path} {secret : StreamKey} {header : Header}
  {disk : Disk} {state last : Encrypting ss}

/-- The chunks of a state were read and written, and the next one is read. -/
structure Reached (target source : Path) (secret : StreamKey) (header : Header) (disk : Disk)
    (state : Encrypting ss) : Prop where
  follows : Follows target header (ss.initPush secret header) state
  streams : Streams.At disk target source
    (disk.clock + 1 + 2 * (ss.outputs secret header state.chunks).length)
    (disk.writes (disk.clock + 1) (ss.outputs secret header state.chunks)) state.streams
  place : state.streams.fs.pos = (state.chunks.map Prod.fst).flatten.length
  taken : state.streams.taken = state.streams.given ↔
    disk.TakesAll (disk.clock + 1) (ss.outputs secret header state.chunks)

theorem Reached.start (opens : disk.TargetOpens) :
    Reached target source secret header disk (start ss target source secret header disk) := by
  have entered := @Streams.At.opened disk target source opens
  refine ⟨start_follows opens secret header, entered.write header.bytes, rfl, ?_⟩
  have first := (@Streams.opened_accounts target source disk opens).write_taken_eq_iff header.bytes
  rw [Streams.Takes, entered.current] at first
  exact first.trans ((and_congr (iff_of_true rfl (disk.takesAll_nil _)) Iff.rfl).trans
    (disk.takesAll_concat (disk.clock + 1) [] header.bytes).symm)

theorem Follows.outputs_turn {entered : ss.State} (follows : Follows target header entered state) :
    ss.pushAll entered state.turn.chunks = ss.pushAll entered state.chunks ++ [state.encrypted] :=
  follows.pushed [state.next]

theorem Reached.read_eq (reached : Reached target source secret header disk state) :
    state.streams.read kChunkSize =
      ((disk.plainBlock ss target source secret header state.chunks).1, state.afterRead) := by
  have read := state.streams.read_fst kChunkSize
  rw [reached.streams.current, reached.streams.content, reached.place] at read
  exact Prod.ext read rfl

theorem Reached.ended_eq (reached : Reached target source secret header disk state)
    (unended : state.ended = false) : state.turn.ended =
      (disk.plainBlock ss target source secret header state.chunks).2 := by
  have read := state.streams.read_ended kChunkSize
  rw [reached.streams.current, reached.streams.content, reached.place,
    show state.streams.fs.eof = false from unended, Bool.false_or] at read
  exact read

theorem Reached.turn (reached : Reached target source secret header disk state) :
    Reached target source secret header disk state.turn := by
  have outputs : ss.outputs secret header state.turn.chunks =
      ss.outputs secret header state.chunks ++ [state.encrypted] :=
    congrArg (header.bytes :: ·) reached.follows.outputs_turn
  have call : disk.clock + 1 + 1 + 2 * (ss.outputs secret header state.chunks).length =
      disk.clock + 1 + 2 * (ss.outputs secret header state.chunks).length + 1 := by
    omega
  have read := reached.streams.read kChunkSize
  refine ⟨reached.follows.turn, ?_, ?_, ?_⟩
  · rw [outputs, Disk.writes_concat, List.length_append, List.length_singleton]
    have later : disk.clock + 1 + 2 * ((ss.outputs secret header state.chunks).length + 1) =
        disk.clock + 1 + 2 * (ss.outputs secret header state.chunks).length + 1 + 1 := by
      omega
    rw [later, call]
    exact read.write state.encrypted
  · have moved := state.streams.read_pos kChunkSize
    rw [turn_eq]
    dsimp only
    rw [Streams.write_fs, afterRead, moved, reached.place, List.map_append, List.flatten_append,
      List.length_append, List.map_singleton, List.flatten_singleton]
    rfl
  · have taken := (reached.follows.accounts.read kChunkSize).write_taken_eq_iff state.encrypted
    rw [Streams.Takes, read.current, ← call] at taken
    rw [outputs, Disk.takesAll_concat, ← reached.taken]
    exact taken

/-- The next chunk, and whether it is the last one. -/
def nextChunk (ss : SecretStream) (target source : Path) (secret : StreamKey) (header : Header)
    (disk : Disk) (front : List Chunk) : Chunk × Bool :=
  let (bytes, last) := disk.plainBlock ss target source secret header front
  ((bytes, if last then tagFinal else tagMessage), last)

theorem ends_unfolds (opens : disk.TargetOpens)
    (ends : Ends turn ended (start ss target source secret header disk) last) :
    Unfolds (nextChunk ss target source secret header disk) [] last.chunks := by
  refine @Ends.unfolds _ _ _ _ _
    (fun state => Reached target source secret header disk state ∧ state.ended = false)
    Encrypting.chunks ?_ ?_ _ _ ends ⟨.start opens, rfl⟩
  · exact fun state given continues => ⟨given.1.turn, continues⟩
  · intro state given
    obtain ⟨reached, unended⟩ := given
    have ending := reached.ended_eq unended
    refine ⟨?_, ending⟩
    rw [turn_eq]
    refine congrArg (fun chunk => state.chunks ++ [chunk]) ?_
    rw [next, reached.read_eq]
    exact congrArg (fun last => (_, if last then tagFinal else tagMessage)) ending

theorem ends_reached (opens : disk.TargetOpens)
    (ends : Ends turn ended (start ss target source secret header disk) last) :
    Reached target source secret header disk last :=
  @Ends.rule _ _ _ _ _ (Reached target source secret header disk)
    (Reached target source secret header disk) (fun _ reached _ => reached.turn)
    (fun _ reached _ => reached.turn) ends (.start opens)

/-- The chunks are those of the source exactly if the reads return it. -/
theorem ends_chunks_iff (opens : disk.TargetOpens)
    (ends : Ends turn ended (start ss target source secret header disk) last) (content : Bytes) :
    last.chunks = fileMessages content ↔
      ∀ front chunk back, fileMessages content = front ++ chunk :: back →
        disk.plainBlock ss target source secret header front = (chunk.1, back.isEmpty) := by
  have unfolds := ends_unfolds opens ends
  constructor
  · intro same
    obtain ⟨rest, _, whole, steps⟩ := unfolds_iff.mp unfolds
    rw [List.nil_append, same] at whole
    subst whole
    intro front chunk back split
    have step := steps front chunk back split
    rw [List.nil_append, nextChunk, Prod.mk.injEq] at step
    have bytes : (disk.plainBlock ss target source secret header front).1 = chunk.1 :=
      congrArg Prod.fst step.1
    exact Prod.ext bytes step.2
  · intro reads
    refine unfolds.unique (unfolds_iff.mpr ⟨_, tagged_ne_nil (blocks_blocked (by decide) _).ne_nil,
      rfl, ?_⟩)
    intro front chunk back split
    rw [List.nil_append, nextChunk, reads front chunk back split]
    exact Prod.ext (Prod.ext rfl (tagged_split split).symm) rfl

theorem Reached.lossless_iff (reached : Reached target source secret header disk state) :
    state.streams.Lossless ↔
      disk.TakesAll (disk.clock + 1) (ss.outputs secret header state.chunks) ∧
        (disk.fate (disk.clock + 2 +
          2 * (ss.outputs secret header state.chunks).length)).Takes
            (disk.writes (disk.clock + 1) (ss.outputs secret header state.chunks)).waiting := by
  have call : disk.clock + 2 + 2 * (ss.outputs secret header state.chunks).length =
      disk.clock + 1 + 2 * (ss.outputs secret header state.chunks).length + 1 := by
    omega
  rw [Streams.Lossless, reached.taken, reached.streams.flushes_iff, call]

theorem ends_lossless_target (opens : disk.TargetOpens)
    (ends : Ends turn ended (start ss target source secret header disk) last)
    (lossless : last.streams.Lossless) :
    last.streams.close.files target = some (streamFile ss secret header last.chunks) := by
  have follows := ends_follows opens ends
  rw [follows.accounts.close_lossless lossless, follows.given]
  rfl

end Encrypting

/-- A call that returns `true` has done its work exactly if all its calls went
well. -/
theorem encryptFile_complete_iff {ss : SecretStream} {target source : Path} {secret : StreamKey}
    {protection : Protection} {header : Header} {disk : Disk} {fuel : Nat} {key : CipherKey}
    {after : Disk}
    (ran : encryptFile ss fuel target source (.holding secret protection) header disk =
      .ok (true, key, after)) :
    EncryptionComplete ss target source secret header disk after ↔
      EncryptsWhole ss target source secret header disk := by
  have opens : disk.SourceOpens source ∧ disk.TargetOpens := by
    by_contra unopened
    rw [encryptFile_unopened ss fuel _ header unopened] at ran
    cases ran
  obtain ⟨last, ends, same⟩ := (encryptFile_run_iff opens).mp ⟨fuel, ran⟩
  cases same
  have reads := Encrypting.ends_chunks_iff opens.2 ends (disk.content source)
  have lossless := (Encrypting.ends_reached opens.2 ends).lossless_iff
  constructor
  · intro complete
    obtain ⟨chunks, kept⟩ := complete.run last ends
    rw [chunks] at lossless
    obtain ⟨writes, closes⟩ := lossless.mp kept
    exact ⟨reads.mp chunks, writes, closes⟩
  · intro whole
    have chunks := reads.mpr whole.reads
    rw [chunks] at lossless
    have kept := lossless.mpr ⟨whole.writes, whole.closes⟩
    refine ⟨?_, fun other ends' => ?_⟩
    · rw [Encrypting.ends_lossless_target opens.2 ends kept, chunks]
    · rw [ends'.unique ends]
      exact ⟨chunks, kept⟩

/-- Every message is 17 bytes shorter than its ciphertext. -/
def SecretStream.TakesABytes (ss : SecretStream) : Prop :=
  ∀ st buffer message tag next, ss.pull st buffer = some (message, tag, next) →
    buffer.length = message.length + kABytes

/-- The messages of the buffers of a stream. -/
def SecretStream.messages (ss : SecretStream) (st : ss.State) (buffers : List Bytes) :
    List Bytes :=
  match ss.pullAll st buffers with
  | none => []
  | some (chunks, _) => chunks.map Prod.fst

theorem SecretStream.messages_of_pullAll {ss : SecretStream} {st last : ss.State}
    {buffers : List Bytes} {chunks : List Chunk}
    (pulled : ss.pullAll st buffers = some (chunks, last)) :
    ss.messages st buffers = chunks.map Prod.fst := by
  rw [messages, pulled]

/-- The messages before a buffer of a stream that is pulled as a whole. -/
theorem SecretStream.messages_of_prefix {ss : SecretStream} {st last : ss.State}
    {front back : List Bytes} {chunks : List Chunk}
    (pulled : ss.pullAll st (front ++ back) = some (chunks, last)) :
    ss.messages st front = (chunks.map Prod.fst).take front.length := by
  obtain ⟨early, middle, first, rest, rfl⟩ := pullAll_append_some pulled
  rw [messages_of_pullAll first, List.map_append, ← pullAll_length first,
    ← @List.length_map _ _ early Prod.fst, List.take_left]

/-- The header as `decryptFile` reads it, and whether it is the end. -/
def Disk.headerBlock (disk : Disk) (target source : Path) : Bytes × Bool :=
  disk.block target source kHeaderBytes (disk.clock + 2) 0 []

/-- All the calls of a decryption into `chunks` go well: the header and each of
the other reads return the next bytes of the source, and they come to its end
with the last of them; each write takes the message that it is given, and
closing writes out what waits. -/
structure DecryptsWhole (target source : Path) (disk : Disk) (chunks : List Chunk) : Prop where
  header : disk.headerBlock target source = ((disk.content source).take kHeaderBytes, false)
  reads : ∀ front buffer back, blocks (kChunkSize + kABytes)
      ((disk.content source).drop kHeaderBytes) = front ++ buffer :: back →
    disk.cipherBlock target source
      (((disk.content source).take kHeaderBytes).length + front.flatten.length)
      ((chunks.map Prod.fst).take front.length) = (buffer, back.isEmpty)
  writes : disk.TakesAll (disk.clock + 3) (chunks.map Prod.fst)
  closes : (disk.fate (disk.clock + 4 + 2 * chunks.length)).Takes
    (disk.writes (disk.clock + 3) (chunks.map Prod.fst)).waiting

/-- The same for `decryptFile`: the whole source was opened, and the target
holds the whole plaintext. -/
def DecryptionComplete (ss : SecretStream) (target source : Path) (secret : StreamKey)
    (stack : Header) (disk : Disk) (result : Decryption) : Prop :=
  openStream ss secret stack (disk.content source) = some result.pulled ∧
    result.disk.files target = some (result.pulled.map Prod.fst).flatten ∧
    ∀ st last, ss.initPull secret (headerRead target source stack disk) = some st →
      Ends Decrypting.turn Decrypting.ended (.start ss target source disk st) last →
      last.streams.Lossless

namespace Decrypting

variable {ss : SecretStream} {target source : Path} {disk : Disk} {entered : ss.State}
  {state last : Decrypting ss} {buffers : List Bytes}

/-- A turn that rejects nothing. -/
theorem turn_kept (kept : state.turn.verdict ≠ some false) :
    ∃ plain tag, ss.pull state.st state.buffer = some (plain, tag, state.turn.st) ∧
      state.turn.pulled = state.pulled ++ [(plain, tag)] ∧
      state.turn.streams = state.afterRead.write plain ∧
      state.turn.verdict = if state.afterRead.fs.eof then some true else none := by
  cases pulled : ss.pull state.st state.buffer with
  | none =>
      rw [turn_rejected pulled] at kept
      contradiction
  | some chunk =>
      obtain ⟨plain, tag, st⟩ := chunk
      by_cases early : tag = tagFinal ∧ state.afterRead.fs.eof = false
      · rw [turn_early pulled early] at kept
        contradiction
      · rw [turn_written pulled early]
        exact ⟨plain, tag, rfl, rfl, rfl, rfl⟩

/-- The buffers behind a state that has rejected none. -/
structure Keeps (target source : Path) (disk : Disk) (entered : ss.State) (buffers : List Bytes)
    (state : Decrypting ss) : Prop where
  pulled : ss.pullAll entered buffers = some (state.pulled, state.st)
  reached : Reached disk target source (state.pulled.map Prod.fst) state
  place : state.streams.fs.pos =
    (disk.headerBlock target source).1.length + buffers.flatten.length
  accounts : Streams.Accounts target state.streams
  taken : state.streams.taken = state.streams.given ↔
    disk.TakesAll (disk.clock + 3) (state.pulled.map Prod.fst)

theorem Keeps.start (opens : disk.TargetOpens) :
    Keeps target source disk entered [] (start ss target source disk entered) :=
  ⟨rfl, .start opens entered, start_position opens entered, (Streams.opened_accounts opens).read _,
    iff_of_true rfl (disk.takesAll_nil _)⟩

theorem Keeps.turn (keeps : Keeps target source disk entered buffers state)
    (kept : state.turn.verdict ≠ some false) :
    Keeps target source disk entered (buffers ++ [state.buffer]) state.turn := by
  obtain ⟨plain, tag, opened, longer, same, _⟩ := turn_kept kept
  have messages : state.turn.pulled.map Prod.fst = state.pulled.map Prod.fst ++ [plain] := by
    rw [longer, List.map_append, List.map_singleton]
  refine ⟨?_, ?_, ?_, accounts_turn keeps.accounts, ?_⟩
  · rw [longer]
    exact SecretStream.pullAll_concat keeps.pulled opened
  · rw [messages]
    exact keeps.reached.next same
  · rw [same, Streams.write_fs, keeps.reached.position_eq, ← keeps.reached.buffer_eq, keeps.place,
      List.flatten_append, List.flatten_singleton, List.length_append, Nat.add_assoc]
  · have call : disk.clock + 3 + 2 * (state.pulled.map Prod.fst).length + 1 =
        disk.clock + 3 + 1 + 2 * (state.pulled.map Prod.fst).length := by
      omega
    have read := Streams.At.read keeps.reached (kChunkSize + kABytes)
    have taken := (keeps.accounts.read (kChunkSize + kABytes)).write_taken_eq_iff plain
    rw [Streams.Takes, read.current, call] at taken
    rw [messages, Disk.takesAll_concat, ← keeps.taken, same]
    exact taken

/-- The next buffer, and whether it is the last one. -/
def nextBuffer (target source : Path) (disk : Disk) (entered : ss.State) (front : List Bytes) :
    Bytes × Bool :=
  let (bytes, last) := disk.cipherBlock target source
    ((disk.headerBlock target source).1.length + front.flatten.length) (ss.messages entered front)
  (bytes, (disk.headerBlock target source).2 || last)

theorem Keeps.nextBuffer_eq (keeps : Keeps target source disk entered buffers state)
    (seen : state.streams.fs.eof = (disk.headerBlock target source).2) :
    nextBuffer target source disk entered buffers = (state.buffer, state.afterRead.fs.eof) := by
  rw [nextBuffer, SecretStream.messages_of_pullAll keeps.pulled, ← keeps.place, ← seen,
    keeps.reached.buffer_eq, keeps.reached.ended_eq]

/-- The buffers of an accepted source are what the reads return. -/
theorem Keeps.ends_unfolds (ends : Ends Decrypting.turn ended state last)
    (accepted : last.verdict = some true)
    (seen : state.streams.fs.eof = (disk.headerBlock target source).2)
    (keeps : Keeps target source disk entered buffers state) :
    ∃ all, Unfolds (nextBuffer target source disk entered) buffers all ∧
      Keeps target source disk entered all last := by
  induction ends generalizing buffers with
  | here finished =>
      have kept := keeps.turn (by rw [accepted]; decide)
      obtain ⟨_, _, _, _, _, verdict⟩ := turn_kept (by rw [accepted]; decide)
      have next := keeps.nextBuffer_eq seen
      refine ⟨_, ?_, kept⟩
      have stop := @Unfolds.stop _ (nextBuffer target source disk entered) buffers
      rw [next] at stop
      apply stop
      by_contra open_
      rw [accepted, if_neg open_] at verdict
      contradiction
  | @later state last continues _ ih =>
      have undecided : state.turn.verdict = none :=
        Option.not_isSome_iff_eq_none.mp (Bool.eq_false_iff.mp continues)
      have rejectsNot : state.turn.verdict ≠ some false := by
        rw [undecided]
        exact (Option.some_ne_none _).symm
      have kept := keeps.turn rejectsNot
      obtain ⟨plain, _, _, _, same, verdict⟩ := turn_kept rejectsNot
      have more : state.afterRead.fs.eof = false := by
        by_contra reached
        rw [undecided, if_pos (Bool.not_eq_false _ ▸ reached)] at verdict
        contradiction
      have header : (disk.headerBlock target source).2 = false := by
        rw [keeps.reached.ended_eq, seen, Bool.or_eq_false_iff] at more
        exact more.1
      obtain ⟨all, unfolds, last⟩ := ih accepted
        (by rw [same, Streams.write_fs, more, header]) kept
      refine ⟨all, .step ?_ ?_, last⟩
      · rw [keeps.nextBuffer_eq seen, more]
      · rw [keeps.nextBuffer_eq seen]
        exact unfolds

theorem Keeps.lossless_iff (keeps : Keeps target source disk entered buffers state) :
    state.streams.Lossless ↔ disk.TakesAll (disk.clock + 3) (state.pulled.map Prod.fst) ∧
      (disk.fate (disk.clock + 4 + 2 * state.pulled.length)).Takes
        (disk.writes (disk.clock + 3) (state.pulled.map Prod.fst)).waiting := by
  have call : disk.clock + 4 + 2 * state.pulled.length =
      disk.clock + 3 + 2 * (state.pulled.map Prod.fst).length + 1 := by
    rw [List.length_map]
    omega
  rw [Streams.Lossless, keeps.taken, Streams.At.flushes_iff keeps.reached, call]

theorem ends_lossless_target (opensSource : disk.SourceOpens source)
    (opensTarget : disk.TargetOpens)
    (ends : Ends turn ended (start ss target source disk entered) last)
    (accepted : last.verdict = some true) (lossless : last.streams.Lossless) :
    last.streams.close.files target = some (last.pulled.map Prod.fst).flatten := by
  have follows := ends_follows opensSource opensTarget ends
  rw [follows.accounts.close_lossless lossless, follows.given (by rw [accepted]; decide)]

end Decrypting

/-- The run of a call that accepts its source. -/
theorem decryptFile_accepted {ss : SecretStream} {target source : Path} {secret : StreamKey}
    {protection : Protection} {stack : Header} {disk : Disk} {fuel : Nat} {result : Decryption}
    (ran : decryptFile ss fuel target source (.holding secret protection) stack disk = .ok result)
    (accepted : result.accepted = true) :
    (disk.SourceOpens source ∧ disk.TargetOpens) ∧ ∃ st last buffers,
      ss.initPull secret (headerRead target source stack disk) = some st ∧
      Ends Decrypting.turn Decrypting.ended (.start ss target source disk st) last ∧
      last.verdict = some true ∧ last.pulled = result.pulled ∧
      last.streams.close = result.disk ∧
      Unfolds (Decrypting.nextBuffer target source disk st) [] buffers ∧
      Decrypting.Keeps target source disk st buffers last := by
  have opens : disk.SourceOpens source ∧ disk.TargetOpens := by
    by_contra unopened
    rw [decryptFile_unopened ss fuel _ stack unopened] at ran
    cases ran
    contradiction
  rcases (decryptFile_run_iff opens).mp ⟨fuel, ran⟩ with
    ⟨_, rfl⟩ | ⟨st, last, started, ends, rfl⟩
  · contradiction
  have verdict : last.verdict = some true := last.accepts_iff.mp accepted
  obtain ⟨buffers, unfolds, keeps⟩ := Decrypting.Keeps.ends_unfolds ends verdict
    (Decrypting.start_ended opens.2 st) (.start opens.2)
  exact ⟨opens, st, last, buffers, started, ends, verdict, rfl, rfl, unfolds, keeps⟩

section

variable {ss : SecretStream} {target source : Path} {secret : StreamKey}
  {protection : Protection} {stack : Header} {disk : Disk} {fuel : Nat} {result : Decryption}

/-- An accepted call that went well opened the whole source. -/
theorem DecryptsWhole.complete
    (ran : decryptFile ss fuel target source (.holding secret protection) stack disk = .ok result)
    (accepted : result.accepted = true) {chunks : List Chunk}
    (opened : openStream ss secret stack (disk.content source) = some chunks)
    (whole : DecryptsWhole target source disk chunks) :
    DecryptionComplete ss target source secret stack disk result := by
  obtain ⟨opens, st, last, buffers, started, ends, verdict, history, closed, unfolds, keeps⟩ :=
    decryptFile_accepted ran accepted
  have header : headerRead target source stack disk = headerOf stack (disk.content source) := by
    have read := congrArg Prod.fst whole.header
    rw [Disk.headerBlock] at read
    rw [headerRead_eq opens.2, Disk.header]
    simp only [read, headerOf]
  obtain ⟨st', started', pulled⟩ := Option.bind_eq_some_iff.mp opened
  rw [← header, started] at started'
  cases started'
  obtain ⟨⟨final, pulled⟩, _⟩ := (SecretStream.pullStream_eq_some_iff _ _ _).mp pulled
  have same : buffers =
      blocks (kChunkSize + kABytes) ((disk.content source).drop kHeaderBytes) := by
    refine unfolds.unique (unfolds_iff.mpr ⟨_, (blocks_blocked (by decide) _).ne_nil, rfl, ?_⟩)
    intro front buffer back split
    rw [split] at pulled
    rw [List.nil_append, Decrypting.nextBuffer, SecretStream.messages_of_prefix pulled,
      whole.header, whole.reads front buffer back split]
    rfl
  subst same
  have chunks_eq : last.pulled = chunks := by
    have both := keeps.pulled.symm.trans pulled
    exact congrArg Prod.fst (Option.some.inj both)
  have lossless : last.streams.Lossless := by
    rw [keeps.lossless_iff, chunks_eq]
    exact ⟨whole.writes, whole.closes⟩
  refine ⟨by rw [opened, ← history, chunks_eq], ?_, ?_⟩
  · rw [← closed, ← history]
    exact Decrypting.ends_lossless_target opens.1 opens.2 ends verdict lossless
  · intro other last' started' ends'
    cases started.symm.trans started'
    rwa [ends'.unique ends]

/-- Reads that return as many bytes as the pieces of the source return these
pieces. -/
theorem pieces_of_reads {content : Bytes} {position : Nat} {messages read pieces : List Bytes}
    (longer : List.Forall₂ (fun message buffer => buffer.length = message.length + kABytes)
      messages read)
    (longer' : List.Forall₂ (fun message buffer => buffer.length = message.length + kABytes)
      messages pieces)
    (cut : pieces.flatten = content.drop position)
    (reads : ∀ front buffer back, read = front ++ buffer :: back → ∃ extra,
      buffer <+: content.drop (position + front.flatten.length) ++ extra) : read = pieces := by
  induction longer generalizing position pieces with
  | nil =>
      cases longer'
      rfl
  | @cons message buffer _ read length _ ih =>
      obtain ⟨piece, others, length', longerRest, rfl⟩ := List.forall₂_cons_left_iff.mp longer'
      rw [List.flatten_cons] at cut
      obtain ⟨extra, first⟩ := reads [] buffer read rfl
      rw [List.flatten_nil, List.length_nil, Nat.add_zero, ← cut, List.append_assoc] at first
      have head : buffer = piece := by
        rw [List.prefix_iff_eq_take.mp first, length, ← length', List.take_left]
      have rest : others.flatten = content.drop (position + piece.length) := by
        rw [← List.drop_drop, ← cut, List.drop_left]
      rw [head, ih longerRest rest]
      intro front next back split
      obtain ⟨extra, later⟩ := reads (buffer :: front) next back (by rw [split]; rfl)
      rw [List.flatten_cons, List.length_append, head, ← Nat.add_assoc] at later
      exact ⟨extra, later⟩

theorem SecretStream.TakesABytes.longer (takes : ss.TakesABytes) {st last : ss.State}
    {buffers : List Bytes} {chunks : List Chunk}
    (pulled : ss.pullAll st buffers = some (chunks, last)) :
    List.Forall₂ (fun message buffer => buffer.length = message.length + kABytes)
      (chunks.map Prod.fst) buffers := by
  induction buffers generalizing st chunks with
  | nil =>
      cases pulled
      exact .nil
  | cons buffer rest ih =>
      obtain ⟨message, tag, next, tail, found, continued, rfl⟩ := pullAll_cons_iff.mp pulled
      exact .cons (takes _ _ _ _ _ found) (ih continued)

/-- The header read of a source that holds a header does not come to its end. -/
theorem Disk.headerBlock_unended (disk : Disk) (different : source ≠ target)
    (long : kHeaderBytes ≤ (disk.content source).length) :
    (disk.headerBlock target source).2 = false := by
  refine Bool.eq_false_iff.mpr fun ended => ?_
  have short := (Fate.read_ended ended).2
  rw [disk.seen_of_ne different, List.drop_zero, List.length_append] at short
  omega

theorem Disk.headerBlock_full (disk : Disk) (different : source ≠ target)
    (long : kHeaderBytes ≤ (disk.content source).length)
    (full : (disk.headerBlock target source).1.length = kHeaderBytes) :
    (disk.headerBlock target source).1 = (disk.content source).take kHeaderBytes := by
  obtain ⟨extra, returned⟩ : ∃ extra, (disk.headerBlock target source).1 <+:
      (disk.content source).drop 0 ++ extra := disk.block_prefix different _ _ _ _
  rw [List.drop_zero, List.prefix_iff_eq_take, full, List.take_append_of_le_length long] at returned
  exact returned

/-- With two files the whole source is opened only if all the calls go well. -/
theorem DecryptionComplete.whole (takes : ss.TakesABytes) (different : source ≠ target)
    (ran : decryptFile ss fuel target source (.holding secret protection) stack disk = .ok result)
    (accepted : result.accepted = true)
    (complete : DecryptionComplete ss target source secret stack disk result) :
    DecryptsWhole target source disk result.pulled := by
  obtain ⟨opened, _, lossless⟩ := complete
  obtain ⟨opens, st, last, buffers, started, ends, verdict, history, closed, unfolds, keeps⟩ :=
    decryptFile_accepted ran accepted
  rw [← history] at opened ⊢
  obtain ⟨st', started', pulled⟩ := Option.bind_eq_some_iff.mp opened
  obtain ⟨⟨final, pulled⟩, _⟩ := (SecretStream.pullStream_eq_some_iff _ _ _).mp pulled
  obtain ⟨rest, some, rfl, steps⟩ := unfolds_iff.mp unfolds
  simp only [List.nil_append, Decrypting.nextBuffer, Prod.mk.injEq] at steps
  have longer := takes.longer keeps.pulled
  have longer' := takes.longer pulled
  have cut : (blocks (kChunkSize + kABytes) ((disk.content source).drop kHeaderBytes)).flatten =
      (disk.content source).drop kHeaderBytes := blocks_flatten (by decide) _
  -- an empty piece is no ciphertext
  have long : kHeaderBytes ≤ (disk.content source).length := by
    by_contra short
    rw [List.drop_eq_nil_of_le (Nat.le_of_not_le short), blocks_short (by decide)] at longer'
    obtain ⟨message, _, length, _⟩ := List.forall₂_cons_right_iff.mp longer'
    exact absurd length (Nat.zero_ne_add_one _)
  have total : buffers.flatten.length = (disk.content source).length - kHeaderBytes := by
    rw [flatten_length_of_forall₂ longer, ← flatten_length_of_forall₂ longer', cut,
      List.length_drop]
  have unended := disk.headerBlock_unended different long
  simp only [unended, Bool.false_or] at steps
  -- the last read comes to the end, so the header read cannot have been short
  have header : (disk.headerBlock target source).1.length = kHeaderBytes := by
    have atMost : (disk.headerBlock target source).1.length ≤ kHeaderBytes :=
      Fate.read_length_le _ _ _
    obtain ⟨front, buffer, split⟩ : ∃ front buffer, buffers = front ++ [buffer] :=
      ⟨_, _, (List.dropLast_append_getLast some).symm⟩
    obtain ⟨read, ended⟩ := steps front buffer [] split
    have whole := congrArg List.length (read.symm.trans (Fate.read_ended ended).1)
    rw [disk.seen_of_ne different, List.length_append, List.length_drop] at whole
    rw [split, List.flatten_append, List.flatten_singleton, List.length_append] at total
    omega
  have same : buffers =
      blocks (kChunkSize + kABytes) ((disk.content source).drop kHeaderBytes) := by
    refine pieces_of_reads longer longer' cut fun front buffer back split => ?_
    obtain ⟨read, _⟩ := steps front buffer back split
    rw [header] at read
    rw [← read]
    exact disk.block_prefix different _ _ _ _
  subst same
  obtain ⟨writes, closes⟩ := keeps.lossless_iff.mp (lossless st last started ends)
  have first := disk.headerBlock_full different long header
  refine ⟨Prod.ext first unended, ?_, writes, closes⟩
  intro front buffer back split
  obtain ⟨read, ended⟩ := steps front buffer back split
  have whole := keeps.pulled
  rw [split] at whole
  rw [first, SecretStream.messages_of_prefix whole] at read ended
  exact Prod.ext read ended

/-- Where nothing fails all the calls go well. -/
theorem FilesReady.encryptsWhole {content : Bytes} (ready : FilesReady target source content disk)
    (header : Header) : EncryptsWhole ss target source secret header disk := by
  have stored : disk.content source = content := congrArg (Option.getD · []) ready.stored
  have takes (time : Nat) (bytes : Bytes) : (disk.fate time).Takes bytes :=
    Fate.transfer_of_none (ready.reliable time).1 bytes
  refine ⟨fun front chunk back split => ?_, fun _ output _ => takes _ output, takes _ _⟩
  rw [stored] at split
  have pieces := fileMessages_blocked content
  have whole := fileMessages_flatten content
  rw [split, List.map_append, List.map_cons] at pieces whole
  obtain ⟨read, ended⟩ := pieces.read whole
  rw [Disk.plainBlock, ready.block_eq, read, ended, List.isEmpty_map]

theorem FilesReady.decryptsWhole {image : Bytes} (ready : FilesReady target source image disk)
    (long : kHeaderBytes ≤ image.length) (chunks : List Chunk) :
    DecryptsWhole target source disk chunks := by
  have stored : disk.content source = image := congrArg (Option.getD · []) ready.stored
  have takes (time : Nat) (bytes : Bytes) : (disk.fate time).Takes bytes :=
    Fate.transfer_of_none (ready.reliable time).1 bytes
  refine ⟨?_, fun front buffer back split => ?_, fun _ output _ => takes _ output, takes _ _⟩
  · rw [Disk.headerBlock, ready.block_eq, stored, List.drop_zero,
      decide_eq_false (Nat.not_lt.mpr long)]
  · rw [stored] at split ⊢
    have pieces : Blocked (kChunkSize + kABytes) (blocks (kChunkSize + kABytes)
        (image.drop kHeaderBytes)) := blocks_blocked (by decide) _
    have whole : (blocks (kChunkSize + kABytes) (image.drop kHeaderBytes)).flatten =
        image.drop kHeaderBytes := blocks_flatten (by decide) _
    rw [split] at pieces whole
    obtain ⟨read, ended⟩ := pieces.read whole
    rw [Disk.cipherBlock, ready.block_eq, List.length_take_of_le long, ← List.drop_drop, read,
      ended]

/-- A call that returns `true` is complete where all its calls went well.  With
two files these are the only calls that are. -/
theorem complete_target_iff (takes : ss.TakesABytes) (target source : Path) (secret : StreamKey)
    (protection : Protection) (header stack : Header) (disk : Disk) (fuel : Nat) :
    (∀ key after, encryptFile ss fuel target source (.holding secret protection) header disk =
        .ok (true, key, after) →
      (EncryptionComplete ss target source secret header disk after ↔
        EncryptsWhole ss target source secret header disk)) ∧
    ∀ result, decryptFile ss fuel target source (.holding secret protection) stack disk =
        .ok result → result.accepted = true →
      ((∃ chunks, openStream ss secret stack (disk.content source) = some chunks ∧
          DecryptsWhole target source disk chunks) →
        DecryptionComplete ss target source secret stack disk result) ∧
      (source ≠ target → DecryptionComplete ss target source secret stack disk result →
        ∃ chunks, openStream ss secret stack (disk.content source) = some chunks ∧
          DecryptsWhole target source disk chunks) := by
  refine ⟨fun key after ran => encryptFile_complete_iff ran, fun result ran accepted => ⟨?_, ?_⟩⟩
  · intro given
    obtain ⟨chunks, opened, whole⟩ := given
    exact whole.complete ran accepted opened
  · intro different complete
    exact ⟨result.pulled, complete.1, complete.whole takes different ran accepted⟩

end

theorem idealStream_takes (pushed : StreamKey → Header → Option (List Chunk)) :
    (idealStream pushed).TakesABytes := by
  intro expected buffer message tag next pulled
  cases expected with
  | nil => contradiction
  | cons chunk rest =>
      simp only [idealStream, Option.ite_none_right_eq_some, Option.some.injEq,
        Prod.mk.injEq] at pulled
      obtain ⟨rfl, rfl, rfl, _⟩ := pulled
      simp only [List.length_append, List.length_cons, List.length_replicate, kABytes]
      omega

/-- A file with two chunks, there and back. -/
theorem complete_target_twoChunks :
    ∃ key after, encryptFile (idealStream twoChunksPushed) 2 "target" "source"
        (.holding (.replicate 32 7) .noAccess) (.replicate 24 9) (.single "source" twoChunks) =
          .ok (true, key, after) ∧
      EncryptionComplete (idealStream twoChunksPushed) "target" "source" (.replicate 32 7)
        (.replicate 24 9) (.single "source" twoChunks) after ∧
      ∃ result, decryptFile (idealStream twoChunksPushed) 2 "restored" "target"
          (.holding (.replicate 32 7) .noAccess) (.replicate 24 0) after = .ok result ∧
        result.accepted = true ∧
        DecryptionComplete (idealStream twoChunksPushed) "restored" "target" (.replicate 32 7)
          (.replicate 24 0) after result := by
  have ideal := idealStream_ideal twoChunksPushed
  have takes := idealStream_takes twoChunksPushed
  have logged : twoChunksPushed (.replicate 32 7) (.replicate 24 9) =
      some (fileMessages twoChunks) := if_pos ⟨rfl, rfl⟩
  have ready := ready_single twoChunks
  obtain ⟨after, ran, written, _, _, reliable⟩ := encryptFile_ready
    (idealStream twoChunksPushed) ready (.replicate 32 7) .noAccess (.replicate 24 9)
    (show twoChunks.length / kChunkSize < 2 by rw [twoChunks_length]; decide)
  refine ⟨_, after, ran, ((complete_target_iff takes "target" "source" (.replicate 32 7)
    .noAccess (.replicate 24 9) (.replicate 24 0) _ 2).1 _ after ran).mpr
      (ready.encryptsWhole _), ?_⟩
  have image : FilesReady "restored" "target" _ after := ⟨reliable, by decide, written⟩
  have length := streamFile_length ideal.adds (.replicate 32 7) (.replicate 24 9) twoChunks
  rw [twoChunks_length] at length
  have opened := openStream_of_blocked ideal.adds (ideal.delivers _ _ _ logged)
    (fileMessages_blocked twoChunks) (tagged_dropLast _) (.replicate 24 0)
  obtain ⟨result, ran', _, accepted, _⟩ := decryptFile_ready (idealStream twoChunksPushed) image
    (.replicate 32 7) .noAccess (.replicate 24 0)
    (show _ / (kChunkSize + kABytes) < 2 by rw [length]; decide)
  have success : result.accepted = true := by
    rw [accepted, opened]
    rfl
  have stored : after.content "target" = _ := congrArg (Option.getD · []) written
  refine ⟨result, ran', success, ((complete_target_iff takes "restored" "target"
    (.replicate 32 7) .noAccess (.replicate 24 9) (.replicate 24 0) after 2).2 result ran'
      success).1 ⟨fileMessages twoChunks, ?_, image.decryptsWhole (by rw [length]; decide) _⟩⟩
  rw [stored]
  exact opened

/-- A full disk: both files are opened, but the two writes take nothing. -/
def fullDisk : Disk where
  files := Function.update (fun _ => none) "source" (some [1, 2, 3])
  opened := 0
  clock := 0
  fate time := ⟨if time = 2 ∨ time = 4 then some 0 else none, false, []⟩

theorem fullDisk_succeeds : ∃ disk', encryptFile plainStream 1 "target" "source"
      (.holding (.replicate 32 7) .noAccess) (.replicate 24 9) fullDisk =
        .ok (true, .holding (.replicate 32 7) .noAccess, disk') ∧
    disk'.files "target" = some [] := ⟨_, rfl, rfl⟩

/-- The claim fails for the full disk. -/
theorem fullDisk_incomplete :
    ¬∀ (ss : SecretStream) (target source : Path) (secret : StreamKey) (protection : Protection)
      (header stack : Header) (disk : Disk) (fuel : Nat),
      (∀ key after, encryptFile ss fuel target source (.holding secret protection) header disk =
          .ok (true, key, after) → EncryptionComplete ss target source secret header disk after) ∧
      ∀ result, decryptFile ss fuel target source (.holding secret protection) stack disk =
          .ok result → result.accepted = true →
        DecryptionComplete ss target source secret stack disk result := by
  intro complete
  obtain ⟨disk', ran, nothing⟩ := fullDisk_succeeds
  have written := ((complete plainStream "target" "source" (.replicate 32 7) .noAccess
    (.replicate 24 9) (.replicate 24 0) fullDisk 1).1 _ _ ran).written
  have lengths := congrArg List.length (Option.some.inj (nothing.symm.trans written))
  rw [streamFile_length plainStream_adds, List.length_nil] at lengths
  have header : 0 < kHeaderBytes := by decide
  omega

end Cscrypto.Cipher
