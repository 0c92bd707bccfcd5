import Cscrypto.Cipher.Atomicity

namespace Cscrypto.Cipher

open Cscrypto.Data

/-! # What decryption leaves in the target

`decryptFile` writes each message as soon as its chunk was accepted, so that a
source that is rejected later leaves a beginning of the plaintext behind.  The
disk may fail in every way.
-/

/-- What an ideal stream returns is the beginning of what was pushed. -/
theorem SecretStream.Ideal.prefix_of_pullAll {ss : SecretStream}
    {pushed : StreamKey → Header → Option (List Chunk)} (ideal : ss.Ideal pushed)
    {secret : StreamKey} {header : Header} {st last : ss.State} {buffers : List Bytes}
    {chunks : List Chunk} (started : ss.initPull secret header = some st)
    (pulled : ss.pullAll st buffers = some (chunks, last)) (some : buffers ≠ []) :
    ∃ sent, pushed secret header = Option.some sent ∧ chunks <+: sent := by
  obtain ⟨sent, logged, rest, split⟩ := ideal.authentic secret header st buffers _ started pulled
    some
  obtain ⟨st', last', started', delivered⟩ := ideal.delivers secret header sent logged
  cases started.symm.trans started'
  rw [← split] at delivered
  obtain ⟨early, middle, first, front⟩ := pullAll_append_some delivered
  cases pulled.symm.trans first
  exact ⟨sent, logged, front⟩

namespace Streams

/-- The source and every file but the target are as they were, and `fwrite`
took beginnings of what it was given. -/
structure Partial (target : Path) (disk : Disk) (streams : Streams) : Prop where
  accounts : Accounts target streams
  others : ∀ path, path ≠ target → streams.disk.files path = disk.files path
  sublist : streams.taken.Sublist streams.given
  complete : disk.Reliable → streams.disk.Reliable ∧ streams.taken = streams.given

variable {target : Path} {disk : Disk} {streams : Streams}

theorem Partial.opened {source : Path} (opens : disk.TargetOpens) :
    Partial target disk (.opened target source disk) := by
  refine ⟨opened_accounts opens, ?_, List.Sublist.refl _, fun reliable =>
    ⟨opened_reliable reliable, rfl⟩⟩
  intro path different
  rw [Streams.opened, Disk.opening_eq]
  dsimp only
  rw [if_pos opens, Function.update_of_ne different]

theorem Partial.read (part : Partial target disk streams) (count : Nat) :
    Partial target disk (streams.read count).2 := by
  refine ⟨part.accounts.read count, ?_, part.sublist, fun reliable =>
    ⟨read_reliable (part.complete reliable).1 count, (part.complete reliable).2⟩⟩
  intro path different
  rw [read_disk]
  exact part.others path different

theorem Partial.write (part : Partial target disk streams) (bytes : Bytes) :
    Partial target disk (streams.write bytes) := by
  refine ⟨part.accounts.write bytes, ?_, ?_, fun reliable =>
    ⟨write_reliable (part.complete reliable).1 bytes,
      write_taken_of_reliable (part.complete reliable).1 (part.complete reliable).2 bytes⟩⟩
  · intro path different
    rw [write_files]
    split
    · rw [part.accounts.path, Function.update_of_ne different]
      exact part.others path different
    · exact part.others path different
  · rw [write_taken, write_given, ← Fate.take_transfer]
    exact part.sublist.append (List.take_sublist _ _)

theorem Partial.close_others (part : Partial target disk streams) {path : Path}
    (different : path ≠ target) : streams.close.files path = disk.files path := by
  have kept : streams.closing.files = streams.disk.files :=
    Disk.fclose_files_of_unwritten part.accounts.unwritten
  rw [← part.others path different, ← kept]
  unfold Streams.close Disk.fclose
  dsimp only
  split
  · rfl
  · simp only [Disk.store, part.accounts.path, Function.update_of_ne different, Disk.tick]

/-- What the target holds in the end. -/
theorem Partial.close_target (part : Partial target disk streams) :
    ∃ stored, streams.close.files target = some stored ∧ stored.Sublist streams.given ∧
      (disk.Reliable → stored = streams.given) := by
  refine ⟨streams.left, part.accounts.close, (List.take_sublist _ _).trans part.sublist, ?_⟩
  intro reliable
  obtain ⟨working, taken⟩ := part.complete reliable
  have whole := part.accounts.close_lossless ⟨taken, flushes_of_reliable working⟩
  rw [part.accounts.close] at whole
  exact Option.some.inj whole

end Streams

namespace Decrypting

variable {ss : SecretStream} {target : Path} {disk : Disk} {entered : ss.State}

/-- The chunks of a state were pulled from the beginning of the stream, and
messages of a beginning of them were given to `fwrite`; of all of them while
the loop runs. -/
structure Pulls (target : Path) (disk : Disk) (entered : ss.State) (state : Decrypting ss) :
    Prop where
  streams : Streams.Partial target disk state.streams
  buffers : ∃ buffers, ss.pullAll entered buffers = some (state.pulled, state.st)
  given : ∃ written, written <+: state.pulled ∧
    state.streams.given = (written.map Prod.fst).flatten ∧
    (state.verdict ≠ some false → written = state.pulled)

theorem Pulls.turn {state : Decrypting ss} (pulls : Pulls target disk entered state)
    (undecided : state.verdict = none) : Pulls target disk entered state.turn := by
  obtain ⟨buffers, before⟩ := pulls.buffers
  obtain ⟨written, _, given, all⟩ := pulls.given
  have whole : written = state.pulled := all (by rw [undecided]; exact (Option.some_ne_none _).symm)
  subst whole
  have read : Streams.Partial target disk state.afterRead := pulls.streams.read _
  cases pulled : ss.pull state.st state.buffer with
  | none =>
      rw [turn_rejected pulled]
      exact ⟨read, ⟨buffers, before⟩, state.pulled, List.prefix_rfl, given,
        fun accepted => absurd rfl accepted⟩
  | some chunk =>
      obtain ⟨plain, tag, st⟩ := chunk
      have after := SecretStream.pullAll_concat before pulled
      by_cases early : tag = tagFinal ∧ state.afterRead.fs.eof = false
      · rw [turn_early pulled early]
        exact ⟨read, ⟨_, after⟩, state.pulled, List.prefix_append _ _, given,
          fun accepted => absurd rfl accepted⟩
      · rw [turn_written pulled early]
        refine ⟨read.write plain, ⟨_, after⟩, _, List.prefix_rfl, ?_, fun _ => rfl⟩
        have kept : state.afterRead.given = state.streams.given := rfl
        dsimp only
        rw [Streams.write_given, kept, given, List.map_append, List.flatten_append,
          List.map_singleton, List.flatten_singleton]

theorem ends_pulls {source : Path} (opens : disk.TargetOpens) {last : Decrypting ss}
    (ends : Ends turn ended (start ss target source disk entered) last) :
    Pulls target disk entered last := by
  have first : Pulls target disk entered (start ss target source disk entered) :=
    ⟨(Streams.Partial.opened opens).read _, ⟨[], rfl⟩, [], List.nil_prefix, rfl, fun _ => rfl⟩
  refine @Ends.rule _ _ _ _ _
    (fun state => Pulls target disk entered state ∧ state.verdict = none) _ ?_
    (fun _ before _ => before.1.turn before.2) ends ⟨first, rfl⟩
  intro state given continues
  obtain ⟨pulls, undecided⟩ := given
  exact ⟨pulls.turn undecided, Option.not_isSome_iff_eq_none.mp (Bool.eq_false_iff.mp continues)⟩

end Decrypting

/-- What the target may hold after a call: messages of a beginning of the one
stream that was pushed under the key and the header, as far as the disk took
them. -/
def Released (pushed : StreamKey → Header → Option (List Chunk)) (secret : StreamKey)
    (header : Header) (disk : Disk) (stored : Bytes) : Prop :=
  stored = [] ∨ ∃ sent written, pushed secret header = some sent ∧ written <+: sent ∧
    stored.Sublist (written.map Prod.fst).flatten ∧
    (disk.Reliable → stored = (written.map Prod.fst).flatten)

theorem Disk.opening_files {disk : Disk} {target source : Path} :
    (∀ path, path ≠ target → (disk.opening target source).files path = disk.files path) ∧
      ((disk.opening target source).files target = disk.files target ∨
        (disk.opening target source).files target = some []) := by
  rw [Disk.opening_eq]
  dsimp only
  split
  · exact ⟨fun path different => Function.update_of_ne different _ _,
      .inr (Function.update_self _ _ _)⟩
  · exact ⟨fun _ _ => rfl, .inl rfl⟩

/-- The header of a source that can be read. -/
theorem FilesReady.headerRead_eq {target source : Path} {image : Bytes} {disk : Disk}
    (ready : FilesReady target source image disk) (stack : Header) :
    headerRead target source stack disk = headerOf stack image := by
  have stored : (disk.opening target source).files source = some image :=
    (Disk.opening_files.1 source ready.different).trans ready.stored
  have reliable : (disk.opening target source).Reliable :=
    @Streams.opened_reliable target source disk ready.reliable
  have cut : (image.take kHeaderBytes).length = kHeaderBytes ∨
      ((image.take kHeaderBytes).length < kHeaderBytes ∧ image.drop kHeaderBytes = []) := by
    rw [List.length_take, List.drop_eq_nil_iff]
    omega
  obtain ⟨fs, read, _⟩ := Disk.fread_piece ⟨source, 0, false, []⟩ kHeaderBytes reliable stored
    (List.take_append_drop kHeaderBytes image).symm cut
  simp only [headerRead, read, headerOf]

theorem decryptFile_others {ss : SecretStream} {fuel : Nat} {target source : Path}
    {secret : StreamKey} {protection : Protection} {stack : Header} {disk : Disk}
    {result : Decryption}
    (ran : decryptFile ss fuel target source (.holding secret protection) stack disk =
      .ok result) :
    ∀ path, path ≠ target → result.disk.files path = disk.files path := by
  by_cases opens : disk.SourceOpens source ∧ disk.TargetOpens
  · rcases (decryptFile_run_iff opens).mp ⟨fuel, ran⟩ with ⟨_, rfl⟩ | ⟨st, last, _, ends, rfl⟩
    · exact fun path different =>
        ((Streams.Partial.opened opens.2).read kHeaderBytes).close_others different
    · exact fun path different => (Decrypting.ends_pulls opens.2 ends).streams.close_others different
  · rw [decryptFile_unopened ss fuel _ stack opens] at ran
    cases ran
    exact Disk.opening_files.1

theorem decryptFile_released {ss : SecretStream}
    {pushed : StreamKey → Header → Option (List Chunk)} (ideal : ss.Ideal pushed) {fuel : Nat}
    {target source : Path} {secret : StreamKey} {protection : Protection} {stack : Header}
    {disk : Disk} {result : Decryption} (opens : disk.SourceOpens source ∧ disk.TargetOpens)
    (ran : decryptFile ss fuel target source (.holding secret protection) stack disk =
      .ok result) :
    ∃ stored, result.disk.files target = some stored ∧
      Released pushed secret (headerRead target source stack disk) disk stored := by
  rcases (decryptFile_run_iff opens).mp ⟨fuel, ran⟩ with ⟨_, rfl⟩ | ⟨st, last, started, ends, rfl⟩
  · obtain ⟨stored, found, nothing, _⟩ :=
      ((Streams.Partial.opened opens.2).read kHeaderBytes).close_target
    exact ⟨stored, found, .inl (List.sublist_nil.mp nothing)⟩
  · have pulls := Decrypting.ends_pulls opens.2 ends
    obtain ⟨buffers, pulled⟩ := pulls.buffers
    obtain ⟨written, front, given, _⟩ := pulls.given
    obtain ⟨stored, found, part, whole⟩ := pulls.streams.close_target
    refine ⟨stored, found, ?_⟩
    rw [given] at part whole
    by_cases some : buffers = []
    · subst some
      obtain ⟨nothing, _⟩ := Prod.mk.inj (Option.some.inj pulled)
      rw [← nothing, List.prefix_nil] at front
      subst front
      exact .inl (List.sublist_nil.mp part)
    · obtain ⟨sent, logged, genuine⟩ := ideal.prefix_of_pullAll started pulled some
      exact .inr ⟨sent, written, logged, front.trans genuine, part, whole⟩

/-- Whatever the source is and whatever goes wrong with the files, decryption
changes no file but the target, and no byte gets there that is not one of the
plaintext under the key and the header of the source, in its order. -/
theorem decryptFile_writes_genuine {ss : SecretStream}
    {pushed : StreamKey → Header → Option (List Chunk)} (ideal : ss.Ideal pushed) {fuel : Nat}
    {target source : Path} {secret : StreamKey} {protection : Protection} {stack : Header}
    {disk : Disk} {result : Decryption}
    (ran : decryptFile ss fuel target source (.holding secret protection) stack disk =
      .ok result) :
    (∀ path, path ≠ target → result.disk.files path = disk.files path) ∧
      (result.disk.files target = disk.files target ∨
        ∃ stored, result.disk.files target = some stored ∧
          Released pushed secret (headerRead target source stack disk) disk stored) := by
  refine ⟨decryptFile_others ran, ?_⟩
  by_cases opens : disk.SourceOpens source ∧ disk.TargetOpens
  · exact .inr (decryptFile_released ideal opens ran)
  · rw [decryptFile_unopened ss fuel _ stack opens] at ran
    cases ran
    rcases (@Disk.opening_files disk target source).2 with same | emptied
    · exact .inl same
    · exact .inr ⟨[], emptied, .inl rfl⟩

/-- The first chunk of the file as it was encrypted, and thirty bytes that were
not. -/
def secondForged : Bytes :=
  List.replicate 24 9 ++ [tagMessage :: List.replicate 16 0 ++ List.replicate kChunkSize 1,
    List.replicate 30 7].flatten

theorem secondForged_blocks : blocks (kChunkSize + kABytes) (secondForged.drop kHeaderBytes) =
    [tagMessage :: List.replicate 16 0 ++ List.replicate kChunkSize 1, List.replicate 30 7] := by
  have pieces : Blocked (kChunkSize + kABytes)
      [tagMessage :: List.replicate 16 0 ++ List.replicate kChunkSize 1,
        List.replicate 30 (7 : Byte)] :=
    .cons (by rw [List.length_append, List.length_replicate]; rfl)
      (.last (by rw [List.length_replicate]; decide))
  rw [secondForged, List.drop_left' List.length_replicate]
  exact (pieces.eq_blocks (by decide)).symm

/-- The first chunk is released before the second one is rejected. -/
theorem decryptFile_writes_genuine_secondForged :
    ∃ result, decryptFile (idealStream twoChunksPushed) 2 "target" "source"
        (.holding (.replicate 32 7) .noAccess) (.replicate 24 0)
        (.single "source" secondForged) = .ok result ∧
      result.accepted = false ∧
      result.disk.files "source" = some secondForged ∧
      result.disk.files "target" = some (List.replicate kChunkSize 1) ∧
      Released twoChunksPushed (.replicate 32 7)
        (headerRead "target" "source" (.replicate 24 0) (.single "source" secondForged))
        (.single "source" secondForged) (List.replicate kChunkSize 1) := by
  have ready := ready_single secondForged
  have length : secondForged.length = 24 + (4113 + 30) := by simp [secondForged]
  have header : headerOf (.replicate 24 0) secondForged = .replicate 24 9 := by
    apply ByteArray.ext_bytes
    simp only [headerOf, headerOver, secondForged]
    rw [List.take_left' List.length_replicate]
    rfl
  have forged (rest : Bytes) :
      List.replicate 30 (7 : Byte) ≠ tagFinal :: List.replicate 16 0 ++ rest := by
    intro same
    cases same
  obtain ⟨entered, next, started, first, second⟩ :
      ∃ entered next : (idealStream twoChunksPushed).State,
        (idealStream twoChunksPushed).initPull (.replicate 32 7)
          (headerOf (.replicate 24 0) secondForged) = some entered ∧
        (idealStream twoChunksPushed).pull entered
          (tagMessage :: List.replicate 16 0 ++ List.replicate kChunkSize 1) =
            some (List.replicate kChunkSize 1, tagMessage, next) ∧
        (idealStream twoChunksPushed).pull next (List.replicate 30 7) = none := by
    refine ⟨fileMessages twoChunks, [(List.replicate 904 2, tagFinal)], ?_, ?_, ?_⟩
    · rw [header]
      simp only [idealStream, twoChunksPushed, and_self, if_true, Option.getD_some]
    · rw [twoChunks_messages]
      exact (idealStream_pull _ _ _ _ _).trans (if_pos rfl)
    · exact (idealStream_pull _ _ _ _ _).trans (if_neg (forged _))
  have enough : secondForged.length / (kChunkSize + kABytes) < 2 := by
    rw [length]
    decide
  obtain ⟨result, ran, _, accepted, _⟩ := decryptFile_ready (idealStream twoChunksPushed) ready
    (.replicate 32 7) .noAccess (.replicate 24 0) enough
  have rejected : result.accepted = false := by
    rw [accepted, openStream, started, Option.bind_some, secondForged_blocks,
      SecretStream.pullStream, first]
    dsimp only
    rw [if_neg (fun early => absurd early.1 (by decide)), SecretStream.pullStream, second]
    rfl
  obtain ⟨messages, left, released⟩ := ready.rejected_leaves .noAccess ran rejected
  rw [started] at released
  dsimp only at released
  rw [secondForged_blocks, SecretStream.released, first] at released
  dsimp only at released
  rw [if_neg (fun early => absurd early.1 (by decide)), SecretStream.released, second] at released
  cases released
  rw [List.flatten_singleton] at left
  obtain ⟨others, same | ⟨stored, found, genuine⟩⟩ := decryptFile_writes_genuine
    (idealStream_ideal twoChunksPushed) ran
  · exact absurd (left.symm.trans same) (Option.some_ne_none _)
  · cases left.symm.trans found
    exact ⟨result, ran, rejected, (others "source" (by decide)).trans ready.stored, left, genuine⟩

end Cscrypto.Cipher
