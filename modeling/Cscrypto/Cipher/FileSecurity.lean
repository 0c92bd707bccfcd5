import Cscrypto.Cipher.File

namespace Cscrypto.Cipher

open Cscrypto.Data

/-! # What decryption accepts

A file that `encryptFile` wrote is restored, no other file is accepted, and
the streams of an arbitrary sender are accepted even without a final chunk.
-/

theorem headerOf_streamFile (ss : SecretStream) (secret : StreamKey) (header stack : Header)
    (chunks : List Chunk) : headerOf stack (streamFile ss secret header chunks) = header := by
  have front : (streamFile ss secret header chunks).take kHeaderBytes = header.bytes := by
    rw [streamFile, List.take_append_of_le_length (Nat.le_of_eq header.size_eq.symm),
      List.take_of_length_le (Nat.le_of_eq header.size_eq)]
  apply ByteArray.ext_bytes
  simp only [headerOf, headerOver, front, header.size_eq]
  rw [List.drop_eq_nil_of_le (Nat.le_of_eq stack.size_eq), List.append_nil]

theorem streamFile_drop (ss : SecretStream) (secret : StreamKey) (header : Header)
    (chunks : List Chunk) :
    (streamFile ss secret header chunks).drop kHeaderBytes =
      (ss.pushAll (ss.initPush secret header) chunks).flatten :=
  List.drop_left' header.size_eq

theorem streamFile_length {ss : SecretStream} (adds : ss.AddsABytes) (secret : StreamKey)
    (header : Header) (content : Bytes) :
    (streamFile ss secret header (fileMessages content)).length =
      kHeaderBytes + content.length + kABytes * (content.length / kChunkSize + 1) := by
  have added := flatten_length_of_forall₂
    (SecretStream.pushAll_longer adds (ss.initPush secret header) (fileMessages content))
  rw [fileMessages, tagged_map_fst, blocks_flatten (by decide), blocks_length] at added
  rw [streamFile, List.length_append, header.size_eq, fileMessages, added, Nat.add_assoc]

/-- A delivered stream whose messages have the lengths that the loop reads is
accepted when no chunk before the last one is final. -/
theorem openStream_of_blocked {ss : SecretStream} (adds : ss.AddsABytes) {secret : StreamKey}
    {header : Header} {chunks : List Chunk} (delivers : ss.Delivers secret header chunks)
    (cut : Blocked kChunkSize (chunks.map Prod.fst))
    (unfinished : ∀ chunk ∈ chunks.dropLast, chunk.2 ≠ tagFinal) (stack : Header) :
    openStream ss secret stack (streamFile ss secret header chunks) = some chunks := by
  obtain ⟨st, last, started, pulled⟩ := delivers
  have ciphertexts := (SecretStream.pushAll_blocked_iff adds (ss.initPush secret header)
    chunks).mpr cut
  have pieces := ciphertexts.eq_blocks (by decide)
  rw [openStream, headerOf_streamFile, started, Option.bind_some, streamFile_drop, ← pieces]
  exact (SecretStream.pullStream_eq_some_iff _ _ _).mpr ⟨⟨last, pulled⟩, unfinished⟩

theorem openStream_streamFile_iff {ss : SecretStream}
    {pushed : StreamKey → Header → Option (List Chunk)} (ideal : ss.Ideal pushed)
    {secret : StreamKey} {header : Header} {chunks : List Chunk}
    (sent : pushed secret header = some chunks) (stack : Header) (opened : List Chunk) :
    openStream ss secret stack (streamFile ss secret header chunks) = some opened ↔
      opened = chunks ∧ Blocked kChunkSize (chunks.map Prod.fst) ∧
        ∀ chunk ∈ chunks.dropLast, chunk.2 ≠ tagFinal := by
  have delivers := ideal.delivers secret header chunks sent
  constructor
  · intro accepted
    obtain ⟨st, last, started, pulled⟩ := delivers
    rw [openStream, headerOf_streamFile, started, Option.bind_some, streamFile_drop] at accepted
    obtain ⟨⟨final, accepted⟩, unfinished⟩ :=
      (SecretStream.pullStream_eq_some_iff _ _ _).mp accepted
    have pieces : Blocked (kChunkSize + kABytes) (blocks (kChunkSize + kABytes)
        (ss.pushAll (ss.initPush secret header) chunks).flatten) := blocks_blocked (by decide) _
    obtain ⟨found, same, front⟩ := ideal.authentic secret header st _ _ started
      accepted pieces.ne_nil
    cases sent.symm.trans same
    have complete := SecretStream.eq_of_prefix_of_flatten ideal.adds front
      (blocks_flatten (by decide) _)
    rw [complete] at pieces accepted
    cases pulled.symm.trans accepted
    exact ⟨rfl, (SecretStream.pushAll_blocked_iff ideal.adds _ _).mp pieces, unfinished⟩
  · intro given
    obtain ⟨rfl, cut, unfinished⟩ := given
    exact openStream_of_blocked ideal.adds delivers cut unfinished stack

theorem eq_streamFile_of_openStream {ss : SecretStream}
    {pushed : StreamKey → Header → Option (List Chunk)} (ideal : ss.Ideal pushed)
    (shape : ∀ secret header chunks, pushed secret header = some chunks →
      Blocked kChunkSize (chunks.map Prod.fst))
    {secret : StreamKey} {stack : Header} {image : Bytes} {opened : List Chunk}
    (accepted : openStream ss secret stack image = some opened) :
    ∃ header chunks, pushed secret header = some chunks ∧
      image = streamFile ss secret header chunks := by
  obtain ⟨st, started, pulled⟩ := Option.bind_eq_some_iff.mp accepted
  obtain ⟨⟨last, pulled⟩, _⟩ := (SecretStream.pullStream_eq_some_iff _ _ _).mp pulled
  have pieces : Blocked (kChunkSize + kABytes)
      (blocks (kChunkSize + kABytes) (image.drop kHeaderBytes)) := blocks_blocked (by decide) _
  obtain ⟨chunks, sent, front⟩ := ideal.authentic _ _ st _ _ started pulled pieces.ne_nil
  have ciphertexts := (SecretStream.pushAll_blocked_iff ideal.adds
    (ss.initPush secret (headerOf stack image)) chunks).mpr (shape _ _ _ sent)
  have same := pieces.eq_of_prefix ciphertexts front
  have body : image.drop kHeaderBytes =
      (ss.pushAll (ss.initPush secret (headerOf stack image)) chunks).flatten := by
    rw [← same, blocks_flatten (by decide)]
  -- a source shorter than a header leaves one empty buffer, and no ciphertext is empty
  have long : kHeaderBytes ≤ image.length := by
    by_contra short
    have nothing : image.drop kHeaderBytes = [] := List.drop_eq_nil_of_le (Nat.le_of_not_le short)
    rw [nothing, blocks_short (by decide)] at same
    have nonempty := SecretStream.pushAll_nonempty ideal.adds _ chunks [] (by rw [← same]; simp)
    contradiction
  refine ⟨headerOf stack image, chunks, sent, ?_⟩
  have front : (headerOf stack image).bytes = image.take kHeaderBytes := by
    simp only [headerOf, headerOver, List.length_take_of_le long]
    rw [List.drop_eq_nil_of_le (Nat.le_of_eq stack.size_eq), List.append_nil]
  rw [streamFile, ← body, front, List.take_append_drop]

theorem fileMessages_blocked (content : Bytes) :
    Blocked kChunkSize ((fileMessages content).map Prod.fst) := by
  rw [fileMessages, tagged_map_fst]
  exact blocks_blocked (by decide) content

theorem fileMessages_flatten (content : Bytes) :
    ((fileMessages content).map Prod.fst).flatten = content := by
  rw [fileMessages, tagged_map_fst, blocks_flatten (by decide)]

/-- It delivers every stream; `idealStream pushed` accepts the logged streams
and nothing else. -/
def plainStream : SecretStream where
  State := Unit
  initPush _ _ := ()
  push _ message tag := (tag :: List.replicate 16 0 ++ message, ())
  initPull _ _ := some ()
  pull _ buffer :=
    match buffer with
    | [] => none
    | tag :: rest => some (rest.drop 16, tag, ())

theorem plainStream_adds : plainStream.AddsABytes := by
  intro _ message tag
  simp only [plainStream, List.length_append, List.length_cons, List.length_replicate, kABytes]
  omega

theorem plainStream_delivers (secret : StreamKey) (header : Header) (chunks : List Chunk) :
    plainStream.Delivers secret header chunks := by
  refine ⟨(), (), rfl, ?_⟩
  induction chunks with
  | nil => rfl
  | cons chunk rest ih =>
      exact SecretStream.pullAll_cons_iff.mpr ⟨chunk.1, chunk.2, (), rest, rfl, ih, rfl⟩

def idealStream (pushed : StreamKey → Header → Option (List Chunk)) : SecretStream where
  State := List Chunk
  initPush _ _ := []
  push st message tag := (tag :: List.replicate 16 0 ++ message, st)
  initPull secret header := some ((pushed secret header).getD [])
  pull expected buffer :=
    match expected with
    | [] => none
    | (message, tag) :: rest =>
        if buffer = tag :: List.replicate 16 0 ++ message then some (message, tag, rest) else none

theorem idealStream_pull (pushed : StreamKey → Header → Option (List Chunk)) (message : Bytes)
    (tag : Byte) (rest : List Chunk) (buffer : Bytes) :
    (idealStream pushed).pull ((message, tag) :: rest) buffer =
      if buffer = tag :: List.replicate 16 0 ++ message then some (message, tag, rest)
      else none := rfl

theorem idealStream_pullAll (pushed : StreamKey → Header → Option (List Chunk))
    (expected : List Chunk) :
    (idealStream pushed).pullAll expected ((idealStream pushed).pushAll [] expected) =
      some (expected, []) := by
  induction expected with
  | nil => rfl
  | cons chunk rest ih =>
      exact SecretStream.pullAll_cons_iff.mpr ⟨chunk.1, chunk.2, rest, rest, if_pos rfl, ih, rfl⟩

theorem idealStream_prefix (pushed : StreamKey → Header → Option (List Chunk))
    {expected : List Chunk} {buffers : List Bytes} {result : List Chunk × List Chunk}
    (pulled : (idealStream pushed).pullAll expected buffers = some result) :
    buffers <+: (idealStream pushed).pushAll [] expected := by
  obtain ⟨chunks, last⟩ := result
  induction buffers generalizing expected chunks with
  | nil => exact List.nil_prefix
  | cons buffer rest ih =>
      obtain ⟨message, tag, next, tail, found, continued, _⟩ :=
        SecretStream.pullAll_cons_iff.mp pulled
      cases expected with
      | nil => contradiction
      | cons chunk others =>
          simp only [idealStream, Option.ite_none_right_eq_some, Option.some.injEq,
            Prod.mk.injEq] at found
          obtain ⟨same, _, _, rfl⟩ := found
          exact List.cons_prefix_cons.mpr ⟨same, ih tail continued⟩

theorem idealStream_ideal (pushed : StreamKey → Header → Option (List Chunk)) :
    (idealStream pushed).Ideal pushed where
  adds _ message tag := plainStream_adds () message tag
  delivers secret header chunks sent := by
    refine ⟨chunks, [], ?_, idealStream_pullAll pushed chunks⟩
    simp only [idealStream, sent, Option.getD_some]
  authentic secret header st buffers result started pulled nonempty := by
    cases started
    have front := idealStream_prefix pushed pulled
    cases sent : pushed secret header with
    | none =>
        rw [sent] at front
        exact absurd (List.prefix_nil.mp front) nonempty
    | some chunks =>
        rw [sent] at front
        exact ⟨chunks, rfl, front⟩

/-- Encrypting a file and decrypting the result restores the file, for every
length and every pattern of buffering. -/
theorem decryptFile_encryptFile {ss : SecretStream} (adds : ss.AddsABytes)
    (delivers : ∀ secret header chunks, ss.Delivers secret header chunks)
    (secret : StreamKey) (header : Header) (protection : Protection) {target source : Path}
    {content : Bytes} {disk : Disk} (ready : FilesReady target source content disk) {fuel : Nat}
    (enough : content.length / kChunkSize < fuel) :
    ∃ image disk', encryptFile ss fuel target source (.holding secret protection) header disk =
        .ok (true, .holding secret .noAccess, disk') ∧
      disk'.files target = some image ∧ disk'.Reliable ∧
      image.length = 24 + content.length + 17 * (content.length / 4096 + 1) ∧
      ∀ (protection' : Protection) (stack : Header) (target' source' : Path) (before : Disk)
        (fuel' : Nat),
        FilesReady target' source' image before → image.length / (kChunkSize + kABytes) < fuel' →
        ∃ result, decryptFile ss fuel' target' source' (.holding secret protection') stack before =
            .ok result ∧
          result.accepted = true ∧ result.disk.files target' = some content := by
  obtain ⟨disk', ran, written, _, _, reliable⟩ :=
    encryptFile_ready ss ready secret protection header enough
  refine ⟨_, disk', ran, written, reliable, streamFile_length adds secret header content, ?_⟩
  intro protection' stack target' source' before fuel' ready' enough'
  obtain ⟨result, ran', _, accepted, delivered⟩ :=
    decryptFile_ready ss ready' secret protection' stack enough'
  have opened := openStream_of_blocked adds (delivers secret header _)
    (fileMessages_blocked content) (tagged_dropLast _) stack
  obtain ⟨_, output⟩ := delivered _ opened
  refine ⟨result, ran', by rw [accepted, opened]; rfl, ?_⟩
  rw [output, fileMessages_flatten]

def Disk.single (path : Path) (content : Bytes) : Disk where
  files := Function.update (fun _ => none) path (some content)
  opened := 0
  clock := 0
  fate _ := ⟨none, false, []⟩

theorem ready_single (content : Bytes) :
    FilesReady "target" "source" content (.single "source" content) :=
  ⟨fun _ => ⟨rfl, rfl⟩, by decide, by simp only [Disk.single, Function.update_self]⟩

/-- 5000 bytes: a full buffer and a short one. -/
def twoChunks : Bytes := List.replicate kChunkSize 1 ++ List.replicate 904 2

theorem twoChunks_length : twoChunks.length = 5000 := by
  rw [twoChunks, List.length_append, List.length_replicate, List.length_replicate]

theorem twoChunks_messages : fileMessages twoChunks =
    [(List.replicate kChunkSize 1, tagMessage), (List.replicate 904 2, tagFinal)] := by
  have pieces : Blocked kChunkSize [List.replicate kChunkSize (1 : Byte), List.replicate 904 2] :=
    .cons List.length_replicate (.last (by rw [List.length_replicate]; decide))
  have cut := pieces.eq_blocks (by decide)
  rw [List.flatten_cons, List.flatten_singleton] at cut
  rw [fileMessages, twoChunks, ← cut]
  rfl

def twoChunksPushed (secret : StreamKey) (header : Header) : Option (List Chunk) :=
  if secret = .replicate 32 7 ∧ header = .replicate 24 9 then some (fileMessages twoChunks)
  else none

/-- There and back on one disk, over `"target"`. -/
theorem decryptFile_encryptFile_twoChunks :
    ∃ image disk', encryptFile plainStream 2 "target" "source"
        (.holding (.replicate 32 7) .noAccess) (.replicate 24 9)
        (.single "source" twoChunks) = .ok (true, .holding (.replicate 32 7) .noAccess, disk') ∧
      disk'.files "target" = some image ∧ image.length = 24 + 5000 + 17 * 2 ∧
      ∃ result, decryptFile plainStream 2 "restored" "target"
          (.holding (.replicate 32 7) .noAccess) (.replicate 24 0) disk' = .ok result ∧
        result.accepted = true ∧ result.disk.files "restored" = some twoChunks := by
  have enough : twoChunks.length / kChunkSize < 2 := by
    rw [twoChunks_length]
    decide
  obtain ⟨image, disk', ran, written, reliable, length, decrypts⟩ := decryptFile_encryptFile
    plainStream_adds plainStream_delivers (.replicate 32 7) (.replicate 24 9) .noAccess
    (ready_single twoChunks) enough
  rw [twoChunks_length] at length
  have ready : FilesReady "restored" "target" image disk' := ⟨reliable, by decide, written⟩
  exact ⟨image, disk', ran, written, length,
    decrypts .noAccess (.replicate 24 0) _ _ _ 2 ready (by rw [length]; decide)⟩

def EncryptsTo (ss : SecretStream) (secret : StreamKey) (header : Header)
    (content image : Bytes) : Prop :=
  ∃ target source disk fuel protection disk', FilesReady target source content disk ∧
    content.length / kChunkSize < fuel ∧
    encryptFile ss fuel target source (.holding secret protection) header disk =
      .ok (true, .holding secret .noAccess, disk') ∧
    disk'.files target = some image

theorem encryptsTo_iff (ss : SecretStream) (secret : StreamKey) (header : Header)
    (content image : Bytes) :
    EncryptsTo ss secret header content image ↔
      image = streamFile ss secret header (fileMessages content) := by
  constructor
  · intro given
    obtain ⟨target, source, disk, fuel, protection, disk', ready, enough, ran, written⟩ := given
    obtain ⟨other, ran', written', _⟩ := encryptFile_ready ss ready secret protection header enough
    rw [ran] at ran'
    cases ran'
    exact Option.some.inj (written.symm.trans written')
  · intro same
    subst same
    obtain ⟨disk', ran, written, _⟩ := encryptFile_ready ss (ready_single content) secret
      .noAccess header (Nat.lt_succ_self _)
    exact ⟨_, _, _, _, _, disk', ready_single content, Nat.lt_succ_self _, ran, written⟩

/-- `image` with a changed body or length: a proper beginning, an extension, or
its header followed by some of its chunks in any order. -/
def Tampered (image changed : Bytes) : Prop :=
  changed ≠ image ∧ (changed <+: image ∨ image <+: changed ∨
    ∃ chunks : List Bytes,
      (∀ chunk ∈ chunks, chunk ∈ blocks (kChunkSize + kABytes) (image.drop kHeaderBytes)) ∧
      changed = image.take kHeaderBytes ++ chunks.flatten)

theorem Tampered.take_header {image changed : Bytes} (tampered : Tampered image changed)
    (imageLong : kHeaderBytes ≤ image.length) (changedLong : kHeaderBytes ≤ changed.length) :
    changed.take kHeaderBytes = image.take kHeaderBytes := by
  obtain ⟨_, ⟨rest, rfl⟩ | ⟨rest, rfl⟩ | ⟨chunks, _, rfl⟩⟩ := tampered
  · rw [List.take_append_of_le_length changedLong]
  · rw [List.take_append_of_le_length imageLong]
  · rw [List.take_append_of_le_length (by rw [List.length_take]; omega),
      List.take_take, Nat.min_self]

/-- `decryptFile` accepts only what `encryptFile` wrote under the same key. In
particular it rejects every cut, extended or rearranged file. -/
theorem decryptFile_integrity {ss : SecretStream} {contents : StreamKey → Header → Option Bytes}
    (ideal : ss.Ideal (fun secret header => (contents secret header).map fileMessages))
    (secret : StreamKey) (protection : Protection) (stack : Header) {target source : Path}
    {image : Bytes} {disk : Disk} (ready : FilesReady target source image disk) {fuel : Nat}
    (enough : image.length / (kChunkSize + kABytes) < fuel) :
    ∃ result, decryptFile ss fuel target source (.holding secret protection) stack disk =
      .ok result ∧
      (result.accepted = true → ∃ header content, contents secret header = some content ∧
        EncryptsTo ss secret header content image) ∧
      ∀ header content original, contents secret header = some content →
        EncryptsTo ss secret header content original → Tampered original image →
        result.accepted = false := by
  have genuine : (openStream ss secret stack image).isSome = true →
      ∃ header content, contents secret header = some content ∧
        image = streamFile ss secret header (fileMessages content) := by
    intro accepted
    obtain ⟨opened, accepted⟩ := Option.isSome_iff_exists.mp accepted
    have shape : ∀ secret header chunks, (contents secret header).map fileMessages = some chunks →
        Blocked kChunkSize (chunks.map Prod.fst) := by
      intro secret header chunks sent
      obtain ⟨content, _, rfl⟩ := Option.map_eq_some_iff.mp sent
      exact fileMessages_blocked content
    obtain ⟨header, chunks, sent, same⟩ := eq_streamFile_of_openStream ideal shape accepted
    obtain ⟨content, logged, rfl⟩ := Option.map_eq_some_iff.mp sent
    exact ⟨header, content, logged, same⟩
  obtain ⟨result, ran, _, accepted, _⟩ := decryptFile_ready ss ready secret protection stack enough
  refine ⟨result, ran, ?_, ?_⟩
  · intro success
    obtain ⟨header, content, logged, same⟩ := genuine (accepted ▸ success)
    exact ⟨header, content, logged, (encryptsTo_iff _ _ _ _ _).mpr same⟩
  · intro header content original logged encrypted tampered
    rw [accepted, ← Bool.not_eq_true]
    intro success
    obtain ⟨header', content', logged', same⟩ := genuine success
    have written := (encryptsTo_iff _ _ _ _ _).mp encrypted
    have heads := tampered.take_header (by rw [written, streamFile_length ideal.adds]; omega)
      (by rw [same, streamFile_length ideal.adds]; omega)
    rw [written, same, streamFile, streamFile, List.take_left' header.size_eq,
      List.take_left' header'.size_eq] at heads
    cases ByteArray.ext_bytes heads
    cases logged.symm.trans logged'
    exact tampered.1 (same.trans written.symm)

def oneFile (secret : StreamKey) (header : Header) : Option Bytes :=
  if secret = .replicate 32 7 ∧ header = .replicate 24 9 then some [1, 2, 3] else none

theorem decryptFile_integrity_headerOnly :
    ∃ result, decryptFile
        (idealStream (fun secret header => (oneFile secret header).map fileMessages)) 1
        "target" "source" (.holding (.replicate 32 7) .noAccess) (.replicate 24 0)
        (.single "source" (List.replicate 24 9)) = .ok result ∧ result.accepted = false := by
  obtain ⟨result, ran, _, rejects⟩ := decryptFile_integrity
    (idealStream_ideal (fun secret header => (oneFile secret header).map fileMessages))
    (.replicate 32 7) .noAccess (.replicate 24 0) (ready_single (List.replicate 24 9)) (Nat.one_pos)
  refine ⟨result, ran, rejects (.replicate 24 9) [1, 2, 3] _ (if_pos ⟨rfl, rfl⟩)
    ((encryptsTo_iff _ _ _ _ _).mpr rfl) ⟨?_, .inl ⟨_, rfl⟩⟩⟩
  intro same
  have lengths := congrArg List.length same
  rw [streamFile_length (idealStream_ideal _).adds] at lengths
  contradiction

/-- Acceptance means that the last chunk pulled, and no earlier one, is final. -/
def Decryption.Finished (result : Decryption) : Prop :=
  result.accepted = true → (∃ chunk, result.pulled.getLast? = some chunk ∧ chunk.2 = tagFinal) ∧
    ∀ chunk ∈ result.pulled.dropLast, chunk.2 ≠ tagFinal

/-- The loop compares the tag with `TAG_FINAL` only before the end of the
file. A stream is accepted without a final chunk when its messages fill the
buffer up to a last, shorter one. -/
theorem decryptFile_finished_iff {ss : SecretStream}
    {pushed : StreamKey → Header → Option (List Chunk)} (ideal : ss.Ideal pushed)
    {secret : StreamKey} {header : Header} {chunks : List Chunk}
    (sent : pushed secret header = some chunks) (protection : Protection) (stack : Header)
    {target source : Path} {disk : Disk}
    (ready : FilesReady target source (streamFile ss secret header chunks) disk) {fuel : Nat}
    (enough : (streamFile ss secret header chunks).length / (kChunkSize + kABytes) < fuel) :
    ∃ result, decryptFile ss fuel target source (.holding secret protection) stack disk =
      .ok result ∧
      (result.Finished ↔
        ¬(Blocked kChunkSize (chunks.map Prod.fst) ∧ ∀ chunk ∈ chunks, chunk.2 ≠ tagFinal)) := by
  obtain ⟨result, ran, _, accepted, delivered⟩ :=
    decryptFile_ready ss ready secret protection stack enough
  have opens := openStream_streamFile_iff ideal sent stack
  refine ⟨result, ran, ?_⟩
  constructor
  · intro finished given
    obtain ⟨cut, unfinished⟩ := given
    have opened := (opens chunks).mpr ⟨rfl, cut, fun chunk member =>
      unfinished chunk (List.dropLast_subset _ member)⟩
    have success : result.accepted = true := by
      rw [accepted, opened]
      rfl
    obtain ⟨⟨chunk, last, final⟩, _⟩ := finished success
    rw [(delivered chunks opened).1] at last
    exact unfinished chunk (List.mem_of_getLast? last) final
  · intro condition success
    obtain ⟨opened, success⟩ := Option.isSome_iff_exists.mp (accepted ▸ success)
    obtain ⟨rfl, cut, unfinished⟩ := (opens opened).mp success
    rw [(delivered opened success).1]
    refine ⟨?_, unfinished⟩
    have some : opened ≠ [] := fun empty => cut.ne_nil (by rw [empty, List.map_nil])
    refine ⟨opened.getLast some, List.getLast?_eq_getLast_of_ne_nil some, ?_⟩
    -- otherwise no chunk at all is final
    by_contra unfinal
    refine condition ⟨cut, fun chunk member => ?_⟩
    rw [← List.dropLast_append_getLast some, List.mem_append, List.mem_singleton] at member
    rcases member with early | rfl
    · exact unfinished chunk early
    · exact unfinal

def oneMessage (tag : Byte) : SecretStream :=
  idealStream (fun _ _ => some [(List.replicate 10 5, tag)])

def oneMessageFile (tag : Byte) : Bytes :=
  List.replicate 24 9 ++ (tag :: List.replicate 16 0 ++ List.replicate 10 5)

theorem oneMessageFile_eq (tag : Byte) : oneMessageFile tag =
    streamFile (oneMessage tag) (.replicate 32 7) (.replicate 24 9)
      [(List.replicate 10 5, tag)] := rfl

theorem decryptFile_finished_iff_final :
    ∃ result, decryptFile (oneMessage tagFinal) 1 "target" "source"
        (.holding (.replicate 32 7) .noAccess) (.replicate 24 0)
        (.single "source" (oneMessageFile tagFinal)) = .ok result ∧ result.Finished := by
  have ready := ready_single (oneMessageFile tagFinal)
  have enough : (oneMessageFile tagFinal).length / (kChunkSize + kABytes) < 1 := by decide
  rw [oneMessageFile_eq] at ready enough
  obtain ⟨result, ran, finished⟩ := decryptFile_finished_iff
    (idealStream_ideal (fun _ _ => some [(List.replicate 10 5, tagFinal)])) rfl .noAccess
    (.replicate 24 0) ready enough
  exact ⟨result, ran, finished.mpr (fun ⟨_, unfinished⟩ => unfinished _ List.mem_cons_self rfl)⟩

/-- A sender that stopped after one message without a final chunk. -/
theorem unfinished_stream_accepted :
    ∃ result, decryptFile (oneMessage tagMessage) 1 "target" "source"
        (.holding (.replicate 32 7) .noAccess) (.replicate 24 0)
        (.single "source" (oneMessageFile tagMessage)) = .ok result ∧
      result.accepted = true ∧ result.pulled = [(List.replicate 10 5, tagMessage)] ∧
      ¬result.Finished := by
  have opened : openStream (oneMessage tagMessage) (.replicate 32 7) (.replicate 24 0)
      (oneMessageFile tagMessage) = some [(List.replicate 10 5, tagMessage)] := by
    rw [oneMessageFile_eq]
    exact (openStream_streamFile_iff (idealStream_ideal _) rfl _ _).mpr
      ⟨rfl, .last (by decide), by simp⟩
  obtain ⟨result, ran, _, accepted, delivered⟩ := decryptFile_ready (oneMessage tagMessage)
    (ready_single (oneMessageFile tagMessage)) (.replicate 32 7) .noAccess (.replicate 24 0)
    Nat.one_pos
  obtain ⟨pulled, _⟩ := delivered _ opened
  have success : result.accepted = true := by
    rw [accepted, opened]
    rfl
  refine ⟨result, ran, success, pulled, ?_⟩
  intro finished
  obtain ⟨⟨chunk, last, final⟩, _⟩ := finished success
  rw [pulled] at last
  cases last
  contradiction

end Cscrypto.Cipher
