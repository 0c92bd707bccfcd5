import Cscrypto.Cipher.Atomicity
import Cscrypto.Cipher.Completeness

namespace Cscrypto.Cipher

open Cscrypto.Data

/-! # One file as source and target

`fopen(target, "wb")` empties the file before the first read, so that the loops
see at most the header that was written in the meantime.
-/

theorem streamFile_fileMessages_inj {ss : SecretStream} (adds : ss.AddsABytes)
    (delivers : ∀ secret header chunks, ss.Delivers secret header chunks) {secret : StreamKey}
    {header : Header} {content content' : Bytes} :
    streamFile ss secret header (fileMessages content) =
      streamFile ss secret header (fileMessages content') ↔ content = content' := by
  refine ⟨fun same => ?_, fun same => by rw [same]⟩
  have opens (content : Bytes) :
      openStream ss secret header (streamFile ss secret header (fileMessages content)) =
        some (fileMessages content) :=
    openStream_of_blocked adds (delivers secret header _) (fileMessages_blocked content)
      (tagged_dropLast _) header
  have messages := (opens content).symm.trans ((congrArg _ same).trans (opens content'))
  rw [← fileMessages_flatten content, ← fileMessages_flatten content', Option.some.inj messages]

/-- What the first read finds in the file: the header, if it is already
written out. -/
def foundInPlace (header : Header) (disk : Disk) : Bytes :=
  if (disk.fate (disk.clock + 2)).flush then header.bytes else []

theorem foundInPlace_short (header : Header) (disk : Disk) :
    (foundInPlace header disk).length < kChunkSize := by
  unfold foundInPlace
  split
  · rw [header.size_eq]
    decide
  · decide

theorem start_inPlace (ss : SecretStream) (path : Path) (secret : StreamKey) (header : Header)
    {disk : Disk} (reliable : disk.Reliable) :
    (Encrypting.start ss path path secret header disk).streams.disk.files path =
      some (foundInPlace header disk) := by
  have fate : (Streams.opened path path disk).disk.current = disk.fate (disk.clock + 2) := by
    rw [Streams.opened, Disk.opening_eq]
    rfl
  have emptied : (Streams.opened path path disk).disk.files path = some [] :=
    Streams.opened_emptied (reliable _).1
  have content : (Streams.opened path path disk).disk.content path = [] :=
    congrArg (Option.getD · []) emptied
  have all : (disk.fate (disk.clock + 2)).transfer header.bytes = header.bytes :=
    Fate.transfer_of_none (reliable _).1 _
  rw [Encrypting.start, Streams.write_files, fate, all, foundInPlace]
  cases (disk.fate (disk.clock + 2)).flush with
  | true =>
      have path' : (Streams.opened path path disk).ft.path = path := rfl
      have pending : (Streams.opened path path disk).ft.pending = [] := rfl
      rw [if_pos rfl, if_pos rfl, path', pending, content, Function.update_self]
      rfl
  | false => exact emptied

namespace Encrypting

variable {ss : SecretStream} {state : Encrypting ss}

/-- A turn over a source that is shorter than the buffer is the last one. -/
theorem turn_short (reliable : state.streams.disk.Reliable) (first : state.streams.fs.pos = 0)
    {content : Bytes}
    (stored : state.streams.disk.files state.streams.fs.path = some content)
    (short : content.length < kChunkSize) :
    state.turn.ended = true ∧ state.turn.chunks = state.chunks ++ [(content, tagFinal)] := by
  obtain ⟨found, eof⟩ := Streams.read_short reliable first stored short
  refine ⟨eof, ?_⟩
  rw [turn_eq]
  exact congrArg (fun chunk => state.chunks ++ [chunk]) (Prod.ext found (if_pos eof))

theorem turn_lossless (reliable : state.streams.disk.Reliable)
    (taken : state.streams.taken = state.streams.given) : state.turn.streams.Lossless := by
  have read : state.afterRead.disk.Reliable := Streams.read_reliable reliable kChunkSize
  rw [turn_eq]
  exact ⟨Streams.write_taken_of_reliable read taken _,
    Streams.flushes_of_reliable (Streams.write_reliable read _)⟩

end Encrypting

/-- The loop takes one turn, over what it finds. -/
theorem encryptFile_inPlace (ss : SecretStream) (path : Path) (secret : StreamKey)
    (protection : Protection) (header : Header) {disk : Disk} {content : Bytes}
    (reliable : disk.Reliable) (stored : disk.files path = some content) (fuel : Nat) :
    ∃ disk', encryptFile ss (fuel + 1) path path (.holding secret protection) header disk =
        .ok (true, .holding secret .noAccess, disk') ∧
      disk'.files path =
        some (streamFile ss secret header (fileMessages (foundInPlace header disk))) := by
  have opens := reliable.opens stored
  have written : (Encrypting.start ss path path secret header disk).streams.disk.Reliable :=
    Streams.write_reliable (Streams.opened_reliable reliable) _
  have taken : (Encrypting.start ss path path secret header disk).streams.taken =
      (Encrypting.start ss path path secret header disk).streams.given :=
    Streams.write_taken_of_reliable (Streams.opened_reliable reliable) rfl _
  have short := foundInPlace_short header disk
  obtain ⟨finished, chunks⟩ := Encrypting.turn_short written rfl
    (start_inPlace ss path secret header reliable) short
  have lossless := Encrypting.turn_lossless written taken
  refine ⟨(Encrypting.start ss path path secret header disk).turn.streams.close, ?_, ?_⟩
  · rw [encryptFile_opened ss _ secret protection header opens.1 opens.2,
      doWhile_of_done finished]
  · rw [Encrypting.ends_lossless_target opens.2 (.here finished) lossless, chunks, fileMessages,
      blocks_short short]
    rfl

def DecryptsTo (ss : SecretStream) (secret : StreamKey) (stack : Header)
    (image content : Bytes) : Prop :=
  ∃ target source disk fuel protection result, FilesReady target source image disk ∧
    image.length / (kChunkSize + kABytes) < fuel ∧
    decryptFile ss fuel target source (.holding secret protection) stack disk = .ok result ∧
    result.accepted = true ∧ result.disk.files target = some content

theorem Decrypting.turn_empty {ss : SecretStream} (rejects : ∀ st, ss.pull st [] = none)
    {state : Decrypting ss} (reliable : state.streams.disk.Reliable)
    (empty : state.streams.disk.content state.streams.fs.path = []) :
    state.turn = { state with streams := state.afterRead, verdict := some false } := by
  apply turn_rejected
  rw [buffer, Streams.read_empty reliable empty]
  exact rejects state.st

/-- The source is empty when it is read, and no stream accepts that. -/
theorem decryptFile_inPlace {ss : SecretStream} (rejects : ∀ st, ss.pull st [] = none)
    (path : Path) (secret : StreamKey) (protection : Protection) (stack : Header) {disk : Disk}
    {content : Bytes} (reliable : disk.Reliable) (stored : disk.files path = some content)
    (fuel : Nat) :
    ∃ result, decryptFile ss (fuel + 1) path path (.holding secret protection) stack disk =
        .ok result ∧ result.accepted = false ∧ result.disk.files path = some [] := by
  have opens := reliable.opens stored
  have nothing {streams : Streams} (rejected : Rejected ss path path secret stack disk streams)
      (taken : streams.taken = []) : streams.close.files path = some [] := by
    rw [(rejected.close opens).1, Streams.left, taken, List.take_nil]
  rw [decryptFile_opened ss _ secret protection stack opens.1 opens.2]
  cases started : ss.initPull secret (headerRead path path stack disk) with
  | none => exact ⟨_, rfl, rfl, nothing (.header started) rfl⟩
  | some st =>
      have entered : (Decrypting.start ss path path disk st).streams.disk.Reliable :=
        Streams.read_reliable (Streams.opened_reliable reliable) _
      have empty : (Decrypting.start ss path path disk st).streams.disk.content
          (Decrypting.start ss path path disk st).streams.fs.path = [] := by
        rw [Decrypting.start, Streams.read_disk, Streams.read_path]
        exact congrArg (Option.getD · []) (Streams.opened_emptied opens.2)
      have turned := Decrypting.turn_empty rejects entered empty
      have finished : (Decrypting.start ss path path disk st).turn.ended = true := by
        rw [turned]
        rfl
      have verdict : (Decrypting.start ss path path disk st).turn.verdict = some false := by
        rw [turned]
      have taken : (Decrypting.start ss path path disk st).turn.streams.taken = [] := by
        rw [turned]
        rfl
      refine ⟨⟨false, .holding secret .noAccess,
        (Decrypting.start ss path path disk st).turn.streams.close,
        (Decrypting.start ss path path disk st).turn.pulled⟩, ?_, rfl,
        nothing (.chunk started (.here finished) verdict) taken⟩
      simp only [doWhile_of_done finished, verdict, Option.getD_some]

/-- The call left `before` in place, or wrote what it would have written to
another file. -/
def KeepsData (before : Bytes) (writes : Bytes → Prop) (returned : Bool) (after : Option Bytes) :
    Prop :=
  (returned = false ∧ after = some before) ∨
    (returned = true ∧ ∃ image, after = some image ∧ writes image)

/-- In place, encryption keeps nothing but the bytes it finds after the file is
emptied, and decryption nothing but an empty file. -/
theorem in_place_keeps_iff {ss : SecretStream} (adds : ss.AddsABytes)
    (delivers : ∀ secret header chunks, ss.Delivers secret header chunks)
    (rejects : ∀ st, ss.pull st [] = none) (path : Path) (secret : StreamKey)
    (protection : Protection) (header stack : Header) {disk : Disk} {content : Bytes}
    (reliable : disk.Reliable) (stored : disk.files path = some content) (fuel : Nat) :
    (∃ returned key disk',
      encryptFile ss (fuel + 1) path path (.holding secret protection) header disk =
        .ok (returned, key, disk') ∧
      (KeepsData content (EncryptsTo ss secret header content) returned (disk'.files path) ↔
        content = foundInPlace header disk)) ∧
    ∃ result, decryptFile ss (fuel + 1) path path (.holding secret protection) stack disk =
        .ok result ∧
      (KeepsData content (DecryptsTo ss secret stack content) result.accepted
        (result.disk.files path) ↔ content = []) := by
  constructor
  · obtain ⟨disk', ran, written⟩ :=
      encryptFile_inPlace ss path secret protection header reliable stored fuel
    refine ⟨true, _, disk', ran, ?_⟩
    have same := @streamFile_fileMessages_inj ss adds delivers secret header
      (foundInPlace header disk) content
    rw [written, eq_comm (a := content), ← same]
    constructor
    · intro either
      rcases either with ⟨returned, _⟩ | ⟨_, image, found, encrypts⟩
      · contradiction
      · rw [encryptsTo_iff, ← Option.some.inj found] at encrypts
        exact encrypts
    · intro complete
      exact .inr ⟨rfl, _, rfl, (encryptsTo_iff _ _ _ _ _).mpr complete⟩
  · obtain ⟨result, ran, rejected, emptied⟩ :=
      decryptFile_inPlace rejects path secret protection stack reliable stored fuel
    refine ⟨result, ran, ?_⟩
    rw [rejected, emptied]
    constructor
    · intro either
      rcases either with ⟨_, kept⟩ | ⟨returned, _⟩
      · exact (Option.some.inj kept).symm
      · contradiction
    · intro empty
      exact .inl ⟨rfl, by rw [empty]⟩

theorem plainStream_rejects_empty (st : Unit) : plainStream.pull st [] = none := rfl

/-- An empty file survives. -/
theorem in_place_keeps_empty :
    (∃ returned key disk', encryptFile plainStream 1 "file" "file"
        (.holding (.replicate 32 7) .noAccess) (.replicate 24 9) (.single "file" []) =
          .ok (returned, key, disk') ∧
      KeepsData [] (EncryptsTo plainStream (.replicate 32 7) (.replicate 24 9) []) returned
        (disk'.files "file")) ∧
    ∃ result, decryptFile plainStream 1 "file" "file" (.holding (.replicate 32 7) .noAccess)
        (.replicate 24 0) (.single "file" []) = .ok result ∧
      KeepsData [] (DecryptsTo plainStream (.replicate 32 7) (.replicate 24 0) [])
        result.accepted (result.disk.files "file") := by
  obtain ⟨⟨returned, key, disk', ran, encrypts⟩, result, ran', decrypts⟩ := @in_place_keeps_iff
    plainStream plainStream_adds plainStream_delivers plainStream_rejects_empty "file"
    (.replicate 32 7) .noAccess (.replicate 24 9) (.replicate 24 0) (.single "file" []) []
    (fun _ => ⟨rfl, rfl⟩) rfl 0
  exact ⟨⟨returned, key, disk', ran, encrypts.mpr rfl⟩, result, ran', decrypts.mpr rfl⟩

/-- Three bytes do not, and the call reports success. -/
theorem in_place_loses_bytes :
    ¬∀ (ss : SecretStream) (path : Path) (secret : StreamKey) (protection : Protection)
      (header stack : Header) (disk : Disk) (content : Bytes), ss.AddsABytes →
      (∀ secret header chunks, ss.Delivers secret header chunks) →
      (∀ st, ss.pull st [] = none) → disk.Reliable → disk.files path = some content →
      (∃ fuel returned key disk',
        encryptFile ss (fuel + 1) path path (.holding secret protection) header disk =
          .ok (returned, key, disk') ∧
        KeepsData content (EncryptsTo ss secret header content) returned (disk'.files path)) ∧
      ∃ fuel result,
        decryptFile ss (fuel + 1) path path (.holding secret protection) stack disk = .ok result ∧
        KeepsData content (DecryptsTo ss secret stack content) result.accepted
          (result.disk.files path) := by
  intro keeps
  obtain ⟨⟨fuel, returned, key, disk', ran, kept⟩, _⟩ := keeps plainStream "file"
    (.replicate 32 7) .noAccess (.replicate 24 9) (.replicate 24 0) (.single "file" [1, 2, 3])
    [1, 2, 3] plainStream_adds plainStream_delivers plainStream_rejects_empty
    (fun _ => ⟨rfl, rfl⟩) rfl
  obtain ⟨disk'', ran', written⟩ := @encryptFile_inPlace plainStream "file" (.replicate 32 7)
    .noAccess (.replicate 24 9) (.single "file" [1, 2, 3]) [1, 2, 3] (fun _ => ⟨rfl, rfl⟩) rfl fuel
  rw [ran] at ran'
  cases ran'
  rcases kept with ⟨returned, _⟩ | ⟨_, image, found, encrypts⟩
  · contradiction
  · rw [encryptsTo_iff] at encrypts
    rw [written, encrypts, Option.some.injEq,
      streamFile_fileMessages_inj plainStream_adds plainStream_delivers] at found
    contradiction

end Cscrypto.Cipher
