import Cscrypto.Cipher.FileSecurity
import Cscrypto.Cipher.Refusals

namespace Cscrypto.Cipher

open Cscrypto.Data

/-! # What a failed call leaves behind

The target is truncated before anything is known about the source, and a call
that cannot open both files closes neither.
-/

/-- A call that opens fewer than both files changes nothing exactly if it opens
none. -/
theorem Disk.opening_unchanged_iff {disk : Disk} {target source : Path}
    (unopened : ¬(disk.SourceOpens source ∧ disk.TargetOpens)) :
    ((disk.opening target source).files target = disk.files target ∧
      (disk.opening target source).opened = disk.opened) ↔
      (disk.SourceOpens source ↔ disk.TargetOpens) := by
  rw [opening_eq]
  by_cases opensSource : disk.SourceOpens source
  · have failed : ¬disk.TargetOpens := fun opens => unopened ⟨opensSource, opens⟩
    simp [opensSource, failed]
  · by_cases opensTarget : disk.TargetOpens
    · simp [opensSource, opensTarget]
    · simp [opensSource, opensTarget]

/-- `false` promises that the call was without effect. -/
def EncryptionAtomic (ss : SecretStream) (target source : Path) (key : CipherKey)
    (header : Header) (disk : Disk) : Prop :=
  ∀ fuel key' disk', encryptFile ss fuel target source key header disk = .ok (false, key', disk') →
    disk'.files target = disk.files target ∧ disk'.opened = disk.opened

def DecryptionAtomic (ss : SecretStream) (target source : Path) (key : CipherKey)
    (stack : Header) (disk : Disk) : Prop :=
  ∀ fuel result, decryptFile ss fuel target source key stack disk = .ok result →
    result.accepted = false →
    result.disk.files target = disk.files target ∧ result.disk.opened = disk.opened

theorem encryptFile_atomic_iff (ss : SecretStream) (target source : Path) (secret : StreamKey)
    (protection : Protection) (header : Header) (disk : Disk) :
    EncryptionAtomic ss target source (.holding secret protection) header disk ↔
      (disk.SourceOpens source ↔ disk.TargetOpens) := by
  by_cases opens : disk.SourceOpens source ∧ disk.TargetOpens
  · refine iff_of_true ?_ (iff_of_true opens.1 opens.2)
    intro fuel key' disk' ran
    obtain ⟨last, _, same⟩ := (encryptFile_run_iff opens).mp ⟨fuel, ran⟩
    cases same
  · rw [← @Disk.opening_unchanged_iff _ target _ opens]
    constructor
    · intro atomic
      exact atomic 0 _ _ (encryptFile_unopened ss 0 _ header opens)
    · intro unchanged fuel key' disk' ran
      rw [encryptFile_unopened ss fuel _ header opens] at ran
      cases ran
      exact unchanged

section

variable (ss : SecretStream) (target source : Path) (secret : StreamKey) (stack : Header)
  (disk : Disk)

/-- The streams of a run that rejects its source, before they are closed. -/
inductive Rejected : Streams → Prop where
  | header (refused : ss.initPull secret (headerRead target source stack disk) = none) :
      Rejected ((Streams.opened target source disk).read kHeaderBytes).2
  | chunk (entered : ss.initPull secret (headerRead target source stack disk) = some st)
      (ends : Ends Decrypting.turn Decrypting.ended (.start ss target source disk st) last)
      (refused : last.verdict = some false) : Rejected last.streams

end

variable {ss : SecretStream} {target source : Path} {secret : StreamKey} {stack : Header}
  {disk : Disk} {streams : Streams}

/-- The part of the plaintext that was taken before the rejection stays in the
target. -/
theorem Rejected.close (opens : disk.SourceOpens source ∧ disk.TargetOpens)
    (rejected : Rejected ss target source secret stack disk streams) :
    streams.close.files target = some streams.left ∧ streams.close.opened = disk.opened := by
  have held : Streams.Accounts target streams ∧ streams.disk.opened = disk.opened + 2 := by
    cases rejected with
    | header _ =>
        refine ⟨(Streams.opened_accounts opens.2).read _, ?_⟩
        rw [Streams.read_disk]
        exact Disk.opening_opened opens.1 opens.2
    | chunk _ ends _ =>
        have follows := Decrypting.ends_follows opens.1 opens.2 ends
        exact ⟨follows.accounts, follows.opened⟩
  refine ⟨held.1.close, ?_⟩
  rw [Streams.close_opened, held.2, Nat.add_sub_cancel]

theorem decryptFile_rejects_iff {protection : Protection} {after : Disk}
    (opens : disk.SourceOpens source ∧ disk.TargetOpens) :
    (∃ fuel result,
      decryptFile ss fuel target source (.holding secret protection) stack disk = .ok result ∧
      result.accepted = false ∧ result.disk = after) ↔
      ∃ streams, Rejected ss target source secret stack disk streams ∧ after = streams.close := by
  constructor
  · intro given
    obtain ⟨fuel, result, ran, rejected, rfl⟩ := given
    rcases (decryptFile_run_iff opens).mp ⟨fuel, ran⟩ with
      ⟨refused, rfl⟩ | ⟨st, last, entered, ends, rfl⟩
    · exact ⟨_, .header refused, rfl⟩
    · exact ⟨_, .chunk entered ends ((Decrypting.rejects_iff ends.done_eq).mp rejected), rfl⟩
  · intro given
    obtain ⟨streams, refused | ⟨entered, ends, refused⟩, rfl⟩ := given
    · obtain ⟨fuel, ran⟩ := (decryptFile_run_iff opens).mpr (.inl ⟨refused, rfl⟩)
      exact ⟨fuel, _, ran, rfl, rfl⟩
    · obtain ⟨fuel, ran⟩ := (decryptFile_run_iff opens).mpr (.inr ⟨_, _, entered, ends, rfl⟩)
      exact ⟨fuel, _, ran, (Decrypting.rejects_iff ends.done_eq).mpr refused, rfl⟩

/-- The rejected runs, told by the messages before the block that is refused. -/
theorem rejected_files_iff (opens : disk.TargetOpens) {stored : Option Bytes} :
    (∃ streams, Rejected ss target source secret stack disk streams ∧
      streams.close.files target = stored) ↔
      ∃ messages, Refuses ss disk target source secret stack messages ∧
        stored = some (disk.keeps messages) := by
  have header := @headerRead_eq disk target source opens stack
  constructor
  · intro given
    obtain ⟨streams, refused | ⟨entered, ends, refused⟩, rfl⟩ := given
    · refine ⟨[], .header (by rw [← header, refused]), ?_⟩
      rw [disk.keeps_nil, (Streams.At.read (.opened opens) kHeaderBytes).close, Fate.close,
        Fate.transfer_nil, List.append_nil]
    · obtain ⟨messages, rest, kept⟩ :=
        Decrypting.Reached.refused_of_ends ends refused (.start opens _)
      rw [Decrypting.start_position opens, Decrypting.start_ended opens] at rest
      exact ⟨messages, .block (header ▸ entered) rest, kept⟩
  · intro given
    obtain ⟨messages, refused | @⟨st, _, entered, rest⟩, rfl⟩ := given
    · refine ⟨_, .header (by rw [header, refused]), ?_⟩
      rw [disk.keeps_nil, (Streams.At.read (.opened opens) kHeaderBytes).close, Fate.close,
        Fate.transfer_nil, List.append_nil]
    · obtain ⟨last, ends, refused, kept⟩ := Decrypting.Reached.ends_of_refused rest rfl
        (Decrypting.start_position opens st) (Decrypting.start_ended opens st) (.start opens st)
      exact ⟨last.streams, .chunk (by rw [header, entered]) ends refused, kept⟩

theorem decryptFile_atomic_iff (ss : SecretStream) (target source : Path) (secret : StreamKey)
    (protection : Protection) (stack : Header) (disk : Disk) :
    DecryptionAtomic ss target source (.holding secret protection) stack disk ↔
      (disk.SourceOpens source ↔ disk.TargetOpens) ∧
      (disk.SourceOpens source ∧ disk.TargetOpens → ∀ messages,
        Refuses ss disk target source secret stack messages →
        disk.files target = some (disk.keeps messages)) := by
  by_cases opens : disk.SourceOpens source ∧ disk.TargetOpens
  · rw [and_iff_right (iff_of_true opens.1 opens.2), imp_iff_right opens]
    constructor
    · intro atomic messages refuses
      obtain ⟨streams, rejected, left⟩ :=
        (rejected_files_iff opens.2).mpr ⟨messages, refuses, rfl⟩
      obtain ⟨fuel, result, ran, refused, same⟩ :=
        (@decryptFile_rejects_iff _ _ _ _ _ _ protection _ opens).mpr ⟨streams, rejected, rfl⟩
      rw [← (atomic fuel result ran refused).1, same, left]
    · intro previous fuel result ran refused
      obtain ⟨streams, rejected, same⟩ :=
        (decryptFile_rejects_iff opens).mp ⟨fuel, result, ran, refused, rfl⟩
      obtain ⟨messages, refuses, left⟩ := (rejected_files_iff opens.2).mp ⟨streams, rejected, rfl⟩
      rw [same, previous messages refuses]
      exact ⟨left, (rejected.close opens).2⟩
  · rw [and_iff_left (fun both => absurd both opens),
      ← @Disk.opening_unchanged_iff _ target _ opens]
    constructor
    · intro atomic
      exact atomic 0 _ (decryptFile_unopened ss 0 _ stack opens) rfl
    · intro unchanged fuel result ran _
      rw [decryptFile_unopened ss fuel _ stack opens] at ran
      cases ran
      exact unchanged

/-- A source that is read without failures and rejected leaves the messages
before the refused block. -/
theorem FilesReady.rejected_leaves {image : Bytes} (ready : FilesReady target source image disk)
    (protection : Protection) {fuel : Nat} {result : Decryption}
    (ran : decryptFile ss fuel target source (.holding secret protection) stack disk = .ok result)
    (rejected : result.accepted = false) :
    ∃ messages, result.disk.files target = some messages.flatten ∧
      match ss.initPull secret (headerOf stack image) with
      | none => messages = []
      | some st => ss.released st (blocks (kChunkSize + kABytes) (image.drop kHeaderBytes)) =
          some messages := by
  have opens := ready.reliable.opens ready.stored
  obtain ⟨streams, refused, same⟩ :=
    (decryptFile_rejects_iff opens).mp ⟨fuel, result, ran, rejected, rfl⟩
  obtain ⟨messages, refuses, left⟩ := (rejected_files_iff opens.2).mp ⟨streams, refused, rfl⟩
  refine ⟨messages, ?_, (ready.refuses_iff secret stack messages).mp refuses⟩
  rw [same, left, Disk.keeps_of_reliable ready.reliable]

/-- A failed call is without effect exactly if it opened none of the files, or
both and the target held before what stays of the messages before the block
that is refused. -/
theorem failed_call_atomic_iff (ss : SecretStream) (target source : Path) (secret : StreamKey)
    (protection : Protection) (header stack : Header) (disk : Disk) :
    (EncryptionAtomic ss target source (.holding secret protection) header disk ↔
      (disk.SourceOpens source ↔ disk.TargetOpens)) ∧
    (DecryptionAtomic ss target source (.holding secret protection) stack disk ↔
      (disk.SourceOpens source ↔ disk.TargetOpens) ∧
      (disk.SourceOpens source ∧ disk.TargetOpens → ∀ messages,
        Refuses ss disk target source secret stack messages →
        disk.files target = some (disk.keeps messages))) :=
  ⟨encryptFile_atomic_iff ss target source secret protection header disk,
    decryptFile_atomic_iff ss target source secret protection stack disk⟩

/-- The source is missing; the call still empties the target and leaves it
open. -/
theorem missingSource_fails : ∃ disk', encryptFile plainStream 1 "target" "source"
      (.holding (.replicate 32 7) .noAccess) (.replicate 24 9) (.single "target" [1, 2, 3]) =
        .ok (false, .holding (.replicate 32 7) .noAccess, disk') ∧
    disk'.files "target" = some [] ∧ disk'.opened = 1 := ⟨_, rfl, rfl, rfl⟩

theorem missingSource_empties_target :
    ¬∀ (ss : SecretStream) (target source : Path) (secret : StreamKey) (protection : Protection)
      (header stack : Header) (disk : Disk),
      EncryptionAtomic ss target source (.holding secret protection) header disk ∧
        DecryptionAtomic ss target source (.holding secret protection) stack disk := by
  intro atomic
  obtain ⟨disk', ran, emptied, _⟩ := missingSource_fails
  obtain ⟨unchanged, _⟩ := (atomic plainStream "target" "source" (.replicate 32 7) .noAccess
    (.replicate 24 9) (.replicate 24 0) (.single "target" [1, 2, 3])).1 1 _ _ ran
  have previous : (Disk.single "target" [1, 2, 3]).files "target" = some [1, 2, 3] := rfl
  rw [emptied, previous] at unchanged
  contradiction

end Cscrypto.Cipher
