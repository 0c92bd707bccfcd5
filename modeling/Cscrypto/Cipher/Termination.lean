import Cscrypto.Cipher.FileSecurity
import Cscrypto.Cipher.Turns

namespace Cscrypto.Cipher

open Cscrypto.Data

/-! # Whether the encryption loop ends

The loop ends only through the end-of-file indicator, which an error does not
set.  How far the reads get is a matter of lengths, and `Progress` computes it
from the behaviour of the streams alone.
-/

/-- How many of `count` bytes a call handles. -/
def Fate.handled (fate : Fate) (count : Nat) : Nat :=
  match fate.limit with
  | none => count
  | some limit => min limit count

theorem Fate.transfer_length (fate : Fate) (bytes : Bytes) :
    (fate.transfer bytes).length = fate.handled bytes.length := by
  unfold transfer handled
  cases fate.limit with
  | none => rfl
  | some limit => exact List.length_take

/-- The position in the source and its length, and how many bytes wait in the
target. When both are one file (`shared`), the source grows with the target. -/
@[ext] structure Progress where
  fate : Nat → Fate
  shared : Bool
  clock : Nat
  position : Nat
  visible : Nat
  waiting : Nat

namespace Progress

def current (progress : Progress) : Fate := progress.fate progress.clock

def readable (progress : Progress) : Nat :=
  min (progress.current.handled kChunkSize)
    (progress.visible - progress.position + progress.current.supplied.length)

def read (progress : Progress) : Progress :=
  { progress with
    clock := progress.clock + 1
    position := progress.position + progress.readable }

def write (progress : Progress) (count : Nat) : Progress :=
  let accepted := progress.current.handled count
  if progress.current.flush then
    { progress with
      clock := progress.clock + 1
      visible := progress.visible +
        if progress.shared then progress.waiting + accepted else 0
      waiting := 0 }
  else
    { progress with
      clock := progress.clock + 1
      waiting := progress.waiting + accepted }

def turn (progress : Progress) : Progress := progress.read.write (progress.readable + kABytes)

/-- A turn makes two calls. -/
theorem turn_calls (progress : Progress) :
    progress.turn.fate = progress.fate ∧ progress.turn.clock = progress.clock + 2 := by
  unfold turn write
  cases progress.read.current.flush <;> exact ⟨rfl, rfl⟩

theorem iterate_calls (progress : Progress) (turns : Nat) :
    (turn^[turns] progress).fate = progress.fate ∧
      (turn^[turns] progress).clock = progress.clock + 2 * turns := by
  induction turns with
  | zero => exact ⟨rfl, rfl⟩
  | succ turns ih =>
      obtain ⟨fate, clock⟩ := turn_calls (turn^[turns] progress)
      rw [Function.iterate_succ_apply', fate, clock, ih.1, ih.2]
      exact ⟨rfl, by omega⟩

/-- The read does not fail, and there is less left than it asks for. -/
def AtEnd (progress : Progress) : Prop :=
  progress.current.limit = none ∧
    progress.visible - progress.position + progress.current.supplied.length < kChunkSize

instance (progress : Progress) : Decidable progress.AtEnd :=
  inferInstanceAs (Decidable (_ ∧ _))

/-- When the loop is entered, after the header is written. -/
def start (target source : Path) (disk : Disk) : Progress :=
  (⟨disk.fate, source = target, disk.clock + 2, 0,
    if source = target then 0 else (disk.content source).length, 0⟩ : Progress).write kHeaderBytes

def of (streams : Streams) : Progress where
  fate := streams.disk.fate
  shared := streams.fs.path = streams.ft.path
  clock := streams.disk.clock
  position := streams.fs.pos
  visible := (streams.disk.content streams.fs.path).length
  waiting := streams.ft.pending.length

theorem length_read (streams : Streams) :
    (streams.read kChunkSize).1.length = (of streams).readable := by
  have same : (of streams).current = streams.disk.current := rfl
  unfold Streams.read Disk.fread readable Fate.handled
  rw [same]
  cases streams.disk.current.limit with
  | none => simp [of]
  | some limit => simp [of, Nat.min_comm]

theorem of_read (streams : Streams) : of (streams.read kChunkSize).2 = (of streams).read := by
  refine Progress.ext ?_ ?_ ?_ ?_ ?_ ?_
  · simp [of, read]
    rfl
  · simp [of, read]
  · simp [of, read]
    rfl
  · simp only [of, read, Streams.read_pos, length_read]
  · simp only [of, read, Streams.read_disk, Streams.read_path]
    rfl
  · rfl

theorem visible_write (streams : Streams) (bytes : Bytes) :
    ((streams.write bytes).disk.content streams.fs.path).length =
      (streams.disk.content streams.fs.path).length +
        if streams.disk.current.flush ∧ streams.fs.path = streams.ft.path then
          streams.ft.pending.length + streams.disk.current.handled bytes.length
        else 0 := by
  rw [Disk.content, Streams.write_files]
  cases streams.disk.current.flush with
  | false => rfl
  | true =>
      by_cases same : streams.fs.path = streams.ft.path
      · simp [same, Fate.transfer_length]
      · simp [same, Disk.content]

theorem of_write (streams : Streams) (bytes : Bytes) :
    of (streams.write bytes) = (of streams).write bytes.length := by
  have same : (of streams).current = streams.disk.current := rfl
  have visible := visible_write streams bytes
  have waiting := congrArg List.length (streams.write_pending bytes)
  unfold write
  rw [same]
  cases flush : streams.disk.current.flush with
  | false =>
      rw [flush] at visible waiting
      refine Progress.ext ?_ ?_ ?_ rfl ?_ ?_
      · simp [of]
      · simp [of]
      · simp [of]
      · simpa [of] using visible
      · simpa [of, Fate.transfer_length] using waiting
  | true =>
      rw [flush] at visible waiting
      refine Progress.ext ?_ ?_ ?_ rfl ?_ ?_
      · simp [of]
      · simp [of]
      · simp [of]
      · simpa [of] using visible
      · simpa [of] using waiting

end Progress

namespace Encrypting

variable {ss : SecretStream}

theorem progress_turn (adds : ss.AddsABytes) (state : Encrypting ss) :
    Progress.of state.turn.streams = (Progress.of state.streams).turn := by
  have pushed (st : ss.State) (tag : Byte) :
      (ss.push st (state.streams.read kChunkSize).1 tag).1.length =
        (Progress.of state.streams).readable + kABytes := by
    rw [adds, Progress.length_read]
  rw [Progress.turn, ← Progress.of_read, turn, ← pushed state.st, ← Progress.of_write]

theorem ended_turn (state : Encrypting ss) :
    state.turn.ended = (state.ended || decide (Progress.of state.streams).AtEnd) := by
  have eof := state.streams.read_eof kChunkSize
  rw [List.length_append, List.length_drop] at eof
  exact eof

/-- The loop has ended by some turn if one of the reads before was at the end. -/
theorem ended_iterate_iff (adds : ss.AddsABytes) (turns : Nat) {state : Encrypting ss}
    (unended : state.ended = false) :
    (turn^[turns] state).ended = true ↔
      ∃ before < turns, (Progress.turn^[before] (.of state.streams)).AtEnd := by
  have measured : ∀ count, Progress.of (turn^[count] state).streams =
      Progress.turn^[count] (.of state.streams) := by
    intro count
    exact Function.Semiconj.iterate_right (f := fun state : Encrypting ss =>
      Progress.of state.streams) (progress_turn adds) count state
  induction turns with
  | zero => simp [unended]
  | succ turns ih =>
      rw [Function.iterate_succ_apply', ended_turn, Bool.or_eq_true, decide_eq_true_eq, measured]
      refine (or_congr ih Iff.rfl).trans ?_
      constructor
      · intro either
        rcases either with ⟨before, earlier, atEnd⟩ | atEnd
        · exact ⟨before, by omega, atEnd⟩
        · exact ⟨turns, Nat.lt_succ_self _, atEnd⟩
      · intro given
        obtain ⟨before, earlier, atEnd⟩ := given
        rcases Nat.lt_succ_iff_lt_or_eq.mp earlier with earlier | rfl
        · exact .inl ⟨before, earlier, atEnd⟩
        · exact .inr atEnd

end Encrypting

/-- Some read of the loop reaches the end of the source. -/
def ReadsToEnd (target source : Path) (disk : Disk) : Prop :=
  ∃ turns, (Progress.turn^[turns] (.start target source disk)).AtEnd

theorem Progress.of_start {target source : Path} {disk : Disk} (opensTarget : disk.TargetOpens)
    (ss : SecretStream) (secret : StreamKey) (header : Header) :
    Progress.of (Encrypting.start ss target source secret header disk).streams =
      .start target source disk := by
  rw [Encrypting.start, of_write, header.size_eq, start]
  congr 1
  refine Progress.ext ?_ rfl ?_ rfl ?_ rfl
  · simp [of, Streams.opened, Disk.opening_eq]
  · simp [of, Streams.opened, Disk.opening_eq]
  · by_cases same : source = target
    · simp [of, Streams.opened, Disk.opening_eq, opensTarget, Disk.content, same]
    · simp [of, Streams.opened, Disk.opening_eq, opensTarget, Disk.content, same]

/-- Once both files are open, the call returns exactly if some read of its loop
reaches the end of the source. -/
theorem encryptFile_returns_iff {ss : SecretStream} (adds : ss.AddsABytes) {target source : Path}
    (secret : StreamKey) (protection : Protection) (header : Header) {disk : Disk}
    (opensSource : disk.SourceOpens source) (opensTarget : disk.TargetOpens) :
    (∃ fuel result, encryptFile ss fuel target source (.holding secret protection) header disk =
      .ok result) ↔ ReadsToEnd target source disk := by
  have unended : (Encrypting.start ss target source secret header disk).ended = false := rfl
  have ends : (∃ last, Ends Encrypting.turn Encrypting.ended
      (.start ss target source secret header disk) last) ↔ ReadsToEnd target source disk := by
    rw [exists_ends_iff, ReadsToEnd, ← Progress.of_start opensTarget ss secret header]
    constructor
    · intro given
      obtain ⟨turns, ended⟩ := given
      obtain ⟨before, _, atEnd⟩ := (Encrypting.ended_iterate_iff adds _ unended).mp ended
      exact ⟨before, atEnd⟩
    · intro given
      obtain ⟨turns, atEnd⟩ := given
      exact ⟨turns, (Encrypting.ended_iterate_iff adds _ unended).mpr
        ⟨turns, Nat.lt_succ_self turns, atEnd⟩⟩
  rw [← ends]
  constructor
  · intro given
    obtain ⟨fuel, result, ran⟩ := given
    obtain ⟨last, ended, _⟩ := (encryptFile_run_iff ⟨opensSource, opensTarget⟩).mp ⟨fuel, ran⟩
    exact ⟨last, ended⟩
  · intro given
    obtain ⟨last, ended⟩ := given
    obtain ⟨fuel, ran⟩ := (@encryptFile_run_iff _ _ _ _ protection _ _ _
      ⟨opensSource, opensTarget⟩).mpr ⟨last, ended, rfl⟩
    exact ⟨fuel, _, ran⟩

/-- `encryptFile` returns for exactly those streams that it cannot open, or of
which some read reaches the end. -/
theorem encryptFile_terminates_iff {ss : SecretStream} (adds : ss.AddsABytes)
    (target source : Path) (secret : StreamKey) (protection : Protection) (header : Header)
    (disk : Disk) :
    (∃ fuel returned key disk',
        encryptFile ss fuel target source (.holding secret protection) header disk =
          .ok (returned, key, disk') ∧
        (¬ReadsToEnd target source disk → returned = false)) ↔
      (disk.SourceOpens source ∧ disk.TargetOpens → ReadsToEnd target source disk) := by
  constructor
  · intro given known
    obtain ⟨fuel, returned, key, disk', ran, _⟩ := given
    obtain ⟨opensSource, opensTarget⟩ := known
    exact (encryptFile_returns_iff adds secret protection header opensSource opensTarget).mp
      ⟨fuel, _, ran⟩
  · intro reads
    by_cases opens : disk.SourceOpens source ∧ disk.TargetOpens
    · obtain ⟨fuel, ⟨returned, key, disk'⟩, ran⟩ :=
        (encryptFile_returns_iff adds secret protection header opens.1 opens.2).mpr (reads opens)
      exact ⟨fuel, returned, key, disk', ran, fun unread => absurd (reads opens) unread⟩
    · exact ⟨0, false, _, _, encryptFile_unopened ss 0 _ header opens, fun _ => rfl⟩

/-- A source of five bytes of which every second read fails after two bytes. -/
def shortReads : Disk where
  files := Function.update (fun _ => none) "source" (some [1, 2, 3, 4, 5])
  opened := 0
  clock := 0
  fate time := ⟨if time % 4 = 3 then some 2 else none, false, []⟩

theorem encryptFile_terminates_shortReads : ∃ fuel returned key disk',
    encryptFile plainStream fuel "target" "source" (.holding (.replicate 32 7) .noAccess)
        (.replicate 24 9) shortReads = .ok (returned, key, disk') ∧
      (¬ReadsToEnd "target" "source" shortReads → returned = false) :=
  (encryptFile_terminates_iff plainStream_adds _ _ _ _ _ _).mpr fun _ => ⟨1, by decide⟩

/-- A directory: it can be opened for reading, but every read fails. -/
def directorySource : Disk where
  files := Function.update (fun _ => none) "source" (some [])
  opened := 0
  clock := 0
  fate time := ⟨if 3 ≤ time ∧ time % 2 = 1 then some 0 else none, false, []⟩

theorem directorySource_unread : ¬ReadsToEnd "target" "source" directorySource := by
  intro given
  obtain ⟨turns, succeeds, _⟩ := given
  obtain ⟨fate, clock⟩ :=
    Progress.iterate_calls (.start "target" "source" directorySource) turns
  have started : (Progress.start "target" "source" directorySource).clock = 3 := rfl
  have odd : (3 + 2 * turns) % 2 = 1 := by omega
  have limited : (directorySource.fate (3 + 2 * turns)).limit = some 0 :=
    if_pos ⟨Nat.le_add_right 3 (2 * turns), odd⟩
  rw [Progress.current, fate, clock, started] at succeeds
  rw [show (directorySource.fate (3 + 2 * turns)).limit = none from succeeds] at limited
  contradiction

theorem directory_never_ends :
    ¬∀ (ss : SecretStream) (target source : Path) (secret : StreamKey) (protection : Protection)
      (header : Header) (disk : Disk), ss.AddsABytes →
      ∃ fuel returned key disk',
        encryptFile ss fuel target source (.holding secret protection) header disk =
          .ok (returned, key, disk') ∧
        (¬ReadsToEnd target source disk → returned = false) := by
  intro ends
  obtain ⟨fuel, returned, key, disk', ran, _⟩ := ends plainStream "target" "source"
    (.replicate 32 7) .noAccess (.replicate 24 9) directorySource plainStream_adds
  exact directorySource_unread ((encryptFile_returns_iff plainStream_adds _ _ _
    (by decide) (by decide)).mp ⟨fuel, _, ran⟩)

end Cscrypto.Cipher
