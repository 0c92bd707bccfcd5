import Cscrypto.Core.Types
import Mathlib.Logic.Function.Basic

namespace Cscrypto.Cipher

/-! # The C library's files

A disk maps paths to contents.  `fate` decides, call by call, whether an
operation succeeds and whether the library writes its buffer out during it, so
that every pattern of failures and every buffering policy is some `fate`.
Written bytes wait in the stream until they are flushed; `fclose` flushes what
is left.
-/

abbrev Path := String

/-- What becomes of one call: with a `limit` it stops after that many bytes
and reports an error.  A read is `supplied` with more bytes behind the stored
ones when its source is a device or grows meanwhile. -/
structure Fate where
  limit : Option Nat
  flush : Bool
  supplied : Bytes
deriving DecidableEq, Repr

def Fate.transfer (fate : Fate) (bytes : Bytes) : Bytes :=
  match fate.limit with
  | none => bytes
  | some limit => bytes.take limit

theorem Fate.transfer_of_none {fate : Fate} (succeeds : fate.limit = none) (bytes : Bytes) :
    fate.transfer bytes = bytes := by
  simp only [transfer, succeeds]

@[simp] theorem Fate.transfer_nil (fate : Fate) : fate.transfer [] = [] := by
  unfold transfer
  split <;> simp

/-- A call handles a beginning of its bytes. -/
theorem Fate.take_transfer (fate : Fate) (bytes : Bytes) :
    bytes.take (fate.transfer bytes).length = fate.transfer bytes := by
  unfold transfer
  split
  · exact List.take_length
  · rename_i limit _
    rw [List.length_take, List.take_eq_take_iff]
    omega

theorem Fate.transfer_length_le (fate : Fate) (bytes : Bytes) :
    (fate.transfer bytes).length ≤ bytes.length := by
  rw [← take_transfer]
  exact List.length_take_le' _ _

structure Disk where
  files : Path → Option Bytes
  opened : Nat
  clock : Nat
  fate : Nat → Fate

/-- An open stream: the read position, the end-of-file indicator and the
bytes written but not yet flushed. -/
structure FILE where
  path : Path
  pos : Nat
  eof : Bool
  pending : Bytes
deriving DecidableEq, Repr

namespace Disk

def current (disk : Disk) : Fate := disk.fate disk.clock

def tick (disk : Disk) : Disk := { disk with clock := disk.clock + 1 }

def fopenRead (disk : Disk) (path : Path) : Option FILE × Disk :=
  if disk.current.limit = none ∧ (disk.files path).isSome then
    (some ⟨path, 0, false, []⟩, { disk.tick with opened := disk.opened + 1 })
  else (none, disk.tick)

/-- `fopen(path, "wb")` creates or truncates the file. -/
def fopenWrite (disk : Disk) (path : Path) : Option FILE × Disk :=
  if disk.current.limit = none then
    (some ⟨path, 0, false, []⟩, { disk.tick with
      opened := disk.opened + 1
      files := Function.update disk.files path (some []) })
  else (none, disk.tick)

def content (disk : Disk) (path : Path) : Bytes := (disk.files path).getD []

/-- `fread(buffer, 1, count, file)`. Only a read that reaches the end of the
file sets its end-of-file indicator; an error does not. -/
def fread (disk : Disk) (file : FILE) (count : Nat) : Bytes × FILE × Disk :=
  let available := (disk.content file.path).drop file.pos ++ disk.current.supplied
  match disk.current.limit with
  | none =>
      let bytes := available.take count
      (bytes, { file with
        pos := file.pos + bytes.length
        eof := file.eof || decide (bytes.length < count) }, disk.tick)
  | some limit =>
      let bytes := available.take (min count limit)
      (bytes, { file with pos := file.pos + bytes.length }, disk.tick)

def store (disk : Disk) (path : Path) (bytes : Bytes) : Disk :=
  { disk with files := Function.update disk.files path (some (disk.content path ++ bytes)) }

def fwrite (disk : Disk) (file : FILE) (bytes : Bytes) : Nat × FILE × Disk :=
  let accepted := disk.current.transfer bytes
  if disk.current.flush then
    (accepted.length, { file with pending := [] },
      disk.tick.store file.path (file.pending ++ accepted))
  else (accepted.length, { file with pending := file.pending ++ accepted }, disk.tick)

/-- `fclose(file)`; with a `limit` the rest of the buffer is lost. -/
def fclose (disk : Disk) (file : FILE) : Bool × Disk :=
  let closed := { disk.tick with opened := disk.opened - 1 }
  (disk.current.limit.isNone,
    if file.pending = [] then closed
    else closed.store file.path (disk.current.transfer file.pending))

/-- No call fails, and the sources are what is stored of them. -/
def Reliable (disk : Disk) : Prop :=
  ∀ time, (disk.fate time).limit = none ∧ (disk.fate time).supplied = []

end Disk

/-- A stretch of calls appended `output` to the stream `file` and changed no
other file. -/
structure Wrote (file : FILE) (before : Disk) (output : Bytes) (file' : FILE) (after : Disk) :
    Prop where
  path : file'.path = file.path
  others : ∀ path, path ≠ file.path → after.files path = before.files path
  content : ∃ stored stored', before.files file.path = some stored ∧
    after.files file.path = some stored' ∧
    stored' ++ file'.pending = stored ++ file.pending ++ output
  opened : after.opened = before.opened
  fate : after.fate = before.fate

namespace Wrote

theorem trans {file middleFile lastFile : FILE} {before middle after : Disk} {first second : Bytes}
    (left : Wrote file before first middleFile middle)
    (right : Wrote middleFile middle second lastFile after) :
    Wrote file before (first ++ second) lastFile after where
  path := right.path.trans left.path
  others := by
    intro path different
    rw [right.others path (by rwa [left.path]), left.others path different]
  content := by
    obtain ⟨stored, between, found, kept, wrote⟩ := left.content
    obtain ⟨again, stored', found', kept', wrote'⟩ := right.content
    rw [left.path, kept] at found'
    cases found'
    refine ⟨stored, stored', found, by rwa [left.path] at kept', ?_⟩
    rw [wrote', wrote, List.append_assoc]
  opened := right.opened.trans left.opened
  fate := right.fate.trans left.fate

theorem reliable {file file' : FILE} {before after : Disk} {output : Bytes}
    (wrote : Wrote file before output file' after) (reliable : before.Reliable) :
    after.Reliable := by
  intro time
  rw [wrote.fate]
  exact reliable time

theorem tick {disk : Disk} {file : FILE} (found : disk.files file.path = some stored) :
    Wrote file disk [] file disk.tick :=
  ⟨rfl, fun _ _ => rfl, ⟨stored, stored, found, found, (List.append_nil _).symm⟩, rfl, rfl⟩

theorem fwrite {disk : Disk} {file : FILE} (reliable : disk.Reliable) (bytes : Bytes)
    (found : disk.files file.path = some stored) :
    Wrote file disk bytes (disk.fwrite file bytes).2.1 (disk.fwrite file bytes).2.2 := by
  have accepted : disk.current.transfer bytes = bytes :=
    Fate.transfer_of_none (reliable disk.clock).1 bytes
  have content : disk.tick.content file.path = stored := congrArg (Option.getD · []) found
  simp only [Disk.fwrite, accepted]
  split
  · refine ⟨rfl, ?_, ⟨stored, stored ++ (file.pending ++ bytes), found, ?_, ?_⟩, rfl, rfl⟩
    · intro path different
      exact Function.update_of_ne different _ _
    · simp only [Disk.store, content, Function.update_self]
    · rw [List.append_nil, List.append_assoc]
  · exact ⟨rfl, fun _ _ => rfl, ⟨stored, stored, found, found, (List.append_assoc _ _ _).symm⟩,
      rfl, rfl⟩

theorem stored {file file' : FILE} {before after : Disk} {output stored : Bytes}
    (wrote : Wrote file before output file' after) (found : before.files file.path = some stored) :
    ∃ stored', after.files file'.path = some stored' ∧
      stored' ++ file'.pending = stored ++ file.pending ++ output := by
  obtain ⟨_, stored', same, kept, complete⟩ := wrote.content
  rw [found] at same
  cases same
  exact ⟨stored', by rw [wrote.path, kept], complete⟩

end Wrote

/-- A reliable read delivers the next piece of the source and sets the
end-of-file indicator exactly when the piece is short. -/
theorem Disk.fread_piece {disk : Disk} (file : FILE) {content piece rest : Bytes} (count : Nat)
    (reliable : disk.Reliable) (stored : disk.files file.path = some content)
    (remaining : content.drop file.pos = piece ++ rest)
    (cut : piece.length = count ∨ (piece.length < count ∧ rest = [])) :
    ∃ file', disk.fread file count = (piece, file', disk.tick) ∧
      file'.path = file.path ∧ file'.pending = file.pending ∧ content.drop file'.pos = rest ∧
      file'.eof = (file.eof || decide (piece.length < count)) := by
  have accepted : disk.current.limit = none := (reliable disk.clock).1
  have nothing : disk.current.supplied = [] := (reliable disk.clock).2
  have available :
      (disk.content file.path).drop file.pos ++ disk.current.supplied = piece ++ rest := by
    rw [nothing, List.append_nil, Disk.content, stored, Option.getD_some, remaining]
  have taken : (piece ++ rest).take count = piece := by
    rcases cut with full | ⟨short, empty⟩
    · rw [← full, List.take_left]
    · rw [empty, List.append_nil, List.take_of_length_le (Nat.le_of_lt short)]
  refine ⟨{ file with
    pos := file.pos + piece.length
    eof := file.eof || decide (piece.length < count) }, ?_, rfl, rfl, ?_, rfl⟩
  · simp only [Disk.fread, accepted, available, taken]
  · rw [← List.drop_drop, remaining, List.drop_left]

theorem Disk.fclose_written {disk : Disk} {file : FILE} {stored : Bytes} (reliable : disk.Reliable)
    (found : disk.files file.path = some stored) :
    (disk.fclose file).2.files file.path = some (stored ++ file.pending) ∧
      ∀ path, path ≠ file.path → (disk.fclose file).2.files path = disk.files path := by
  have accepted : disk.current.transfer file.pending = file.pending :=
    Fate.transfer_of_none (reliable disk.clock).1 file.pending
  have content : ({ disk.tick with opened := disk.opened - 1 } : Disk).content file.path = stored :=
    congrArg (Option.getD · []) found
  simp only [Disk.fclose, accepted]
  split
  · rename_i empty
    rw [empty, List.append_nil]
    exact ⟨found, fun _ _ => rfl⟩
  · simp only [Disk.store, content, Function.update_self, true_and]
    exact fun path different => Function.update_of_ne different _ _

theorem Disk.fclose_files_of_unwritten {disk : Disk} {file : FILE} (unwritten : file.pending = []) :
    (disk.fclose file).2.files = disk.files := by
  simp only [Disk.fclose, unwritten, if_true]
  rfl

theorem Disk.fclose_fate (disk : Disk) (file : FILE) : (disk.fclose file).2.fate = disk.fate := by
  simp only [Disk.fclose]
  split <;> rfl

theorem Disk.fclose_opened (disk : Disk) (file : FILE) :
    (disk.fclose file).2.opened = disk.opened - 1 := by
  simp only [Disk.fclose]
  split <;> rfl

end Cscrypto.Cipher
