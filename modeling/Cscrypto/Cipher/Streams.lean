import Cscrypto.Cipher.Stdio
import Mathlib.Order.MinMax

namespace Cscrypto.Cipher

/-! # The two streams of a file operation

Source and target with the disk, for streams of every behaviour.  The state
also keeps what was given to `fwrite` and what `fwrite` took of it.
-/

structure Streams where
  fs : FILE
  ft : FILE
  disk : Disk
  given : Bytes
  taken : Bytes

namespace Streams

def read (streams : Streams) (count : Nat) : Bytes × Streams :=
  let (bytes, fs, disk) := streams.disk.fread streams.fs count
  (bytes, { streams with fs, disk })

def write (streams : Streams) (bytes : Bytes) : Streams :=
  let (count, ft, disk) := streams.disk.fwrite streams.ft bytes
  { streams with
    ft, disk
    given := streams.given ++ bytes
    taken := streams.taken ++ bytes.take count }

/-- The target is closed last. -/
def closing (streams : Streams) : Disk := (streams.disk.fclose streams.fs).2

def close (streams : Streams) : Disk := (streams.closing.fclose streams.ft).2

/-- The next `fwrite` takes all the bytes. -/
def Takes (streams : Streams) (bytes : Bytes) : Prop :=
  streams.disk.current.transfer bytes = bytes

/-- `fclose` writes out all that waits in the target. -/
def Flushes (streams : Streams) : Prop :=
  streams.closing.current.transfer streams.ft.pending = streams.ft.pending

/-- No `fwrite` took less than it was given, and `fclose` loses nothing. -/
def Lossless (streams : Streams) : Prop := streams.taken = streams.given ∧ streams.Flushes

/-- The target holds what `fwrite` took, in its file or in its stream. -/
structure Accounts (target : Path) (streams : Streams) : Prop where
  path : streams.ft.path = target
  short : streams.taken.length ≤ streams.given.length
  unwritten : streams.fs.pending = []
  held : ∃ stored, streams.disk.files target = some stored ∧
    stored ++ streams.ft.pending = streams.taken

variable {target : Path} {streams : Streams}

theorem read_eof (streams : Streams) (count : Nat) :
    (streams.read count).2.fs.eof = (streams.fs.eof || decide
      (streams.disk.current.limit = none ∧
        ((streams.disk.content streams.fs.path).drop streams.fs.pos ++
          streams.disk.current.supplied).length < count)) := by
  unfold read Disk.fread
  cases streams.disk.current.limit with
  | none => simp
  | some limit => simp

@[simp] theorem read_ft (streams : Streams) (count : Nat) :
    (streams.read count).2.ft = streams.ft := rfl

@[simp] theorem read_disk (streams : Streams) (count : Nat) :
    (streams.read count).2.disk = streams.disk.tick := by
  unfold read Disk.fread
  cases streams.disk.current.limit <;> rfl

@[simp] theorem read_path (streams : Streams) (count : Nat) :
    (streams.read count).2.fs.path = streams.fs.path := by
  unfold read Disk.fread
  cases streams.disk.current.limit <;> rfl

@[simp] theorem read_unwritten (streams : Streams) (count : Nat) :
    (streams.read count).2.fs.pending = streams.fs.pending := by
  unfold read Disk.fread
  cases streams.disk.current.limit <;> rfl

theorem read_pos (streams : Streams) (count : Nat) :
    (streams.read count).2.fs.pos = streams.fs.pos + (streams.read count).1.length := by
  unfold read Disk.fread
  cases streams.disk.current.limit <;> rfl

@[simp] theorem write_fs (streams : Streams) (bytes : Bytes) :
    (streams.write bytes).fs = streams.fs := rfl

@[simp] theorem write_path (streams : Streams) (bytes : Bytes) :
    (streams.write bytes).ft.path = streams.ft.path := by
  unfold write Disk.fwrite
  cases streams.disk.current.flush <;> rfl

@[simp] theorem write_clock (streams : Streams) (bytes : Bytes) :
    (streams.write bytes).disk.clock = streams.disk.clock + 1 := by
  unfold write Disk.fwrite
  cases streams.disk.current.flush <;> rfl

@[simp] theorem write_fate (streams : Streams) (bytes : Bytes) :
    (streams.write bytes).disk.fate = streams.disk.fate := by
  unfold write Disk.fwrite
  cases streams.disk.current.flush <;> rfl

theorem write_given (streams : Streams) (bytes : Bytes) :
    (streams.write bytes).given = streams.given ++ bytes := rfl

theorem write_taken (streams : Streams) (bytes : Bytes) :
    (streams.write bytes).taken = streams.taken ++ streams.disk.current.transfer bytes := by
  rw [← Fate.take_transfer]
  unfold write Disk.fwrite
  cases streams.disk.current.flush <;> rfl

theorem write_pending (streams : Streams) (bytes : Bytes) :
    (streams.write bytes).ft.pending = if streams.disk.current.flush then []
      else streams.ft.pending ++ streams.disk.current.transfer bytes := by
  unfold write Disk.fwrite
  cases streams.disk.current.flush <;> rfl

theorem write_files (streams : Streams) (bytes : Bytes) :
    (streams.write bytes).disk.files = if streams.disk.current.flush then
        Function.update streams.disk.files streams.ft.path (some
          (streams.disk.content streams.ft.path ++
            (streams.ft.pending ++ streams.disk.current.transfer bytes)))
      else streams.disk.files := by
  unfold write Disk.fwrite
  cases streams.disk.current.flush <;> rfl

theorem Accounts.read (accounts : Accounts target streams) (count : Nat) :
    Accounts target (streams.read count).2 := by
  obtain ⟨path, short, unwritten, held⟩ := accounts
  refine ⟨path, short, by rw [read_unwritten, unwritten], ?_⟩
  rw [read_disk]
  exact held

theorem Accounts.write (accounts : Accounts target streams) (bytes : Bytes) :
    Accounts target (streams.write bytes) := by
  obtain ⟨path, short, unwritten, stored, found, held⟩ := accounts
  have content : streams.disk.content target = stored := congrArg (Option.getD · []) found
  have fewer := streams.disk.current.transfer_length_le bytes
  refine ⟨by rw [write_path, path], ?_, unwritten, ?_⟩
  · rw [write_taken, write_given, List.length_append, List.length_append]
    omega
  rw [write_pending, write_files, write_taken, path, content]
  cases streams.disk.current.flush with
  | true =>
      refine ⟨_, Function.update_self _ _ _, ?_⟩
      rw [if_pos rfl, List.append_nil, ← List.append_assoc, held]
  | false => exact ⟨stored, found, by rw [if_neg Bool.false_ne_true, ← List.append_assoc, held]⟩

/-- A write that takes less is never made up for. -/
theorem Accounts.write_taken_eq_iff (accounts : Accounts target streams) (bytes : Bytes) :
    (streams.write bytes).taken = (streams.write bytes).given ↔
      streams.taken = streams.given ∧ streams.Takes bytes := by
  rw [write_taken, write_given, Takes]
  constructor
  · intro same
    have short := accounts.short
    have fewer := streams.disk.current.transfer_length_le bytes
    have lengths := congrArg List.length same
    rw [List.length_append, List.length_append] at lengths
    exact List.append_inj same (by omega)
  · intro given
    obtain ⟨taken, takes⟩ := given
    rw [taken, takes]

/-- What `fwrite` took, without the end that `fclose` loses of it. -/
def left (streams : Streams) : Bytes :=
  streams.taken.take (streams.taken.length - (streams.ft.pending.length -
    (streams.closing.current.transfer streams.ft.pending).length))

theorem left_eq {stored : Bytes} (held : stored ++ streams.ft.pending = streams.taken) :
    streams.left = stored ++ streams.closing.current.transfer streams.ft.pending := by
  have fewer := streams.closing.current.transfer_length_le streams.ft.pending
  have count : streams.taken.length - (streams.ft.pending.length -
      (streams.closing.current.transfer streams.ft.pending).length) =
        stored.length + (streams.closing.current.transfer streams.ft.pending).length := by
    rw [← held, List.length_append]
    omega
  rw [left, count, ← held, List.take_length_add_append, Fate.take_transfer]

theorem Accounts.close (accounts : Accounts target streams) :
    streams.close.files target = some streams.left := by
  obtain ⟨path, _, unwritten, stored, found, held⟩ := accounts
  rw [left_eq held]
  have kept : streams.closing.files = streams.disk.files :=
    Disk.fclose_files_of_unwritten unwritten
  unfold Streams.close Disk.fclose
  dsimp only
  split
  · rename_i empty
    have nothing : streams.closing.current.transfer streams.ft.pending = [] := by
      rw [empty, Fate.transfer_nil]
    rw [nothing, List.append_nil]
    exact (congrFun kept target).trans found
  · have content : ({ streams.closing.tick with opened := streams.closing.opened - 1 } :
        Disk).content target = stored :=
      congrArg (Option.getD · []) ((congrFun kept target).trans found)
    simp only [Disk.store, path, Function.update_self]
    exact congrArg (fun stored => some (stored ++ _)) content

theorem Accounts.close_lossless (accounts : Accounts target streams) (lossless : streams.Lossless) :
    streams.close.files target = some streams.given := by
  obtain ⟨stored, _, held⟩ := accounts.held
  rw [accounts.close, left_eq held, lossless.2, held, lossless.1]

theorem close_opened (streams : Streams) : streams.close.opened = streams.disk.opened - 2 := by
  rw [close, Disk.fclose_opened, closing, Disk.fclose_opened, Nat.sub_sub]

@[simp] theorem write_opened (streams : Streams) (bytes : Bytes) :
    (streams.write bytes).disk.opened = streams.disk.opened := by
  unfold write Disk.fwrite
  cases streams.disk.current.flush <;> rfl

end Streams

def Disk.SourceOpens (disk : Disk) (source : Path) : Prop :=
  disk.current.limit = none ∧ (disk.files source).isSome = true

/-- The target is opened after the source, whether that was possible or not. -/
def Disk.TargetOpens (disk : Disk) : Prop := disk.tick.current.limit = none

instance (disk : Disk) (source : Path) : Decidable (disk.SourceOpens source) :=
  inferInstanceAs (Decidable (_ ∧ _))

instance (disk : Disk) : Decidable disk.TargetOpens :=
  inferInstanceAs (Decidable (disk.tick.current.limit = none))

/-- The disk after the two calls of `fopen`. -/
def Disk.opening (disk : Disk) (target source : Path) : Disk :=
  ((disk.fopenRead source).2.fopenWrite target).2

theorem Disk.fopenRead_eq (disk : Disk) (source : Path) :
    disk.fopenRead source = (if disk.SourceOpens source then some ⟨source, 0, false, []⟩ else none,
      { disk.tick with
        opened := disk.opened + if disk.SourceOpens source then 1 else 0 }) := by
  by_cases opens : disk.SourceOpens source
  · rw [fopenRead, if_pos (show _ ∧ _ from opens), if_pos opens, if_pos opens]
  · rw [fopenRead, if_neg (show ¬(_ ∧ _) from opens), if_neg opens, if_neg opens]
    rfl

theorem Disk.fopenWrite_eq (disk : Disk) (target : Path) :
    disk.fopenWrite target =
      (if disk.current.limit = none then some ⟨target, 0, false, []⟩ else none, { disk.tick with
        opened := disk.opened + if disk.current.limit = none then 1 else 0
        files := if disk.current.limit = none then Function.update disk.files target (some [])
          else disk.files }) := by
  by_cases opens : disk.current.limit = none
  · rw [fopenWrite, if_pos opens, if_pos opens, if_pos opens, if_pos opens]
  · rw [fopenWrite, if_neg opens, if_neg opens, if_neg opens, if_neg opens]
    rfl

theorem Disk.opening_eq (disk : Disk) (target source : Path) :
    disk.opening target source = { disk with
      clock := disk.clock + 2
      opened := (disk.opened + if disk.SourceOpens source then 1 else 0) +
        if disk.TargetOpens then 1 else 0
      files := if disk.TargetOpens then Function.update disk.files target (some [])
        else disk.files } := by
  rw [opening, fopenRead_eq, fopenWrite_eq]
  rfl

theorem Disk.opening_opened {disk : Disk} {target source : Path}
    (opensSource : disk.SourceOpens source) (opensTarget : disk.TargetOpens) :
    (disk.opening target source).opened = disk.opened + 2 := by
  simp only [opening_eq, if_pos opensSource, if_pos opensTarget]

theorem Disk.opening_both {disk : Disk} {target source : Path}
    (opensSource : disk.SourceOpens source) (opensTarget : disk.TargetOpens) :
    (disk.fopenRead source).1 = some ⟨source, 0, false, []⟩ ∧
      (disk.fopenRead source).2.fopenWrite target =
        (some ⟨target, 0, false, []⟩, disk.opening target source) := by
  constructor
  · rw [fopenRead_eq, if_pos opensSource]
  · refine Prod.ext ?_ rfl
    rw [fopenWrite_eq, fopenRead_eq]
    exact if_pos opensTarget

theorem Disk.opening_not_both {disk : Disk} {target source : Path}
    (unopened : ¬(disk.SourceOpens source ∧ disk.TargetOpens)) :
    (disk.fopenRead source).1 = none ∨ ((disk.fopenRead source).2.fopenWrite target).1 = none := by
  rcases not_and_or.mp unopened with failed | failed
  · left
    rw [fopenRead_eq, if_neg failed]
  · right
    rw [fopenWrite_eq, fopenRead_eq]
    exact if_neg failed

def Streams.opened (target source : Path) (disk : Disk) : Streams where
  fs := ⟨source, 0, false, []⟩
  ft := ⟨target, 0, false, []⟩
  disk := disk.opening target source
  given := []
  taken := []

theorem Streams.opened_emptied {target source : Path} {disk : Disk} (opens : disk.TargetOpens) :
    (Streams.opened target source disk).disk.files target = some [] := by
  rw [opened, Disk.opening_eq, if_pos opens]
  exact Function.update_self _ _ _

theorem Streams.opened_accounts {target source : Path} {disk : Disk} (opens : disk.TargetOpens) :
    Streams.Accounts target (.opened target source disk) :=
  ⟨rfl, Nat.le_refl _, rfl, [], opened_emptied opens, rfl⟩

namespace Streams

variable {streams : Streams}

theorem read_reliable (reliable : streams.disk.Reliable) (count : Nat) :
    (streams.read count).2.disk.Reliable := by
  rw [read_disk]
  exact reliable

theorem write_reliable (reliable : streams.disk.Reliable) (bytes : Bytes) :
    (streams.write bytes).disk.Reliable := by
  intro time
  rw [write_fate]
  exact reliable time

theorem write_taken_of_reliable (reliable : streams.disk.Reliable)
    (taken : streams.taken = streams.given) (bytes : Bytes) :
    (streams.write bytes).taken = (streams.write bytes).given := by
  have succeeds : streams.disk.current.limit = none := (reliable streams.disk.clock).1
  rw [write_taken, write_given, taken, Fate.transfer_of_none succeeds]

theorem flushes_of_reliable (reliable : streams.disk.Reliable) : streams.Flushes := by
  apply Fate.transfer_of_none
  rw [Disk.current, closing, Disk.fclose_fate]
  exact (reliable _).1

theorem read_empty (reliable : streams.disk.Reliable)
    (empty : streams.disk.content streams.fs.path = []) (count : Nat) :
    (streams.read count).1 = [] := by
  have nothing : streams.disk.current.supplied = [] := (reliable streams.disk.clock).2
  unfold read Disk.fread
  rw [empty, List.drop_nil, nothing, List.append_nil]
  cases streams.disk.current.limit <;> simp

theorem opened_reliable {target source : Path} {disk : Disk} (reliable : disk.Reliable) :
    (Streams.opened target source disk).disk.Reliable := by
  intro time
  rw [opened, Disk.opening_eq]
  exact reliable time

/-- A read of a source that is shorter than the buffer. -/
theorem read_short (reliable : streams.disk.Reliable) (first : streams.fs.pos = 0)
    {content : Bytes} (stored : streams.disk.files streams.fs.path = some content) {count : Nat}
    (short : content.length < count) :
    (streams.read count).1 = content ∧ (streams.read count).2.fs.eof = true := by
  obtain ⟨fs, read, _, _, _, eof⟩ := Disk.fread_piece streams.fs count reliable stored
    (by rw [first, List.drop_zero, List.append_nil]) (.inr ⟨short, rfl⟩)
  rw [decide_eq_true short, Bool.or_true] at eof
  rw [Streams.read, read]
  exact ⟨rfl, eof⟩

end Streams

theorem Disk.Reliable.opens {disk : Disk} (reliable : disk.Reliable) {path : Path}
    {content : Bytes} (stored : disk.files path = some content) :
    disk.SourceOpens path ∧ disk.TargetOpens :=
  ⟨⟨(reliable _).1, by rw [stored]; rfl⟩, (reliable _).1⟩

end Cscrypto.Cipher
