import Cscrypto.Cipher.Turns
import Mathlib.Data.List.Induction

namespace Cscrypto.Cipher

open Cscrypto.Data

/-! # The calls of a file operation, one by one

Reads and writes take turns, so that the fate of each of them can be told
before the operation starts.  What a read returns and what stays of the writes
is computed here from the disk before the call and from what is written.
-/

/-- What a read of `count` bytes returns of `bytes`, and whether it comes to
their end. -/
def Fate.read (fate : Fate) (bytes : Bytes) (count : Nat) : Bytes × Bool :=
  let available := bytes ++ fate.supplied
  match fate.limit with
  | none => (available.take count, decide (available.length < count))
  | some limit => (available.take (min count limit), false)

theorem Fate.read_of_none {fate : Fate} (succeeds : fate.limit = none)
    (nothing : fate.supplied = []) (bytes : Bytes) (count : Nat) :
    fate.read bytes count = (bytes.take count, decide (bytes.length < count)) := by
  simp only [read, succeeds, nothing, List.append_nil]

theorem Fate.read_length_le (fate : Fate) (bytes : Bytes) (count : Nat) :
    (fate.read bytes count).1.length ≤ count := by
  unfold read
  cases fate.limit with
  | none => exact List.length_take_le _ _
  | some limit => exact (List.length_take_le _ _).trans (Nat.min_le_left _ _)

/-- A read that comes to the end returns all there is. -/
theorem Fate.read_ended {fate : Fate} {bytes : Bytes} {count : Nat}
    (ended : (fate.read bytes count).2 = true) :
    (fate.read bytes count).1 = bytes ++ fate.supplied ∧
      (bytes ++ fate.supplied).length < count := by
  unfold read at ended ⊢
  cases limit : fate.limit with
  | none =>
      simp only [limit, decide_eq_true_eq] at ended ⊢
      exact ⟨List.take_of_length_le (Nat.le_of_lt ended), ended⟩
  | some _ =>
      simp only [limit] at ended
      contradiction

theorem Fate.read_prefix (fate : Fate) (bytes : Bytes) (count : Nat) :
    (fate.read bytes count).1 <+: bytes ++ fate.supplied := by
  unfold read
  cases fate.limit with
  | none => exact List.take_prefix _ _
  | some limit => exact List.take_prefix _ _

/-- What a file holds, and what waits in its stream. -/
structure Held where
  stored : Bytes
  waiting : Bytes

def Fate.write (fate : Fate) (held : Held) (bytes : Bytes) : Held :=
  if fate.flush then ⟨held.stored ++ (held.waiting ++ fate.transfer bytes), []⟩
  else ⟨held.stored, held.waiting ++ fate.transfer bytes⟩

/-- `fclose` writes out the rest. -/
def Fate.close (fate : Fate) (held : Held) : Bytes := held.stored ++ fate.transfer held.waiting

/-- The call takes all the bytes. -/
def Fate.Takes (fate : Fate) (bytes : Bytes) : Prop := fate.transfer bytes = bytes

namespace Disk

variable (disk : Disk) (target source : Path)

/-- What is in the target when `outputs` were written to the empty file, with
one read before each of them; `time` is that of the first read. -/
def writes (time : Nat) (outputs : List Bytes) : Held :=
  outputs.zipIdx.foldl
    (fun held output => (disk.fate (time + 1 + 2 * output.2)).write held output.1) ⟨[], []⟩

@[simp] theorem writes_nil (time : Nat) : disk.writes time [] = ⟨[], []⟩ := rfl

theorem writes_concat (time : Nat) (outputs : List Bytes) (bytes : Bytes) :
    disk.writes time (outputs ++ [bytes]) =
      (disk.fate (time + 1 + 2 * outputs.length)).write (disk.writes time outputs) bytes := by
  simp [writes, List.zipIdx_append]

/-- Each of the writes takes all its bytes. -/
def TakesAll (time : Nat) (outputs : List Bytes) : Prop :=
  ∀ index output, outputs[index]? = some output →
    (disk.fate (time + 1 + 2 * index)).Takes output

theorem takesAll_nil (time : Nat) : disk.TakesAll time [] := by
  intro index output found
  contradiction

theorem takesAll_concat (time : Nat) (outputs : List Bytes) (bytes : Bytes) :
    disk.TakesAll time (outputs ++ [bytes]) ↔
      disk.TakesAll time outputs ∧ (disk.fate (time + 1 + 2 * outputs.length)).Takes bytes := by
  constructor
  · intro all
    refine ⟨fun index output found => all index output ?_, all outputs.length bytes ?_⟩
    · rw [List.getElem?_append_left (List.getElem?_eq_some_iff.mp found).1, found]
    · rw [List.getElem?_concat_length]
  · intro given index output found
    obtain ⟨before, last⟩ := given
    by_cases earlier : index < outputs.length
    · rw [List.getElem?_append_left earlier] at found
      exact before index output found
    · obtain ⟨inside, _⟩ := List.getElem?_eq_some_iff.mp found
      rw [List.length_append, List.length_singleton] at inside
      have same : index = outputs.length := by omega
      subst same
      rw [List.getElem?_concat_length] at found
      cases found
      exact last

/-- Writes that take all their bytes keep them all. -/
theorem writes_flatten {time : Nat} {outputs : List Bytes} (takes : disk.TakesAll time outputs) :
    (disk.writes time outputs).stored ++ (disk.writes time outputs).waiting = outputs.flatten := by
  induction outputs using List.reverseRecOn with
  | nil => rfl
  | append_singleton front output ih =>
      obtain ⟨before, last⟩ := (disk.takesAll_concat time front output).mp takes
      have all : (disk.fate (time + 1 + 2 * front.length)).transfer output = output := last
      rw [writes_concat, Fate.write, all, List.flatten_append, List.flatten_singleton,
        ← ih before]
      split
      · rw [List.append_nil, List.append_assoc]
      · rw [List.append_assoc]

/-- What is in the source when `held` is in the target, which may be the same
file. -/
def seen (held : Held) : Bytes :=
  if source = target then held.stored else disk.content source

theorem seen_of_ne {target source : Path} (different : source ≠ target) (held : Held) :
    disk.seen target source held = disk.content source := if_neg different

/-- What the read after `outputs` returns, from `position` on. -/
def block (count time position : Nat) (outputs : List Bytes) : Bytes × Bool :=
  (disk.fate (time + 2 * outputs.length)).read
    ((disk.seen target source (disk.writes time outputs)).drop position) count

/-- A read of another file than the target returns what comes next in it, or
what is supplied behind it. -/
theorem block_prefix {target source : Path} (different : source ≠ target)
    (count time position : Nat) (outputs : List Bytes) :
    ∃ extra, (disk.block target source count time position outputs).1 <+:
      (disk.content source).drop position ++ extra := by
  rw [block, disk.seen_of_ne different]
  exact ⟨_, Fate.read_prefix _ _ _⟩

/-- The header that `decryptFile` gets, over what was on the stack. -/
def header (stack : Header) : Header :=
  headerOver stack (disk.block target source kHeaderBytes (disk.clock + 2) 0 []).1
    (Fate.read_length_le _ _ _)

end Disk

namespace Streams

/-- The streams at the time of a call, when `held` is in the target. -/
structure At (disk : Disk) (target source : Path) (time : Nat) (held : Held) (streams : Streams) :
    Prop where
  clock : streams.disk.clock = time
  fate : streams.disk.fate = disk.fate
  reads : streams.fs.path = source
  writes : streams.ft.path = target
  stored : streams.disk.files target = some held.stored
  waiting : streams.ft.pending = held.waiting
  others : ∀ path, path ≠ target → streams.disk.files path = disk.files path
  unwritten : streams.fs.pending = []

variable {disk : Disk} {target source : Path} {time : Nat} {held : Held} {streams : Streams}

theorem At.current (now : At disk target source time held streams) :
    streams.disk.current = disk.fate time := by
  rw [Disk.current, now.fate, now.clock]

theorem At.content (now : At disk target source time held streams) :
    streams.disk.content streams.fs.path = disk.seen target source held := by
  rw [now.reads, Disk.seen, Disk.content]
  by_cases same : source = target
  · rw [if_pos same, same, now.stored, Option.getD_some]
  · rw [if_neg same, now.others source same, Disk.content]

theorem At.opened (opens : disk.TargetOpens) :
    At disk target source (disk.clock + 2) ⟨[], []⟩ (.opened target source disk) := by
  refine ⟨?_, ?_, rfl, rfl, opened_emptied opens, rfl, ?_, rfl⟩
  · rw [Streams.opened, Disk.opening_eq]
  · rw [Streams.opened, Disk.opening_eq]
  · intro path different
    rw [Streams.opened, Disk.opening_eq]
    dsimp only
    rw [if_pos opens, Function.update_of_ne different]

theorem read_fst (streams : Streams) (count : Nat) : (streams.read count).1 =
    (streams.disk.current.read
      ((streams.disk.content streams.fs.path).drop streams.fs.pos) count).1 := by
  unfold read Disk.fread Fate.read
  cases streams.disk.current.limit <;> rfl

theorem read_ended (streams : Streams) (count : Nat) : (streams.read count).2.fs.eof =
    (streams.fs.eof || (streams.disk.current.read
      ((streams.disk.content streams.fs.path).drop streams.fs.pos) count).2) := by
  rw [read_eof]
  unfold Fate.read
  cases streams.disk.current.limit with
  | none => simp
  | some limit => simp

theorem At.read (now : At disk target source time held streams) (count : Nat) :
    At disk target source (time + 1) held (streams.read count).2 := by
  refine ⟨?_, ?_, ?_, now.writes, ?_, now.waiting, ?_, ?_⟩
  · rw [read_disk, Disk.tick, now.clock]
  · rw [read_disk]
    exact now.fate
  · rw [read_path, now.reads]
  · rw [read_disk]
    exact now.stored
  · rw [read_disk]
    exact now.others
  · rw [read_unwritten, now.unwritten]

theorem At.write (now : At disk target source time held streams) (bytes : Bytes) :
    At disk target source (time + 1) ((disk.fate time).write held bytes) (streams.write bytes) := by
  have content : streams.disk.content target = held.stored :=
    congrArg (Option.getD · []) now.stored
  refine ⟨?_, ?_, now.reads, ?_, ?_, ?_, ?_, now.unwritten⟩
  · rw [write_clock, now.clock]
  · rw [write_fate, now.fate]
  · rw [write_path, now.writes]
  · rw [write_files, now.current, now.writes, content, now.waiting, Fate.write]
    cases (disk.fate time).flush with
    | true => exact Function.update_self _ _ _
    | false => exact now.stored
  · rw [write_pending, now.current, now.waiting, Fate.write]
    cases (disk.fate time).flush <;> rfl
  · intro path different
    rw [write_files, now.writes]
    split
    · rw [Function.update_of_ne different, now.others path different]
    · exact now.others path different

/-- The source is closed first. -/
theorem At.closing (now : At disk target source time held streams) :
    streams.closing.current = disk.fate (time + 1) := by
  have clock : streams.closing.clock = streams.disk.clock + 1 := by
    rw [Streams.closing, Disk.fclose, now.unwritten, if_pos rfl]
    rfl
  rw [Disk.current, clock, Streams.closing, Disk.fclose_fate, now.fate, now.clock]

theorem At.close (now : At disk target source time held streams) :
    streams.close.files target = some ((disk.fate (time + 1)).close held) := by
  have stored : streams.closing.files target = some held.stored := by
    rw [Streams.closing, Disk.fclose_files_of_unwritten now.unwritten, now.stored]
  have content : ({ streams.closing.tick with opened := streams.closing.opened - 1 } :
      Disk).content target = held.stored := congrArg (Option.getD · []) stored
  rw [Streams.close, Disk.fclose, now.closing, now.waiting, now.writes, Fate.close]
  dsimp only
  split
  · rename_i empty
    rw [empty, Fate.transfer_nil, List.append_nil]
    exact stored
  · rw [Disk.store, content]
    exact Function.update_self _ _ _

theorem At.flushes_iff (now : At disk target source time held streams) :
    streams.Flushes ↔ (disk.fate (time + 1)).Takes held.waiting := by
  rw [Flushes, Fate.Takes, now.waiting, now.closing]

end Streams

theorem headerRead_eq {disk : Disk} {target source : Path} (opens : disk.TargetOpens)
    (stack : Header) : headerRead target source stack disk = disk.header target source stack := by
  have read := (Streams.opened target source disk).read_fst kHeaderBytes
  have now := @Streams.At.opened disk target source opens
  rw [now.current, now.content] at read
  unfold headerRead Disk.header
  congr 1

end Cscrypto.Cipher
