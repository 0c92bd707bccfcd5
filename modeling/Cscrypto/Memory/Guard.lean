import Cscrypto.Core.Types

namespace Cscrypto

/-! # Guarded memory

A `MemGuard` is the only owner of its block, so it is modelled by the block
itself: the bytes behind `mem_` and the page protection that the last
`sodium_mprotect_*` call left.  Every access checks the protection first, as
the memory management unit does.
-/

inductive Protection where
  | readWrite
  | readOnly
  | noAccess
deriving DecidableEq, Repr

structure Block (size : Nat) where
  content : ByteArray size
  protection : Protection
deriving DecidableEq, Repr

/-- `MemGuard<Byte, size>`; `none` is the null pointer of a cleared or
moved-from guard. -/
structure MemGuard (size : Nat) where
  mem : Option (Block size)
deriving DecidableEq, Repr

namespace MemGuard

/-- The constructor. `sodium_malloc` fills the new block with `0xdb`. -/
def new (size : Nat) : MemGuard size := ⟨some ⟨ByteArray.replicate size 0xdb, .readWrite⟩⟩

def clear (_ : MemGuard size) : MemGuard size := ⟨none⟩

/-- `sodium_mprotect_readwrite`, `_readonly` and `_noaccess`. A null pointer
makes libsodium call `sodium_misuse`, which aborts. -/
def mprotect (guard : MemGuard size) (protection : Protection) : Except Fault (MemGuard size) :=
  match guard.mem with
  | some block => .ok ⟨some { block with protection }⟩
  | none => .error .misuse

def read (guard : MemGuard size) : Except Fault (ByteArray size) :=
  match guard.mem with
  | some ⟨content, .readWrite⟩ => .ok content
  | some ⟨content, .readOnly⟩ => .ok content
  | _ => .error .accessViolation

def write (guard : MemGuard size) (content : ByteArray size) : Except Fault (MemGuard size) :=
  match guard.mem with
  | some ⟨_, .readWrite⟩ => .ok ⟨some ⟨content, .readWrite⟩⟩
  | _ => .error .accessViolation

def holding (content : ByteArray size) (protection : Protection) : MemGuard size :=
  ⟨some ⟨content, protection⟩⟩

@[simp] theorem new_eq_holding :
    new size = holding (ByteArray.replicate size 0xdb) .readWrite := rfl

@[simp] theorem mprotect_holding (content : ByteArray size) (before after : Protection) :
    (holding content before).mprotect after = .ok (holding content after) := rfl

@[simp] theorem read_readWrite (content : ByteArray size) :
    (holding content .readWrite).read = .ok content := rfl

@[simp] theorem read_readOnly (content : ByteArray size) :
    (holding content .readOnly).read = .ok content := rfl

@[simp] theorem write_readWrite (before after : ByteArray size) :
    (holding before .readWrite).write after = .ok (holding after .readWrite) := rfl

theorem eq_of_write {guard written : MemGuard size} {content : ByteArray size}
    (ran : guard.write content = .ok written) : written = holding content .readWrite := by
  unfold write at ran
  split at ran
  · cases ran
    rfl
  · contradiction

end MemGuard

end Cscrypto
