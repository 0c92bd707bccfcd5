import Cscrypto.Data.Run
import Cscrypto.Data.Store
import Cscrypto.Keys.Derivation

namespace Cscrypto

open Cscrypto.Data

/-! # Private keys in memory

The objects of the class `PrivateKey` with the blocks and counters that they
point to.  A block or counter that was freed is an empty cell of its store, and
using it is an access violation.
-/

abbrev KeyBlock := Block kPrivateKeySize

/-- The members of a `PrivateKey`: the addresses of the key block, which can be
null, and of the counter. -/
structure Handle where
  mem : Option Nat
  ctr : Nat
deriving DecidableEq

/-- A key that was made, with the block and the counter made for it. -/
structure Made where
  block : Nat
  ctr : Nat
  content : SecretKey

/-- `guards` holds the live access guards with the blocks they were opened on.
`made` is the history of the keys. -/
structure Heap where
  blocks : Store KeyBlock
  counters : Store UInt32
  handles : Store Handle
  guards : Store Nat
  made : List Made

namespace Heap

def empty : Heap := ⟨.empty, .empty, .empty, .empty, []⟩

/-- `sodium_malloc(kPrivateKeySize)`. -/
def sodiumMalloc (heap : Heap) : Nat × Heap :=
  (heap.blocks.fresh,
    { heap with blocks := heap.blocks.alloc ⟨.replicate _ 0xdb, .readWrite⟩ })

/-- `sodium_free`, which ignores a null pointer. -/
def sodiumFree (heap : Heap) : Option Nat → Except Fault Heap
  | none => .ok heap
  | some block =>
      match heap.blocks.find block with
      | none => .error .accessViolation
      | some _ => .ok { heap with blocks := heap.blocks.free block }

def mprotect (heap : Heap) (protection : Protection) : Option Nat → Except Fault Heap
  | none => .error .misuse
  | some block =>
      match heap.blocks.find block with
      | none => .error .accessViolation
      | some found =>
          .ok { heap with blocks := heap.blocks.set block { found with protection } }

def memcpy (heap : Heap) (block : Nat) (content : SecretKey) : Except Fault Heap :=
  match heap.blocks.find block with
  | some ⟨_, .readWrite⟩ =>
      .ok { heap with blocks := heap.blocks.set block ⟨content, .readWrite⟩ }
  | _ => .error .accessViolation

/-- `PrivateKey()`: the address of the new object. -/
def construct (heap : Heap) : Nat × Heap :=
  (heap.handles.fresh, { heap with
    counters := heap.counters.alloc 1
    handles := heap.handles.alloc ⟨none, heap.counters.fresh⟩ })

def increment (heap : Heap) (ctr : Nat) : Except Fault Heap :=
  match heap.counters.find ctr with
  | none => .error .accessViolation
  | some count => .ok { heap with counters := heap.counters.set ctr (count + 1) }

/-- `if (!(--(*ctr_))) { sodium_free(mem_); delete ctr_; }` -/
def clear (heap : Heap) (own : Handle) : Except Fault Heap :=
  match heap.counters.find own.ctr with
  | none => .error .accessViolation
  | some count =>
      if count - 1 = 0 then do
        let heap ← heap.sodiumFree own.mem
        return { heap with counters := heap.counters.free own.ctr }
      else .ok { heap with counters := heap.counters.set own.ctr (count - 1) }

/-- `PrivateKey(const PrivateKey&)`. -/
def copy (heap : Heap) (rhs : Handle) : Except Fault (Nat × Heap) := do
  let this := heap.handles.fresh
  let heap ← { heap with handles := heap.handles.alloc rhs }.increment rhs.ctr
  return (this, heap)

/-- `PrivateKey(PrivateKey&&)` delegates to the copy constructor. -/
def move (heap : Heap) (rhs : Handle) : Except Fault (Nat × Heap) := heap.copy rhs

/-- `operator=(const PrivateKey&)` of the object at `this` with the members
`own`. -/
def assign (heap : Heap) (this : Nat) (own rhs : Handle) : Except Fault Heap := do
  let heap ← if rhs.mem ≠ own.mem then heap.clear own else .ok heap
  { heap with handles := heap.handles.set this rhs }.increment rhs.ctr

/-- `operator=(PrivateKey&&)`: in `*this = rhs` the argument is an lvalue. -/
def moveAssign (heap : Heap) (this : Nat) (own rhs : Handle) : Except Fault Heap :=
  heap.assign this own rhs

/-- `~PrivateKey()`. -/
def destroy (heap : Heap) (this : Nat) (own : Handle) : Except Fault Heap := do
  let heap ← heap.clear own
  return { heap with handles := heap.handles.free this }

/-- `result.mem_ = mem` in the object at `result`. -/
def setMem (heap : Heap) (result mem : Nat) : Except Fault Heap :=
  match heap.handles.find result with
  | none => .error .accessViolation
  | some own => .ok { heap with handles := heap.handles.set result { own with mem := some mem } }

/-- `PrivateKey result; result.mem_ = sodium_malloc(kPrivateKeySize);` -/
def allocate (heap : Heap) : Except Fault (Nat × Nat × Heap) := do
  let (result, heap) := heap.construct
  let (mem, heap) := heap.sodiumMalloc
  return (result, mem, ← heap.setMem result mem)

/-- The history entry for the object at `result`, whose key is complete. -/
def record (heap : Heap) (result : Nat) : Heap :=
  match heap.handles.find result with
  | some ⟨some block, ctr⟩ =>
      match heap.blocks.find block with
      | some found => { heap with made := heap.made ++ [⟨block, ctr, found.content⟩] }
      | none => heap
  | _ => heap

/-- The common body of the functions that make a key from its bytes. -/
def create (heap : Heap) (content : SecretKey) : Except Fault (Nat × Heap) := do
  let (result, mem, heap) ← heap.allocate
  let heap ← heap.memcpy mem content
  let heap ← heap.mprotect .noAccess (some mem)
  return (result, heap.record result)

def generateWithPair (sign : KeysDerivation.SignKeys) (heap : Heap) (random : ByteArray kSeedSize) :
    Except Fault (PublicKey × Nat × Heap) := do
  let (publicKey, sk) := sign.seedKeypair random
  return (publicKey, ← heap.create sk)

def readFromBytes (heap : Heap) (bytes : Bytes) : Except Fault (Nat × Heap) :=
  if size : bytes.length = kPrivateKeySize then heap.create ⟨bytes, size⟩ else .ok heap.construct

def readFromGuard (heap : Heap) (bytes : MemGuard kPrivateKeySize) : Except Fault (Nat × Heap) := do
  let content ← bytes.read
  heap.create content

end Heap

inductive HandleOp where
  | construct
  | generateWithPair (random : ByteArray kSeedSize)
  | readFromBytes (bytes : Bytes)
  | readFromGuard (content : SecretKey)
  | copy (rhs : Nat)
  | move (rhs : Nat)
  | assign (this rhs : Nat)
  | moveAssign (this rhs : Nat)
  | destroy (this : Nat)

namespace Heap

/-- A call with a live object. No program makes it with a dead one. -/
def withHandle (heap : Heap) (this : Nat) (call : Handle → Except Fault Heap) : Except Fault Heap :=
  match heap.handles.find this with
  | none => .ok heap
  | some own => call own

def handleStep (sign : KeysDerivation.SignKeys) (heap : Heap) : HandleOp → Except Fault Heap
  | .construct => .ok heap.construct.2
  | .generateWithPair random => return (← heap.generateWithPair sign random).2.2
  | .readFromBytes bytes => return (← heap.readFromBytes bytes).2
  | .readFromGuard content => return (← heap.readFromGuard (.holding content .readWrite)).2
  | .copy rhs => heap.withHandle rhs fun rhs => return (← heap.copy rhs).2
  | .move rhs => heap.withHandle rhs fun rhs => return (← heap.move rhs).2
  | .assign this rhs =>
      heap.withHandle this fun own => heap.withHandle rhs fun rhs => heap.assign this own rhs
  | .moveAssign this rhs =>
      heap.withHandle this fun own => heap.withHandle rhs fun rhs => heap.moveAssign this own rhs
  | .destroy this => heap.withHandle this fun own => heap.destroy this own

end Heap

end Cscrypto
