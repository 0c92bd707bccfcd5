import Cscrypto.Memory.PrivateKey

namespace Cscrypto

open Cscrypto.Data Cscrypto.KeysDerivation

/-! # Counted references

A counter holds the number of the objects that share it and a surplus.  The
surplus of a counter grows when an object that shares it is given another
value without a decrement; without a surplus the last object takes the key with
it.
-/

def kMaxCount : Nat := 2 ^ 32 - 1

namespace Heap

def sharers (handles : Store Handle) (ctr : Nat) : Nat :=
  handles.count (fun handle => handle.ctr = ctr)

/-- What a counter counts. -/
def counting (surplus : Nat → Nat) (handles : Store Handle) (ctr : Nat) : Nat :=
  sharers handles ctr + surplus ctr

/-- An object whose counter belongs to its block. -/
structure Valid (heap : Heap) (handle : Handle) : Prop where
  known : handle.ctr < heap.counters.fresh
  keyed : ∀ block, handle.mem = some block → ∃ content, ⟨block, handle.ctr, content⟩ ∈ heap.made
  owned : ∀ key ∈ heap.made, key.ctr = handle.ctr → handle.mem = some key.block

/-- `limit` bounds what a counter counts. A limit that the counter cannot hold
allows a counter to be freed too early. -/
structure Sharing (surplus : Nat → Nat) (limit : Nat) (heap : Heap) : Prop where
  valid : ∀ this own, heap.handles.find this = some own → heap.Valid own
  counts : ∀ ctr count, heap.counters.find ctr = some count →
    count = UInt32.ofNat (counting surplus heap.handles ctr)
  bounds : ∀ ctr count, heap.counters.find ctr = some count →
    0 < counting surplus heap.handles ctr ∧ counting surplus heap.handles ctr ≤ limit
  counted : limit ≤ kMaxCount → ∀ this own, heap.handles.find this = some own →
    ∃ count, heap.counters.find own.ctr = some count
  below : ∀ key ∈ heap.made, key.block < heap.blocks.fresh ∧ key.ctr < heap.counters.fresh
  together : ∀ key ∈ heap.made,
    (heap.blocks.find key.block).isSome = (heap.counters.find key.ctr).isSome
  unique : ∀ key ∈ heap.made, ∀ other ∈ heap.made,
    key.block = other.block ∨ key.ctr = other.ctr → key = other

theorem empty_sharing (limit : Nat) : Sharing (fun _ => 0) limit empty where
  valid _ _ at_this := by cases at_this
  counts _ _ at_ctr := by cases at_ctr
  bounds _ _ at_ctr := by cases at_ctr
  counted _ _ _ at_this := by cases at_this
  below _ member := by cases member
  together _ member := by cases member
  unique _ member := by cases member

theorem sharers_pos {handles : Store Handle} {this : Nat} {own : Handle}
    (live : handles.find this = some own) : 0 < sharers handles own.ctr :=
  Store.count_pos.mpr ⟨this, own, live, decide_eq_true rfl⟩

theorem sharers_free {handles : Store Handle} {this : Nat} {own : Handle}
    (live : handles.find this = some own) (ctr : Nat) :
    sharers (handles.free this) ctr + (if own.ctr = ctr then 1 else 0) = sharers handles ctr := by
  have sum := Store.count_free (fun handle : Handle => decide (handle.ctr = ctr)) live
  simpa only [sharers, decide_eq_true_eq] using sum

theorem sharers_adds {before after : Store Handle} {added : Handle} (adds : before.Adds after added)
    (ctr : Nat) : sharers after ctr = sharers before ctr + if added.ctr = ctr then 1 else 0 := by
  have sum := adds.count (fun handle => handle.ctr = ctr)
  simpa only [sharers, decide_eq_true_eq] using sum

/-- Objects that share a counter share the block. -/
theorem Valid.same_mem {heap : Heap} {left right : Handle} (leftValid : heap.Valid left)
    (rightValid : heap.Valid right) (shared : left.ctr = right.ctr) : left.mem = right.mem := by
  cases keyed : left.mem with
  | some block =>
      obtain ⟨content, member⟩ := leftValid.keyed block keyed
      exact (rightValid.owned _ member shared).symm
  | none =>
      cases other : right.mem with
      | none => rfl
      | some block =>
          obtain ⟨content, member⟩ := rightValid.keyed block other
          rw [leftValid.owned _ member shared.symm] at keyed
          contradiction

/-- The key block of an object is allocated as long as the counter is. -/
theorem Sharing.allocated {surplus : Nat → Nat} {limit : Nat} {heap : Heap} {own : Handle}
    {block : Nat} {count : UInt32} (sharing : Sharing surplus limit heap) (valid : heap.Valid own)
    (counted : heap.counters.find own.ctr = some count) (keyed : own.mem = some block) :
    ∃ found, heap.blocks.find block = some found := by
  obtain ⟨content, member⟩ := valid.keyed block keyed
  have same := sharing.together _ member
  rw [counted] at same
  exact Option.isSome_iff_exists.mp same

variable {surplus : Nat → Nat} {limit : Nat} {heap : Heap}

theorem Sharing.weaken (sharing : Sharing surplus limit heap) (more : limit ≤ limit') :
    Sharing surplus limit' heap :=
  { sharing with
    bounds := fun ctr count at_ctr =>
      ⟨(sharing.bounds ctr count at_ctr).1, (sharing.bounds ctr count at_ctr).2.trans more⟩
    counted := fun small => sharing.counted (more.trans small) }

theorem counting_adds (surplus : Nat → Nat) {handles : Store Handle} {added : Handle}
    (adds : heap.handles.Adds handles added) (ctr : Nat) : counting surplus handles ctr =
      counting surplus heap.handles ctr + if added.ctr = ctr then 1 else 0 := by
  rw [counting, sharers_adds adds, counting, Nat.add_right_comm]

theorem counting_free (surplus : Nat → Nat) {this : Nat} {own : Handle}
    (live : heap.handles.find this = some own) (ctr : Nat) :
    counting surplus (heap.handles.free this) ctr + (if own.ctr = ctr then 1 else 0) =
      counting surplus heap.handles ctr := by
  rw [counting, Nat.add_right_comm, sharers_free live, counting]

theorem Valid.recount {own : Handle} {blocks : Store KeyBlock} {handles : Store Handle}
    {counters : Store UInt32} {guards : Store Nat} (valid : heap.Valid own)
    (same : counters.fresh = heap.counters.fresh) :
    Valid { heap with blocks, handles, counters, guards } own :=
  ⟨valid.known.trans_eq same.symm, valid.keyed, valid.owned⟩

/-- Adding an object that shares an existing counter, and counting it. -/
theorem Sharing.share {handles : Store Handle} {rhs : Handle} {count : UInt32}
    (sharing : Sharing surplus limit heap) (valid : heap.Valid rhs)
    (adds : heap.handles.Adds handles rhs) (counted : heap.counters.find rhs.ctr = some count)
    (room : counting surplus heap.handles rhs.ctr + 1 ≤ limit) :
    Sharing surplus limit
      { heap with handles, counters := heap.counters.set rhs.ctr (count + 1) } := by
  have sum := counting_adds surplus adds
  refine ⟨?_, ?_, ?_, ?_, ?_, ?_, sharing.unique⟩
  · intro this own live
    rcases adds.find this own live with before | same
    · exact (sharing.valid this own before).recount Store.fresh_set
    · rw [same]
      exact valid.recount Store.fresh_set
  · intro ctr value at_ctr
    rw [sum]
    rcases (Store.find_set_eq_some counted).mp at_ctr with ⟨rfl, rfl⟩ | ⟨different, before⟩
    · rw [if_pos rfl, UInt32.ofNat_add, ← sharing.counts _ _ counted, UInt32.ofNat_one]
    · rw [if_neg (Ne.symm different)]
      exact sharing.counts ctr value before
  · intro ctr value at_ctr
    rw [sum]
    rcases (Store.find_set_eq_some counted).mp at_ctr with ⟨rfl, _⟩ | ⟨different, before⟩
    · rw [if_pos rfl]
      exact ⟨Nat.succ_pos _, room⟩
    · rw [if_neg (Ne.symm different)]
      exact sharing.bounds ctr value before
  · intro small this own live
    rcases adds.find this own live with before | same
    · obtain ⟨_, at_own⟩ := sharing.counted small this own before
      exact Store.exists_find_set counted at_own
    · rw [same]
      exact Store.exists_find_set counted counted
  · intro key member
    rw [Store.fresh_set]
    exact sharing.below key member
  · intro key member
    rw [Store.isSome_find_set counted]
    exact sharing.together key member

theorem counting_abandon (surplus : Nat → Nat) {this : Nat} {own : Handle}
    (live : heap.handles.find this = some own) :
    counting (Function.update surplus own.ctr (surplus own.ctr + 1)) (heap.handles.free this) =
      counting surplus heap.handles := by
  funext ctr
  rw [← counting_free surplus live, counting, counting]
  by_cases same : own.ctr = ctr
  · rw [if_pos same, same, Function.update_self, Nat.add_assoc]
  · rw [if_neg same, Function.update_of_ne (Ne.symm same)]
    rfl

/-- Forgetting an object without counting it off leaves a surplus. -/
theorem Sharing.abandon {this : Nat} {own : Handle} (sharing : Sharing surplus limit heap)
    (live : heap.handles.find this = some own) :
    Sharing (Function.update surplus own.ctr (surplus own.ctr + 1)) limit
      { heap with handles := heap.handles.free this } := by
  have same := counting_abandon surplus live
  refine { sharing with valid := ?_, counts := ?_, bounds := ?_, counted := ?_ }
  · intro other handle at_other
    exact (sharing.valid other handle (Store.find_of_find_free at_other).2).recount rfl
  · rw [same]
    exact sharing.counts
  · rw [same]
    exact sharing.bounds
  · intro small other handle at_other
    exact sharing.counted small other handle (Store.find_of_find_free at_other).2

/-- What `clear` leaves as it is: all but the counter and the key block. -/
structure Clears (own : Handle) (before after : Heap) : Prop where
  handles : after.handles = before.handles
  counters : ∀ ctr, ctr ≠ own.ctr → after.counters.find ctr = before.counters.find ctr
  guards : after.guards = before.guards
  made : after.made = before.made
  blocks : ∀ block found, after.blocks.find block = some found →
    before.blocks.find block = some found

/-- `clear` by one of several objects that share a counter. -/
theorem Sharing.release_shared {this : Nat} {own : Handle} {count : UInt32}
    (sharing : Sharing surplus limit heap) (live : heap.handles.find this = some own)
    (counted : heap.counters.find own.ctr = some count)
    (more : count - 1 ≠ 0) :
    Sharing surplus limit { heap with
      handles := heap.handles.free this
      counters := heap.counters.set own.ctr (count - 1) } := by
  have counts := sharing.counts own.ctr count counted
  have bounds := sharing.bounds own.ctr count counted
  have sum := counting_free surplus live
  have minus : count - 1 = UInt32.ofNat (counting surplus heap.handles own.ctr - 1) := by
    rw [UInt32.ofNat_sub bounds.1, ← counts, UInt32.ofNat_one]
  have several : counting surplus heap.handles own.ctr - 1 ≠ 0 :=
    fun zero => more (by rw [minus, zero]; rfl)
  refine ⟨?_, ?_, ?_, ?_, ?_, ?_, sharing.unique⟩
  · intro other handle at_other
    exact (sharing.valid other handle (Store.find_of_find_free at_other).2).recount Store.fresh_set
  · intro ctr value at_ctr
    have sum := sum ctr
    rcases (Store.find_set_eq_some counted).mp at_ctr with ⟨rfl, rfl⟩ | ⟨different, before⟩
    · rw [minus, ← sum, if_pos rfl]
      rfl
    · rw [if_neg (Ne.symm different)] at sum
      rw [sharing.counts ctr value before, ← sum]
      rfl
  · intro ctr value at_ctr
    have sum := sum ctr
    show 0 < counting surplus (heap.handles.free this) ctr ∧
      counting surplus (heap.handles.free this) ctr ≤ limit
    rcases (Store.find_set_eq_some counted).mp at_ctr with ⟨rfl, _⟩ | ⟨different, before⟩
    · rw [if_pos rfl] at sum
      omega
    · rw [if_neg (Ne.symm different)] at sum
      have bounds := sharing.bounds ctr value before
      omega
  · intro small other handle at_other
    obtain ⟨_, at_handle⟩ :=
      sharing.counted small other handle (Store.find_of_find_free at_other).2
    exact Store.exists_find_set counted at_handle
  · intro key member
    rw [Store.fresh_set]
    exact sharing.below key member
  · intro key member
    rw [Store.isSome_find_set counted]
    exact sharing.together key member

theorem Sharing.toNat_eq {ctr : Nat} {count : UInt32} (sharing : Sharing surplus limit heap)
    (small : limit ≤ kMaxCount) (counted : heap.counters.find ctr = some count) :
    count.toNat = counting surplus heap.handles ctr := by
  have bounds := sharing.bounds ctr count counted
  unfold kMaxCount at small
  rw [sharing.counts ctr count counted, UInt32.toNat_ofNat_of_lt' (by unfold UInt32.size; omega)]

theorem Sharing.counting_eq_one {ctr : Nat} {count : UInt32} (sharing : Sharing surplus limit heap)
    (small : limit ≤ kMaxCount) (counted : heap.counters.find ctr = some count)
    (last : count - 1 = 0) : counting surplus heap.handles ctr = 1 := by
  have bounds := sharing.bounds ctr count counted
  rw [← sharing.toNat_eq small counted] at bounds ⊢
  have previous := UInt32.toNat_sub_of_le count 1 (UInt32.le_iff_toNat_le.mpr bounds.1)
  rw [last, UInt32.toNat_zero, UInt32.toNat_one] at previous
  omega

/-- `clear` by the last object of a counter. -/
theorem Sharing.release_last {this : Nat} {own : Handle} {count : UInt32} {blocks : Store KeyBlock}
    (sharing : Sharing surplus limit heap) (live : heap.handles.find this = some own)
    (counted : heap.counters.find own.ctr = some count) (last : count - 1 = 0)
    (fresh : blocks.fresh = heap.blocks.fresh)
    (kept : ∀ block, own.mem ≠ some block → blocks.find block = heap.blocks.find block)
    (freed : ∀ block, own.mem = some block → blocks.find block = none) :
    Sharing surplus limit { heap with
      blocks
      handles := heap.handles.free this
      counters := heap.counters.free own.ctr } := by
  have elsewhere : ∀ ctr, ctr ≠ own.ctr →
      counting surplus (heap.handles.free this) ctr = counting surplus heap.handles ctr := by
    intro ctr different
    rw [← counting_free surplus live ctr, if_neg (Ne.symm different), Nat.add_zero]
  refine ⟨?_, ?_, ?_, ?_, ?_, ?_, sharing.unique⟩
  · intro other handle at_other
    exact (sharing.valid other handle (Store.find_of_find_free at_other).2).recount Store.fresh_free
  · intro ctr value at_ctr
    obtain ⟨different, before⟩ := Store.find_of_find_free at_ctr
    show value = UInt32.ofNat (counting surplus (heap.handles.free this) ctr)
    rw [elsewhere ctr different]
    exact sharing.counts ctr value before
  · intro ctr value at_ctr
    obtain ⟨different, before⟩ := Store.find_of_find_free at_ctr
    show 0 < counting surplus (heap.handles.free this) ctr ∧ _
    rw [elsewhere ctr different]
    exact sharing.bounds ctr value before
  · -- Below the limit of the counter a last count is that of a single object.
    intro small other handle at_other
    obtain ⟨_, at_handle⟩ := sharing.counted small other handle (Store.find_of_find_free at_other).2
    have single := sharing.counting_eq_one small counted last
    have sum := sharers_free live own.ctr
    have positive : 0 < sharers (heap.handles.free this) handle.ctr := sharers_pos at_other
    rw [if_pos rfl] at sum
    have apart : handle.ctr ≠ own.ctr := by
      intro same
      rw [same] at positive
      unfold counting at single
      omega
    exact ⟨_, by rw [Store.find_free_of_ne apart]; exact at_handle⟩
  · intro key member
    rw [Store.fresh_free, fresh]
    exact sharing.below key member
  · intro key member
    have valid := sharing.valid this own live
    by_cases same : key.ctr = own.ctr
    · rw [freed key.block (valid.owned key member same), same, Store.find_free_self]
      rfl
    · have other : own.mem ≠ some key.block := by
        intro keyed
        obtain ⟨content, known⟩ := valid.keyed key.block keyed
        exact same (congrArg Made.ctr (sharing.unique key member _ known (.inl rfl)))
      rw [kept key.block other, Store.find_free_of_ne same]
      exact sharing.together key member

/-- `clear` counts an object off, and frees what only that object shared. -/
theorem Sharing.release {this : Nat} {own : Handle} {count : UInt32}
    (sharing : Sharing surplus limit heap) (live : heap.handles.find this = some own)
    (counted : heap.counters.find own.ctr = some count) :
    ∃ heap', heap.clear own = .ok heap' ∧ Clears own heap heap' ∧
      Sharing surplus limit { heap' with handles := heap.handles.free this } := by
  have valid := sharing.valid this own live
  by_cases last : count - 1 = 0
  · cases keyed : own.mem with
    | none =>
        refine ⟨{ heap with counters := heap.counters.free own.ctr }, ?_,
          ⟨rfl, fun _ => Store.find_free_of_ne, rfl, rfl, fun _ _ found => found⟩, ?_⟩
        · simp only [clear, counted, last, if_true, keyed, sodiumFree, ok_bind, pure_eq_ok]
        · exact sharing.release_last live counted last rfl (fun _ _ => rfl)
            (fun block some => by rw [keyed] at some; contradiction)
    | some block =>
        obtain ⟨found, at_block⟩ := sharing.allocated valid counted keyed
        refine ⟨{ heap with
          blocks := heap.blocks.free block
          counters := heap.counters.free own.ctr }, ?_,
          ⟨rfl, fun _ => Store.find_free_of_ne, rfl, rfl,
            fun _ _ found => (Store.find_of_find_free found).2⟩, ?_⟩
        · simp only [clear, counted, last, if_true, keyed, sodiumFree, at_block, ok_bind, pure_eq_ok]
        · refine sharing.release_last live counted last Store.fresh_free ?_ ?_
          · intro other different
            rw [keyed] at different
            exact Store.find_free_of_ne (fun same => different (by rw [same]))
          · intro other same
            rw [keyed] at same
            cases same
            exact Store.find_free_self
  · refine ⟨{ heap with counters := heap.counters.set own.ctr (count - 1) }, ?_,
      ⟨rfl, fun _ => Store.find_set_of_ne, rfl, rfl, fun _ _ found => found⟩,
      sharing.release_shared live counted last⟩
    simp only [clear, counted, if_neg last]

/-- A new object with a counter of its own. -/
theorem Sharing.alone (own : Handle) (sharing : Sharing surplus limit heap) (room : 1 ≤ limit)
    (fresh : own.ctr = heap.counters.fresh) :
    ∀ ctr count, (heap.counters.alloc 1).find ctr = some count →
      count = UInt32.ofNat (counting (Function.update surplus heap.counters.fresh 0)
        (heap.handles.alloc own) ctr) ∧
      0 < counting (Function.update surplus heap.counters.fresh 0) (heap.handles.alloc own) ctr ∧
      counting (Function.update surplus heap.counters.fresh 0) (heap.handles.alloc own) ctr ≤
        limit := by
  have unshared : sharers heap.handles heap.counters.fresh = 0 := by
    rw [← Nat.le_zero, ← Nat.not_lt]
    intro shared
    obtain ⟨this, other, live, same⟩ := Store.count_pos.mp shared
    exact Nat.ne_of_lt (sharing.valid this other live).known (of_decide_eq_true same)
  intro ctr count at_ctr
  rw [counting, sharers_adds (Store.adds_alloc heap.handles own)]
  rcases Store.find_alloc_eq_some.mp at_ctr with ⟨rfl, rfl⟩ | ⟨different, before⟩
  · rw [if_pos fresh, unshared, Function.update_self]
    exact ⟨rfl, Nat.one_pos, room⟩
  · rw [if_neg (by rw [fresh]; exact Ne.symm different), Function.update_of_ne different]
    exact ⟨sharing.counts ctr count before, sharing.bounds ctr count before⟩

theorem Sharing.alone_counted {own : Handle} (sharing : Sharing surplus limit heap)
    (fresh : own.ctr = heap.counters.fresh) (small : limit ≤ kMaxCount) (this : Nat)
    (other : Handle) (live : (heap.handles.alloc own).find this = some other) :
    ∃ count, (heap.counters.alloc 1).find other.ctr = some count := by
  rcases Store.find_alloc_eq_some.mp live with ⟨_, rfl⟩ | ⟨_, before⟩
  · exact ⟨1, by rw [fresh, Store.find_alloc_fresh]⟩
  · obtain ⟨count, counted⟩ := sharing.counted small this other before
    exact ⟨count, Store.find_alloc_of_find counted⟩

theorem Sharing.construct (sharing : Sharing surplus limit heap) (room : 1 ≤ limit) :
    Sharing (Function.update surplus heap.counters.fresh 0) limit heap.construct.2 := by
  have alone := sharing.alone ⟨none, heap.counters.fresh⟩ room rfl
  refine ⟨?_, fun ctr count at_ctr => (alone ctr count at_ctr).1,
    fun ctr count at_ctr => (alone ctr count at_ctr).2, sharing.alone_counted rfl, ?_, ?_,
    sharing.unique⟩
  · intro this own live
    rcases Store.find_alloc_eq_some.mp live with ⟨_, rfl⟩ | ⟨_, before⟩
    · refine ⟨Nat.lt_succ_self _ |>.trans_eq Store.fresh_alloc.symm,
        fun _ none => by contradiction, ?_⟩
      intro key member same
      exact absurd same (Nat.ne_of_lt (sharing.below key member).2)
    · obtain ⟨known, keyed, owned⟩ := sharing.valid this own before
      exact ⟨Nat.lt_succ_of_lt known |>.trans_eq Store.fresh_alloc.symm, keyed, owned⟩
  · intro key member
    obtain ⟨block, ctr⟩ := sharing.below key member
    exact ⟨block, Nat.lt_succ_of_lt ctr |>.trans_eq Store.fresh_alloc.symm⟩
  · intro key member
    show _ = ((heap.counters.alloc 1).find key.ctr).isSome
    rw [Store.find_alloc_of_ne (Nat.ne_of_lt (sharing.below key member).2)]
    exact sharing.together key member

/-- What `create` leaves. -/
def created (heap : Heap) (content : SecretKey) : Heap where
  blocks := heap.blocks.alloc ⟨content, .noAccess⟩
  counters := heap.counters.alloc 1
  handles := heap.handles.alloc ⟨some heap.blocks.fresh, heap.counters.fresh⟩
  guards := heap.guards
  made := heap.made ++ [⟨heap.blocks.fresh, heap.counters.fresh, content⟩]

/-- A new object that is the first one of a new block. -/
def making (heap : Heap) (block : KeyBlock) : Heap where
  blocks := heap.blocks.alloc block
  counters := heap.counters.alloc 1
  handles := heap.handles.alloc ⟨some heap.blocks.fresh, heap.counters.fresh⟩
  guards := heap.guards
  made := heap.made

theorem allocate_eq (heap : Heap) : heap.allocate = .ok (heap.handles.fresh, heap.blocks.fresh,
    heap.making ⟨.replicate _ 0xdb, .readWrite⟩) := by
  simp only [allocate, Heap.construct, sodiumMalloc, setMem, Store.find_alloc_fresh,
    Store.set_alloc_fresh, ok_bind, pure_eq_ok]
  rfl

theorem lock_making (heap : Heap) (content : SecretKey) :
    (heap.making ⟨content, .readWrite⟩).mprotect .noAccess (some heap.blocks.fresh) =
      .ok (heap.making ⟨content, .noAccess⟩) := by
  simp only [mprotect, making, Store.find_alloc_fresh, Store.set_alloc_fresh]

theorem record_making (heap : Heap) (content : SecretKey) :
    (heap.making ⟨content, .noAccess⟩).record heap.handles.fresh = heap.created content := by
  simp only [record, making, Store.find_alloc_fresh]
  rfl

theorem create_eq (heap : Heap) (content : SecretKey) :
    heap.create content = .ok (heap.handles.fresh, heap.created content) := by
  have written : (heap.making ⟨.replicate _ 0xdb, .readWrite⟩).memcpy heap.blocks.fresh content =
      .ok (heap.making ⟨content, .readWrite⟩) := by
    simp only [memcpy, making, Store.find_alloc_fresh, Store.set_alloc_fresh]
  simp only [create, allocate_eq, written, lock_making, record_making, ok_bind, pure_eq_ok]

theorem Sharing.created (sharing : Sharing surplus limit heap) (room : 1 ≤ limit)
    (content : SecretKey) :
    Sharing (Function.update surplus heap.counters.fresh 0) limit (heap.created content) := by
  have alone := sharing.alone ⟨some heap.blocks.fresh, heap.counters.fresh⟩ room rfl
  have older : ∀ key ∈ heap.made, key.block ≠ heap.blocks.fresh ∧ key.ctr ≠ heap.counters.fresh :=
    fun key member => ⟨Nat.ne_of_lt (sharing.below key member).1,
      Nat.ne_of_lt (sharing.below key member).2⟩
  refine ⟨?_, fun ctr count at_ctr => (alone ctr count at_ctr).1,
    fun ctr count at_ctr => (alone ctr count at_ctr).2, sharing.alone_counted rfl, ?_, ?_, ?_⟩
  · intro this own live
    rcases Store.find_alloc_eq_some.mp live with ⟨_, rfl⟩ | ⟨_, before⟩
    · refine ⟨Nat.lt_succ_self _ |>.trans_eq Store.fresh_alloc.symm, ?_, ?_⟩
      · intro block same
        cases same
        exact ⟨content, List.mem_append_right _ List.mem_cons_self⟩
      · intro key member same
        rcases List.mem_append.mp member with earlier | last
        · exact absurd same (older key earlier).2
        · rw [List.mem_singleton.mp last]
    · obtain ⟨known, keyed, owned⟩ := sharing.valid this own before
      refine ⟨Nat.lt_succ_of_lt known |>.trans_eq Store.fresh_alloc.symm, ?_, ?_⟩
      · intro block same
        obtain ⟨content, member⟩ := keyed block same
        exact ⟨content, List.mem_append_left _ member⟩
      · intro key member same
        rcases List.mem_append.mp member with earlier | last
        · exact owned key earlier same
        · rw [List.mem_singleton.mp last] at same
          exact absurd same.symm (Nat.ne_of_lt known)
  · intro key member
    rw [Heap.created, Store.fresh_alloc, Store.fresh_alloc]
    rcases List.mem_append.mp member with earlier | last
    · obtain ⟨block, ctr⟩ := sharing.below key earlier
      exact ⟨Nat.lt_succ_of_lt block, Nat.lt_succ_of_lt ctr⟩
    · rw [List.mem_singleton.mp last]
      exact ⟨Nat.lt_succ_self _, Nat.lt_succ_self _⟩
  · intro key member
    rw [Heap.created]
    rcases List.mem_append.mp member with earlier | last
    · rw [Store.find_alloc_of_ne (older key earlier).1, Store.find_alloc_of_ne (older key earlier).2]
      exact sharing.together key earlier
    · rw [List.mem_singleton.mp last, Store.find_alloc_fresh, Store.find_alloc_fresh]
      rfl
  · intro key member other inside same
    rcases List.mem_append.mp member with earlier | last <;>
      rcases List.mem_append.mp inside with before | newest
    · exact sharing.unique key earlier other before same
    · rw [List.mem_singleton.mp newest] at same
      exact absurd same (not_or.mpr (older key earlier))
    · rw [List.mem_singleton.mp last] at same
      have apart := older other before
      exact absurd same (not_or.mpr ⟨Ne.symm apart.1, Ne.symm apart.2⟩)
    · rw [List.mem_singleton.mp last, List.mem_singleton.mp newest]

/-- The keys after an operation: the old ones with what is left of their
blocks, and a new one that is locked. -/
structure Keeps (before after : Heap) : Prop where
  guards : after.guards = before.guards
  keys : ∀ key ∈ after.made, ∀ found, after.blocks.find key.block = some found →
    (key ∈ before.made ∧ before.blocks.find key.block = some found) ∨
      found = ⟨key.content, .noAccess⟩

/-- Without a surplus no key outlives its objects. -/
def Balanced (surplus : Nat → Nat) (heap : Heap) : Prop := ∀ key ∈ heap.made, surplus key.ctr = 0

/-- What an operation keeps; only an operation that is `drifting` can leave the
keys unbalanced. -/
def Advances (surplus : Nat → Nat) (limit : Nat) (before after : Heap) (drifting : Prop) : Prop :=
  ∃ surplus', Sharing surplus' limit after ∧ Keeps before after ∧
    (Balanced surplus before → ¬drifting → Balanced surplus' after)

theorem Keeps.of_made {before after : Heap} (guards : after.guards = before.guards)
    (made : after.made = before.made)
    (blocks : ∀ block found, after.blocks.find block = some found →
      before.blocks.find block = some found) : Keeps before after where
  guards := guards
  keys := by
    intro key member found at_block
    rw [made] at member
    exact .inl ⟨member, blocks _ _ at_block⟩

theorem Balanced.of_made {before after : Heap} (balanced : Balanced surplus before)
    (made : after.made = before.made) : Balanced surplus after := by
  intro key member
  rw [made] at member
  exact balanced key member

theorem Balanced.update {ctr : Nat} (balanced : Balanced surplus heap) :
    Balanced (Function.update surplus ctr 0) heap := by
  intro key member
  by_cases same : key.ctr = ctr
  · rw [same, Function.update_self]
  · rw [Function.update_of_ne same]
    exact balanced key member

variable {drifting : Prop}

theorem Sharing.construct_advances (sharing : Sharing surplus limit heap) (room : 1 ≤ limit) :
    Advances surplus limit heap heap.construct.2 drifting :=
  ⟨_, sharing.construct room, .of_made rfl rfl (fun _ _ => id), fun balanced _ => balanced.update⟩

theorem Sharing.created_advances (sharing : Sharing surplus limit heap) (room : 1 ≤ limit)
    (content : SecretKey) : Advances surplus limit heap (heap.created content) drifting := by
  refine ⟨_, sharing.created room content, ⟨rfl, ?_⟩, ?_⟩
  · intro key member found at_block
    rcases List.mem_append.mp member with earlier | last
    · refine .inl ⟨earlier, ?_⟩
      rwa [Heap.created, Store.find_alloc_of_ne
        (Nat.ne_of_lt (sharing.below key earlier).1)] at at_block
    · rw [List.mem_singleton.mp last, Heap.created, Store.find_alloc_fresh] at at_block
      rw [List.mem_singleton.mp last]
      exact .inr (Option.some.inj at_block).symm
  · intro balanced _ key member
    rcases List.mem_append.mp member with earlier | last
    · exact balanced.update key earlier
    · rw [List.mem_singleton.mp last, Function.update_self]

theorem Advances.refl (sharing : Sharing surplus limit heap) :
    Advances surplus limit heap heap drifting :=
  ⟨surplus, sharing, .of_made rfl rfl (fun _ _ => id), fun balanced _ => balanced⟩

/-- How an operation ends. Only a counter that was freed too early makes it
fail. -/
inductive Outcome (surplus : Nat → Nat) (limit : Nat) (heap : Heap) (drifting : Prop) :
    Except Fault Heap → Prop where
  | ok {heap' : Heap} (advances : Advances surplus limit heap heap' drifting) :
      Outcome surplus limit heap drifting (.ok heap')
  | fault {fault : Fault} (overflown : kMaxCount < limit) :
      Outcome surplus limit heap drifting (.error fault)

theorem Sharing.overflown {this : Nat} {own : Handle} (sharing : Sharing surplus limit heap)
    (live : heap.handles.find this = some own) (freed : heap.counters.find own.ctr = none) :
    kMaxCount < limit := by
  by_contra small
  obtain ⟨count, counted⟩ := sharing.counted (Nat.le_of_not_lt small) this own live
  rw [freed] at counted
  contradiction

theorem Sharing.copy_outcome {this : Nat} {rhs : Handle} (sharing : Sharing surplus limit heap)
    (live : heap.handles.find this = some rhs)
    (room : ∀ count, heap.counters.find rhs.ctr = some count →
      counting surplus heap.handles rhs.ctr + 1 ≤ limit) :
    Outcome surplus limit heap drifting (do return (← heap.copy rhs).2) := by
  cases counted : heap.counters.find rhs.ctr with
  | none =>
      simp only [copy, increment, counted, error_bind]
      exact .fault (sharing.overflown live counted)
  | some count =>
      simp only [copy, increment, counted, ok_bind, pure_eq_ok]
      exact .ok ⟨surplus, sharing.share (sharing.valid this rhs live) (Store.adds_alloc _ _) counted
        (room count counted), .of_made rfl rfl (fun _ _ => id), fun balanced _ => balanced⟩

theorem Sharing.destroy_outcome {this : Nat} {own : Handle} (sharing : Sharing surplus limit heap)
    (live : heap.handles.find this = some own) :
    Outcome surplus limit heap drifting (heap.destroy this own) := by
  cases counted : heap.counters.find own.ctr with
  | none =>
      simp only [destroy, clear, counted, error_bind]
      exact .fault (sharing.overflown live counted)
  | some count =>
      obtain ⟨heap', cleared, clears, released⟩ := sharing.release live counted
      rw [destroy, cleared, ok_bind, pure_eq_ok]
      rw [← clears.handles] at released
      exact .ok ⟨surplus, released, .of_made clears.guards clears.made clears.blocks,
        fun balanced _ => balanced.of_made clears.made⟩

/-- Between objects of one block nothing is counted off. -/
theorem Sharing.assign_same {this other : Nat} {own rhs : Handle}
    (sharing : Sharing surplus limit heap) (live : heap.handles.find this = some own)
    (source : heap.handles.find other = some rhs)
    (room : ∀ count, heap.counters.find rhs.ctr = some count →
      counting surplus heap.handles rhs.ctr + 1 ≤ limit)
    (same : rhs.mem = own.mem) (drift : own.mem ≠ none → drifting) :
    Outcome surplus limit heap drifting (heap.assign this own rhs) := by
  cases counted : heap.counters.find rhs.ctr with
  | none =>
      simp only [assign, same, ne_eq, not_true_eq_false, if_false, ok_bind, increment, counted]
      exact .fault (sharing.overflown source counted)
  | some count =>
      simp only [assign, same, ne_eq, not_true_eq_false, if_false, ok_bind, increment, counted]
      have adds := Store.adds_set_free live rhs
      have shared := (sharing.abandon live).share ((sharing.valid other rhs source).recount rfl)
        adds counted (by rw [counting_abandon surplus live]; exact room count counted)
      refine .ok ⟨_, shared, .of_made rfl rfl (fun _ _ => id), ?_⟩
      intro balanced steady key member
      have unkeyed : own.mem = none := by
        by_contra keyed
        exact steady (drift keyed)
      rw [Function.update_of_ne, balanced key member]
      intro shared
      have owned := (sharing.valid this own live).owned key member shared
      rw [unkeyed] at owned
      contradiction

theorem Sharing.assign_other {this other : Nat} {own rhs : Handle}
    (sharing : Sharing surplus limit heap) (live : heap.handles.find this = some own)
    (source : heap.handles.find other = some rhs)
    (room : ∀ count, heap.counters.find rhs.ctr = some count →
      counting surplus heap.handles rhs.ctr + 1 ≤ limit)
    (different : rhs.mem ≠ own.mem) :
    Outcome surplus limit heap drifting (heap.assign this own rhs) := by
  cases counted : heap.counters.find own.ctr with
  | none =>
      simp only [assign, ne_eq, different, not_false_eq_true, if_true, clear, counted, error_bind]
      exact .fault (sharing.overflown live counted)
  | some count =>
      obtain ⟨heap', cleared, clears, released⟩ := sharing.release live counted
      have elsewhere : other ≠ this := by
        intro same
        subst same
        rw [source] at live
        exact different (congrArg Handle.mem (Option.some.inj live))
      have apart : rhs.ctr ≠ own.ctr := fun shared =>
        different ((sharing.valid other rhs source).same_mem (sharing.valid this own live) shared)
      have kept := clears.counters rhs.ctr apart
      cases at_rhs : heap.counters.find rhs.ctr with
      | none =>
          simp only [assign, ne_eq, different, not_false_eq_true, if_true, cleared, ok_bind,
            increment, kept, at_rhs]
          exact .fault (sharing.overflown source at_rhs)
      | some value =>
          rw [at_rhs] at kept
          simp only [assign, ne_eq, different, not_false_eq_true, if_true, cleared, ok_bind,
            increment, kept]
          have fewer : counting surplus (heap.handles.free this) rhs.ctr + 1 ≤ limit :=
            (Nat.succ_le_succ (Nat.le_of_add_right_le (counting_free surplus live rhs.ctr).le)).trans
              (room value at_rhs)
          have adds := Store.adds_set_free live rhs
          have shared := released.share
            (released.valid other rhs (by rw [Store.find_free_of_ne elsewhere, source])) adds kept
            fewer
          rw [← clears.handles] at shared
          exact .ok ⟨surplus, shared, .of_made clears.guards clears.made clears.blocks,
            fun balanced _ => balanced.of_made clears.made⟩

/-- Assigning between two objects of one key, also of an object to itself. -/
def SameKey (heap : Heap) : HandleOp → Prop
  | .assign this rhs | .moveAssign this rhs => ∃ own other block,
      heap.handles.find this = some own ∧ heap.handles.find rhs = some other ∧
        own.mem = some block ∧ other.mem = some block
  | _ => False

/-- The object whose counter an operation increments. -/
def source : HandleOp → Option Nat
  | .copy rhs | .move rhs | .assign _ rhs | .moveAssign _ rhs => some rhs
  | _ => none

/-- The limit admits one more for the counter that an operation increments. -/
def Room (surplus : Nat → Nat) (limit : Nat) (heap : Heap) (op : HandleOp) : Prop :=
  ∀ this own count, source op = some this → heap.handles.find this = some own →
    heap.counters.find own.ctr = some count → counting surplus heap.handles own.ctr + 1 ≤ limit

theorem assigned_outcome {this rhs : Nat} {op : HandleOp} (sharing : Sharing surplus limit heap)
    (room : Room surplus limit heap op) (from_rhs : source op = some rhs)
    (drift : ∀ own other block, heap.handles.find this = some own →
      heap.handles.find rhs = some other → own.mem = some block → other.mem = some block →
      drifting) :
    Outcome surplus limit heap drifting (heap.withHandle this fun own =>
      heap.withHandle rhs fun rhs => heap.assign this own rhs) := by
  simp only [withHandle]
  cases live : heap.handles.find this with
  | none => exact .ok (.refl sharing)
  | some own =>
      cases shared : heap.handles.find rhs with
      | none => exact .ok (.refl sharing)
      | some other =>
          have room := fun count => room rhs other count from_rhs shared
          by_cases same : other.mem = own.mem
          · refine sharing.assign_same live shared room same ?_
            intro keyed
            obtain ⟨block, at_own⟩ := Option.ne_none_iff_exists'.mp keyed
            exact drift own other block live shared at_own (same.trans at_own)
          · exact sharing.assign_other live shared room same

theorem copied_outcome {rhs : Nat} {op : HandleOp} (sharing : Sharing surplus limit heap)
    (room : Room surplus limit heap op) (from_rhs : source op = some rhs) :
    Outcome surplus limit heap drifting
      (heap.withHandle rhs fun rhs => return (← heap.copy rhs).2) := by
  simp only [withHandle]
  cases live : heap.handles.find rhs with
  | none => exact .ok (.refl sharing)
  | some own => exact sharing.copy_outcome live fun count => room rhs own count from_rhs live

theorem handleStep_outcome (sign : SignKeys) {op : HandleOp} (sharing : Sharing surplus limit heap)
    (positive : 1 ≤ limit) (room : Room surplus limit heap op) :
    Outcome surplus limit heap (heap.SameKey op) (heap.handleStep sign op) := by
  cases op with
  | construct => exact .ok (sharing.construct_advances positive)
  | generateWithPair random =>
      simp only [handleStep, generateWithPair, create_eq, ok_bind, pure_eq_ok]
      exact .ok (sharing.created_advances positive _)
  | readFromBytes bytes =>
      simp only [handleStep, readFromBytes]
      split
      · simp only [create_eq, ok_bind, pure_eq_ok]
        exact .ok (sharing.created_advances positive _)
      · exact .ok (sharing.construct_advances positive)
  | readFromGuard content =>
      simp only [handleStep, readFromGuard, MemGuard.read_readWrite, create_eq, ok_bind, pure_eq_ok]
      exact .ok (sharing.created_advances positive _)
  | copy rhs => exact copied_outcome sharing room rfl
  | move rhs => exact copied_outcome sharing room rfl
  | assign this rhs | moveAssign this rhs =>
      exact assigned_outcome sharing room rfl fun own other block live shared at_own at_other =>
        ⟨own, other, block, live, shared, at_own, at_other⟩
  | destroy this =>
      simp only [handleStep, withHandle]
      cases live : heap.handles.find this with
      | none => exact .ok (.refl sharing)
      | some own => exact sharing.destroy_outcome live

/-- Below the limit of the counters every operation succeeds. -/
theorem Outcome.advances {result : Except Fault Heap} (small : limit ≤ kMaxCount)
    (outcome : Outcome surplus limit heap drifting result) :
    ∃ heap', result = .ok heap' ∧ Advances surplus limit heap heap' drifting := by
  cases outcome with
  | ok advances => exact ⟨_, rfl, advances⟩
  | fault overflown => exact absurd small (Nat.not_le_of_lt overflown)

end Heap

end Cscrypto
