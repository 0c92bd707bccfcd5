import Mathlib.Data.List.Basic

namespace Cscrypto.Data

/-! # Stores

A store hands out addresses and never hands one out twice: allocating appends
a cell, and freeing leaves an empty one.
-/

structure Store (α : Type*) where
  cells : List (Option α)

namespace Store

variable {α : Type*} {store : Store α} {address other : Nat} {value old found : α}

def empty : Store α := ⟨[]⟩

def find (store : Store α) (address : Nat) : Option α := store.cells[address]?.join

/-- The address of the next allocation. -/
def fresh (store : Store α) : Nat := store.cells.length

def alloc (store : Store α) (value : α) : Store α := ⟨store.cells ++ [some value]⟩

def set (store : Store α) (address : Nat) (value : α) : Store α :=
  ⟨store.cells.set address (some value)⟩

def free (store : Store α) (address : Nat) : Store α := ⟨store.cells.set address none⟩

/-- How many of the allocated values are chosen. -/
def count (choose : α → Bool) (store : Store α) : Nat :=
  store.cells.countP (fun cell => cell.any choose)

theorem find_eq_some :
    store.find address = some value ↔ store.cells[address]? = some (some value) := by
  simp [find, Option.join_eq_some_iff]

theorem lt_fresh (at_address : store.find address = some value) : address < store.fresh := by
  have inside := find_eq_some.mp at_address
  exact (List.getElem?_eq_some_iff.mp inside).1

@[simp] theorem find_fresh : store.find store.fresh = none := by
  simp [find, fresh]

theorem ne_fresh (at_address : store.find address = some value) : address ≠ store.fresh :=
  Nat.ne_of_lt (lt_fresh at_address)

/-- Two addresses with different values are different. -/
theorem ne_of_find (at_address : store.find address = some value)
    (at_other : store.find other = some found) (different : value ≠ found) : address ≠ other := by
  intro same
  subst same
  exact different (Option.some.inj (at_address.symm.trans at_other))

@[simp] theorem find_alloc_fresh : (store.alloc value).find store.fresh = some value := by
  simp [find, alloc, fresh]

theorem find_alloc_of_ne (different : address ≠ store.fresh) :
    (store.alloc value).find address = store.find address := by
  unfold find alloc
  rcases Nat.lt_or_gt_of_ne different with before | after
  · rw [List.getElem?_append_left before]
  · have outside : (store.cells ++ [some value]).length ≤ address := by
      rw [List.length_append]
      exact after
    rw [List.getElem?_eq_none outside, List.getElem?_eq_none (Nat.le_of_lt after)]

theorem find_alloc (store : Store α) (value : α) (address : Nat) :
    (store.alloc value).find address =
      if address = store.fresh then some value else store.find address := by
  split
  · rename_i same
    rw [same, find_alloc_fresh]
  · rename_i different
    exact find_alloc_of_ne different

theorem find_alloc_eq_some : (store.alloc value).find address = some found ↔
    (address = store.fresh ∧ found = value) ∨
      (address ≠ store.fresh ∧ store.find address = some found) := by
  rw [find_alloc]
  split
  · rename_i same
    simp [same, eq_comm]
  · rename_i different
    simp [different]

theorem find_alloc_of_find (at_address : store.find address = some found) :
    (store.alloc value).find address = some found := by
  rw [find_alloc_of_ne (ne_fresh at_address), at_address]

@[simp] theorem fresh_alloc : (store.alloc value).fresh = store.fresh + 1 := by
  simp [fresh, alloc]

@[simp] theorem fresh_set : (store.set address value).fresh = store.fresh := by
  simp [fresh, set]

@[simp] theorem fresh_free : (store.free address).fresh = store.fresh := by
  simp [fresh, free]

theorem find_set_self (at_address : store.find address = some old) :
    (store.set address value).find address = some value := by
  have inside := lt_fresh at_address
  rw [find_eq_some, set, List.getElem?_set_self inside]

theorem find_set_of_ne (different : other ≠ address) :
    (store.set address value).find other = store.find other := by
  rw [find, set, List.getElem?_set_ne (Ne.symm different), find]

theorem isSome_find_set (at_address : store.find address = some old) (value : α) (other : Nat) :
    ((store.set address value).find other).isSome = (store.find other).isSome := by
  by_cases same : other = address
  · rw [same, at_address, find_set_self at_address]
    rfl
  · rw [find_set_of_ne same]

/-- A cell that was full is full after any cell is set. -/
theorem exists_find_set (at_address : store.find address = some old)
    (at_other : store.find other = some found) :
    ∃ found, (store.set address value).find other = some found := by
  have kept := isSome_find_set at_address value other
  rw [at_other] at kept
  exact Option.isSome_iff_exists.mp kept

theorem find_set_eq_some (at_address : store.find address = some old) :
    (store.set address value).find other = some found ↔
      (other = address ∧ found = value) ∨ (other ≠ address ∧ store.find other = some found) := by
  by_cases same : other = address
  · subst same
    rw [find_set_self at_address]
    simp [eq_comm]
  · rw [find_set_of_ne same]
    simp [same]

@[simp] theorem find_free_self : (store.free address).find address = none := by
  unfold find free
  by_cases inside : address < store.cells.length
  · rw [List.getElem?_set_self inside]
    rfl
  · rw [List.getElem?_eq_none (by rw [List.length_set]; exact Nat.le_of_not_lt inside)]
    rfl

theorem find_free_of_ne (different : other ≠ address) :
    (store.free address).find other = store.find other := by
  rw [find, free, List.getElem?_set_ne (Ne.symm different), find]

theorem find_of_find_free (at_other : (store.free address).find other = some value) :
    other ≠ address ∧ store.find other = some value := by
  by_cases same : other = address
  · rw [same, find_free_self] at at_other
    contradiction
  · rw [find_free_of_ne same] at at_other
    exact ⟨same, at_other⟩

/-- Allocating an address and freeing it. -/
def skip (store : Store α) : Store α := ⟨store.cells ++ [none]⟩

@[simp] theorem free_alloc : (store.alloc value).free store.fresh = store.skip := by
  simp [free, alloc, skip, fresh]

@[simp] theorem free_alloc_alloc :
    ((store.alloc value).alloc found).free store.fresh = store.skip.alloc found := by
  simp [free, alloc, skip, fresh]

@[simp] theorem fresh_skip : store.skip.fresh = store.fresh + 1 := by
  simp [fresh, skip]

@[simp] theorem find_skip : store.skip.find address = store.find address := by
  unfold find skip
  rcases Nat.lt_or_ge address store.cells.length with inside | outside
  · rw [List.getElem?_append_left inside]
  · rw [List.getElem?_append_right outside, List.getElem?_eq_none outside]
    cases address - store.cells.length <;> rfl

@[simp] theorem set_alloc_fresh : (store.alloc old).set store.fresh value = store.alloc value := by
  simp [set, alloc, fresh]

@[simp] theorem set_set : (store.set address old).set address value = store.set address value := by
  simp [set]

theorem set_eq_self (at_address : store.find address = some value) :
    store.set address value = store := by
  obtain ⟨inside, cell⟩ := List.getElem?_eq_some_iff.mp (find_eq_some.mp at_address)
  rw [set, ← cell, List.set_getElem_self]

theorem free_eq_self (absent : store.find address = none) : store.free address = store := by
  by_cases inside : address < store.cells.length
  · have cell : store.cells[address] = none := by
      cases held : store.cells[address] with
      | none => rfl
      | some value =>
          have present := find_eq_some.mpr (List.getElem?_eq_some_iff.mpr ⟨inside, held⟩)
          cases absent.symm.trans present
    rw [free, ← cell, List.set_getElem_self]
  · rw [free, List.set_eq_of_length_le (Nat.le_of_not_lt inside)]

@[simp] theorem free_set : (store.set address value).free address = store.free address := by
  simp [set, free]

variable (choose : α → Bool)

@[simp] theorem count_alloc :
    (store.alloc value).count choose = store.count choose + if choose value then 1 else 0 := by
  simp [count, alloc, List.countP_append, List.countP_singleton]

@[simp] theorem count_skip : store.skip.count choose = store.count choose := by
  simp [count, skip]

private theorem count_replace (cells : List (Option α)) (inside : address < cells.length)
    (cell : Option α) (at_address : cells[address] = some old) :
    (cells.set address cell).countP (fun cell => cell.any choose) +
        (if choose old then 1 else 0) =
      cells.countP (fun cell => cell.any choose) + if cell.any choose then 1 else 0 := by
  have counted := List.countP_set (p := fun cell => cell.any choose) (a := cell) inside
  have member : cells[address] ∈ cells := List.getElem_mem inside
  rw [at_address] at counted member
  rw [counted]
  simp only [Option.any_some]
  split
  · rename_i chosen
    have positive : 0 < cells.countP (fun cell => cell.any choose) :=
      List.countP_pos_iff.mpr ⟨some old, member, chosen⟩
    omega
  · omega

theorem count_set (at_address : store.find address = some old) :
    (store.set address value).count choose + (if choose old then 1 else 0) =
      store.count choose + if choose value then 1 else 0 := by
  obtain ⟨inside, cell⟩ := List.getElem?_eq_some_iff.mp (find_eq_some.mp at_address)
  exact count_replace choose store.cells inside (some value) cell

theorem count_free (at_address : store.find address = some old) :
    (store.free address).count choose + (if choose old then 1 else 0) = store.count choose := by
  obtain ⟨inside, cell⟩ := List.getElem?_eq_some_iff.mp (find_eq_some.mp at_address)
  have counted := count_replace choose store.cells inside none cell
  rwa [Option.any_none, if_neg Bool.false_ne_true, Nat.add_zero] at counted

theorem count_pos {choose : α → Bool} : 0 < store.count choose ↔
    ∃ address value, store.find address = some value ∧ choose value = true := by
  rw [count, List.countP_pos_iff]
  constructor
  · intro given
    obtain ⟨cell, member, chosen⟩ := given
    obtain ⟨address, at_address⟩ := List.mem_iff_getElem?.mp member
    cases cell with
    | none => contradiction
    | some value => exact ⟨address, value, find_eq_some.mpr at_address, chosen⟩
  · intro given
    obtain ⟨address, value, at_address, chosen⟩ := given
    exact ⟨some value, List.mem_iff_getElem?.mpr ⟨address, find_eq_some.mp at_address⟩, chosen⟩

/-- Filling an empty cell. -/
theorem count_set_free (at_address : store.find address = some old) :
    (store.set address value).count choose =
      (store.free address).count choose + if choose value then 1 else 0 := by
  have filled : (store.set address value).count choose + _ = _ := count_set choose at_address
  have freed := count_free choose at_address
  omega

/-- One value is added and the others stay where they are. -/
structure Adds (before after : Store α) (value : α) : Prop where
  find : ∀ address found, after.find address = some found →
    before.find address = some found ∨ found = value
  keeps : ∀ address found, before.find address = some found → after.find address = some found
  count : ∀ choose, after.count choose = before.count choose + if choose value then 1 else 0

theorem adds_alloc (store : Store α) (value : α) : store.Adds (store.alloc value) value where
  find := by
    intro address found at_address
    rw [find_alloc] at at_address
    split at at_address
    · cases at_address
      exact .inr rfl
    · exact .inl at_address
  keeps _ _ at_address := find_alloc_of_find at_address
  count choose := count_alloc choose

theorem adds_set_free (at_address : store.find address = some old) (value : α) :
    (store.free address).Adds (store.set address value) value where
  find := by
    intro other found at_other
    by_cases same : other = address
    · rw [same, find_set_self at_address] at at_other
      cases at_other
      exact .inr rfl
    · rw [find_set_of_ne same] at at_other
      rw [find_free_of_ne same]
      exact .inl at_other
  keeps := by
    intro other found at_other
    obtain ⟨different, before⟩ := find_of_find_free at_other
    rwa [find_set_of_ne different]
  count choose := count_set_free choose at_address

end Store

end Cscrypto.Data
