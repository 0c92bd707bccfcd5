import Mathlib.Data.List.Induction

namespace Cscrypto.Data

/-! # Histories

A history is the list of what has happened, oldest entry first.  It is
explained when every entry is accounted for by the entries before it.
-/

variable {Entry : Type*} {explains : List Entry → Entry → Prop}

def Explained (explains : List Entry → Entry → Prop) (history : List Entry) : Prop :=
  ∀ before entry after, history = before ++ entry :: after → explains before entry

theorem explained_nil : Explained explains [] := by
  intro before entry after same
  simp at same

/-- What is added to a history has to be explained by it and by what was added
before. -/
theorem Explained.append {history added : List Entry} (explained : Explained explains history)
    (continues : ∀ before entry after, added = before ++ entry :: after →
      explains (history ++ before) entry) :
    Explained explains (history ++ added) := by
  intro before entry after same
  rcases List.append_eq_append_iff.mp same with ⟨between, front, back⟩ | ⟨between, front, back⟩
  · rw [front]
    exact continues between entry after back
  · cases between with
    | nil =>
        rw [List.append_nil] at front
        rw [← front, ← List.append_nil history]
        exact continues [] entry after back.symm
    | cons head rest =>
        rw [List.cons_append, List.cons.injEq] at back
        rw [back.1]
        exact explained before head rest front

theorem Explained.of_append {history added : List Entry}
    (explained : Explained explains (history ++ added)) :
    Explained explains history := by
  intro before entry after same
  exact explained before entry (after ++ added) (by rw [same, List.append_assoc, List.cons_append])

theorem explained_concat {history : List Entry} {entry : Entry} :
    Explained explains (history ++ [entry]) ↔
      Explained explains history ∧ explains history entry := by
  constructor
  · intro explained
    exact ⟨explained.of_append, explained history entry [] rfl⟩
  · intro given
    refine given.1.append fun before other after same => ?_
    cases before with
    | nil =>
        cases same
        rw [List.append_nil]
        exact given.2
    | cons head rest => simp at same

/-- Something has happened at some entry, given what was before it. -/
def Occurs (happens : List Entry → Entry → Prop) (history : List Entry) : Prop :=
  ∃ before entry after, history = before ++ entry :: after ∧ happens before entry

variable {happens : List Entry → Entry → Prop}

theorem not_occurs_iff {history : List Entry} :
    ¬Occurs happens history ↔ Explained (fun before entry => ¬happens before entry) history := by
  simp only [Occurs, Explained, not_exists, not_and]

theorem occurs_concat {history : List Entry} {entry : Entry} :
    Occurs happens (history ++ [entry]) ↔ Occurs happens history ∨ happens history entry := by
  rw [← not_iff_not, not_or, not_occurs_iff, explained_concat, not_occurs_iff]

/-- The entry at which it has happened last. -/
def LastOccurs (happens : List Entry → Entry → Prop) (history : List Entry) (entry : Entry) :
    Prop :=
  ∃ before after, history = before ++ entry :: after ∧ happens before entry ∧
    ¬Occurs (fun middle => happens (before ++ entry :: middle)) after

theorem lastOccurs_concat_of {history : List Entry} {entry last : Entry}
    (here : happens history entry) :
    LastOccurs happens (history ++ [entry]) last ↔ last = entry := by
  constructor
  · intro given
    obtain ⟨before, after, split, _, silent⟩ := given
    rcases List.eq_nil_or_concat after with rfl | ⟨after, other, rfl⟩
    · exact (List.concat_inj.mp (by simpa using split)).2.symm
    · rw [List.concat_eq_append, ← List.cons_append, ← List.append_assoc] at split
      obtain ⟨rfl, same⟩ := List.append_inj' split rfl
      cases same
      rw [List.concat_eq_append, occurs_concat] at silent
      exact absurd (.inr here) silent
  · rintro rfl
    refine ⟨history, [], rfl, here, ?_⟩
    rw [not_occurs_iff]
    exact explained_nil

theorem lastOccurs_concat_of_not {history : List Entry} {entry last : Entry}
    (elsewhere : ¬happens history entry) :
    LastOccurs happens (history ++ [entry]) last ↔ LastOccurs happens history last := by
  constructor
  · intro given
    obtain ⟨before, after, split, happened, silent⟩ := given
    rcases List.eq_nil_or_concat after with rfl | ⟨after, other, rfl⟩
    · obtain ⟨rfl, rfl⟩ := List.concat_inj.mp (by simpa using split)
      exact absurd happened elsewhere
    · rw [List.concat_eq_append, ← List.cons_append, ← List.append_assoc] at split
      obtain ⟨rfl, _⟩ := List.append_inj' split rfl
      rw [List.concat_eq_append, occurs_concat] at silent
      exact ⟨before, after, rfl, happened, fun occurs => silent (.inl occurs)⟩
  · intro given
    obtain ⟨before, after, rfl, happened, silent⟩ := given
    refine ⟨before, after ++ [entry], by simp, happened, ?_⟩
    rw [occurs_concat]
    exact not_or.mpr ⟨silent, elsewhere⟩

theorem LastOccurs.mem {history : List Entry} {entry : Entry}
    (last : LastOccurs happens history entry) : entry ∈ history := by
  obtain ⟨before, after, rfl, _⟩ := last
  exact List.mem_append_cons_self

def ExplainedFrom (explains : List Entry → Entry → Prop) : List Entry → List Entry → Prop
  | _, [] => True
  | before, entry :: rest => explains before entry ∧ ExplainedFrom explains (before ++ [entry]) rest

theorem ExplainedFrom.explained {before history : List Entry}
    (explained : Explained explains before)
    (continues : ExplainedFrom explains before history) :
    Explained explains (before ++ history) := by
  induction history generalizing before with
  | nil => rwa [List.append_nil]
  | cons entry rest ih =>
      rw [List.append_cons]
      refine ih (explained.append ?_) continues.2
      intro front other back same
      cases front with
      | nil =>
          cases same
          rw [List.append_nil]
          exact continues.1
      | cons head front => simp at same

/-- The last entry for which `select` is defined. -/
def latest (select : Entry → Option α) (history : List Entry) : Option α :=
  (history.filterMap select).getLast?

theorem latest_concat (select : Entry → Option α) (history : List Entry) (entry : Entry) :
    latest select (history ++ [entry]) = (select entry).or (latest select history) := by
  rw [latest, List.filterMap_append, List.getLast?_append, latest]
  cases selected : select entry with
  | none => simp [selected]
  | some value => simp [selected]

theorem latest_append (select : Entry → Option α) (history added : List Entry) :
    latest select (history ++ added) = (latest select added).or (latest select history) := by
  rw [latest, List.filterMap_append, List.getLast?_append, latest, latest]

theorem mem_of_latest {select : Entry → Option α} {history : List Entry}
    (last : latest select history = some value) : ∃ entry ∈ history, select entry = some value :=
  List.mem_filterMap.mp (List.mem_of_getLast? last)

theorem latest_append_of_none {select : Entry → Option α} {history added : List Entry}
    (silent : ∀ entry ∈ added, select entry = none) :
    latest select (history ++ added) = latest select history := by
  rw [latest, List.filterMap_append, List.filterMap_eq_nil_iff.mpr silent, List.append_nil, latest]

theorem latest_append_exists {select : Entry → Option α} {history : List Entry}
    (some : ∃ value, latest select history = some value) (added : List Entry) :
    ∃ value, latest select (history ++ added) = Option.some value := by
  obtain ⟨value, last⟩ := some
  rw [latest] at last ⊢
  rw [List.filterMap_append, List.getLast?_append, last]
  cases (added.filterMap select).getLast? with
  | none => exact ⟨value, rfl⟩
  | some newer => exact ⟨newer, rfl⟩

theorem latest_append_cons {select : Entry → Option α} {history rest : List Entry} {entry : Entry}
    (selected : select entry = some value) (silent : ∀ other ∈ rest, select other = none) :
    latest select (history ++ entry :: rest) = some value := by
  rw [latest, List.filterMap_append, List.filterMap_cons_some selected,
    List.filterMap_eq_nil_iff.mpr silent, List.getLast?_append, List.getLast?_singleton]
  rfl

/-- The last selected entry and what has come after it. -/
theorem exists_of_latest {select : Entry → Option α} {history : List Entry}
    (last : latest select history = some value) :
    ∃ before entry after, history = before ++ entry :: after ∧ select entry = some value ∧
      ∀ other ∈ after, select other = none := by
  induction history using List.reverseRecOn with
  | nil => contradiction
  | append_singleton history entry ih =>
      rw [latest_concat] at last
      cases selected : select entry with
      | some other =>
          rw [selected, Option.some_or] at last
          exact ⟨history, entry, [], rfl, selected.trans last, by simp⟩
      | none =>
          rw [selected, Option.none_or] at last
          obtain ⟨before, found, after, rfl, chosen, silent⟩ := ih last
          refine ⟨before, found, after ++ [entry], by simp, chosen, ?_⟩
          intro other member
          rcases List.mem_append.mp member with earlier | new
          · exact silent other earlier
          · rwa [List.mem_singleton.mp new]

variable {Action : Type*} {log : List Action → List Entry}

/-- A run writes a log. The action after `front` has written the entry that the
log has after `before`. -/
structure Writes (log : List Action → List Entry) (actions front : List Action) (action : Action)
    (before : List Entry) (entry : Entry) : Prop where
  inside : front ++ [action] <+: actions
  since : log front <+: before
  added : before ++ [entry] <+: log (front ++ [action])

theorem Writes.later {actions more front : List Action} {action : Action} {before : List Entry}
    {entry : Entry} (writes : Writes log actions front action before entry) :
    Writes log (actions ++ more) front action before entry :=
  { writes with inside := writes.inside.trans (List.prefix_append _ _) }

/-- The entry is among those that the action has added. -/
theorem Writes.mem {actions front : List Action} {action : Action} {before added : List Entry}
    {entry : Entry} (writes : Writes log actions front action before entry)
    (extended : log (front ++ [action]) = log front ++ added) : entry ∈ added := by
  obtain ⟨_, ⟨between, rfl⟩, last⟩ := writes
  rw [extended, List.append_assoc, List.prefix_append_right_inj] at last
  exact last.subset (List.mem_append_right _ List.mem_cons_self)

theorem exists_writes (nothing : log [] = [])
    (grows : ∀ front action, log front <+: log (front ++ [action])) {actions : List Action}
    {before after : List Entry} {entry : Entry} (split : log actions = before ++ entry :: after) :
    ∃ front action, Writes log actions front action before entry := by
  induction actions using List.reverseRecOn generalizing after with
  | nil =>
      rw [nothing] at split
      simp at split
  | append_singleton front action ih =>
      have whole : before ++ [entry] <+: log (front ++ [action]) := ⟨after, by simp [split]⟩
      rcases List.prefix_or_prefix_of_prefix whole (grows front action) with early | late
      · obtain ⟨more, earlier⟩ := early
        obtain ⟨front, action, writes⟩ := @ih more (by simpa using earlier.symm)
        exact ⟨front, action, writes.later⟩
      · rcases List.prefix_concat_iff.mp late with same | since
        · obtain ⟨front, action, writes⟩ := @ih [] (by simpa using same)
          exact ⟨front, action, writes.later⟩
        · exact ⟨front, action, List.prefix_refl _, since, whole⟩

end Cscrypto.Data
