import Mathlib.Logic.Function.Iterate

namespace Cscrypto.Data

/-! # Loops that test at their end

A `do … while` loop takes a turn and tests the state it has reached.  `doWhile`
runs it with a budget of turns, and `Ends` relates a state to the one in which
the loop without a budget stops.
-/

section

variable {State : Type*} (turn : State → State) (done : State → Bool)

def doWhile : Nat → State → Option State
  | 0, _ => none
  | fuel + 1, state =>
      if done (turn state) then some (turn state) else doWhile fuel (turn state)

inductive Ends : State → State → Prop where
  | here (finished : done (turn state) = true) : Ends state (turn state)
  | later (continues : done (turn state) = false) (rest : Ends (turn state) last) : Ends state last

end

variable {State : Type*} {turn : State → State} {done : State → Bool} {state last : State}

theorem doWhile_of_done (finished : done (turn state) = true) (fuel : Nat) :
    doWhile turn done (fuel + 1) state = some (turn state) := by
  rw [doWhile, if_pos finished]

theorem doWhile_of_continues (continues : done (turn state) = false) (fuel : Nat) :
    doWhile turn done (fuel + 1) state = doWhile turn done fuel (turn state) := by
  rw [doWhile, if_neg (by rw [continues]; decide)]

/-- The budget decides only whether the loop gets to its end. -/
theorem ends_iff_doWhile :
    Ends turn done state last ↔ ∃ fuel, doWhile turn done fuel state = some last := by
  constructor
  · intro ends
    induction ends with
    | here finished => exact ⟨1, doWhile_of_done finished 0⟩
    | later continues _ ih =>
        obtain ⟨fuel, ran⟩ := ih
        exact ⟨fuel + 1, by rw [doWhile_of_continues continues, ran]⟩
  · intro given
    obtain ⟨fuel, ran⟩ := given
    induction fuel generalizing state with
    | zero => contradiction
    | succ fuel ih =>
        cases reached : done (turn state) with
        | true =>
            rw [doWhile_of_done reached] at ran
            cases ran
            exact .here reached
        | false =>
            rw [doWhile_of_continues reached] at ran
            exact .later reached (ih ran)

theorem Ends.unique {other : State} (ends : Ends turn done state last)
    (ends' : Ends turn done state other) : last = other := by
  induction ends with
  | here finished =>
      cases ends' with
      | here _ => rfl
      | later continues _ =>
          rw [finished] at continues
          contradiction
  | later continues _ ih =>
      cases ends' with
      | here finished =>
          rw [finished] at continues
          contradiction
      | later _ rest => exact ih rest

/-- The rule for the loop: what holds before every turn, and what the last turn
makes of it. -/
theorem Ends.rule {invariant result : State → Prop}
    (continues : ∀ state, invariant state → done (turn state) = false → invariant (turn state))
    (finishes : ∀ state, invariant state → done (turn state) = true → result (turn state))
    (ends : Ends turn done state last) (start : invariant state) : result last := by
  induction ends with
  | here finished => exact finishes _ start finished
  | later unfinished _ ih => exact ih (continues _ start unfinished)

theorem Ends.done_eq (ends : Ends turn done state last) : done last = true := by
  induction ends with
  | here finished => exact finished
  | later _ _ ih => exact ih

theorem exists_ends_iff :
    (∃ last, Ends turn done state last) ↔ ∃ turns, done (turn^[turns + 1] state) = true := by
  constructor
  · intro given
    obtain ⟨last, ends⟩ := given
    induction ends with
    | here finished => exact ⟨0, finished⟩
    | later _ _ ih =>
        obtain ⟨turns, finished⟩ := ih
        exact ⟨turns + 1, finished⟩
  · intro given
    obtain ⟨turns, finished⟩ := given
    induction turns generalizing state with
    | zero => exact ⟨_, .here finished⟩
    | succ turns ih =>
        cases reached : done (turn state) with
        | true => exact ⟨_, .here reached⟩
        | false =>
            obtain ⟨last, rest⟩ := ih finished
            exact ⟨last, .later reached rest⟩

-- A loop that appends to a list is told by what comes after each beginning.

section

variable {α : Type*} (next : List α → α × Bool)

/-- `next` gives the element after a list, and whether it is the last one. -/
inductive Unfolds : List α → List α → Prop where
  | stop (finished : (next front).2 = true) : Unfolds front (front ++ [(next front).1])
  | step (continues : (next front).2 = false) (rest : Unfolds (front ++ [(next front).1]) all) :
      Unfolds front all

end

section

variable {α : Type*} {next : List α → α × Bool} {start all : List α}

theorem Unfolds.unique {other : List α} (unfolds : Unfolds next start all)
    (unfolds' : Unfolds next start other) : all = other := by
  induction unfolds with
  | stop finished =>
      cases unfolds' with
      | stop _ => rfl
      | step continues _ =>
          rw [finished] at continues
          contradiction
  | step continues _ ih =>
      cases unfolds' with
      | stop finished =>
          rw [finished] at continues
          contradiction
      | step _ rest => exact ih rest

theorem unfolds_iff :
    Unfolds next start all ↔ ∃ rest, rest ≠ [] ∧ all = start ++ rest ∧
      ∀ front value back, rest = front ++ value :: back →
        next (start ++ front) = (value, back.isEmpty) := by
  constructor
  · intro unfolds
    induction unfolds with
    | @stop start finished =>
        refine ⟨_, List.cons_ne_nil _ _, rfl, ?_⟩
        intro front value back split
        obtain ⟨rfl, same⟩ := List.append_eq_singleton_iff.mp split.symm |>.resolve_right (by simp)
        cases same
        rw [List.append_nil]
        exact Prod.ext rfl finished
    | @step start all continues _ ih =>
        obtain ⟨rest, some, rfl, steps⟩ := ih
        refine ⟨(next start).1 :: rest, List.cons_ne_nil _ _, by rw [List.append_assoc]; rfl, ?_⟩
        intro front value back split
        cases front with
        | nil =>
            cases split
            rw [List.append_nil, List.isEmpty_eq_false_iff.mpr some]
            exact Prod.ext rfl continues
        | cons first front =>
            obtain ⟨rfl, tail⟩ := List.cons.inj split
            rw [← steps front value back tail, List.append_assoc]
            rfl
  · intro given
    obtain ⟨rest, some, rfl, steps⟩ := given
    induction rest generalizing start with
    | nil => contradiction
    | cons value rest ih =>
        have first := steps [] value rest rfl
        rw [List.append_nil] at first
        have value_eq : (next start).1 = value := congrArg Prod.fst first
        by_cases final : rest = []
        · subst final
          rw [← value_eq]
          exact .stop (congrArg Prod.snd first)
        · refine .step ((congrArg Prod.snd first).trans (List.isEmpty_eq_false_iff.mpr final)) ?_
          rw [value_eq, List.append_cons start value rest]
          refine ih final fun front other back split => ?_
          rw [List.append_assoc]
          exact steps (value :: front) other back (congrArg (value :: ·) split)

/-- A loop whose turns append what `next` gives. -/
theorem Ends.unfolds {State : Type*} {turn : State → State} {done : State → Bool}
    {invariant : State → Prop} {trace : State → List α}
    (continues : ∀ state, invariant state → done (turn state) = false → invariant (turn state))
    (appends : ∀ state, invariant state → trace (turn state) =
      trace state ++ [(next (trace state)).1] ∧ done (turn state) = (next (trace state)).2)
    {state last : State} (ends : Ends turn done state last) (start : invariant state) :
    Unfolds next (trace state) (trace last) := by
  induction ends with
  | here finished =>
      obtain ⟨longer, same⟩ := appends _ start
      rw [longer]
      exact .stop (same.symm.trans finished)
  | later unfinished _ ih =>
      obtain ⟨longer, same⟩ := appends _ start
      refine .step (same.symm.trans unfinished) ?_
      rw [← longer]
      exact ih (continues _ start unfinished)

end

end Cscrypto.Data
