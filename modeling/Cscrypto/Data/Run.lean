import Mathlib.Data.List.Induction

namespace Cscrypto.Data

/-! # Runs of a system that may fail

A system is a step function on states; a run applies it to a list of actions
and ends early when a step fails.  A property that every successful step
preserves holds after every successful run.
-/

variable {State Action Failure : Type*} {step : State → Action → Except Failure State}

theorem foldlM_cons_ok {state last : State} {action : Action} {rest : List Action} :
    (action :: rest).foldlM step state = .ok last ↔
      ∃ next, step state action = .ok next ∧ rest.foldlM step next = .ok last := by
  rw [List.foldlM_cons]
  cases step state action with
  | error failure =>
      constructor
      · intro failed
        contradiction
      · intro given
        obtain ⟨_, failed, _⟩ := given
        contradiction
  | ok next =>
      constructor
      · exact fun ran => ⟨next, rfl, ran⟩
      · intro given
        obtain ⟨_, same, ran⟩ := given
        cases same
        exact ran

theorem foldlM_concat_ok {state last : State} {actions : List Action} {action : Action} :
    (actions ++ [action]).foldlM step state = .ok last ↔
      ∃ middle, actions.foldlM step state = .ok middle ∧ step middle action = .ok last := by
  induction actions generalizing state with
  | nil =>
      rw [List.nil_append, foldlM_cons_ok]
      constructor
      · intro given
        obtain ⟨next, stepped, ran⟩ := given
        cases ran
        exact ⟨state, rfl, stepped⟩
      · intro given
        obtain ⟨_, same, stepped⟩ := given
        cases same
        exact ⟨last, stepped, rfl⟩
  | cons first rest ih =>
      rw [List.cons_append, foldlM_cons_ok]
      constructor
      · intro given
        obtain ⟨next, stepped, ran⟩ := given
        obtain ⟨middle, ran, stepped'⟩ := ih.mp ran
        exact ⟨middle, foldlM_cons_ok.mpr ⟨next, stepped, ran⟩, stepped'⟩
      · intro given
        obtain ⟨middle, ran, stepped'⟩ := given
        obtain ⟨next, stepped, ran⟩ := foldlM_cons_ok.mp ran
        exact ⟨next, stepped, ih.mpr ⟨middle, ran, stepped'⟩⟩

theorem foldlM_preserves {property : State → Prop}
    (preserves : ∀ state action next, property state → step state action = .ok next → property next)
    {actions : List Action} {state last : State} (start : property state)
    (ran : actions.foldlM step state = .ok last) : property last := by
  induction actions generalizing state with
  | nil =>
      cases ran
      exact start
  | cons action rest ih =>
      obtain ⟨next, stepped, ran⟩ := foldlM_cons_ok.mp ran
      exact ih (preserves state action next start stepped) ran

/-- The induction over a run for a property of the state and of the actions that
led to it. -/
theorem foldlM_history {property : List Action → State → Prop}
    (preserves : ∀ past state action next, property past state →
      step state action = .ok next → property (past ++ [action]) next)
    {actions : List Action} {state last : State} (start : property [] state)
    (ran : actions.foldlM step state = .ok last) : property actions last := by
  induction actions using List.reverseRecOn generalizing last with
  | nil =>
      cases ran
      exact start
  | append_singleton past action ih =>
      obtain ⟨middle, ran, stepped⟩ := foldlM_concat_ok.mp ran
      exact preserves past middle action last (ih ran) stepped

/-- Where no step fails, no run does. -/
theorem foldlM_succeeds {invariant : State → Prop}
    (steps : ∀ state action, invariant state →
      ∃ next, step state action = .ok next ∧ invariant next)
    (actions : List Action) {state : State} (start : invariant state) :
    ∃ last, actions.foldlM step state = .ok last ∧ invariant last := by
  induction actions generalizing state with
  | nil => exact ⟨state, rfl, start⟩
  | cons action rest ih =>
      obtain ⟨next, stepped, holds⟩ := steps state action start
      obtain ⟨last, ran, holds⟩ := ih holds
      exact ⟨last, foldlM_cons_ok.mpr ⟨next, stepped, ran⟩, holds⟩

/-- A run fails only in the ways in which its steps fail. -/
theorem foldlM_error {invariant : State → Prop} {allowed : Failure → Prop}
    (preserves : ∀ state action next, invariant state → step state action = .ok next →
      invariant next)
    (fails : ∀ state action failure, invariant state → step state action = .error failure →
      allowed failure)
    {actions : List Action} {state : State} {failure : Failure} (start : invariant state)
    (failed : actions.foldlM step state = .error failure) : allowed failure := by
  induction actions generalizing state with
  | nil => contradiction
  | cons action rest ih =>
      rw [List.foldlM_cons] at failed
      cases stepped : step state action with
      | error reason =>
          rw [stepped] at failed
          cases failed
          exact fails state action _ start stepped
      | ok next =>
          rw [stepped] at failed
          exact ih (preserves state action next start stepped) failed

/-- The property holds in every state that a run reaches, also in a run that
ends early. -/
def Always (step : State → Action → Except Failure State) (property : State → Prop) :
    State → List Action → Prop
  | state, [] => property state
  | state, action :: rest =>
      property state ∧ ∀ next, step state action = .ok next → Always step property next rest

/-- Every action of a run, also the one that fails, is taken under the
condition. -/
def EveryStep (step : State → Action → Except Failure State) (condition : State → Action → Prop) :
    State → List Action → Prop
  | _, [] => True
  | state, action :: rest =>
      condition state action ∧ ∀ next, step state action = .ok next →
        EveryStep step condition next rest

theorem EveryStep.of_forall {condition : State → Action → Prop} {actions : List Action}
    (every : ∀ action ∈ actions, ∀ state, condition state action) (state : State) :
    EveryStep step condition state actions := by
  induction actions generalizing state with
  | nil => trivial
  | cons action rest ih =>
      exact ⟨every action List.mem_cons_self state,
        fun next _ => ih (fun other inside => every other (.tail _ inside)) next⟩

theorem everyStep_congr {condition other : State → Action → Prop}
    (same : ∀ state action, condition state action ↔ other state action)
    (actions : List Action) (state : State) :
    EveryStep step condition state actions ↔ EveryStep step other state actions := by
  induction actions generalizing state with
  | nil => exact Iff.rfl
  | cons action rest ih =>
      rw [EveryStep, EveryStep, same]
      exact and_congr_right (fun _ => forall₂_congr fun next _ => ih next)

/-- Two conditions that agree wherever an invariant holds. -/
theorem everyStep_congr_of_invariant {condition other : State → Action → Prop}
    {invariant : State → Prop}
    (preserves : ∀ state action next, invariant state → step state action = .ok next →
      invariant next)
    (same : ∀ state action, invariant state → (condition state action ↔ other state action))
    (actions : List Action) {state : State} (start : invariant state) :
    EveryStep step condition state actions ↔ EveryStep step other state actions := by
  induction actions generalizing state with
  | nil => exact Iff.rfl
  | cons action rest ih =>
      rw [EveryStep, EveryStep, same state action start]
      exact and_congr_right (fun _ => forall₂_congr fun next stepped =>
        ih (preserves state action next start stepped))

/-- The steps of a run are those behind its beginnings. -/
theorem everyStep_iff_split {condition : State → Action → Prop} {actions : List Action}
    {state : State} :
    EveryStep step condition state actions ↔ ∀ front action back last,
      actions = front ++ action :: back → front.foldlM step state = .ok last →
      condition last action := by
  induction actions generalizing state with
  | nil => simp [EveryStep]
  | cons first rest ih =>
      constructor
      · intro every front action back last split ran
        cases front with
        | nil =>
            cases split
            cases ran
            exact every.1
        | cons other front =>
            cases split
            obtain ⟨next, stepped, ran⟩ := foldlM_cons_ok.mp ran
            exact ih.mp (every.2 next stepped) front action back last rfl ran
      · intro every
        refine ⟨every [] first rest state rfl rfl, fun next stepped => ih.mpr ?_⟩
        intro front action back last split ran
        exact every (first :: front) action back last (by rw [split, List.cons_append])
          (foldlM_cons_ok.mpr ⟨next, stepped, ran⟩)

theorem everyStep_concat {condition : State → Action → Prop} {actions : List Action}
    {action : Action} {state last : State} (ran : actions.foldlM step state = .ok last) :
    EveryStep step condition state (actions ++ [action]) ↔
      EveryStep step condition state actions ∧ condition last action := by
  induction actions generalizing state with
  | nil =>
      cases ran
      simp [EveryStep]
  | cons first rest ih =>
      obtain ⟨next, stepped, ran⟩ := foldlM_cons_ok.mp ran
      rw [List.cons_append, EveryStep, EveryStep, stepped]
      simp only [Except.ok.injEq, forall_eq', ih ran, and_assoc]

theorem Always.start {property : State → Prop} {actions : List Action} {state : State}
    (always : Always step property state actions) : property state := by
  cases actions with
  | nil => exact always
  | cons action rest => exact always.1

/-- The states of a run are the ends of its prefixes. -/
theorem always_iff_split {property : State → Prop} {actions : List Action} {state : State} :
    Always step property state actions ↔ ∀ front back last, actions = front ++ back →
      front.foldlM step state = .ok last → property last := by
  constructor
  · intro always front back last split ran
    induction front generalizing actions state with
    | nil =>
        cases ran
        exact always.start
    | cons action front ih =>
        subst split
        obtain ⟨next, stepped, ran⟩ := foldlM_cons_ok.mp ran
        exact ih (always.2 next stepped) rfl ran
  · intro every
    induction actions generalizing state with
    | nil => exact every [] [] state rfl rfl
    | cons action rest ih =>
        refine ⟨every [] _ state rfl rfl, ?_⟩
        intro next stepped
        refine ih ?_
        intro front back last split ran
        exact every (action :: front) back last (by rw [split, List.cons_append])
          (foldlM_cons_ok.mpr ⟨next, stepped, ran⟩)

/-- An invariant that holds at the start and over every step under the
condition. -/
theorem EveryStep.always {condition : State → Action → Prop} {property : State → Prop}
    (preserves : ∀ state action next, property state → condition state action →
      step state action = .ok next → property next)
    {actions : List Action} {state : State} (start : property state)
    (meets : EveryStep step condition state actions) : Always step property state actions := by
  induction actions generalizing state with
  | nil => exact start
  | cons action rest ih =>
      refine ⟨start, ?_⟩
      intro next stepped
      exact ih (preserves state action next start meets.1 stepped) (meets.2 next stepped)

/-- A condition under which an invariant is kept, and what both imply. -/
theorem EveryStep.mono {condition other : State → Action → Prop} {invariant : State → Prop}
    (preserves : ∀ state action next, invariant state → condition state action →
      step state action = .ok next → invariant next)
    (implies : ∀ state action, invariant state → condition state action → other state action)
    {actions : List Action} {state : State} (start : invariant state)
    (meets : EveryStep step condition state actions) : EveryStep step other state actions := by
  induction actions generalizing state with
  | nil => trivial
  | cons action rest ih =>
      refine ⟨implies state action start meets.1, ?_⟩
      intro next stepped
      exact ih (preserves state action next start meets.1 stepped) (meets.2 next stepped)

theorem everyStep_of_invariant {condition : State → Action → Prop} {invariant : State → Prop}
    (preserves : ∀ state action next, invariant state → step state action = .ok next →
      invariant next)
    (meets : ∀ state action, invariant state → condition state action)
    (actions : List Action) {state : State} (start : invariant state) :
    EveryStep step condition state actions := by
  induction actions generalizing state with
  | nil => trivial
  | cons action rest ih =>
      exact ⟨meets state action start, fun next stepped =>
        ih (preserves state action next start stepped)⟩

theorem always_of_invariant {invariant : State → Prop}
    (preserves : ∀ state action next, invariant state → step state action = .ok next →
      invariant next)
    {actions : List Action} {state : State} (start : invariant state) :
    Always step invariant state actions :=
  EveryStep.always (fun state action next holds (_ : True) stepped =>
    preserves state action next holds stepped) start
    (EveryStep.of_forall (fun _ _ _ => trivial) state)

theorem Always.imp {property weaker : State → Prop}
    (weakens : ∀ state, property state → weaker state)
    {actions : List Action} {state : State} (always : Always step property state actions) :
    Always step weaker state actions := by
  induction actions generalizing state with
  | nil => exact weakens state always
  | cons action rest ih =>
      exact ⟨weakens state always.1, fun next stepped => ih (always.2 next stepped)⟩

/-- When every step against the condition ends in a state without the
property, the condition is exact. -/
theorem always_iff_everyStep {condition : State → Action → Prop} {invariant property : State → Prop}
    (preserves : ∀ state action next, invariant state → condition state action →
      step state action = .ok next → invariant next)
    (holds : ∀ state, invariant state → property state)
    (breaks : ∀ state action, invariant state → ¬condition state action →
      ∃ next, step state action = .ok next ∧ ¬property next)
    {actions : List Action} {state : State} (start : invariant state) :
    Always step property state actions ↔ EveryStep step condition state actions := by
  constructor
  · intro always
    induction actions generalizing state with
    | nil => trivial
    | cons action rest ih =>
        have met : condition state action := by
          by_contra against
          obtain ⟨next, stepped, lost⟩ := breaks state action start against
          exact lost (always.2 next stepped).start
        exact ⟨met, fun next stepped =>
          ih (preserves state action next start met stepped) (always.2 next stepped)⟩
  · intro meets
    exact (EveryStep.always preserves start meets).imp holds

/-- A part of a system is reached when some actions of its own lead to its
state, whatever the other parts do in between. -/
def Reaches (step : State → Action → Except Failure State) (start last : State) : Prop :=
  ∃ actions : List Action, actions.foldlM step start = .ok last

theorem Reaches.refl (step : State → Action → Except Failure State) (state : State) :
    Reaches step state state := ⟨[], rfl⟩

theorem Reaches.tail {start state next : State} {action : Action}
    (reaches : Reaches step start state) (stepped : step state action = .ok next) :
    Reaches step start next := by
  obtain ⟨actions, ran⟩ := reaches
  exact ⟨actions ++ [action], foldlM_concat_ok.mpr ⟨state, ran, stepped⟩⟩

theorem Reaches.append {start state last : State} {actions : List Action}
    (reaches : Reaches step start state) (ran : actions.foldlM step state = .ok last) :
    Reaches step start last := by
  induction actions generalizing state with
  | nil =>
      cases ran
      exact reaches
  | cons action rest ih =>
      obtain ⟨next, stepped, ran⟩ := foldlM_cons_ok.mp ran
      exact ih (reaches.tail stepped) ran

/-- What every step of the part preserves. -/
theorem Reaches.preserves {property : State → Prop}
    (preserved : ∀ state action next, property state → step state action = .ok next →
      property next)
    {start last : State} (reaches : Reaches step start last) (holds : property start) :
    property last := by
  obtain ⟨actions, ran⟩ := reaches
  exact foldlM_preserves preserved holds ran

variable {next : State → Action → State}

theorem foldl_preserves {property : State → Prop}
    (preserves : ∀ state action, property state → property (next state action))
    (actions : List Action) {state : State} (start : property state) :
    property (actions.foldl next state) := by
  induction actions generalizing state with
  | nil => exact start
  | cons action rest ih => exact ih (preserves state action start)

/-- What does not matter for one step does not matter for a run. -/
theorem foldl_view {view : State → State} (idempotent : ∀ state, view (view state) = view state)
    (steps : ∀ state action, view (next (view state) action) = view (next state action))
    (actions : List Action) (start : State) :
    view (actions.foldl next (view start)) = view (actions.foldl next start) := by
  induction actions generalizing start with
  | nil => exact idempotent start
  | cons action rest ih => rw [List.foldl_cons, ← ih, steps, ih, List.foldl_cons]

/-- A run that can fail, seen as a part of a total system. -/
theorem foldl_map_of_foldlM {Part Event : Type*} {part : Part → Event → Except Failure Part}
    {view : Part → State} {act : Event → Action} {events : List Event} {start last : Part}
    (steps : ∀ state event after, event ∈ events → part state event = .ok after →
      next (view state) (act event) = view after)
    (ran : events.foldlM part start = .ok last) :
    (events.map act).foldl next (view start) = view last := by
  induction events generalizing start with
  | nil =>
      cases ran
      rfl
  | cons event rest ih =>
      obtain ⟨middle, stepped, ran⟩ := foldlM_cons_ok.mp ran
      rw [List.map_cons, List.foldl_cons, steps start event middle List.mem_cons_self stepped]
      exact ih (fun state event after inside => steps state event after (.tail _ inside)) ran

def StepsMeet (next : State → Action → State) (condition : State → Action → Prop) :
    State → List Action → Prop
  | _, [] => True
  | state, action :: rest =>
      condition state action ∧ StepsMeet next condition (next state action) rest

theorem StepsMeet.of_forall {condition : State → Action → Prop} {actions : List Action}
    (every : ∀ action ∈ actions, ∀ state, condition state action) (state : State) :
    StepsMeet next condition state actions := by
  induction actions generalizing state with
  | nil => trivial
  | cons action rest ih =>
      exact ⟨every action List.mem_cons_self state,
        ih (fun other inside => every other (.tail _ inside)) _⟩

/-- The induction over a run whose steps all meet a condition. -/
theorem StepsMeet.preserves {condition : State → Action → Prop} {property : State → Prop}
    (preserves : ∀ state action, property state → condition state action →
      property (next state action))
    {actions : List Action} {state : State} (start : property state)
    (meets : StepsMeet next condition state actions) : property (actions.foldl next state) := by
  induction actions generalizing state with
  | nil => exact start
  | cons action rest ih => exact ih (preserves state action start meets.1) meets.2

end Cscrypto.Data
