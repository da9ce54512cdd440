import Mathlib.Tactic.TypeStar

/-! # Runs

A system takes steps, each by an action, and a step may be impossible.  A run takes one step after the other.  Where
some steps are faults, either a run meets none, and it keeps what the other steps keep, or it meets one, and what
that has broken stays broken.
-/

namespace Runs

variable {State Action : Type*} (step : State → Action → Option State) (fault : State → Action → Prop)

def run : State → List Action → Option State
  | state, [] => some state
  | state, action :: actions => (step state action).bind fun next => run next actions

/-- No step of a run is a fault. -/
def Avoids : State → List Action → Prop
  | _, [] => True
  | state, action :: actions =>
    ¬fault state action ∧ ∀ next, step state action = some next → Avoids next actions

/-- A property of a state and of all states that a run goes through from it. -/
def Always (holds : State → Prop) : State → List Action → Prop
  | state, [] => holds state
  | state, action :: actions => holds state ∧ ∀ next, step state action = some next → Always holds next actions

variable {step fault}

/-- What every step keeps, a run keeps. -/
theorem run_keeps {invariant : State → Prop}
    (keeps : ∀ state action next, invariant state → step state action = some next → invariant next)
    {state last : State} {actions : List Action} (before : invariant state)
    (ran : run step state actions = some last) : invariant last := by
  induction actions generalizing state with
  | nil =>
    cases ran
    exact before
  | cons action actions inductionHypothesis =>
    obtain ⟨next, stepped, rest⟩ := Option.bind_eq_some_iff.mp ran
    exact inductionHypothesis (keeps state action next before stepped) rest

theorem avoids_cons_of_step {state next : State} {action : Action} {actions : List Action}
    (stepped : step state action = some next) :
    Avoids step fault state (action :: actions) ↔ ¬fault state action ∧ Avoids step fault next actions := by
  rw [Avoids, stepped]
  simp only [Option.some.injEq, forall_eq']

/-- A run is safe at its end and meets no fault, or it meets one and is broken at its end. -/
theorem run_cases {safe broken : State → Prop}
    (keeps : ∀ state action next, safe state → ¬fault state action → step state action = some next → safe next)
    (breaks : ∀ state action next, safe state → fault state action → step state action = some next → broken next)
    (stays : ∀ state action next, broken state → step state action = some next → broken next)
    {state last : State} {actions : List Action} (before : safe state) (ran : run step state actions = some last) :
    safe last ∧ Avoids step fault state actions ∨ broken last ∧ ¬Avoids step fault state actions := by
  induction actions generalizing state with
  | nil =>
    cases ran
    exact .inl ⟨before, trivial⟩
  | cons action actions inductionHypothesis =>
    obtain ⟨next, stepped, rest⟩ := Option.bind_eq_some_iff.mp ran
    rw [avoids_cons_of_step stepped]
    by_cases here : fault state action
    · exact .inr ⟨run_keeps stays (breaks state action next before here stepped) rest, fun avoids => avoids.1 here⟩
    · simp only [here, not_false_eq_true, true_and]
      exact inductionHypothesis (keeps state action next before here stepped) rest

/-! ## Properties of all states -/

theorem Always.first {holds : State → Prop} {state : State} {actions : List Action}
    (always : Always step holds state actions) : holds state := by
  cases actions with
  | nil => exact always
  | cons action actions => exact always.1

theorem Always.last {holds : State → Prop} {state last : State} {actions : List Action}
    (always : Always step holds state actions) (ran : run step state actions = some last) : holds last := by
  induction actions generalizing state with
  | nil =>
    cases ran
    exact always
  | cons action actions inductionHypothesis =>
    obtain ⟨next, stepped, rest⟩ := Option.bind_eq_some_iff.mp ran
    exact inductionHypothesis (always.2 next stepped) rest

/-- Where the faults are the steps that end a property, it holds all along a run that meets none, and only there. -/
theorem always_iff_avoids {holds : State → Prop}
    (exact_ : ∀ state action next, holds state → step state action = some next →
      (holds next ↔ ¬fault state action))
    {state last : State} {actions : List Action} (before : holds state) (ran : run step state actions = some last) :
    Always step holds state actions ↔ Avoids step fault state actions := by
  induction actions generalizing state with
  | nil => exact iff_of_true before trivial
  | cons action actions inductionHypothesis =>
    obtain ⟨next, stepped, rest⟩ := Option.bind_eq_some_iff.mp ran
    have kept := exact_ state action next before stepped
    rw [avoids_cons_of_step stepped]
    constructor
    · intro always
      have later := always.2 next stepped
      exact ⟨kept.mp later.first, (inductionHypothesis later.first rest).mp later⟩
    · rintro ⟨faultless, avoids⟩
      refine ⟨before, fun other stepped' => ?_⟩
      rw [stepped, Option.some.injEq] at stepped'
      exact stepped' ▸ (inductionHypothesis (kept.mpr faultless) rest).mpr avoids

end Runs
