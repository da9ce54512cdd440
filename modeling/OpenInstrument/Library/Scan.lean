import Mathlib.Order.Basic
import Mathlib.Logic.Relation

/-! # Scanning forward

A scanner is a loop over positions: `step` either ends it with a result or says from where to go on.
A reader calls such a scanner again and again and collects the items it finds.  `Ends` and `Collects`
say what the loops do; `run` and `collect` compute it with a bounded number of turns, which is enough
when the position only moves forward.
-/

namespace Scan

variable {Result Item : Type}

/-- The loop with the body `step` ends with a result. -/
inductive Ends (step : Nat → Result ⊕ Nat) : Nat → Result → Prop where
  | stop {position : Nat} {result : Result} (last : step position = .inl result) :
      Ends step position result
  | turn {position next : Nat} {result : Result} (goes : step position = .inr next)
      (rest : Ends step next result) : Ends step position result

theorem Ends.unique {step : Nat → Result ⊕ Nat} {position : Nat} {first second : Result}
    (left : Ends step position first) (right : Ends step position second) : first = second := by
  induction left with
  | stop last =>
    cases right with
    | stop other => exact Sum.inl.inj (last.symm.trans other)
    | turn goes _ => rw [last] at goes; cases goes
  | turn goes _ inductionHypothesis =>
    cases right with
    | stop other => rw [goes] at other; cases other
    | turn other rest =>
      cases Sum.inr.inj (goes.symm.trans other)
      exact inductionHypothesis rest

/-- Every turn goes on further behind, and within the size. -/
def Advances (step : Nat → Result ⊕ Nat) (size : Nat) : Prop :=
  ∀ position next, step position = .inr next → position < next ∧ next ≤ size

def run (step : Nat → Result ⊕ Nat) (exhausted : Result) : Nat → Nat → Result
  | 0, _ => exhausted
  | fuel + 1, position =>
    match step position with
    | .inl result => result
    | .inr next => run step exhausted fuel next

section Run

variable {step : Nat → Result ⊕ Nat} {exhausted : Result} {size : Nat}

theorem Advances.ends_run (advances : Advances step size) {fuel position : Nat}
    (enough : size - position < fuel) : Ends step position (run step exhausted fuel position) := by
  induction fuel generalizing position with
  | zero => omega
  | succ fuel inductionHypothesis =>
    rw [run]
    cases turn : step position with
    | inl result => exact .stop turn
    | inr next =>
      have forward := advances position next turn
      exact .turn turn (inductionHypothesis (by omega))

theorem Advances.ends (advances : Advances step size) (position : Nat) :
    Ends step position (run step exhausted (size + 1) position) :=
  advances.ends_run (by omega)

theorem Advances.run_eq (advances : Advances step size) {position : Nat} {result : Result}
    (ends : Ends step position result) : run step exhausted (size + 1) position = result :=
  (advances.ends position).unique ends

theorem run_stop {position : Nat} {result : Result} (last : step position = .inl result) :
    run step exhausted (size + 1) position = result := by
  rw [run, last]

theorem Advances.run_turn (advances : Advances step size) {position next : Nat}
    (goes : step position = .inr next) :
    run step exhausted (size + 1) position = run step exhausted (size + 1) next :=
  advances.run_eq (.turn goes (advances.ends next))

end Run

/-! ## Collecting items -/

/-- The items that the calls of a reader yield, up to the first one that yields none. -/
inductive Collects (next : Nat → Option (Item × Nat)) : Nat → List Item → Prop where
  | stop {position : Nat} (last : next position = none) : Collects next position []
  | item {position after : Nat} {item : Item} {items : List Item}
      (found : next position = some (item, after)) (rest : Collects next after items) :
      Collects next position (item :: items)

theorem Collects.unique {next : Nat → Option (Item × Nat)} {position : Nat} {first second : List Item}
    (left : Collects next position first) (right : Collects next position second) :
    first = second := by
  induction left generalizing second with
  | stop last =>
    cases right with
    | stop _ => rfl
    | item found _ => rw [last] at found; cases found
  | item found _ inductionHypothesis =>
    cases right with
    | stop last => rw [found] at last; cases last
    | item other rest =>
      cases Option.some.inj (found.symm.trans other)
      rw [inductionHypothesis rest]

def collect (next : Nat → Option (Item × Nat)) : Nat → Nat → List Item
  | 0, _ => []
  | fuel + 1, position =>
    match next position with
    | none => []
    | some (item, after) => item :: collect next fuel after

/-- Every item ends behind the place from which it was looked for, and within the size. -/
def Progresses (next : Nat → Option (Item × Nat)) (size : Nat) : Prop :=
  ∀ position item after, next position = some (item, after) → position < after ∧ after ≤ size

section Collect

variable {next : Nat → Option (Item × Nat)} {size : Nat}

theorem Progresses.collects_collect (progresses : Progresses next size) {fuel position : Nat}
    (enough : size - position < fuel) : Collects next position (collect next fuel position) := by
  induction fuel generalizing position with
  | zero => omega
  | succ fuel inductionHypothesis =>
    rw [collect]
    cases found : next position with
    | none => exact .stop found
    | some result =>
      obtain ⟨item, after⟩ := result
      have forward := progresses position item after found
      exact .item found (inductionHypothesis (by omega))

theorem Progresses.collects (progresses : Progresses next size) (position : Nat) :
    Collects next position (collect next (size + 1) position) :=
  progresses.collects_collect (by omega)

end Collect

end Scan
