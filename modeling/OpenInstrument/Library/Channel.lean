import Mathlib.Tactic.TypeStar

/-! # Loops over a channel

A loop receives from one channel and sends on another.  It runs in steps of one input each; a step may
fail, and it may never come to an end, in which case nothing more is received and the output stays
open.  What stands on a channel is what was sent so far, and whether the sender closed it.
-/

/-- What was sent on a channel so far. -/
structure Channel (Item : Type*) where
  items : List Item
  closed : Bool

/-- A loop over a channel.  A turn without a next state does not come to an end. -/
structure Loop (Input Output State Error : Type*) where
  start : State
  turn : State → Input → Except Error (List Output × Option State)
  finish : State → List Output

namespace Loop

variable {Input Output State Error : Type*} {loop : Loop Input Output State Error}

/-- The loop from a state on; when the input was closed, it finishes and closes its output. -/
def runFrom (loop : Loop Input Output State Error) (closed : Bool) :
    State → List Input → Except Error (Channel Output)
  | state, [] => .ok { items := if closed then loop.finish state else [], closed }
  | state, input :: rest =>
    match loop.turn state input with
    | .error error => .error error
    | .ok (sent, none) => .ok { items := sent, closed := false }
    | .ok (sent, some next) =>
      match loop.runFrom closed next rest with
      | .error error => .error error
      | .ok later => .ok { items := sent ++ later.items, closed := later.closed }

def run (loop : Loop Input Output State Error) (input : Channel Input) : Except Error (Channel Output) :=
  loop.runFrom input.closed loop.start input.items

/-- A run that ends, from the state behind its first turn on. -/
theorem exists_of_runFrom_cons {closed : Bool} {state next : State} {input : Input} {rest : List Input}
    {sent : List Output} {output : Channel Output} (turn : loop.turn state input = .ok (sent, some next))
    (ran : loop.runFrom closed state (input :: rest) = .ok output) :
    ∃ later, loop.runFrom closed next rest = .ok later ∧
      output = { items := sent ++ later.items, closed := later.closed } := by
  cases run : loop.runFrom closed next rest with
  | error error =>
    simp only [runFrom, turn, run] at ran
    cases ran
  | ok later =>
    simp only [runFrom, turn, run] at ran
    exact ⟨later, rfl, (Except.ok.inj ran).symm⟩

end Loop
