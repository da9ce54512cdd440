import Mathlib.Data.List.Basic
import Mathlib.Tactic.TypeStar

/-! # Goroutines

Goroutines stand in a row.  Each receives from the one before it and sends to the one behind it; a channel holds
nothing, so that both sides of it take their step together, and it is closed when the goroutine that sends on it has
stopped.  Between two channel operations a goroutine reads and writes the memory that all share.  One that panics ends
all of them.
-/

namespace Goroutines

variable {Point Message Memory : Type*}

/-- What a goroutine does next, and where it goes on. -/
inductive Instruction (Point Message Memory : Type*) where
  | receive (next : Option Message → Point)
  | send (message : Message) (next : Point)
  | compute (effect : Memory → Memory × Point)
  | start (goroutines : List Point) (next : Point)
  | stop
  | panic

def Instruction.isStop : Instruction Point Message Memory → Bool
  | .stop => true
  | _ => false

def Instruction.isPanic : Instruction Point Message Memory → Bool
  | .panic => true
  | _ => false

/-- The memory, and where each goroutine stands. -/
structure State (Point Memory : Type*) where
  memory : Memory
  goroutines : List Point

variable (program : Point → Instruction Point Message Memory)

/-- The goroutine before a place has closed its channel. -/
def State.closedBefore (s : State Point Memory) : Nat → Bool
  | 0 => false
  | place + 1 => s.goroutines[place]?.any fun point => (program point).isStop

/-- A step of the goroutine at a place.  That of one that sends is also a step of the one that receives. -/
def State.step (s : State Point Memory) (place : Nat) : Option (State Point Memory) :=
  if s.goroutines.any fun point => (program point).isPanic then none
  else
    match s.goroutines[place]?.map program with
    | some (.receive next) =>
      if s.closedBefore program place then some { s with goroutines := s.goroutines.set place (next none) } else none
    | some (.send message next) =>
      match s.goroutines[place + 1]?.map program with
      | some (.receive later) =>
        some { s with goroutines := (s.goroutines.set place next).set (place + 1) (later (some message)) }
      | _ => none
    | some (.compute effect) =>
      some { memory := (effect s.memory).1, goroutines := s.goroutines.set place (effect s.memory).2 }
    | some (.start goroutines next) => some { s with goroutines := s.goroutines.set place next ++ goroutines }
    | some .stop | some .panic | none => none

/-- All goroutines have come to their end. -/
def State.Done (s : State Point Memory) : Prop := ∀ point ∈ s.goroutines, (program point).isStop = true

variable {program}

/-- Only a goroutine that computes changes the memory. -/
theorem step_memory {s next : State Point Memory} {place : Nat} (stepped : s.step program place = some next) :
    (∃ effect, s.goroutines[place]?.map program = some (.compute effect) ∧ next.memory = (effect s.memory).1) ∨
      (∀ effect, s.goroutines[place]?.map program ≠ some (.compute effect)) ∧ next.memory = s.memory := by
  rw [State.step] at stepped
  split at stepped
  · cases stepped
  · cases does : s.goroutines[place]?.map program with
    | none =>
      rw [does] at stepped
      cases stepped
    | some instruction =>
      rw [does] at stepped
      cases instruction with
      | compute effect =>
        cases stepped
        exact .inl ⟨effect, rfl, rfl⟩
      | receive later =>
        simp only at stepped
        split at stepped
        · cases stepped
          exact .inr ⟨fun _ => nofun, rfl⟩
        · cases stepped
      | send message later =>
        simp only at stepped
        split at stepped
        · cases stepped
          exact .inr ⟨fun _ => nofun, rfl⟩
        · cases stepped
      | start started later =>
        cases stepped
        exact .inr ⟨fun _ => nofun, rfl⟩
      | stop => cases stepped
      | panic => cases stepped

/-- Whatever a goroutine does, it goes on at a point with the property, if it stands at one; and so do the goroutines
that it starts. -/
structure Keeps (program : Point → Instruction Point Message Memory) (holds : Point → Prop) : Prop where
  receive : ∀ {point next}, program point = .receive next → holds point → ∀ received, holds (next received)
  send : ∀ {point message next}, program point = .send message next → holds point → holds next
  compute : ∀ {point effect}, program point = .compute effect → holds point → ∀ memory, holds (effect memory).2
  start : ∀ {point goroutines next}, program point = .start goroutines next → holds point →
    holds next ∧ ∀ started ∈ goroutines, holds started

theorem forall_mem_set {holds : Point → Prop} {points : List Point} (all : ∀ point ∈ points, holds point)
    {place : Nat} {point : Point} (here : holds point) : ∀ other ∈ points.set place point, holds other := by
  intro other member
  cases List.mem_or_eq_of_mem_set member with
  | inl before => exact all other before
  | inr same => exact same ▸ here

/-- A step keeps all goroutines at points with a property that the program keeps. -/
theorem Keeps.step {holds : Point → Prop} (keeps : Keeps program holds) {s next : State Point Memory} {place : Nat}
    (all : ∀ point ∈ s.goroutines, holds point) (stepped : s.step program place = some next) :
    ∀ point ∈ next.goroutines, holds point := by
  have here : ∀ {instruction}, s.goroutines[place]?.map program = some instruction →
      ∃ point, program point = instruction ∧ holds point := by
    intro instruction does
    obtain ⟨point, stands, does⟩ := Option.map_eq_some_iff.mp does
    exact ⟨point, does, all point (List.mem_of_getElem? stands)⟩
  rw [State.step] at stepped
  split at stepped
  · cases stepped
  · split at stepped
    · rename_i does
      obtain ⟨point, does, held⟩ := here does
      split at stepped
      · cases stepped
        exact forall_mem_set all (keeps.receive does held none)
      · cases stepped
    · rename_i message _ does
      obtain ⟨point, does, held⟩ := here does
      split at stepped
      · rename_i behind
        obtain ⟨receiver, stands, receives⟩ := Option.map_eq_some_iff.mp behind
        cases stepped
        exact forall_mem_set (forall_mem_set all (keeps.send does held))
          (keeps.receive receives (all receiver (List.mem_of_getElem? stands)) (some message))
      · cases stepped
    · rename_i does
      obtain ⟨point, does, held⟩ := here does
      cases stepped
      exact forall_mem_set all (keeps.compute does held s.memory)
    · rename_i does
      obtain ⟨point, does, held⟩ := here does
      obtain ⟨goesOn, started⟩ := keeps.start does held
      cases stepped
      intro other member
      cases List.mem_append.mp member with
      | inl before => exact forall_mem_set all goesOn other before
      | inr new => exact started other new
    · cases stepped
    · cases stepped
    · cases stepped

end Goroutines
