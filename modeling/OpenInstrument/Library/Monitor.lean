import Mathlib.Algebra.Order.BigOperators.Group.Finset
import Mathlib.Data.Fintype.Card
import OpenInstrument.Library.Runs

/-! # Monitors

Threads share a memory, a mutex and a condition variable.  A thread that waits gives the mutex up, and takes it again
before it goes on.  It is woken by a notification, or without one, at any moment.
-/

namespace Monitor

variable {Thread Point Memory : Type*}

/-- What a thread does next, and where it goes on. -/
inductive Instruction (Point Memory : Type*) where
  | lock (next : Point)
  | unlock (next : Point)
  | wait (next : Point)
  | notifyOne (next : Point)
  | notifyAll (next : Point)
  | compute (effect : Memory → Memory × Point)
  | idle

def Instruction.isIdle : Instruction Point Memory → Bool
  | .idle => true
  | _ => false

def Instruction.Tracked (inside : Point → Bool) (point : Point) : Instruction Point Memory → Prop
  | .lock next => inside point = false ∧ inside next = true
  | .unlock next => inside point = true ∧ inside next = false
  | .wait next => inside point = true ∧ inside next = true
  | .notifyOne next => inside next = inside point
  | .notifyAll next => inside next = inside point
  | .compute effect => ∀ memory, inside (effect memory).2 = inside point
  | .idle => inside point = false

/-- A thread that is idle calls the program at one of its entries. -/
structure Program (Point Memory : Type*) where
  instruction : Point → Instruction Point Memory
  entry : Point → Bool
  /-- The thread at a point holds the mutex. -/
  inside : Point → Bool
  entry_outside : ∀ point, entry point = true → inside point = false
  tracked : ∀ point, (instruction point).Tracked inside point

/-- A thread that was woken has still to take the mutex. -/
inductive Standing (Point : Type*) where
  | running (point : Point)
  | waiting (point : Point)
  | woken (point : Point)

namespace Standing

def isWaiting : Standing Point → Bool
  | .waiting _ => true
  | _ => false

def wakeUp : Standing Point → Standing Point
  | .waiting point => .woken point
  | standing => standing

end Standing

structure State (Thread Point Memory : Type*) where
  memory : Memory
  holder : Option Thread
  threads : Thread → Standing Point

inductive Action (Thread Point : Type*) where
  | call (thread : Thread) (entry : Point)
  /-- With the thread that is woken, if that is to be one. -/
  | step (thread : Thread) (woken : Option Thread)
  | wake (thread : Thread)

def Action.isStep : Action Thread Point → Bool
  | .step _ _ => true
  | _ => false

namespace State

variable [DecidableEq Thread] (program : Program Point Memory)

def move (s : State Thread Point Memory) (thread : Thread) (standing : Standing Point) : State Thread Point Memory :=
  { s with threads := Function.update s.threads thread standing }

def Unwaited (s : State Thread Point Memory) : Prop := ∀ thread, (s.threads thread).isWaiting = false

instance [Fintype Thread] (s : State Thread Point Memory) : Decidable s.Unwaited :=
  inferInstanceAs (Decidable (∀ thread, (s.threads thread).isWaiting = false))

def step [Fintype Thread] (s : State Thread Point Memory) : Action Thread Point → Option (State Thread Point Memory)
  | .call thread entry =>
    match s.threads thread with
    | .running point =>
      if (program.instruction point).isIdle = true ∧ program.entry entry = true then
        some (s.move thread (.running entry))
      else none
    | _ => none
  | .wake thread =>
    match s.threads thread with
    | .waiting point => some (s.move thread (.woken point))
    | _ => none
  | .step thread woken =>
    match s.threads thread with
    | .waiting _ => none
    | .woken point =>
      if s.holder.isNone then some { s.move thread (.running point) with holder := some thread } else none
    | .running point =>
      match program.instruction point with
      | .lock next =>
        if s.holder.isNone then some { s.move thread (.running next) with holder := some thread } else none
      | .unlock next => some { s.move thread (.running next) with holder := none }
      | .wait next => some { s.move thread (.waiting next) with holder := none }
      | .notifyOne next =>
        match woken with
        | none => if s.Unwaited then some (s.move thread (.running next)) else none
        | some other =>
          match s.threads other with
          | .waiting resumed => some ((s.move other (.woken resumed)).move thread (.running next))
          | _ => none
      | .notifyAll next =>
        some ({ s with threads := fun other => (s.threads other).wakeUp }.move thread (.running next))
      | .compute effect =>
        some { s.move thread (.running (effect s.memory).2) with memory := (effect s.memory).1 }
      | .idle => none

end State

section Steps

variable [DecidableEq Thread] (program : Program Point Memory)

/-- All that a thread can do of its own. -/
inductive Advances (s : State Thread Point Memory) : Thread → State Thread Point Memory → Prop where
  | resume {thread point} (here : s.threads thread = .woken point) (free : s.holder = none) :
      Advances s thread { s.move thread (.running point) with holder := some thread }
  | lock {thread point next} (here : s.threads thread = .running point)
      (does : program.instruction point = .lock next) (free : s.holder = none) :
      Advances s thread { s.move thread (.running next) with holder := some thread }
  | unlock {thread point next} (here : s.threads thread = .running point)
      (does : program.instruction point = .unlock next) :
      Advances s thread { s.move thread (.running next) with holder := none }
  | wait {thread point next} (here : s.threads thread = .running point)
      (does : program.instruction point = .wait next) :
      Advances s thread { s.move thread (.waiting next) with holder := none }
  | notifyNone {thread point next} (here : s.threads thread = .running point)
      (does : program.instruction point = .notifyOne next) (unwaited : s.Unwaited) :
      Advances s thread (s.move thread (.running next))
  | notifyOne {thread point next other resumed} (here : s.threads thread = .running point)
      (does : program.instruction point = .notifyOne next) (there : s.threads other = .waiting resumed) :
      Advances s thread ((s.move other (.woken resumed)).move thread (.running next))
  | notifyAll {thread point next} (here : s.threads thread = .running point)
      (does : program.instruction point = .notifyAll next) :
      Advances s thread ({ s with threads := fun other => (s.threads other).wakeUp }.move thread (.running next))
  | compute {thread point effect} (here : s.threads thread = .running point)
      (does : program.instruction point = .compute effect) :
      Advances s thread { s.move thread (.running (effect s.memory).2) with memory := (effect s.memory).1 }

/-- All that a step can do. -/
inductive Moves (s : State Thread Point Memory) : State Thread Point Memory → Prop where
  | call {thread point entry} (here : s.threads thread = .running point)
      (idle : program.instruction point = .idle) (enters : program.entry entry = true) :
      Moves s (s.move thread (.running entry))
  | wake {thread point} (here : s.threads thread = .waiting point) : Moves s (s.move thread (.woken point))
  | advance {thread next} (own : Advances program s thread next) : Moves s next

variable {program}

theorem Instruction.eq_idle {instruction : Instruction Point Memory} (idle : instruction.isIdle = true) :
    instruction = .idle := by
  cases instruction with
  | idle => rfl
  | lock | unlock | wait | notifyOne | notifyAll | compute => cases idle

variable [Fintype Thread]

theorem advances_of_step {s next : State Thread Point Memory} {thread : Thread} {woken : Option Thread}
    (stepped : s.step program (.step thread woken) = some next) : Advances program s thread next := by
  simp only [State.step] at stepped
  cases here : s.threads thread with
  | waiting point =>
    rw [here] at stepped
    cases stepped
  | woken point =>
    rw [here] at stepped
    simp only [Option.isNone_iff_eq_none] at stepped
    split at stepped
    · rename_i free
      cases stepped
      exact .resume here free
    · cases stepped
  | running point =>
    rw [here] at stepped
    cases does : program.instruction point with
    | lock next =>
      simp only [does, Option.isNone_iff_eq_none] at stepped
      split at stepped
      · rename_i free
        cases stepped
        exact .lock here does free
      · cases stepped
    | unlock next =>
      simp only [does] at stepped
      cases stepped
      exact .unlock here does
    | wait next =>
      simp only [does] at stepped
      cases stepped
      exact .wait here does
    | notifyOne next =>
      cases woken with
      | none =>
        simp only [does] at stepped
        split at stepped
        · rename_i unwaited
          cases stepped
          exact .notifyNone here does unwaited
        · cases stepped
      | some other =>
        cases there : s.threads other with
        | waiting resumed =>
          simp only [does, there] at stepped
          cases stepped
          exact .notifyOne here does there
        | running _ | woken _ =>
          simp only [does, there] at stepped
          cases stepped
    | notifyAll next =>
      simp only [does] at stepped
      cases stepped
      exact .notifyAll here does
    | compute effect =>
      simp only [does] at stepped
      cases stepped
      exact .compute here does
    | idle =>
      simp only [does] at stepped
      cases stepped

theorem State.called {s next : State Thread Point Memory} {thread : Thread} {entry : Point}
    (stepped : s.step program (.call thread entry) = some next) :
    ∃ point, (s.threads thread = .running point ∧ program.instruction point = .idle ∧ program.entry entry = true) ∧
      s.move thread (.running entry) = next := by
  simp only [State.step] at stepped
  split at stepped
  · rename_i point here
    split at stepped
    · rename_i allowed
      exact ⟨point, ⟨here, Instruction.eq_idle allowed.1, allowed.2⟩, Option.some.inj stepped⟩
    · cases stepped
  · cases stepped

theorem State.wokenUp {s next : State Thread Point Memory} {thread : Thread}
    (stepped : s.step program (.wake thread) = some next) :
    ∃ point, s.threads thread = .waiting point ∧ s.move thread (.woken point) = next := by
  simp only [State.step] at stepped
  split at stepped
  · rename_i point here
    exact ⟨point, here, Option.some.inj stepped⟩
  · cases stepped

theorem moves_of_step {s next : State Thread Point Memory} {action : Action Thread Point}
    (stepped : s.step program action = some next) : Moves program s next := by
  cases action with
  | call thread entry =>
    obtain ⟨point, ⟨here, idle, enters⟩, rfl⟩ := State.called stepped
    exact .call here idle enters
  | wake thread =>
    obtain ⟨point, here, rfl⟩ := State.wokenUp stepped
    exact .wake here
  | step thread woken => exact .advance (advances_of_step stepped)

end Steps

/-! ## Who holds the mutex -/

section Exclusion

variable [DecidableEq Thread] {program : Program Point Memory}

@[simp] theorem State.move_threads (s : State Thread Point Memory) (thread : Thread) (standing : Standing Point)
    (other : Thread) : (s.move thread standing).threads other = if other = thread then standing else s.threads other :=
  Function.update_apply _ _ _ _

@[simp] theorem State.move_memory (s : State Thread Point Memory) (thread : Thread) (standing : Standing Point) :
    (s.move thread standing).memory = s.memory := rfl

@[simp] theorem State.move_holder (s : State Thread Point Memory) (thread : Thread) (standing : Standing Point) :
    (s.move thread standing).holder = s.holder := rfl

def Standing.inside (program : Program Point Memory) : Standing Point → Bool
  | .running point => program.inside point
  | _ => false

/-- The one who holds the mutex is the one who stands inside, and who has waited goes on behind the wait. -/
structure Exclusive (program : Program Point Memory) (s : State Thread Point Memory) : Prop where
  holder : ∀ thread, s.holder = some thread ↔ (s.threads thread).inside program = true
  parked : ∀ thread point, s.threads thread = .waiting point ∨ s.threads thread = .woken point →
    ∃ before, program.instruction before = .wait point

def Standing.Parked (program : Program Point Memory) (standing : Standing Point) : Prop :=
  ∀ point, standing = .waiting point ∨ standing = .woken point → ∃ before, program.instruction before = .wait point

theorem Standing.parked_running (point : Point) : (Standing.running point).Parked program := by
  rintro _ (impossible | impossible) <;> cases impossible

namespace Exclusive

variable {s next : State Thread Point Memory} (thread : Thread) (standing : Standing Point)

theorem move (exclusive : Exclusive program s)
    (same : standing.inside program = (s.threads thread).inside program) (parked : standing.Parked program) :
    Exclusive program (s.move thread standing) := by
  constructor
  · intro other
    rw [State.move_holder, exclusive.holder, State.move_threads]
    split
    · rename_i here
      rw [here, same]
    · rfl
  · intro other point stands
    rw [State.move_threads] at stands
    split at stands
    · exact parked point stands
    · exact exclusive.parked other point stands

theorem take (exclusive : Exclusive program s) (free : s.holder = none) (inside : standing.inside program = true)
    (parked : standing.Parked program) :
    Exclusive program { s.move thread standing with holder := some thread } := by
  constructor
  · intro other
    show some thread = some other ↔ Standing.inside program ((s.move thread standing).threads other) = true
    rw [State.move_threads]
    split
    · rename_i here
      exact iff_of_true (congrArg some here.symm) inside
    · rename_i elsewhere
      refine iff_of_false (fun same => elsewhere (Option.some.inj same).symm) fun held => ?_
      rw [← exclusive.holder, free] at held
      cases held
  · intro other point stands
    replace stands : (s.move thread standing).threads other = _ ∨ (s.move thread standing).threads other = _ := stands
    rw [State.move_threads] at stands
    split at stands
    · exact parked point stands
    · exact exclusive.parked other point stands

theorem give (exclusive : Exclusive program s) (held : (s.threads thread).inside program = true)
    (outside : standing.inside program = false) (parked : standing.Parked program) :
    Exclusive program { s.move thread standing with holder := none } := by
  have holds := (exclusive.holder thread).mpr held
  constructor
  · intro other
    show none = some other ↔ Standing.inside program ((s.move thread standing).threads other) = true
    rw [State.move_threads]
    split
    · exact iff_of_false nofun (Bool.eq_false_iff.mp outside)
    · rename_i elsewhere
      refine iff_of_false nofun fun held' => elsewhere ?_
      rw [← exclusive.holder, holds] at held'
      exact (Option.some.inj held').symm
  · intro other point stands
    replace stands : (s.move thread standing).threads other = _ ∨ (s.move thread standing).threads other = _ := stands
    rw [State.move_threads] at stands
    split at stands
    · exact parked point stands
    · exact exclusive.parked other point stands

omit [DecidableEq Thread] in
theorem wakeAll (exclusive : Exclusive program s) :
    Exclusive program { s with threads := fun other => (s.threads other).wakeUp } := by
  constructor
  · intro other
    show s.holder = some other ↔ (s.threads other).wakeUp.inside program = true
    rw [exclusive.holder]
    cases s.threads other <;> rfl
  · intro other point stands
    replace stands : (s.threads other).wakeUp = .waiting point ∨ (s.threads other).wakeUp = .woken point := stands
    apply exclusive.parked other point
    cases there : s.threads other with
    | running _ =>
      rw [there] at stands
      exact stands
    | waiting _ | woken _ =>
      rw [there] at stands
      rcases stands with impossible | same
      · cases impossible
      · cases same
        simp

theorem keeps (exclusive : Exclusive program s) (moves : Moves program s next) : Exclusive program next := by
  cases moves with
  | @call thread point entry here idle enters =>
    refine exclusive.move _ _ ?_ (Standing.parked_running _)
    have outside := program.tracked point
    rw [idle] at outside
    rw [here]
    exact (program.entry_outside entry enters).trans outside.symm
  | @wake thread point here =>
    refine exclusive.move _ _ (by rw [here]; rfl) fun resumed stands => ?_
    rcases stands with impossible | same
    · cases impossible
    · cases same
      exact exclusive.parked thread point (.inl here)
  | @advance thread _ own =>
    cases own with
    | @resume point here free =>
      refine exclusive.take _ _ free ?_ (Standing.parked_running _)
      obtain ⟨before, waited⟩ := exclusive.parked thread point (.inr here)
      have inside := program.tracked before
      rw [waited] at inside
      exact inside.2
    | @lock point later here does free =>
      have tracked := program.tracked point
      rw [does] at tracked
      exact exclusive.take _ _ free tracked.2 (Standing.parked_running _)
    | @unlock point later here does =>
      have tracked := program.tracked point
      rw [does] at tracked
      exact exclusive.give _ _ (by rw [here]; exact tracked.1) tracked.2 (Standing.parked_running _)
    | @wait point later here does =>
      have tracked := program.tracked point
      rw [does] at tracked
      refine exclusive.give _ _ (by rw [here]; exact tracked.1) rfl fun resumed stands => ?_
      rcases stands with same | impossible
      · cases same
        exact ⟨point, does⟩
      · cases impossible
    | @notifyNone point later here does unwaited =>
      have tracked := program.tracked point
      rw [does] at tracked
      exact exclusive.move _ _ (by rw [here]; exact tracked) (Standing.parked_running _)
    | @notifyOne point later other resumed here does there =>
      -- First the other thread is woken, which does not take the mutex; then the thread moves on.
      have tracked := program.tracked point
      rw [does] at tracked
      have woken : Exclusive program (s.move other (.woken resumed)) := by
        refine exclusive.move _ _ (by rw [there]; rfl) fun point stands => ?_
        rcases stands with impossible | same
        · cases impossible
        · cases same
          exact exclusive.parked other resumed (.inl there)
      refine woken.move _ _ ?_ (Standing.parked_running _)
      have different : thread ≠ other := by
        rintro rfl
        rw [here] at there
        cases there
      rw [State.move_threads, if_neg different, here]
      exact tracked
    | @notifyAll point later here does =>
      have tracked := program.tracked point
      rw [does] at tracked
      refine exclusive.wakeAll.move _ _ ?_ (Standing.parked_running _)
      show program.inside later = (s.threads thread).wakeUp.inside program
      rw [here]
      exact tracked
    | @compute point effect here does =>
      have tracked := program.tracked point
      rw [does] at tracked
      have moved := exclusive.move thread (.running (effect s.memory).2)
        (by rw [here]; exact tracked s.memory) (Standing.parked_running _)
      exact ⟨moved.holder, moved.parked⟩

end Exclusive

end Exclusion

/-! ## What holds of the memory -/

/-- A property of the memory while nobody holds the mutex, and one for each point while a thread stands there.  The
thread that holds the mutex and one that does not may take their steps between each other's. -/
structure Outline (program : Program Point Memory) where
  resource : Memory → Prop
  assertion : Point → Memory → Prop
  call : ∀ {entry memory}, program.entry entry = true → assertion entry memory
  lock : ∀ {point next memory}, program.instruction point = .lock next → assertion point memory → resource memory →
    assertion next memory
  unlock : ∀ {point next memory}, program.instruction point = .unlock next → assertion point memory →
    resource memory ∧ assertion next memory
  wait : ∀ {point next memory}, program.instruction point = .wait next → assertion point memory → resource memory
  resume : ∀ {point next memory}, program.instruction point = .wait next → resource memory → assertion next memory
  notifyOne : ∀ {point next memory}, program.instruction point = .notifyOne next → assertion point memory →
    assertion next memory
  notifyAll : ∀ {point next memory}, program.instruction point = .notifyAll next → assertion point memory →
    assertion next memory
  compute : ∀ {point effect memory}, program.instruction point = .compute effect → assertion point memory →
    assertion (effect memory).2 (effect memory).1
  keepsResource : ∀ {point effect memory}, program.instruction point = .compute effect →
    program.inside point = false → assertion point memory → resource memory → resource (effect memory).1
  undisturbed : ∀ {point effect memory other}, program.instruction point = .compute effect →
    program.inside point = false ∨ program.inside other = false → assertion point memory → assertion other memory →
    assertion other (effect memory).1

section Annotations

variable [DecidableEq Thread] {program : Program Point Memory} (outline : Outline program)

structure Outline.Holds (s : State Thread Point Memory) : Prop where
  exclusive : Exclusive program s
  free : s.holder = none → outline.resource s.memory
  here : ∀ {thread point}, s.threads thread = .running point → outline.assertion point s.memory

namespace Outline.Holds

variable {outline} {s next : State Thread Point Memory} {thread : Thread} {standing : Standing Point}

/-- What the threads know while the memory stays as it is. -/
theorem here_move (holds : outline.Holds s)
    (new : ∀ point, standing = .running point → outline.assertion point s.memory) {other : Thread} {point : Point}
    (stands : (s.move thread standing).threads other = .running point) : outline.assertion point s.memory := by
  rw [State.move_threads] at stands
  split at stands
  · exact new point stands
  · exact holds.here stands

theorem new_running {point : Point} {memory : Memory} (known : outline.assertion point memory) :
    ∀ other, Standing.running point = .running other → outline.assertion other memory := by
  rintro _ ⟨⟩
  exact known

omit [DecidableEq Thread] in
theorem not_free (holds : outline.Holds s) {point : Point} (here : s.threads thread = .running point)
    (inside : program.inside point = true) : s.holder ≠ none := by
  rw [(holds.exclusive.holder thread).mpr (by rw [here]; exact inside)]
  nofun

omit [DecidableEq Thread] in
/-- Of two threads one is outside. -/
theorem outside_or (holds : outline.Holds s) {other : Thread} {point there : Point} (different : other ≠ thread)
    (here : s.threads thread = .running point) (elsewhere : s.threads other = .running there) :
    program.inside point = false ∨ program.inside there = false := by
  by_contra both
  simp only [not_or, Bool.not_eq_false] at both
  have first := (holds.exclusive.holder thread).mpr (by rw [here]; exact both.1)
  have second := (holds.exclusive.holder other).mpr (by rw [elsewhere]; exact both.2)
  rw [first] at second
  exact different (Option.some.inj second).symm

theorem keeps (holds : outline.Holds s) (moves : Moves program s next) : outline.Holds next := by
  refine ⟨holds.exclusive.keeps moves, ?_, ?_⟩
  · cases moves with
    | call | wake => exact holds.free
    | @advance thread _ own =>
      cases own with
      | resume | lock => nofun
      | unlock here does => exact fun _ => (outline.unlock does (holds.here here)).1
      | wait here does => exact fun _ => outline.wait does (holds.here here)
      | notifyNone | notifyOne | notifyAll => exact holds.free
      | @compute point effect here does =>
        intro free
        cases inside : program.inside point with
        | true => exact absurd free (holds.not_free here inside)
        | false => exact outline.keepsResource does inside (holds.here here) (holds.free free)
  · intro other point stands
    cases moves with
    | call here idle enters => exact holds.here_move (new_running (outline.call enters)) stands
    | wake here => exact holds.here_move (by rintro _ ⟨⟩) stands
    | @advance thread _ own =>
      cases own with
      | @resume resumed here free =>
        obtain ⟨before, waited⟩ := holds.exclusive.parked thread resumed (.inr here)
        exact holds.here_move (new_running (outline.resume waited (holds.free free))) stands
      | lock here does free =>
        exact holds.here_move (new_running (outline.lock does (holds.here here) (holds.free free))) stands
      | unlock here does => exact holds.here_move (new_running (outline.unlock does (holds.here here)).2) stands
      | wait here does => exact holds.here_move (by rintro _ ⟨⟩) stands
      | notifyNone here does _ =>
        exact holds.here_move (new_running (outline.notifyOne does (holds.here here))) stands
      | @notifyOne _ _ woken _ here does there =>
        rw [State.move_threads, State.move_threads] at stands
        split at stands
        · cases stands
          exact outline.notifyOne does (holds.here here)
        · split at stands
          · cases stands
          · exact holds.here stands
      | @notifyAll _ _ here does =>
        rw [State.move_threads] at stands
        split at stands
        · cases stands
          exact outline.notifyAll does (holds.here here)
        · cases there : s.threads other with
          | running _ =>
            simp only [there, Standing.wakeUp] at stands
            cases stands
            exact holds.here there
          | waiting _ | woken _ =>
            simp only [there, Standing.wakeUp] at stands
            cases stands
      | @compute before effect here does =>
        replace stands : (s.move thread (.running (effect s.memory).2)).threads other = .running point := stands
        rw [State.move_threads] at stands
        split at stands
        · cases stands
          exact outline.compute does (holds.here here)
        · rename_i different
          exact outline.undisturbed does (holds.outside_or different here stands) (holds.here here)
            (holds.here stands)

omit [DecidableEq Thread] in
/-- Where no thread has come inside. -/
theorem of_outside (free : s.holder = none) (resource : outline.resource s.memory)
    (outside : ∀ thread, ∃ point, s.threads thread = .running point ∧ program.inside point = false ∧
      outline.assertion point s.memory) : outline.Holds s where
  exclusive := by
    constructor
    · intro thread
      obtain ⟨point, here, outside, _⟩ := outside thread
      rw [free, here]
      exact iff_of_false nofun (Bool.eq_false_iff.mp outside)
    · intro thread point stands
      obtain ⟨_, here, _⟩ := outside thread
      rw [here] at stands
      rcases stands with impossible | impossible <;> cases impossible
  free _ := resource
  here := by
    intro thread point stands
    obtain ⟨_, here, _, known⟩ := outside thread
    rw [here] at stands
    cases stands
    exact known

/-- What is annotated holds along every run. -/
theorem run [Fintype Thread] {last : State Thread Point Memory} {actions : List (Action Thread Point)}
    (holds : outline.Holds s) (ran : Runs.run (State.step program) s actions = some last) :
    outline.Holds last :=
  Runs.run_keeps (fun _ _ _ before stepped => before.keeps (moves_of_step stepped)) holds ran

end Outline.Holds

end Annotations

/-! ## What waits is woken -/

/-- What the memory needs threads for, and what a thread at a point is good for.  A thread waits only if nothing needs
one, a notification passes on what the one that is woken is good for, and otherwise credit is lost only together with
the need for it. -/
structure Credit {program : Program Point Memory} (outline : Outline program) where
  need : Memory → Nat
  credit : Point → Nat
  lock : ∀ {point next}, program.instruction point = .lock next → credit point ≤ credit next
  unlock : ∀ {point next}, program.instruction point = .unlock next → credit point ≤ credit next
  wait : ∀ {point next memory}, program.instruction point = .wait next → outline.assertion point memory →
    need memory = 0
  notifyOne : ∀ {point next waiting resumed}, program.instruction point = .notifyOne next →
    program.instruction waiting = .wait resumed → credit point ≤ credit next + credit resumed
  compute : ∀ {point effect memory}, program.instruction point = .compute effect →
    outline.assertion point memory →
    need (effect memory).1 = 0 ∨ need (effect memory).1 + credit point ≤ need memory + credit (effect memory).2
  idle : ∀ {point}, program.instruction point = .idle → credit point = 0

section Sums

variable [DecidableEq Thread] [Fintype Thread]

def State.total (worth : Standing Point → Nat) (s : State Thread Point Memory) : Nat :=
  ∑ thread, worth (s.threads thread)

theorem State.total_move (worth : Standing Point → Nat) (s : State Thread Point Memory) (thread : Thread)
    (standing : Standing Point) :
    (s.move thread standing).total worth + worth (s.threads thread) = s.total worth + worth standing := by
  have others : ∀ other ∈ Finset.univ.erase thread,
      worth ((s.move thread standing).threads other) = worth (s.threads other) := by
    intro other member
    rw [State.move_threads, if_neg (Finset.ne_of_mem_erase member)]
  have before := Finset.add_sum_erase Finset.univ (fun other => worth (s.threads other)) (Finset.mem_univ thread)
  have after := Finset.add_sum_erase Finset.univ (fun other => worth ((s.move thread standing).threads other))
    (Finset.mem_univ thread)
  rw [Finset.sum_congr rfl others, State.move_threads, if_pos rfl] at after
  rw [State.total, State.total, ← before, ← after]
  omega

end Sums

section Credits

variable [DecidableEq Thread] {program : Program Point Memory} {outline : Outline program}

def Credit.worth (credit : Credit outline) : Standing Point → Nat
  | .running point => credit.credit point
  | .waiting _ => 0
  | .woken point => credit.credit point

variable [Fintype Thread]

/-- Nobody waits, or there are threads for all that is needed. -/
def Credit.Covers (credit : Credit outline) (s : State Thread Point Memory) : Prop :=
  s.Unwaited ∨ credit.need s.memory ≤ s.total credit.worth

variable {s next : State Thread Point Memory} {credit : Credit outline}

omit [Fintype Thread] in
theorem State.Unwaited.move (unwaited : s.Unwaited) (thread : Thread) (standing : Standing Point)
    (active : standing.isWaiting = false) : (s.move thread standing).Unwaited := by
  intro other
  rw [State.move_threads]
  split
  · exact active
  · exact unwaited other

omit [DecidableEq Thread] [Fintype Thread] in
/-- A notification of all when nobody waits. -/
theorem State.Unwaited.wakeAll (unwaited : s.Unwaited) :
    { s with threads := fun other => (s.threads other).wakeUp } = s := by
  have same : (fun other => (s.threads other).wakeUp) = s.threads := by
    funext other
    have active := unwaited other
    cases there : s.threads other with
    | running | woken => rfl
    | waiting =>
      rw [there] at active
      cases active
  rw [same]

/-- A thread moves on, and is worth no less. -/
theorem Credit.Covers.move (covers : credit.Covers s) (thread : Thread) (standing : Standing Point)
    (active : standing.isWaiting = false) (worth : credit.worth (s.threads thread) ≤ credit.worth standing) :
    credit.Covers (s.move thread standing) := by
  rcases covers with unwaited | enough
  · exact .inl (unwaited.move thread standing active)
  · have moved := s.total_move credit.worth thread standing
    refine .inr ?_
    rw [State.move_memory]
    omega

theorem Credit.Covers.keeps (covers : credit.Covers s) (holds : outline.Holds s)
    (moves : Moves program s next) : credit.Covers next := by
  cases moves with
  | @call thread point entry here idle enters =>
    refine covers.move _ _ rfl ?_
    rw [here, Credit.worth, credit.idle idle]
    exact Nat.zero_le _
  | wake here =>
    refine covers.move _ _ rfl ?_
    rw [here]
    exact Nat.zero_le _
  | @advance thread _ own =>
    cases own with
    | @resume point here free =>
      exact covers.move thread (.running point) rfl (by rw [here]; exact Nat.le_refl _)
    | @lock point later here does free =>
      exact covers.move thread (.running later) rfl (by rw [here]; exact credit.lock does)
    | @unlock point later here does =>
      exact covers.move thread (.running later) rfl (by rw [here]; exact credit.unlock does)
    | wait here does =>
      -- A thread goes to sleep only where nothing is needed.
      refine .inr ?_
      show credit.need s.memory ≤ _
      rw [credit.wait does (holds.here here)]
      exact Nat.zero_le _
    | notifyNone here does unwaited => exact .inl (unwaited.move _ _ rfl)
    | @notifyOne point later other resumed here does there =>
      -- What the thread was worth passes to the one that it wakes.
      rcases covers with unwaited | enough
      · have waits := unwaited other
        rw [there] at waits
        cases waits
      · have woken := s.total_move credit.worth other (.woken resumed)
        have moved := (s.move other (.woken resumed)).total_move credit.worth thread (.running later)
        obtain ⟨before, waited⟩ := holds.exclusive.parked other resumed (.inl there)
        have different : thread ≠ other := by
          rintro rfl
          rw [here] at there
          cases there
        have passes := credit.notifyOne does waited
        refine .inr ?_
        rw [State.move_threads, if_neg different, here] at moved
        rw [there] at woken
        simp only [Credit.worth] at woken moved
        simp only [State.move_memory]
        omega
    | @notifyAll point later here does =>
      refine .inl fun other => ?_
      rw [State.move_threads]
      split
      · rfl
      · show (s.threads other).wakeUp.isWaiting = false
        cases s.threads other <;> rfl
    | @compute point effect here does =>
      rcases covers with unwaited | enough
      · exact .inl (unwaited.move thread (.running (effect s.memory).2) rfl)
      · have moved := s.total_move credit.worth thread (.running (effect s.memory).2)
        have balance := credit.compute does (holds.here here)
        rw [here] at moved
        simp only [Credit.worth] at moved
        refine .inr ?_
        show credit.need (effect s.memory).1 ≤ (s.move thread (.running (effect s.memory).2)).total credit.worth
        omega

theorem Credit.Covers.run {last : State Thread Point Memory} {actions : List (Action Thread Point)}
    (covers : credit.Covers s) (holds : outline.Holds s)
    (ran : Runs.run (State.step program) s actions = some last) : outline.Holds last ∧ credit.Covers last := by
  have keeps : ∀ (s : State Thread Point Memory) action next, outline.Holds s ∧ credit.Covers s →
      s.step program action = some next → outline.Holds next ∧ credit.Covers next :=
    fun _ _ _ before stepped =>
      ⟨before.1.keeps (moves_of_step stepped), before.2.keeps before.1 (moves_of_step stepped)⟩
  exact Runs.run_keeps keeps ⟨holds, covers⟩ ran

end Credits

/-! ## Coming to rest -/

/-- What is left to do at a point, if so many threads may be woken by one notification.  Where a loop need not come to
an end there is something to gain from the memory, so that more may be left behind the step than before it. -/
structure Ranking (program : Program Point Memory) (threads : Nat) where
  rank : Point → Nat
  gain : Memory → Point → Nat
  /-- More than a thread that is woken has to do. -/
  awake : Nat
  lock : ∀ {point next}, program.instruction point = .lock next → rank next < rank point
  unlock : ∀ {point next}, program.instruction point = .unlock next → rank next < rank point
  wait : ∀ {point next}, program.instruction point = .wait next → 0 < rank point ∧ rank next < awake
  notifyOne : ∀ {point next}, program.instruction point = .notifyOne next → rank next + awake < rank point
  notifyAll : ∀ {point next}, program.instruction point = .notifyAll next → rank next + threads * awake < rank point
  compute : ∀ {point effect}, program.instruction point = .compute effect →
    ∀ memory, rank (effect memory).2 < rank point + gain memory point

section Rankings

variable [DecidableEq Thread] [Fintype Thread] {program : Program Point Memory}

def Ranking.worth {threads : Nat} (ranking : Ranking program threads) : Standing Point → Nat
  | .running point => ranking.rank point
  | .waiting _ => 0
  | .woken point => ranking.rank point + 1

def Ranking.gainAt {threads : Nat} (ranking : Ranking program threads) (memory : Memory) : Standing Point → Nat
  | .running point => ranking.gain memory point
  | _ => 0

/-- What an action adds at most to what is left to do, if it takes one off itself. -/
def Ranking.gainOf {threads : Nat} (ranking : Ranking program threads) (s : State Thread Point Memory) :
    Action Thread Point → Nat
  | .call _ entry => ranking.rank entry + 1
  | .wake _ => ranking.awake + 1
  | .step thread _ => ranking.gainAt s.memory (s.threads thread)

def Ranking.gained {threads : Nat} (ranking : Ranking program threads) :
    State Thread Point Memory → List (Action Thread Point) → Nat
  | _, [] => 0
  | s, action :: actions =>
    ranking.gainOf s action + ((s.step program action).elim 0 fun next => ranking.gained next actions)

variable {s next : State Thread Point Memory} (ranking : Ranking program (Fintype.card Thread))

omit [DecidableEq Thread] in
theorem Ranking.total_wakeUp (exclusive : Exclusive program s) :
    State.total ranking.worth { s with threads := fun other => (s.threads other).wakeUp } ≤
      s.total ranking.worth + Fintype.card Thread * ranking.awake := by
  have each : ∀ thread ∈ Finset.univ, ranking.worth (s.threads thread).wakeUp ≤
      ranking.worth (s.threads thread) + ranking.awake := by
    intro thread _
    cases there : s.threads thread with
    | running | woken => exact Nat.le_add_right _ _
    | waiting point =>
      obtain ⟨before, waited⟩ := exclusive.parked thread point (.inl there)
      have short := (ranking.wait waited).2
      simp only [Standing.wakeUp, Ranking.worth]
      omega
  calc
    _ ≤ ∑ thread, (ranking.worth (s.threads thread) + ranking.awake) := Finset.sum_le_sum each
    _ = _ := by
      rw [Finset.sum_add_distrib, Finset.sum_const, Finset.card_univ, Nat.nsmul_eq_mul]
      rfl

/-- A thread that moves on to where less is left to do, but for what it gains. -/
theorem Ranking.total_move_lt (thread : Thread) {standing : Standing Point} {gain : Nat}
    (less : ranking.worth standing < ranking.worth (s.threads thread) + gain) :
    (s.move thread standing).total ranking.worth < s.total ranking.worth + gain := by
  have moved := s.total_move ranking.worth thread standing
  omega

/-- Each step of a thread leaves less to do, but for what is gained. -/
theorem Ranking.decreases (exclusive : Exclusive program s) {thread : Thread} (own : Advances program s thread next) :
    next.total ranking.worth < s.total ranking.worth + ranking.gainAt s.memory (s.threads thread) := by
  cases own with
  | @resume point here free =>
    have less : ranking.worth (.running point) < ranking.worth (s.threads thread) := by
      rw [here]
      exact Nat.lt_succ_self _
    exact ranking.total_move_lt thread (Nat.lt_add_right _ less)
  | @lock point later here does free =>
    have less : ranking.worth (.running later) < ranking.worth (s.threads thread) := by
      rw [here]
      exact ranking.lock does
    exact ranking.total_move_lt thread (Nat.lt_add_right _ less)
  | @unlock point later here does =>
    have less : ranking.worth (.running later) < ranking.worth (s.threads thread) := by
      rw [here]
      exact ranking.unlock does
    exact ranking.total_move_lt thread (Nat.lt_add_right _ less)
  | @wait point later here does =>
    have less : ranking.worth (.waiting later) < ranking.worth (s.threads thread) := by
      rw [here]
      exact (ranking.wait does).1
    exact ranking.total_move_lt thread (Nat.lt_add_right _ less)
  | @notifyNone point later here does unwaited =>
    have less : ranking.worth (.running later) < ranking.worth (s.threads thread) := by
      rw [here]
      exact Nat.lt_of_le_of_lt (Nat.le_add_right _ _) (ranking.notifyOne does)
    exact ranking.total_move_lt thread (Nat.lt_add_right _ less)
  | @notifyOne point later other resumed here does there =>
    -- Two threads move: the notification pays for what the woken one has to do.
    have woken := s.total_move ranking.worth other (.woken resumed)
    have moved := (s.move other (.woken resumed)).total_move ranking.worth thread (.running later)
    obtain ⟨before, waited⟩ := exclusive.parked other resumed (.inl there)
    have short := (ranking.wait waited).2
    have less := ranking.notifyOne does
    have different : thread ≠ other := by
      rintro rfl
      rw [here] at there
      cases there
    rw [State.move_threads, if_neg different, here] at moved
    rw [there] at woken
    simp only [Ranking.worth] at woken moved
    omega
  | @notifyAll point later here does =>
    have moved := State.total_move ranking.worth { s with threads := fun other => (s.threads other).wakeUp } thread
      (.running later)
    have woken := ranking.total_wakeUp exclusive
    have less := ranking.notifyAll does
    have there : State.threads { s with threads := fun other => (s.threads other).wakeUp } thread =
        .running point := congrArg Standing.wakeUp here
    rw [there] at moved
    simp only [Ranking.worth] at moved
    omega
  | @compute point effect here does =>
    have less : ranking.worth (.running (effect s.memory).2) <
        ranking.worth (s.threads thread) + ranking.gainAt s.memory (s.threads thread) := by
      rw [here]
      exact ranking.compute does s.memory
    exact ranking.total_move_lt thread less

/-- Whatever happens, there are no more actions than there is to do, with what is gained on the way. -/
theorem Ranking.run_length {last : State Thread Point Memory} {actions : List (Action Thread Point)}
    (exclusive : Exclusive program s) (ran : Runs.run (State.step program) s actions = some last) :
    actions.length + last.total ranking.worth ≤ s.total ranking.worth + ranking.gained s actions := by
  induction actions generalizing s with
  | nil =>
    cases ran
    exact Nat.le_of_eq (Nat.zero_add _)
  | cons action actions inductionHypothesis =>
    obtain ⟨next, stepped, rest⟩ := Option.bind_eq_some_iff.mp ran
    have later := inductionHypothesis (exclusive.keeps (moves_of_step stepped)) rest
    have less : next.total ranking.worth < s.total ranking.worth + ranking.gainOf s action := by
      cases action with
      | call thread entry =>
        obtain ⟨point, here, rfl⟩ := State.called stepped
        exact ranking.total_move_lt thread (Nat.lt_of_lt_of_le (Nat.lt_succ_self _) (Nat.le_add_left _ _))
      | wake thread =>
        obtain ⟨point, here, rfl⟩ := State.wokenUp stepped
        obtain ⟨before, waited⟩ := exclusive.parked thread point (.inl here)
        have short := (ranking.wait waited).2
        refine ranking.total_move_lt thread ?_
        simp only [Ranking.worth, Ranking.gainOf]
        omega
      | step thread woken => exact ranking.decreases exclusive (advances_of_step stepped)
    rw [Ranking.gained, stepped, Option.elim_some, List.length_cons]
    omega

/-- Where nothing is to be gained and nobody is called, nothing is gained. -/
theorem Ranking.gained_eq_zero {threads : Nat} (ranking : Ranking program threads)
    (holds : State Thread Point Memory → Prop)
    (keeps : ∀ s action next, holds s → s.step program action = some next → holds next)
    (free : ∀ s thread, holds s → ranking.gainAt s.memory (s.threads thread) = 0)
    {actions : List (Action Thread Point)} (own : ∀ action ∈ actions, action.isStep = true) (before : holds s) :
    ranking.gained s actions = 0 := by
  induction actions generalizing s with
  | nil => rfl
  | cons action actions inductionHypothesis =>
    cases action with
    | call | wake => exact absurd (own _ List.mem_cons_self) nofun
    | step thread woken =>
      rw [gained, gainOf, free s thread before, Nat.zero_add]
      cases stepped : s.step program (.step thread woken) with
      | none => rfl
      | some next =>
        exact inductionHypothesis (fun other member => own other (List.mem_cons_of_mem _ member))
          (keeps s _ next before stepped)

def State.Settled (program : Program Point Memory) (s : State Thread Point Memory) : Prop :=
  ∀ thread woken, s.step program (.step thread woken) = none

/-- Where no thread can take a step each is idle or waits; none is blocked by the mutex. -/
theorem State.Settled.standing (settled : s.Settled program) (exclusive : Exclusive program s) (thread : Thread) :
    (∃ point, s.threads thread = .running point ∧ program.instruction point = .idle) ∨
      (s.threads thread).isWaiting = true := by
  -- A thread that does not need the mutex, or for which it is free, can take its step.
  have stuck : ∀ {other : Thread} {point : Point}, s.threads other = .running point →
      program.instruction point = .idle ∨ (∃ next, program.instruction point = .lock next) ∧ s.holder ≠ none := by
    intro other point there
    have blocked := settled other none
    cases does : program.instruction point with
    | idle => exact .inl rfl
    | lock next =>
      refine .inr ⟨⟨next, rfl⟩, fun free => ?_⟩
      simp [State.step, there, does, free] at blocked
    | unlock | wait | notifyAll | compute => simp [State.step, there, does] at blocked
    | notifyOne next =>
      by_cases unwaited : s.Unwaited
      · simp [State.step, there, does, unwaited] at blocked
      · obtain ⟨sleeper, sleeps⟩ := not_forall.mp unwaited
        have blocked := settled other (some sleeper)
        cases asleep : s.threads sleeper with
        | running | woken =>
          rw [asleep] at sleeps
          exact absurd rfl sleeps
        | waiting resumed => simp [State.step, there, does, asleep] at blocked
  -- The holder of the mutex stands inside, where it is neither idle nor asks for the mutex.
  have free : s.holder = none := by
    cases held : s.holder with
    | none => rfl
    | some holder =>
      have inside := (exclusive.holder holder).mp held
      cases there : s.threads holder with
      | waiting | woken =>
        rw [there] at inside
        cases inside
      | running point =>
        rw [there] at inside
        have tracked := program.tracked point
        rcases stuck there with idle | ⟨⟨next, lock⟩, _⟩
        · rw [idle] at tracked
          exact absurd (inside.symm.trans tracked) nofun
        · rw [lock] at tracked
          exact absurd (inside.symm.trans tracked.1) nofun
  cases there : s.threads thread with
  | waiting => exact .inr rfl
  | woken point =>
    have blocked := settled thread none
    simp [State.step, there, free] at blocked
  | running point =>
    rcases stuck there with idle | ⟨_, held⟩
    · exact .inl ⟨point, rfl, idle⟩
    · exact absurd free held

/-- At rest no thread waits while one is needed. -/
theorem Credit.Covers.settled {outline : Outline program} {credit : Credit outline}
    (covers : credit.Covers s) (settled : s.Settled program) (exclusive : Exclusive program s) :
    s.Unwaited ∨ credit.need s.memory = 0 := by
  refine covers.imp_right fun enough => ?_
  have nothing : s.total credit.worth = 0 := by
    refine Finset.sum_eq_zero fun thread _ => ?_
    rcases settled.standing exclusive thread with ⟨point, there, idle⟩ | waits
    · rw [there]
      exact credit.idle idle
    · cases there : s.threads thread with
      | waiting => rfl
      | running | woken =>
        rw [there] at waits
        cases waits
  omega

end Rankings

end Monitor
