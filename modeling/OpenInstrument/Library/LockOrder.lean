import Mathlib.Data.Fintype.Basic
import Mathlib.Logic.Function.Basic

/-! # Calls that take locks

A call runs through its instructions.  It visits a resource, and takes its lock only if something is pending there,
which it then clears; or it takes the lock in any case.  A lock that it does not give back itself is given back when
the call has returned.  Something can become pending at any time, whoever holds the lock.

There is no deadlock when all calls take their locks in one order, and none when nothing becomes pending any more.
-/

namespace LockOrder

variable {Call Resource : Type*}

inductive Instruction (Resource : Type*) where
  /-- Takes the lock of the resource and clears it, if something is pending there. -/
  | visit (resource : Resource)
  /-- Clears the resource, or fails. -/
  | clear (resource : Resource)
  | lock (resource : Resource)
  | unlock (resource : Resource)
  /-- Something that needs no lock, or fails. -/
  | attempt

/-- What is left of a call.  It has `asked` for the lock of a resource that it visits when it has seen that something
is pending there.  The locks that it holds are listed from the last one that it took. -/
structure Progress (Resource : Type*) where
  program : List (Instruction Resource)
  held : List Resource
  asked : Bool

def Progress.awaited (progress : Progress Resource) : Option Resource :=
  match progress.program with
  | .visit resource :: _ => if progress.asked then some resource else none
  | .lock resource :: _ => some resource
  | _ => none

structure State (Call Resource : Type*) where
  calls : Call → Progress Resource
  pending : Resource → Bool

inductive Event (Call Resource : Type*) where
  /-- Something becomes pending. -/
  | append (resource : Resource)
  | step (call : Call)
  /-- The call fails and returns. -/
  | fail (call : Call)
  deriving DecidableEq

/-- Some calls wait for each other. -/
def State.Deadlocked (s : State Call Resource) : Prop :=
  ∃ group : Set Call, group.Nonempty ∧ ∀ call ∈ group, ∃ resource,
    (s.calls call).awaited = some resource ∧
      ∃ other ∈ group, other ≠ call ∧ resource ∈ (s.calls other).held

section Calls

variable [DecidableEq Call]

def State.set (s : State Call Resource) (call : Call) (progress : Progress Resource) : State Call Resource :=
  { s with calls := Function.update s.calls call progress }

@[simp] theorem State.set_same (s : State Call Resource) (call : Call) (progress : Progress Resource) :
    (s.set call progress).calls call = progress := Function.update_self ..

theorem State.set_other (s : State Call Resource) {call other : Call} (apart : other ≠ call)
    (progress : Progress Resource) : (s.set call progress).calls other = s.calls other := Function.update_of_ne apart ..

@[simp] theorem State.set_pending (s : State Call Resource) (call : Call) (progress : Progress Resource) :
    (s.set call progress).pending = s.pending := rfl

theorem State.set_set (s : State Call Resource) (call : Call) (first second : Progress Resource) :
    (s.set call first).set call second = s.set call second := by
  simp only [State.set, Function.update_idem]

theorem State.set_self {s : State Call Resource} {call : Call} {progress : Progress Resource}
    (here : s.calls call = progress) : s.set call progress = s := by
  rw [State.set, ← here, Function.update_eq_self]

end Calls

section Resources

variable [DecidableEq Resource]

def State.setPending (s : State Call Resource) (resource : Resource) (pending : Bool) : State Call Resource :=
  { s with pending := Function.update s.pending resource pending }

@[simp] theorem State.setPending_calls (s : State Call Resource) (resource : Resource) (pending : Bool) :
    (s.setPending resource pending).calls = s.calls := rfl

@[simp] theorem State.setPending_same (s : State Call Resource) (resource : Resource) (pending : Bool) :
    (s.setPending resource pending).pending resource = pending := Function.update_self ..

theorem State.setPending_other (s : State Call Resource) {resource other : Resource} (apart : other ≠ resource)
    (pending : Bool) : (s.setPending resource pending).pending other = s.pending other := Function.update_of_ne apart ..

end Resources

/-! ## Calls that wait for each other -/

/-- In a deadlock no measure grows, however far, from a call that waits to the waiting call that it waits for. -/
theorem State.not_deadlocked_of_measure {s : State Call Resource} (measure : Call → Nat) {top : Nat}
    (bounded : ∀ call, measure call ≤ top)
    (grows : ∀ call other resource next, (s.calls call).held ≠ [] → (s.calls call).awaited = some resource →
      resource ∈ (s.calls other).held → (s.calls other).awaited = some next → measure call < measure other) :
    ¬s.Deadlocked := by
  rintro ⟨group, ⟨first, member⟩, waits⟩
  -- Behind the first call, all hold something.
  have far : ∀ distance, ∃ call ∈ group, (s.calls call).held ≠ [] ∧ distance ≤ measure call := by
    intro distance
    induction distance with
    | zero =>
      obtain ⟨resource, _, other, inside, _, holds⟩ := waits first member
      exact ⟨other, inside, List.ne_nil_of_mem holds, Nat.zero_le _⟩
    | succ distance inductionHypothesis =>
      obtain ⟨call, inside, holding, reached⟩ := inductionHypothesis
      obtain ⟨resource, awaited, other, among, _, holds⟩ := waits call inside
      obtain ⟨next, later, _⟩ := waits other among
      have grown := grows call other resource next holding awaited holds later
      exact ⟨other, among, List.ne_nil_of_mem holds, by omega⟩
  obtain ⟨call, _, _, beyond⟩ := far (top + 1)
  have within := bounded call
  omega

section Moves

variable [DecidableEq Resource]

/-- What a step makes of the call that takes it, and of what is pending. -/
inductive Moves (s : State Call Resource) : Progress Resource → Progress Resource → (Resource → Bool) → Prop where
  | release {resource : Resource} {held : List Resource} {asked : Bool} :
      Moves s ⟨[], resource :: held, asked⟩ ⟨[], held, false⟩ s.pending
  | enter {resource : Resource} {program : List (Instruction Resource)} {held : List Resource}
      (free : ∀ other, resource ∉ (s.calls other).held) :
      Moves s ⟨.visit resource :: program, held, true⟩ ⟨.clear resource :: program, resource :: held, false⟩ s.pending
  | ask {resource : Resource} {program : List (Instruction Resource)} {held : List Resource}
      (pending : s.pending resource = true) :
      Moves s ⟨.visit resource :: program, held, false⟩ ⟨.visit resource :: program, held, true⟩ s.pending
  | pass {resource : Resource} {program : List (Instruction Resource)} {held : List Resource}
      (clean : s.pending resource = false) :
      Moves s ⟨.visit resource :: program, held, false⟩ ⟨program, held, false⟩ s.pending
  | clear {resource : Resource} {program : List (Instruction Resource)} {held : List Resource} {asked : Bool} :
      Moves s ⟨.clear resource :: program, held, asked⟩ ⟨program, held, false⟩
        (Function.update s.pending resource false)
  | lock {resource : Resource} {program : List (Instruction Resource)} {held : List Resource} {asked : Bool}
      (free : ∀ other, resource ∉ (s.calls other).held) :
      Moves s ⟨.lock resource :: program, held, asked⟩ ⟨program, resource :: held, false⟩ s.pending
  | unlock {resource : Resource} {program : List (Instruction Resource)} {held : List Resource} {asked : Bool} :
      Moves s ⟨.unlock resource :: program, held, asked⟩ ⟨program, held.filter (· ≠ resource), false⟩ s.pending
  | attempt {program : List (Instruction Resource)} {held : List Resource} {asked : Bool} :
      Moves s ⟨.attempt :: program, held, asked⟩ ⟨program, held, false⟩ s.pending
  | giveUp {program : List (Instruction Resource)} {held : List Resource} {asked : Bool} :
      Moves s ⟨program, held, asked⟩ ⟨[], held, false⟩ s.pending

/-! ## Locks in one order -/

/-- Every lock that the program may take ranks above those that it holds then. -/
def Ordered (rank : Resource → Nat) : List Resource → List (Instruction Resource) → Prop
  | _, [] => True
  | held, .visit resource :: program =>
    (∀ other ∈ held, rank other < rank resource) ∧ Ordered rank held program ∧ Ordered rank (resource :: held) program
  | held, .clear _ :: program => Ordered rank held program
  | held, .lock resource :: program =>
    (∀ other ∈ held, rank other < rank resource) ∧ Ordered rank (resource :: held) program
  | held, .unlock resource :: program => Ordered rank (held.filter (· ≠ resource)) program
  | held, .attempt :: program => Ordered rank held program

theorem Moves.ordered {s : State Call Resource} {progress moved : Progress Resource} {pending : Resource → Bool}
    (moves : Moves s progress moved pending) {rank : Resource → Nat}
    (ordered : Ordered rank progress.held progress.program) :
    Ordered rank moved.held moved.program := by
  cases moves with
  | release => trivial
  | enter free => exact ordered.2.2
  | ask pending => exact ordered
  | pass clean => exact ordered.2.1
  | clear => exact ordered
  | lock free => exact ordered.2
  | unlock => exact ordered
  | attempt => exact ordered
  | giveUp => trivial

theorem Ordered.awaited {rank : Resource → Nat} {progress : Progress Resource}
    (ordered : Ordered rank progress.held progress.program) {resource : Resource}
    (awaited : progress.awaited = some resource) : ∀ other ∈ progress.held, rank other < rank resource := by
  obtain ⟨program, held, asked⟩ := progress
  cases program with
  | nil => cases awaited
  | cons instruction program =>
    cases instruction with
    | visit visited =>
      cases asked with
      | false => cases awaited
      | true =>
        cases awaited
        exact ordered.1
    | lock locked =>
      cases awaited
      exact ordered.1
    | _ => cases awaited

/-! ## Locks of what is pending -/

/-- A program that takes a lock in any case holds no other, and clears what it has taken, `taken`, before it visits
the next resource.  It holds no more than `held`. -/
def Tested : List Resource → Option Resource → List (Instruction Resource) → Prop
  | _, _, [] => True
  | held, taken, .visit resource :: program => taken = none ∧ Tested (resource :: held) none program
  | held, taken, .clear resource :: program => Tested held (if taken = some resource then none else taken) program
  | held, _, .lock resource :: program => held = [] ∧ Tested [resource] (some resource) program
  | held, taken, .unlock resource :: program =>
    Tested (held.filter (· ≠ resource)) (if taken = some resource then none else taken) program
  | held, taken, .attempt :: program => Tested held taken program

/-- Nothing is pending at what a call holds, apart from what it has just taken. -/
def Progress.Settled (pending : Resource → Bool) (progress : Progress Resource) : Prop :=
  ∃ held taken, (∀ resource ∈ progress.held, resource ∈ held) ∧ Tested held taken progress.program ∧
    ∀ resource ∈ progress.held, taken ≠ some resource → pending resource = false

theorem Moves.pending_le {s : State Call Resource} {progress moved : Progress Resource} {pending : Resource → Bool}
    (moves : Moves s progress moved pending) {resource : Resource} (clean : s.pending resource = false) :
    pending resource = false := by
  cases moves with
  | @clear cleared =>
    rw [Function.update_apply]
    split
    · rfl
    · exact clean
  | _ => exact clean

theorem Progress.Settled.mono {before after : Resource → Bool} {progress : Progress Resource}
    (settled : progress.Settled before) (fewer : ∀ resource, before resource = false → after resource = false) :
    progress.Settled after := by
  obtain ⟨held, taken, within, tested, clean⟩ := settled
  exact ⟨held, taken, within, tested, fun resource holds apart => fewer resource (clean resource holds apart)⟩

theorem Moves.settled {s : State Call Resource} {progress moved : Progress Resource} {pending : Resource → Bool}
    (moves : Moves s progress moved pending) (settled : progress.Settled s.pending) : moved.Settled pending := by
  obtain ⟨mayHold, taken, within, tested, clean⟩ := settled
  cases moves with
  | release =>
    exact ⟨mayHold, taken, fun resource holds => within resource (List.mem_cons_of_mem _ holds), trivial,
      fun resource holds => clean resource (List.mem_cons_of_mem _ holds)⟩
  | @enter entered program held free =>
    obtain ⟨rfl, tested⟩ := tested
    refine ⟨entered :: mayHold, some entered, ?_, ?_, ?_⟩
    · intro resource holds
      cases List.mem_cons.mp holds with
      | inl same => exact same ▸ List.mem_cons_self
      | inr before => exact List.mem_cons_of_mem _ (within resource before)
    · rw [Tested, if_pos rfl]
      exact tested
    · intro resource holds apart
      -- The clean ones are those held before: the one just entered is the one that was taken.
      have before := (List.mem_cons.mp holds).resolve_left fun same => apart (same ▸ rfl)
      exact clean resource before (by simp)
  | ask pending => exact ⟨mayHold, taken, within, tested, clean⟩
  | @pass passed program held quiet =>
    obtain ⟨rfl, tested⟩ := tested
    exact ⟨passed :: mayHold, none, fun resource holds => List.mem_cons_of_mem _ (within resource holds), tested, clean⟩
  | @clear cleared program held asked =>
    refine ⟨mayHold, _, within, tested, fun resource holds apart => ?_⟩
    rw [Function.update_apply]
    split
    · rfl
    · rename_i other
      apply clean resource holds
      rintro rfl
      rw [if_neg (by simpa using other)] at apart
      exact apart rfl
  | @lock locked program held asked free =>
    obtain ⟨rfl, tested⟩ := tested
    -- The program locks only where it may hold nothing.
    have nothing : held = [] := List.eq_nil_iff_forall_not_mem.mpr fun resource holds =>
      absurd (within resource holds) List.not_mem_nil
    subst nothing
    exact ⟨[locked], some locked, fun resource holds => holds, tested, fun resource holds apart =>
      absurd (List.mem_singleton.mp holds ▸ rfl) apart⟩
  | @unlock unlocked program held asked =>
    refine ⟨_, _, ?_, tested, ?_⟩
    · intro resource holds
      obtain ⟨before, other⟩ := List.mem_filter.mp holds
      exact List.mem_filter.mpr ⟨within resource before, other⟩
    · intro resource holds apart
      obtain ⟨before, other⟩ := List.mem_filter.mp holds
      apply clean resource before
      rintro rfl
      rw [if_neg (by simpa using other)] at apart
      exact apart rfl
  | attempt => exact ⟨mayHold, taken, within, tested, clean⟩
  | giveUp => exact ⟨mayHold, taken, within, trivial, clean⟩

/-- A call that waits has cleared all that it holds. -/
theorem Progress.Settled.clean {pending : Resource → Bool} {progress : Progress Resource}
    (settled : progress.Settled pending) {awaited : Resource} (waits : progress.awaited = some awaited) :
    ∀ resource ∈ progress.held, pending resource = false := by
  obtain ⟨program, held, asked⟩ := progress
  obtain ⟨mayHold, taken, within, tested, clean⟩ := settled
  intro resource holds
  cases program with
  | nil => cases waits
  | cons instruction program =>
    cases instruction with
    | visit visited =>
      obtain ⟨rfl, -⟩ := tested
      exact clean resource holds (by simp)
    | lock locked =>
      obtain ⟨rfl, -⟩ := tested
      exact absurd (within resource holds) List.not_mem_nil
    | _ => cases waits

/-- A call that waits without having asked holds nothing. -/
theorem Progress.Settled.unasked {pending : Resource → Bool} {progress : Progress Resource}
    (settled : progress.Settled pending) (unasked : progress.asked = false) {awaited : Resource}
    (waits : progress.awaited = some awaited) : progress.held = [] := by
  obtain ⟨program, held, asked⟩ := progress
  obtain ⟨mayHold, taken, within, tested, -⟩ := settled
  cases unasked
  cases program with
  | nil => cases waits
  | cons instruction program =>
    cases instruction with
    | lock locked =>
      obtain ⟨rfl, -⟩ := tested
      exact List.eq_nil_iff_forall_not_mem.mpr fun resource holds => absurd (within resource holds) List.not_mem_nil
    | _ => cases waits

/-- A call asks for the lock of something pending. -/
theorem Moves.asked {s : State Call Resource} {progress moved : Progress Resource} {pending : Resource → Bool}
    (moves : Moves s progress moved pending) (asked : moved.asked = true) :
    ∃ resource, moved.awaited = some resource ∧ pending resource = true := by
  cases moves with
  | @ask resource program held waiting => exact ⟨resource, rfl, waiting⟩
  | _ => cases asked

end Moves

section Steps

variable [DecidableEq Call] [DecidableEq Resource] [Fintype Call]

def State.advance (s : State Call Resource) (call : Call) : Option (State Call Resource) :=
  let progress := s.calls call
  match progress.program with
  | [] =>
    match progress.held with
    | [] => none
    | _ :: held => some (s.set call { program := [], held, asked := false })
  | .visit resource :: program =>
    if progress.asked then
      if ∀ other, resource ∉ (s.calls other).held then
        some (s.set call { program := .clear resource :: program, held := resource :: progress.held, asked := false })
      else none
    else if s.pending resource then
      some (s.set call { program := .visit resource :: program, held := progress.held, asked := true })
    else some (s.set call { program, held := progress.held, asked := false })
  | .clear resource :: program =>
    some ((s.set call { program, held := progress.held, asked := false }).setPending resource false)
  | .lock resource :: program =>
    if ∀ other, resource ∉ (s.calls other).held then
      some (s.set call { program, held := resource :: progress.held, asked := false })
    else none
  | .unlock resource :: program =>
    some (s.set call { program, held := progress.held.filter (· ≠ resource), asked := false })
  | .attempt :: program => some (s.set call { program, held := progress.held, asked := false })

def State.giveUp (s : State Call Resource) (call : Call) : Option (State Call Resource) :=
  match (s.calls call).program with
  | .clear _ :: _ => some (s.set call { program := [], held := (s.calls call).held, asked := false })
  | .attempt :: _ => some (s.set call { program := [], held := (s.calls call).held, asked := false })
  | _ => none

def step (s : State Call Resource) : Event Call Resource → Option (State Call Resource)
  | .append resource => some (s.setPending resource true)
  | .step call => s.advance call
  | .fail call => s.giveUp call

def run : State Call Resource → List (Event Call Resource) → Option (State Call Resource)
  | s, [] => some s
  | s, event :: events => (step s event).bind fun next => run next events

theorem advance_moves {s next : State Call Resource} {call : Call} (stepped : s.advance call = some next) :
    ∃ moved pending, Moves s (s.calls call) moved pending ∧
      next = { calls := Function.update s.calls call moved, pending } := by
  cases here : s.calls call with
  | mk program held asked =>
    simp only [State.advance, here] at stepped
    cases program with
    | nil =>
      cases held with
      | nil => cases stepped
      | cons resource held => exact ⟨_, _, .release, (Option.some.inj stepped).symm⟩
    | cons instruction program =>
      cases instruction with
      | visit resource =>
        cases asked with
        | true =>
          simp only [if_true] at stepped
          split at stepped
          · rename_i free
            exact ⟨_, _, .enter free, (Option.some.inj stepped).symm⟩
          · cases stepped
        | false =>
          simp only [Bool.false_eq_true, if_false] at stepped
          split at stepped
          · rename_i pending
            exact ⟨_, _, .ask pending, (Option.some.inj stepped).symm⟩
          · rename_i clean
            exact ⟨_, _, .pass (Bool.not_eq_true _ ▸ clean), (Option.some.inj stepped).symm⟩
      | clear resource => exact ⟨_, _, .clear, (Option.some.inj stepped).symm⟩
      | lock resource =>
        simp only at stepped
        split at stepped
        · rename_i free
          exact ⟨_, _, .lock free, (Option.some.inj stepped).symm⟩
        · cases stepped
      | unlock resource => exact ⟨_, _, .unlock, (Option.some.inj stepped).symm⟩
      | attempt => exact ⟨_, _, .attempt, (Option.some.inj stepped).symm⟩

/-- A step makes something pending, or it moves one call. -/
theorem step_cases {s next : State Call Resource} {event : Event Call Resource} (stepped : step s event = some next) :
    (∃ resource, event = .append resource ∧ next = s.setPending resource true) ∨
      ∃ call moved pending, Moves s (s.calls call) moved pending ∧
        next = { calls := Function.update s.calls call moved, pending } := by
  cases event with
  | append resource => exact .inl ⟨resource, rfl, (Option.some.inj stepped).symm⟩
  | step call => exact .inr ⟨call, advance_moves stepped⟩
  | fail call =>
    simp only [step, State.giveUp] at stepped
    split at stepped
    · exact .inr ⟨call, _, _, .giveUp, (Option.some.inj stepped).symm⟩
    · exact .inr ⟨call, _, _, .giveUp, (Option.some.inj stepped).symm⟩
    · cases stepped

theorem run_append {s middle : State Call Resource} {events : List (Event Call Resource)}
    (first : run s events = some middle) (later : List (Event Call Resource)) :
    run s (events ++ later) = run middle later := by
  induction events generalizing s with
  | nil =>
    cases first
    rfl
  | cons event events inductionHypothesis =>
    obtain ⟨next, stepped, rest⟩ := Option.bind_eq_some_iff.mp first
    rw [List.cons_append, run, stepped]
    exact inductionHypothesis rest

def Reaches (s last : State Call Resource) : Prop := ∃ events, run s events = some last

theorem Reaches.trans {s middle last : State Call Resource} (first : Reaches s middle) (second : Reaches middle last) :
    Reaches s last := by
  obtain ⟨events, ran⟩ := first
  obtain ⟨later, rest⟩ := second
  exact ⟨events ++ later, (run_append ran later).trans rest⟩

/-- What every step keeps, a run keeps. -/
theorem run_invariant {invariant : State Call Resource → Prop} {allowed : Event Call Resource → Prop}
    (keeps : ∀ s event next, allowed event → invariant s → step s event = some next → invariant next)
    {s last : State Call Resource} {events : List (Event Call Resource)} (fine : ∀ event ∈ events, allowed event)
    (before : invariant s) (ran : run s events = some last) : invariant last := by
  induction events generalizing s with
  | nil =>
    cases ran
    exact before
  | cons event events inductionHypothesis =>
    obtain ⟨next, stepped, rest⟩ := Option.bind_eq_some_iff.mp ran
    exact inductionHypothesis (fun other member => fine other (List.mem_cons_of_mem _ member))
      (keeps s event next (fine event List.mem_cons_self) before stepped) rest

/-! ## Runs of one call -/

/-- A call passes the resources at which nothing is pending. -/
theorem run_pass {s : State Call Resource} {call : Call} {before : List Resource} {rest : List (Instruction Resource)}
    {held : List Resource} (here : s.calls call = ⟨before.map .visit ++ rest, held, false⟩)
    (clean : ∀ resource ∈ before, s.pending resource = false) :
    run s (List.replicate before.length (.step call)) = some (s.set call ⟨rest, held, false⟩) := by
  induction before generalizing s with
  | nil => exact congrArg some (State.set_self here).symm
  | cons resource before inductionHypothesis =>
    have passed : s.advance call = some (s.set call ⟨before.map .visit ++ rest, held, false⟩) := by
      rw [State.advance, here]
      simp only [List.map_cons, List.cons_append, Bool.false_eq_true, if_false, clean resource List.mem_cons_self]
    rw [List.length_cons, List.replicate_succ, run, step, passed, Option.bind_some,
      inductionHypothesis (State.set_same ..) fun other member => clean other (List.mem_cons_of_mem _ member),
      State.set_set]

/-- A call asks for the lock of a resource at which something becomes pending. -/
theorem run_ask {s : State Call Resource} {call : Call} {resource : Resource} {program : List (Instruction Resource)}
    {held : List Resource} (here : s.calls call = ⟨.visit resource :: program, held, false⟩) :
    run s [.append resource, .step call] =
      some ((s.setPending resource true).set call ⟨.visit resource :: program, held, true⟩) := by
  have asked : (s.setPending resource true).advance call =
      some ((s.setPending resource true).set call ⟨.visit resource :: program, held, true⟩) := by
    rw [State.advance, State.setPending_calls, here]
    simp only [Bool.false_eq_true, if_false, State.setPending_same, if_true]
  simp only [run, step, Option.bind_some, asked]

omit [DecidableEq Resource] [Fintype Call] in
/-- A lock stays free when a call goes on without it. -/
theorem State.free_set {s : State Call Resource} {call : Call} {moved : Progress Resource} {resource : Resource}
    (free : ∀ other, resource ∉ (s.calls other).held) (without : resource ∉ moved.held) (other : Call) :
    resource ∉ ((s.set call moved).calls other).held := by
  by_cases same : other = call
  · rwa [same, State.set_same]
  · rw [State.set_other _ same]
    exact free other

/-- It takes the lock when it is free. -/
theorem run_take {s : State Call Resource} {call : Call} {resource : Resource} {program : List (Instruction Resource)}
    {held : List Resource} (here : s.calls call = ⟨.visit resource :: program, held, false⟩)
    (clean : s.pending resource = false) (free : ∀ other, resource ∉ (s.calls other).held) :
    run s [.append resource, .step call, .step call, .step call] =
      some (s.set call ⟨program, resource :: held, false⟩) := by
  have without : resource ∉ held := by
    have here_ := free call
    rwa [here] at here_
  have entered : ((s.setPending resource true).set call ⟨.visit resource :: program, held, true⟩).advance call =
      some ((s.setPending resource true).set call ⟨.clear resource :: program, resource :: held, false⟩) := by
    rw [State.advance, State.set_same]
    simp only [if_true]
    rw [if_pos, State.set_set]
    exact State.free_set free without
  have cleared : ((s.setPending resource true).set call ⟨.clear resource :: program, resource :: held, false⟩).advance
      call = some (s.set call ⟨program, resource :: held, false⟩) := by
    rw [State.advance, State.set_same]
    simp only [State.set_set]
    rw [State.setPending, State.set, State.setPending, State.set]
    simp only [Function.update_idem]
    rw [← clean, Function.update_eq_self]
  have asked := run_append (run_ask here) [.step call, .step call]
  rw [List.cons_append, List.cons_append, List.nil_append] at asked
  rw [asked]
  simp only [run, step, entered, cleared, Option.bind_some]

/-- A call goes on to a resource at which something becomes pending, and asks for its lock. -/
theorem reaches_ask {s : State Call Resource} {call : Call} {before : List Resource} {resource : Resource}
    {program : List (Instruction Resource)} {held : List Resource}
    (here : s.calls call = ⟨before.map .visit ++ .visit resource :: program, held, false⟩)
    (clean : ∀ other ∈ before, s.pending other = false) :
    Reaches s ((s.setPending resource true).set call ⟨.visit resource :: program, held, true⟩) := by
  have arrives : Reaches s (s.set call ⟨.visit resource :: program, held, false⟩) := ⟨_, run_pass here clean⟩
  have asks : Reaches (s.set call ⟨.visit resource :: program, held, false⟩)
      (((s.set call ⟨.visit resource :: program, held, false⟩).setPending resource true).set call
        ⟨.visit resource :: program, held, true⟩) := ⟨_, run_ask (State.set_same ..)⟩
  have same : ((s.set call ⟨.visit resource :: program, held, false⟩).setPending resource true).set call
      ⟨.visit resource :: program, held, true⟩ =
        (s.setPending resource true).set call ⟨.visit resource :: program, held, true⟩ :=
    State.set_set (s.setPending resource true) call _ _
  exact same ▸ arrives.trans asks

/-- It goes on to such a resource and takes its lock, if the lock is free. -/
theorem reaches_take {s : State Call Resource} {call : Call} {before : List Resource} {resource : Resource}
    {program : List (Instruction Resource)} {held : List Resource}
    (here : s.calls call = ⟨before.map .visit ++ .visit resource :: program, held, false⟩)
    (clean : ∀ other, s.pending other = false) (free : ∀ other, resource ∉ (s.calls other).held) :
    Reaches s (s.set call ⟨program, resource :: held, false⟩) := by
  have arrives : Reaches s (s.set call ⟨.visit resource :: program, held, false⟩) :=
    ⟨_, run_pass here fun other _ => clean other⟩
  have without : resource ∉ held := by
    have here_ := free call
    rwa [here] at here_
  have takes := run_take (State.set_same s call ⟨.visit resource :: program, held, false⟩) (clean resource)
    (State.free_set free without)
  rw [State.set_set] at takes
  exact arrives.trans ⟨_, takes⟩

/-! ## Runs without a deadlock -/

/-- What a move keeps of a call, a run keeps of all calls. -/
theorem run_calls {holds : Progress Resource → Prop} {s last : State Call Resource}
    {events : List (Event Call Resource)}
    (keeps : ∀ (s : State Call Resource) progress moved pending,
      Moves s progress moved pending → holds progress → holds moved)
    (before : ∀ call, holds (s.calls call)) (ran : run s events = some last) (call : Call) :
    holds (last.calls call) := by
  refine @run_invariant _ _ _ _ _ (fun s => ∀ call, holds (s.calls call)) (fun _ => True) ?_ _ _ _ (fun _ _ => trivial)
    before ran call
  intro s event next _ each stepped other
  cases step_cases stepped with
  | inl appended =>
    obtain ⟨resource, -, rfl⟩ := appended
    exact each other
  | inr moved =>
    obtain ⟨call, moved, pending, moves, rfl⟩ := moved
    show holds (Function.update s.calls call moved other)
    rw [Function.update_apply]
    split
    · exact keeps s _ _ _ moves (each call)
    · exact each other

/-- There is no deadlock in any run of calls that take their locks in one order. -/
theorem not_deadlocked_of_ordered {rank : Resource → Nat} {top : Nat} (bounded : ∀ resource, rank resource ≤ top)
    {s last : State Call Resource} {events : List (Event Call Resource)}
    (ordered : ∀ call, Ordered rank (s.calls call).held (s.calls call).program) (ran : run s events = some last) :
    ¬last.Deadlocked := by
  have each := @run_calls _ _ _ _ _ (fun progress => Ordered rank progress.held progress.program) s last events
    (fun _ _ _ _ moves => moves.ordered) ordered ran
  refine @State.not_deadlocked_of_measure _ _ last (fun call => ((last.calls call).awaited.map rank).getD 0) top ?_ ?_
  · intro call
    cases (last.calls call).awaited with
    | none => exact Nat.zero_le _
    | some resource => exact bounded resource
  · intro call other resource next _ awaited holds later
    simp only [awaited, later, Option.map_some, Option.getD_some]
    exact (each other).awaited later resource holds

/-- All calls have cleared what they hold, and those that wait for a call that waits have asked before it. -/
def State.Quiet (s : State Call Resource) : Prop :=
  (∀ call, (s.calls call).Settled s.pending) ∧
    ∃ stamp : Call → Nat, ∃ top, (∀ call, stamp call ≤ top) ∧
      ∀ call other resource next, (s.calls call).held ≠ [] → (s.calls call).awaited = some resource →
        resource ∈ (s.calls other).held → (s.calls other).awaited = some next → stamp call < stamp other

theorem State.Quiet.step {s next : State Call Resource} {event : Event Call Resource} (quiet : s.Quiet)
    (silent : ∀ resource, event ≠ .append resource) (stepped : LockOrder.step s event = some next) : next.Quiet := by
  obtain ⟨settled, stamp, top, bounded, grows⟩ := quiet
  obtain ⟨call, moved, pending, moves, rfl⟩ := (step_cases stepped).resolve_left fun appended => by
    obtain ⟨resource, same, -⟩ := appended
    exact silent resource same
  have settledMoved := moves.settled (settled call)
  have settledAll : ∀ other, (Function.update s.calls call moved other).Settled pending := by
    intro other
    rw [Function.update_apply]
    split
    · exact settledMoved
    · exact (settled other).mono fun _ => moves.pending_le
  refine ⟨settledAll, ?_⟩
  by_cases asked : moved.asked = true
  · -- The call has asked last of all.  It has asked for something pending, which no call that waits holds.
    obtain ⟨wanted, wants, waiting⟩ := moves.asked asked
    refine ⟨Function.update stamp call (top + 1), top + 1, fun other => ?_, ?_⟩
    · rw [Function.update_apply]
      split
      · exact Nat.le_refl _
      · exact Nat.le_succ_of_le (bounded other)
    · intro first other resource next holding awaited holds later
      by_cases here : first = call
      · subst here
        simp only [Function.update_self, wants, Option.some.injEq] at awaited
        subst awaited
        have clean := (settledAll other).clean later wanted holds
        rw [waiting] at clean
        cases clean
      · simp only [Function.update_of_ne here] at holding awaited ⊢
        by_cases there : other = call
        · subst there
          rw [Function.update_self]
          exact Nat.lt_succ_of_le (bounded first)
        · simp only [Function.update_of_ne there] at holds later ⊢
          exact grows first other resource next holding awaited holds later
  · have unasked := Bool.not_eq_true _ ▸ asked
    refine ⟨stamp, top, bounded, ?_⟩
    intro first other resource next holding awaited holds later
    by_cases here : first = call
    · subst here
      simp only [Function.update_self] at holding awaited
      exact absurd (settledMoved.unasked unasked awaited) holding
    · simp only [Function.update_of_ne here] at holding awaited
      by_cases there : other = call
      · subst there
        simp only [Function.update_self] at holds later
        rw [settledMoved.unasked unasked later] at holds
        cases holds
      · simp only [Function.update_of_ne there] at holds later
        exact grows first other resource next holding awaited holds later

/-- There is no deadlock when nothing becomes pending during the run. -/
theorem not_deadlocked_of_quiet {s last : State Call Resource} {events : List (Event Call Resource)} (quiet : s.Quiet)
    (silent : ∀ event ∈ events, ∀ resource, event ≠ .append resource) (ran : run s events = some last) :
    ¬last.Deadlocked := by
  have after : last.Quiet :=
    run_invariant (fun _ _ _ silent quiet stepped => State.Quiet.step quiet silent stepped) silent quiet ran
  obtain ⟨-, stamp, top, bounded, grows⟩ := after
  exact State.not_deadlocked_of_measure stamp bounded grows

end Steps

end LockOrder
