import Mathlib.Data.List.Sort
import OpenInstrument.Library.Runs

/-! # Callbacks that are run later

`DelayedExecutor` keeps its callbacks in a multiset, in the order of their run times.  A pass goes over the multiset
and runs each callback that is due, or hands it over to its executor; at the end of the pass what was run is erased.
The clock is read anew for each callback, and an erasure takes all the callbacks of one run time.

The calls of `Add` come one at a time and at any moment, also from a callback, between the steps of a pass.
-/

namespace OpenInstrument.Server.DelayedExecutor

open scoped List

variable {Callback Executor : Type}

/-- A `TimedCallback`.  The number is that of its call of `Add`, and the code has no such number: it keeps apart
callbacks that are added twice. -/
structure TimedCallback (Callback Executor : Type) where
  number : Nat
  callback : Callback
  runTime : UInt64
  executor : Option Executor
  deriving DecidableEq

/-- The variables of a pass. -/
structure Pass (Callback Executor : Type) where
  nextCallback : UInt64
  doneCallbacks : List (TimedCallback Callback Executor)

/-- The multiset is what the iterator has passed, the current callback included, and the rest.  `ran` has the
callbacks that were run or handed over, with what the clock said, and `removed` those that were erased. -/
structure State (Callback Executor : Type) where
  clock : UInt64
  added : Nat
  visited : List (TimedCallback Callback Executor)
  rest : List (TimedCallback Callback Executor)
  pass : Option (Pass Callback Executor)
  sleepTime : UInt64
  ran : List (TimedCallback Callback Executor × UInt64)
  removed : List (TimedCallback Callback Executor)

/-- What happens next, with what the clock says then. -/
inductive Action (Callback Executor : Type) where
  | add (callback : Callback) (when_ : UInt64) (executor : Option Executor) (now : UInt64)
  | begin_
  | visit (now : UInt64)
  | finish (now : UInt64)

/-! ## Steps -/

namespace State

def start (clock : UInt64) : State Callback Executor :=
  { clock, added := 0, visited := [], rest := [], pass := none, sleepTime := 0, ran := [], removed := [] }

def done (state : State Callback Executor) : List (TimedCallback Callback Executor) :=
  state.pass.elim [] Pass.doneCallbacks

def read (state : State Callback Executor) (now : UInt64) : Option (State Callback Executor) :=
  if now < state.clock then none else some { state with clock := now }

/-- `insert` of the multiset: behind the callbacks with the same run time. -/
def insert (state : State Callback Executor) (cb : TimedCallback Callback Executor) : State Callback Executor :=
  if state.visited.any fun other => cb.runTime < other.runTime then
    { state with visited := state.visited.orderedInsert (fun cb other => cb.runTime < other.runTime) cb }
  else { state with rest := state.rest.orderedInsert (fun cb other => cb.runTime < other.runTime) cb }

/-- `Add`. -/
def add (state : State Callback Executor) (callback : Callback) (when_ : UInt64) (executor : Option Executor)
    (now : UInt64) : Option (State Callback Executor) :=
  (state.read now).map fun state =>
    let cb := { number := state.added, callback, runTime := when_, executor }
    let numbered := { state with added := state.added + 1 }
    -- A callback that is due is run at once and never gets into the multiset.
    if when_ ≤ now then { numbered with ran := state.ran ++ [(cb, now)] } else numbered.insert cb

/-- A pass of `BackgroundThread` begins. -/
def beginPass (state : State Callback Executor) : Option (State Callback Executor) :=
  match state.pass with
  | some _ => none
  | none => some { state with pass := some { nextCallback := 0, doneCallbacks := [] } }

/-- The pass comes to the next callback. -/
def visit (state : State Callback Executor) (now : UInt64) : Option (State Callback Executor) :=
  match state.pass, state.rest with
  | some pass, i :: rest =>
    (state.read now).map fun state =>
      let moved := { state with visited := state.visited ++ [i], rest }
      if i.runTime ≤ now then
        { moved with
          ran := state.ran ++ [(i, now)]
          pass := some { pass with doneCallbacks := pass.doneCallbacks ++ [i] } }
      else if pass.nextCallback = 0 ∨ i.runTime < pass.nextCallback then
        { moved with pass := some { pass with nextCallback := i.runTime } }
      else moved
  | _, _ => none

/-- `erase` of the multiset: what is left, and what was taken so far. -/
def erase (split : List (TimedCallback Callback Executor) × List (TimedCallback Callback Executor))
    (i : TimedCallback Callback Executor) :
    List (TimedCallback Callback Executor) × List (TimedCallback Callback Executor) :=
  (split.1.filter fun cb => cb.runTime ≠ i.runTime, split.2 ++ split.1.filter fun cb => cb.runTime = i.runTime)

/-- The pass is over: what it has run is erased, and the thread goes to sleep. -/
def finish (state : State Callback Executor) (now : UInt64) : Option (State Callback Executor) :=
  match state.pass, state.rest with
  | some pass, [] =>
    (state.read now).map fun state =>
      let split := pass.doneCallbacks.foldl erase (state.visited, [])
      { state with
        visited := []
        rest := split.1
        removed := state.removed ++ split.2
        pass := none
        sleepTime := if pass.nextCallback ≠ 0 then pass.nextCallback - now else 100 }
  | _, _ => none

def step (state : State Callback Executor) : Action Callback Executor → Option (State Callback Executor)
  | .add callback when_ executor now => state.add callback when_ executor now
  | .begin_ => state.beginPass
  | .visit now => state.visit now
  | .finish now => state.finish now

def run (state : State Callback Executor) (actions : List (Action Callback Executor)) :
    Option (State Callback Executor) :=
  actions.foldlM step state

/-- No callback is lost, none is run twice, and none before its run time. -/
structure Exact (state : State Callback Executor) : Prop where
  lossless : ∀ cb ∈ state.removed, cb ∈ state.ran.map Prod.fst
  once : (state.ran.map fun run => run.1.number).Nodup
  notEarly : ∀ run ∈ state.ran, run.1.runTime ≤ run.2

/-- The next callback of the pass is due, and one with the same run time was visited in the pass and not run: the clock
has come to their run time in between. -/
def Late (state : State Callback Executor) : Action Callback Executor → Prop
  | .visit now => ∃ i rest, state.rest = i :: rest ∧ i.runTime ≤ now ∧
      ∃ other ∈ state.visited, other.runTime = i.runTime ∧ other ∉ state.done
  | _ => False

def Prompt (state : State Callback Executor) : List (Action Callback Executor) → Prop
  | [] => True
  | action :: actions => ¬state.Late action ∧ ∀ next, state.step action = some next → Prompt next actions

/-! ## What a step does -/

/-- The steps, each with the state that it leaves. -/
inductive Moves (state : State Callback Executor) : Action Callback Executor → State Callback Executor → Prop where
  | ranAtOnce (cb : TimedCallback Callback Executor) (now : UInt64) (number : cb.number = state.added)
      (after : state.clock ≤ now) (due : cb.runTime ≤ now) :
      Moves state (.add cb.callback cb.runTime cb.executor now)
        { state with clock := now, added := state.added + 1, ran := state.ran ++ [(cb, now)] }
  | inserted (cb : TimedCallback Callback Executor) (now : UInt64) (number : cb.number = state.added)
      (after : state.clock ≤ now) (later : now < cb.runTime) :
      Moves state (.add cb.callback cb.runTime cb.executor now)
        (insert { state with clock := now, added := state.added + 1 } cb)
  | began (asleep : state.pass = none) :
      Moves state .begin_ { state with pass := some { nextCallback := 0, doneCallbacks := [] } }
  | ran (pass : Pass Callback Executor) (i : TimedCallback Callback Executor)
      (rest : List (TimedCallback Callback Executor)) (now : UInt64) (awake : state.pass = some pass)
      (next : state.rest = i :: rest) (after : state.clock ≤ now) (due : i.runTime ≤ now) :
      Moves state (.visit now)
        { state with
          clock := now
          visited := state.visited ++ [i]
          rest
          ran := state.ran ++ [(i, now)]
          pass := some { pass with doneCallbacks := pass.doneCallbacks ++ [i] } }
  | passed (pass : Pass Callback Executor) (i : TimedCallback Callback Executor)
      (rest : List (TimedCallback Callback Executor)) (now nextCallback : UInt64) (awake : state.pass = some pass)
      (next : state.rest = i :: rest) (after : state.clock ≤ now) (later : now < i.runTime) :
      Moves state (.visit now)
        { state with
          clock := now, visited := state.visited ++ [i], rest, pass := some { pass with nextCallback } }
  | finished (pass : Pass Callback Executor) (now sleepTime : UInt64) (awake : state.pass = some pass)
      (noneLeft : state.rest = []) (after : state.clock ≤ now) :
      Moves state (.finish now)
        { state with
          clock := now
          visited := []
          rest := (pass.doneCallbacks.foldl erase (state.visited, [])).1
          removed := state.removed ++ (pass.doneCallbacks.foldl erase (state.visited, [])).2
          pass := none
          sleepTime }

theorem read_eq_some {state next : State Callback Executor} {now : UInt64} (read_ : state.read now = some next) :
    state.clock ≤ now ∧ next = { state with clock := now } := by
  rw [read] at read_
  split_ifs at read_ with back
  cases read_
  exact ⟨UInt64.not_lt.mp back, rfl⟩

theorem step_moves {state next : State Callback Executor} {action : Action Callback Executor}
    (stepped : state.step action = some next) : state.Moves action next := by
  cases action with
  | add callback when_ executor now =>
    obtain ⟨clocked, read_, rfl⟩ := Option.map_eq_some_iff.mp stepped
    obtain ⟨after, rfl⟩ := read_eq_some read_
    dsimp only
    split_ifs with due
    · exact .ranAtOnce ⟨state.added, callback, when_, executor⟩ now rfl after due
    · exact .inserted ⟨state.added, callback, when_, executor⟩ now rfl after (UInt64.not_le.mp due)
  | begin_ =>
    rw [step, beginPass] at stepped
    split at stepped
    · cases stepped
    · rename_i asleep
      cases stepped
      exact .began asleep
  | visit now =>
    rw [step, visit] at stepped
    split at stepped
    · rename_i pass i rest awake here
      obtain ⟨clocked, read_, rfl⟩ := Option.map_eq_some_iff.mp stepped
      obtain ⟨after, rfl⟩ := read_eq_some read_
      dsimp only
      split_ifs with due least
      · exact .ran pass i rest now awake here after due
      · exact .passed pass i rest now i.runTime awake here after (UInt64.not_le.mp due)
      · have moves := Moves.passed pass i rest now pass.nextCallback awake here after (UInt64.not_le.mp due)
        rw [← awake] at moves
        exact moves
    · cases stepped
  | finish now =>
    rw [step, finish] at stepped
    split at stepped
    · rename_i pass awake noneLeft
      obtain ⟨clocked, read_, rfl⟩ := Option.map_eq_some_iff.mp stepped
      obtain ⟨after, rfl⟩ := read_eq_some read_
      exact .finished pass now _ awake noneLeft after
    · cases stepped

/-! ## The multiset -/

theorem insert_cases (state : State Callback Executor) (cb : TimedCallback Callback Executor) :
    ∃ visited rest, state.insert cb = { state with visited, rest } ∧
      (state.visited ≠ [] ∧ visited.Perm (cb :: state.visited) ∧ rest = state.rest ∨
        visited = state.visited ∧ rest.Perm (cb :: state.rest)) := by
  rw [insert]
  split_ifs with before
  · refine ⟨_, _, rfl, .inl ⟨?_, List.perm_orderedInsert _ _ _, rfl⟩⟩
    intro empty
    rw [empty] at before
    cases before
  · exact ⟨_, _, rfl, .inr ⟨rfl, List.perm_orderedInsert _ _ _⟩⟩

/-- Wherever the iterator is, the callback gets its place in the order of the whole multiset. -/
theorem insert_whole (state : State Callback Executor) (cb : TimedCallback Callback Executor) :
    (state.insert cb).visited ++ (state.insert cb).rest =
      (state.visited ++ state.rest).orderedInsert (fun cb other => cb.runTime < other.runTime) cb := by
  rw [insert]
  generalize state.visited = visited
  induction visited with
  | nil => rfl
  | cons other visited inductionHypothesis =>
    rw [List.any_cons, List.cons_append, List.orderedInsert_cons]
    by_cases before : cb.runTime < other.runTime
    · simp only [before, decide_true, Bool.true_or, if_true, List.orderedInsert_cons, List.cons_append]
    · simp only [before, decide_false, Bool.false_or, if_false, List.orderedInsert_cons]
      rw [← inductionHypothesis]
      split_ifs <;> rfl

theorem orderedInsert_sorted {callbacks : List (TimedCallback Callback Executor)}
    (sorted : callbacks.Pairwise fun first second => first.runTime ≤ second.runTime)
    (cb : TimedCallback Callback Executor) :
    (callbacks.orderedInsert (fun cb other => cb.runTime < other.runTime) cb).Pairwise
      fun first second => first.runTime ≤ second.runTime := by
  induction callbacks with
  | nil => exact List.pairwise_singleton _ _
  | cons other callbacks inductionHypothesis =>
    obtain ⟨least, rest⟩ := List.pairwise_cons.mp sorted
    rw [List.orderedInsert_cons]
    split_ifs with before
    · refine List.pairwise_cons.mpr ⟨?_, sorted⟩
      refine List.forall_mem_cons.mpr ⟨UInt64.le_of_lt before, fun later member => ?_⟩
      exact UInt64.le_trans (UInt64.le_of_lt before) (least later member)
    · refine List.pairwise_cons.mpr ⟨fun later member => ?_, inductionHypothesis rest⟩
      cases List.mem_cons.mp ((List.perm_orderedInsert _ _ _).mem_iff.mp member) with
      | inl same => exact same ▸ UInt64.not_lt.mp before
      | inr among => exact least later among

theorem left_sublist (done : List (TimedCallback Callback Executor))
    (split : List (TimedCallback Callback Executor) × List (TimedCallback Callback Executor)) :
    (done.foldl erase split).1.Sublist split.1 := by
  induction done generalizing split with
  | nil => exact List.Sublist.refl _
  | cons i done inductionHypothesis => exact (inductionHypothesis (erase split i)).trans List.filter_sublist

theorem mem_left {done : List (TimedCallback Callback Executor)}
    {split : List (TimedCallback Callback Executor) × List (TimedCallback Callback Executor)}
    {cb : TimedCallback Callback Executor} :
    cb ∈ (done.foldl erase split).1 ↔ cb ∈ split.1 ∧ ∀ i ∈ done, cb.runTime ≠ i.runTime := by
  induction done generalizing split with
  | nil => simp
  | cons i done inductionHypothesis =>
    rw [List.foldl_cons, inductionHypothesis, erase, List.mem_filter, decide_eq_true_eq, List.forall_mem_cons,
      and_assoc]

theorem mem_taken {done : List (TimedCallback Callback Executor)}
    {split : List (TimedCallback Callback Executor) × List (TimedCallback Callback Executor)}
    {cb : TimedCallback Callback Executor} :
    cb ∈ (done.foldl erase split).2 ↔ cb ∈ split.2 ∨ cb ∈ split.1 ∧ ∃ i ∈ done, cb.runTime = i.runTime := by
  induction done generalizing split with
  | nil => simp
  | cons i done inductionHypothesis =>
    rw [List.foldl_cons, inductionHypothesis, erase, List.mem_append, List.mem_filter, List.mem_filter,
      decide_eq_true_eq, decide_eq_true_eq]
    simp only [List.mem_cons, exists_eq_or_imp]
    by_cases same : cb.runTime = i.runTime <;> simp [same]

/-- What is left and what was taken are all there was. -/
theorem erase_perm (done : List (TimedCallback Callback Executor))
    (split : List (TimedCallback Callback Executor) × List (TimedCallback Callback Executor)) :
    ((done.foldl erase split).1 ++ (done.foldl erase split).2).Perm (split.1 ++ split.2) := by
  induction done generalizing split with
  | nil => exact List.Perm.refl _
  | cons i done inductionHypothesis =>
    have parts := List.filter_append_perm (fun cb => decide (cb.runTime ≠ i.runTime)) split.1
    simp only [ne_eq, decide_not, Bool.not_not] at parts
    calc (done.foldl erase (erase split i)).1 ++ (done.foldl erase (erase split i)).2
      _ ~ (erase split i).1 ++ (erase split i).2 := inductionHypothesis _
      _ ~ split.2 ++ ((split.1.filter fun cb => !decide (cb.runTime = i.runTime)) ++
          split.1.filter fun cb => decide (cb.runTime = i.runTime)) := by
        rw [erase]
        simp only [ne_eq, decide_not]
        exact List.perm_append_comm_assoc _ _ _
      _ ~ split.2 ++ split.1 := parts.append_left _
      _ ~ split.1 ++ split.2 := List.perm_append_comm

/-! ## Invariant -/

/-- What holds in every state that a run reaches, whatever the clock says. -/
structure Consistent (state : State Callback Executor) : Prop where
  distinct : ((state.visited ++ state.rest ++ state.removed).map TimedCallback.number).Nodup
  numbered : ∀ cb ∈ state.visited ++ state.rest ++ state.removed ++ state.ran.map Prod.fst, cb.number < state.added
  doneVisited : ∀ cb ∈ state.done, cb ∈ state.visited
  doneDue : ∀ cb ∈ state.done, cb.runTime ≤ state.clock
  doneRan : ∀ cb ∈ state.done, cb ∈ state.ran.map Prod.fst
  pendingRan : ∀ cb ∈ state.visited ++ state.rest, cb.number ∈ state.ran.map (fun run => run.1.number) →
    cb ∈ state.done
  once : (state.ran.map fun run => run.1.number).Nodup
  notEarly : ∀ run ∈ state.ran, run.1.runTime ≤ run.2
  idle : state.pass = none → state.visited = []
  sorted : (state.visited ++ state.rest).Pairwise fun first second => first.runTime ≤ second.runTime

variable {state next : State Callback Executor}

theorem consistent_start (clock : UInt64) : (start clock : State Callback Executor).Consistent where
  distinct := List.nodup_nil
  numbered _ member := absurd member List.not_mem_nil
  doneVisited _ member := absurd member List.not_mem_nil
  doneDue _ member := absurd member List.not_mem_nil
  doneRan _ member := absurd member List.not_mem_nil
  pendingRan _ member := absurd member List.not_mem_nil
  once := List.nodup_nil
  notEarly _ member := absurd member List.not_mem_nil
  idle _ := rfl
  sorted := List.Pairwise.nil

theorem done_of_pass {pass : Pass Callback Executor} (awake : state.pass = some pass) :
    state.done = pass.doneCallbacks := by
  rw [done, awake]
  rfl

theorem done_of_asleep (asleep : state.pass = none) : state.done = [] := by
  rw [done, asleep]
  rfl

/-- The number of the next call is not in use. -/
theorem Consistent.fresh (consistent : state.Consistent) :
    state.added ∉ (state.visited ++ state.rest ++ state.removed).map TimedCallback.number ∧
      state.added ∉ state.ran.map fun run => run.1.number := by
  constructor
  · intro used
    obtain ⟨cb, member, number⟩ := List.mem_map.mp used
    exact Nat.lt_irrefl _ (number ▸ consistent.numbered cb (List.mem_append_left _ member))
  · intro used
    obtain ⟨run, member, number⟩ := List.mem_map.mp used
    have among : run.1 ∈ state.ran.map Prod.fst := List.mem_map_of_mem member
    exact Nat.lt_irrefl _ (number ▸ consistent.numbered run.1 (List.mem_append_right _ among))

theorem mem_ran_append {ran : List (TimedCallback Callback Executor × UInt64)} {cb : TimedCallback Callback Executor}
    {now : UInt64} {number : Nat} :
    number ∈ (ran ++ [(cb, now)]).map (fun run => run.1.number) ↔
      number ∈ ran.map (fun run => run.1.number) ∨ number = cb.number := by
  rw [List.map_append, List.mem_append, List.map_singleton, List.mem_singleton]

/-- One more callback is run, which has not been run before and is due. -/
theorem Consistent.runs (consistent : state.Consistent) {cb : TimedCallback Callback Executor} {now : UInt64}
    (new : cb.number ∉ state.ran.map fun run => run.1.number) (due : cb.runTime ≤ now) :
    ((state.ran ++ [(cb, now)]).map fun run => run.1.number).Nodup ∧
      ∀ run ∈ state.ran ++ [(cb, now)], run.1.runTime ≤ run.2 := by
  constructor
  · rw [List.map_append, List.map_singleton, ← List.concat_eq_append]
    exact consistent.once.concat new
  · intro run member
    cases List.mem_append.mp member with
    | inl before => exact consistent.notEarly run before
    | inr last => exact List.mem_singleton.mp last ▸ due

theorem Consistent.addDue (consistent : state.Consistent) {cb : TimedCallback Callback Executor} {now : UInt64}
    (number : cb.number = state.added) (after : state.clock ≤ now) (due : cb.runTime ≤ now) :
    Consistent { state with clock := now, added := state.added + 1, ran := state.ran ++ [(cb, now)] } := by
  obtain ⟨unknown, new⟩ := consistent.fresh
  rw [← number] at unknown new
  obtain ⟨once, notEarly⟩ := consistent.runs new due
  refine ⟨consistent.distinct, fun other member => ?_, consistent.doneVisited,
    fun other member => UInt64.le_trans (consistent.doneDue other member) after, fun other member => ?_,
    fun other member ran => ?_, once, notEarly, consistent.idle, consistent.sorted⟩
  · rw [List.map_append, ← List.append_assoc] at member
    cases List.mem_append.mp member with
    | inl before => exact Nat.lt_succ_of_lt (consistent.numbered other before)
    | inr last =>
      rw [List.mem_singleton.mp last, number]
      exact Nat.lt_succ_self _
  · rw [List.map_append]
    exact List.mem_append_left _ (consistent.doneRan other member)
  · cases mem_ran_append.mp ran with
    | inl before => exact consistent.pendingRan other member before
    | inr same =>
      exact absurd (same ▸ List.mem_map_of_mem (List.mem_append_left _ member)) unknown

theorem Consistent.addLater (consistent : state.Consistent) {cb : TimedCallback Callback Executor} {now : UInt64}
    (number : cb.number = state.added) (after : state.clock ≤ now) :
    Consistent (State.insert { state with clock := now, added := state.added + 1 } cb) := by
  obtain ⟨unknown, new⟩ := consistent.fresh
  rw [← number] at unknown new
  obtain ⟨visited, rest, inserted, places⟩ := insert_cases { state with clock := now, added := state.added + 1 } cb
  have pending : (visited ++ rest).Perm (cb :: (state.visited ++ state.rest)) := by
    obtain ⟨_, perm, same⟩ | ⟨same, perm⟩ := places
    · exact same ▸ perm.append_right state.rest
    · exact same ▸ (perm.append_left state.visited).trans List.perm_middle
  have known : (visited ++ rest ++ state.removed).Perm (cb :: (state.visited ++ state.rest ++ state.removed)) :=
    pending.append_right state.removed
  have kept : ∀ other ∈ state.visited, other ∈ visited := by
    intro other member
    obtain ⟨_, perm, _⟩ | ⟨same, _⟩ := places
    · exact perm.mem_iff.mpr (List.mem_cons_of_mem _ member)
    · exact same ▸ member
  have sorted := orderedInsert_sorted consistent.sorted cb
  rw [← insert_whole { state with clock := now, added := state.added + 1 } cb, inserted] at sorted
  rw [inserted]
  refine ⟨?_, fun other member => ?_, fun other member => kept other (consistent.doneVisited other member),
    fun other member => UInt64.le_trans (consistent.doneDue other member) after, consistent.doneRan,
    fun other member ran => ?_, consistent.once, consistent.notEarly, fun asleep => ?_, sorted⟩
  · exact (known.map TimedCallback.number).nodup_iff.mpr (List.nodup_cons.mpr ⟨unknown, consistent.distinct⟩)
  · have among := ((known.append_right (state.ran.map Prod.fst)).mem_iff.mp member)
    cases List.mem_cons.mp among with
    | inl same =>
      rw [same, number]
      exact Nat.lt_succ_self _
    | inr before => exact Nat.lt_succ_of_lt (consistent.numbered other before)
  · cases List.mem_cons.mp (pending.mem_iff.mp member) with
    | inl same => exact absurd (same ▸ ran) new
    | inr before => exact consistent.pendingRan other before ran
  · obtain ⟨some_, _⟩ | ⟨same, _⟩ := places
    · exact absurd (consistent.idle asleep) some_
    · exact same.trans (consistent.idle asleep)

theorem Consistent.beginPass (consistent : state.Consistent) (asleep : state.pass = none) :
    Consistent { state with pass := some { nextCallback := 0, doneCallbacks := [] } } where
  distinct := consistent.distinct
  numbered := consistent.numbered
  doneVisited _ member := absurd member List.not_mem_nil
  doneDue _ member := absurd member List.not_mem_nil
  doneRan _ member := absurd member List.not_mem_nil
  pendingRan cb member ran := done_of_asleep asleep ▸ consistent.pendingRan cb member ran
  once := consistent.once
  notEarly := consistent.notEarly
  idle awake := by cases awake
  sorted := consistent.sorted

/-- What a pass has visited stands before the next callback, and is none of the same number. -/
theorem Consistent.number_ne (consistent : state.Consistent) {i other : TimedCallback Callback Executor}
    {rest : List (TimedCallback Callback Executor)} (here : state.rest = i :: rest) (visited : other ∈ state.visited) :
    other.number ≠ i.number := by
  have distinct := consistent.distinct
  rw [here, List.append_assoc, List.map_append, List.nodup_append] at distinct
  exact distinct.2.2 _ (List.mem_map_of_mem visited) i.number List.mem_cons_self

theorem mem_of_next {i : TimedCallback Callback Executor} {rest : List (TimedCallback Callback Executor)}
    (here : state.rest = i :: rest) : i ∈ state.visited ++ state.rest :=
  List.mem_append_right _ (here ▸ List.mem_cons_self)

/-- The next callback of a pass has not been run. -/
theorem Consistent.not_ran (consistent : state.Consistent) {i : TimedCallback Callback Executor}
    {rest : List (TimedCallback Callback Executor)} (here : state.rest = i :: rest) :
    i.number ∉ state.ran.map fun run => run.1.number := by
  intro ran
  have visited := consistent.doneVisited i (consistent.pendingRan i (mem_of_next here) ran)
  exact consistent.number_ne here visited rfl

/-- A pending callback is known by its number. -/
theorem Consistent.eq_of_number (consistent : state.Consistent) {cb other : TimedCallback Callback Executor}
    (member : cb ∈ state.visited ++ state.rest) (among : other ∈ state.visited ++ state.rest)
    (number : cb.number = other.number) : cb = other :=
  List.inj_on_of_nodup_map consistent.distinct (List.mem_append_left _ member) (List.mem_append_left _ among) number

/-- The pass goes on in the same multiset. -/
theorem moved_eq {i : TimedCallback Callback Executor} {rest : List (TimedCallback Callback Executor)}
    (here : state.rest = i :: rest) : state.visited ++ [i] ++ rest = state.visited ++ state.rest := by
  rw [here, List.append_assoc, List.singleton_append]

theorem Consistent.visitDue (consistent : state.Consistent) {pass : Pass Callback Executor}
    {i : TimedCallback Callback Executor} {rest : List (TimedCallback Callback Executor)} {now : UInt64}
    (awake : state.pass = some pass) (here : state.rest = i :: rest) (after : state.clock ≤ now)
    (due : i.runTime ≤ now) :
    Consistent
      { state with
        clock := now
        visited := state.visited ++ [i]
        rest
        ran := state.ran ++ [(i, now)]
        pass := some { pass with doneCallbacks := pass.doneCallbacks ++ [i] } } := by
  obtain ⟨once, notEarly⟩ := consistent.runs (consistent.not_ran here) due
  have same := moved_eq here
  have pending := mem_of_next here
  have done := done_of_pass awake
  refine ⟨?_, fun cb member => ?_, fun cb member => ?_, fun cb member => ?_, fun cb member => ?_,
    fun cb member ran => ?_, once, notEarly, fun asleep => (by cases asleep), same ▸ consistent.sorted⟩
  · dsimp only
    rw [same]
    exact consistent.distinct
  · dsimp only at member
    rw [same, List.map_append, ← List.append_assoc] at member
    cases List.mem_append.mp member with
    | inl before => exact consistent.numbered cb before
    | inr last =>
      rw [List.mem_singleton.mp last]
      exact consistent.numbered i (List.mem_append_left _ (List.mem_append_left _ pending))
  · cases List.mem_append.mp member with
    | inl before => exact List.mem_append_left _ (consistent.doneVisited cb (done ▸ before))
    | inr last => exact List.mem_append_right _ last
  · cases List.mem_append.mp member with
    | inl before => exact UInt64.le_trans (consistent.doneDue cb (done ▸ before)) after
    | inr last => exact List.mem_singleton.mp last ▸ due
  · rw [List.map_append]
    cases List.mem_append.mp member with
    | inl before => exact List.mem_append_left _ (consistent.doneRan cb (done ▸ before))
    | inr last => exact List.mem_append_right _ last
  · dsimp only at member
    rw [same] at member
    cases mem_ran_append.mp ran with
    | inl before => exact List.mem_append_left _ (done ▸ consistent.pendingRan cb member before)
    | inr number =>
      exact List.mem_append_right _ (List.mem_singleton.mpr (consistent.eq_of_number member pending number))

theorem Consistent.visitEarly (consistent : state.Consistent) {pass : Pass Callback Executor}
    {i : TimedCallback Callback Executor} {rest : List (TimedCallback Callback Executor)} {now nextCallback : UInt64}
    (awake : state.pass = some pass) (here : state.rest = i :: rest) (after : state.clock ≤ now) :
    Consistent
      { state with
        clock := now, visited := state.visited ++ [i], rest, pass := some { pass with nextCallback } } := by
  have same := moved_eq here
  have done := done_of_pass awake
  refine ⟨?_, fun cb member => ?_, fun cb member => ?_, fun cb member => ?_, fun cb member => ?_,
    fun cb member ran => ?_, consistent.once, consistent.notEarly, fun asleep => (by cases asleep),
    same ▸ consistent.sorted⟩
  · dsimp only
    rw [same]
    exact consistent.distinct
  · dsimp only at member
    rw [same] at member
    exact consistent.numbered cb member
  · exact List.mem_append_left _ (consistent.doneVisited cb (done ▸ member))
  · exact UInt64.le_trans (consistent.doneDue cb (done ▸ member)) after
  · exact consistent.doneRan cb (done ▸ member)
  · dsimp only at member
    rw [same] at member
    exact done ▸ consistent.pendingRan cb member ran

/-- What the erasures of a finished pass take and leave, with nothing that was not visited. -/
theorem Consistent.finishPass (consistent : state.Consistent) {pass : Pass Callback Executor} {now sleepTime : UInt64}
    (awake : state.pass = some pass) (noneLeft : state.rest = []) :
    Consistent
      { state with
        clock := now
        visited := []
        rest := (pass.doneCallbacks.foldl erase (state.visited, [])).1
        removed := state.removed ++ (pass.doneCallbacks.foldl erase (state.visited, [])).2
        pass := none
        sleepTime } := by
  have done := done_of_pass awake
  have split := erase_perm pass.doneCallbacks (state.visited, [])
  have known : ((pass.doneCallbacks.foldl erase (state.visited, [])).1 ++
      (state.removed ++ (pass.doneCallbacks.foldl erase (state.visited, [])).2)) ~
        state.visited ++ state.rest ++ state.removed := by
    rw [noneLeft, List.append_nil]
    rw [List.append_nil] at split
    exact (List.perm_append_comm.append_left _).trans (by
      rw [← List.append_assoc]
      exact split.append_right _)
  refine ⟨?_, fun cb member => ?_, fun cb member => absurd member List.not_mem_nil,
    fun cb member => absurd member List.not_mem_nil, fun cb member => absurd member List.not_mem_nil,
    fun cb member ran => ?_, consistent.once, consistent.notEarly, fun _ => rfl,
    consistent.sorted.sublist (List.sublist_append_of_sublist_left (left_sublist _ _))⟩
  · dsimp only
    rw [List.nil_append]
    exact (known.map TimedCallback.number).nodup_iff.mpr consistent.distinct
  · dsimp only at member
    rw [List.nil_append] at member
    exact consistent.numbered cb ((known.append_right _).mem_iff.mp member)
  · -- What was run in the pass is not left.
    obtain ⟨visited, kept⟩ := mem_left.mp member
    have among := consistent.pendingRan cb (List.mem_append_left _ visited) ran
    exact absurd rfl (kept cb (done ▸ among))

theorem Consistent.step (consistent : state.Consistent) {action : Action Callback Executor}
    (moves : state.Moves action next) : next.Consistent := by
  cases moves with
  | ranAtOnce cb now number after due => exact consistent.addDue number after due
  | inserted cb now number after later => exact consistent.addLater number after
  | began asleep => exact consistent.beginPass asleep
  | ran pass i rest now awake here after due => exact consistent.visitDue awake here after due
  | passed pass i rest now nextCallback awake here after later => exact consistent.visitEarly awake here after
  | finished pass now sleepTime awake noneLeft after => exact consistent.finishPass awake noneLeft

/-! ## Runs without a late step -/

/-- Nothing is lost, and no callback that the pass has passed by has the run time of one that it has run. -/
structure Safe (state : State Callback Executor) : Prop where
  lossless : ∀ cb ∈ state.removed, cb ∈ state.ran.map Prod.fst
  together : ∀ cb ∈ state.done, ∀ other ∈ state.visited, other.runTime = cb.runTime → other ∈ state.done

theorem Safe.step (safe : state.Safe) (consistent : state.Consistent) {action : Action Callback Executor}
    (moves : state.Moves action next) (inTime : ¬state.Late action) : next.Safe := by
  obtain ⟨lossless, together⟩ := safe
  cases moves with
  | ranAtOnce cb now number after due =>
    refine ⟨fun other member => ?_, together⟩
    rw [List.map_append]
    exact List.mem_append_left _ (lossless other member)
  | inserted cb now number after later =>
    obtain ⟨visited, rest, inserted, places⟩ := insert_cases { state with clock := now, added := state.added + 1 } cb
    rw [inserted]
    refine ⟨lossless, fun done member other among same => ?_⟩
    obtain ⟨_, perm, _⟩ | ⟨unchanged, _⟩ := places
    · cases List.mem_cons.mp (perm.mem_iff.mp among) with
      | inl new =>
        -- What is added is not due, and what was run is.
        have due := UInt64.le_trans (consistent.doneDue done member) after
        rw [← same, new] at due
        exact absurd due (UInt64.not_le.mpr later)
      | inr before => exact together done member other before same
    · exact together done member other (unchanged ▸ among) same
  | began asleep => exact ⟨lossless, fun _ member => absurd member List.not_mem_nil⟩
  | ran pass i rest now awake here after due =>
    have done := done_of_pass awake
    refine ⟨fun other member => ?_, fun cb member other among same => ?_⟩
    · rw [List.map_append]
      exact List.mem_append_left _ (lossless other member)
    · cases List.mem_append.mp among with
      | inr last => exact List.mem_append_right _ last
      | inl visited =>
        refine List.mem_append_left _ (done ▸ ?_)
        cases List.mem_append.mp member with
        | inl before => exact together cb (done ▸ before) other visited same
        | inr last =>
          by_contra missed
          exact inTime ⟨i, rest, here, due, other, visited, List.mem_singleton.mp last ▸ same, missed⟩
  | passed pass i rest now nextCallback awake here after later =>
    have done := done_of_pass awake
    refine ⟨lossless, fun cb member other among same => ?_⟩
    cases List.mem_append.mp among with
    | inl visited => exact done ▸ together cb (done ▸ member) other visited same
    | inr last =>
      have due := UInt64.le_trans (consistent.doneDue cb (done ▸ member)) after
      rw [← same, List.mem_singleton.mp last] at due
      exact absurd due (UInt64.not_le.mpr later)
  | finished pass now sleepTime awake noneLeft after =>
    have done := done_of_pass awake
    refine ⟨fun cb member => ?_, fun _ member => absurd member List.not_mem_nil⟩
    cases List.mem_append.mp member with
    | inl before => exact lossless cb before
    | inr taken =>
      obtain none_ | ⟨visited, i, among, same⟩ := mem_taken.mp taken
      · exact absurd none_ List.not_mem_nil
      · exact consistent.doneRan cb (together i (done ▸ among) cb visited same)

/-! ## Runs with a late step -/

def Lost (state : State Callback Executor) : Prop :=
  ∃ cb ∈ state.removed, cb.number ∉ state.ran.map fun run => run.1.number

/-- A callback was passed by that will be erased at the end of the pass. -/
def Doomed (state : State Callback Executor) : Prop :=
  ∃ cb ∈ state.done, ∃ other ∈ state.visited, other.runTime = cb.runTime ∧ other ∉ state.done

theorem doomed_of_late (consistent : state.Consistent) {action : Action Callback Executor}
    (moves : state.Moves action next) (late : state.Late action) : next.Doomed := by
  cases moves with
  | ranAtOnce | inserted | began | finished => cases late
  | passed pass i rest now nextCallback awake here after later =>
    obtain ⟨first, _, here', due, _⟩ := late
    rw [here] at here'
    cases here'
    exact absurd due (UInt64.not_le.mpr later)
  | ran pass i rest now awake here after due =>
    obtain ⟨first, _, here', _, other, visited, same, missed⟩ := late
    rw [here] at here'
    cases here'
    refine ⟨i, List.mem_append_right _ (List.mem_singleton_self i), other, List.mem_append_left _ visited, same, ?_⟩
    intro among
    cases List.mem_append.mp among with
    | inl before => exact missed (done_of_pass awake ▸ before)
    | inr last => exact consistent.number_ne here visited (List.mem_singleton.mp last ▸ rfl)

theorem Lost.step (lost : state.Lost) (consistent : state.Consistent) {action : Action Callback Executor}
    (moves : state.Moves action next) : next.Lost := by
  obtain ⟨cb, removed, never⟩ := lost
  have known : cb ∈ state.visited ++ state.rest ++ state.removed := List.mem_append_right _ removed
  cases moves with
  | ranAtOnce other now number after due =>
    refine ⟨cb, removed, fun ran => ?_⟩
    cases mem_ran_append.mp ran with
    | inl before => exact never before
    | inr same => exact consistent.fresh.1 (number ▸ same ▸ List.mem_map_of_mem known)
  | inserted other now number after later =>
    obtain ⟨visited, rest, inserted, _⟩ := insert_cases { state with clock := now, added := state.added + 1 } other
    rw [inserted]
    exact ⟨cb, removed, never⟩
  | began asleep => exact ⟨cb, removed, never⟩
  | ran pass i rest now awake here after due =>
    refine ⟨cb, removed, fun ran => ?_⟩
    cases mem_ran_append.mp ran with
    | inl before => exact never before
    | inr same =>
      have distinct := consistent.distinct
      rw [here, List.map_append, List.nodup_append] at distinct
      exact distinct.2.2 i.number (List.mem_map_of_mem (List.mem_append_right _ List.mem_cons_self)) _
        (List.mem_map_of_mem removed) same.symm
  | passed pass i rest now nextCallback awake here after later => exact ⟨cb, removed, never⟩
  | finished pass now sleepTime awake noneLeft after => exact ⟨cb, List.mem_append_left _ removed, never⟩

theorem Doomed.step (doomed : state.Doomed) (consistent : state.Consistent) {action : Action Callback Executor}
    (moves : state.Moves action next) : next.Lost ∨ next.Doomed := by
  obtain ⟨cb, member, other, visited, same, missed⟩ := doomed
  cases moves with
  | ranAtOnce => exact .inr ⟨cb, member, other, visited, same, missed⟩
  | inserted new now number after later =>
    obtain ⟨_, _, inserted, places⟩ := insert_cases { state with clock := now, added := state.added + 1 } new
    rw [inserted]
    obtain ⟨_, perm, _⟩ | ⟨unchanged, _⟩ := places
    · exact .inr ⟨cb, member, other, perm.mem_iff.mpr (List.mem_cons_of_mem _ visited), same, missed⟩
    · exact .inr ⟨cb, member, other, unchanged ▸ visited, same, missed⟩
  | began asleep =>
    rw [done_of_asleep asleep] at member
    exact absurd member List.not_mem_nil
  | ran pass i rest now awake here after due =>
    have done := done_of_pass awake
    refine .inr ⟨cb, List.mem_append_left _ (done ▸ member), other, List.mem_append_left _ visited, same, ?_⟩
    intro among
    cases List.mem_append.mp among with
    | inl before => exact missed (done ▸ before)
    | inr last => exact consistent.number_ne here visited (List.mem_singleton.mp last ▸ rfl)
  | passed pass i rest now nextCallback awake here after later =>
    have done := done_of_pass awake
    exact .inr ⟨cb, done ▸ member, other, List.mem_append_left _ visited, same, done ▸ missed⟩
  | finished pass now sleepTime awake noneLeft after =>
    have done := done_of_pass awake
    have taken : other ∈ (pass.doneCallbacks.foldl erase (state.visited, [])).2 :=
      mem_taken.mpr (.inr ⟨visited, cb, done ▸ member, same⟩)
    exact .inl ⟨other, List.mem_append_right _ taken, fun ran =>
      missed (consistent.pendingRan other (List.mem_append_left _ visited) ran)⟩

/-! ## Runs -/

theorem run_eq (state : State Callback Executor) (actions : List (Action Callback Executor)) :
    state.run actions = Runs.run step state actions := by
  induction actions generalizing state with
  | nil => rfl
  | cons action actions inductionHypothesis =>
    rw [run, List.foldlM_cons, Runs.run]
    exact congrArg _ (funext inductionHypothesis)

theorem prompt_iff {actions : List (Action Callback Executor)} :
    state.Prompt actions ↔ Runs.Avoids step Late state actions := by
  induction actions generalizing state with
  | nil => exact Iff.rfl
  | cons action actions inductionHypothesis => simp only [Prompt, Runs.Avoids, inductionHypothesis]

/-- A run without a late step loses nothing, and behind a late step a callback is lost or will be. -/
theorem run_cases {actions : List (Action Callback Executor)} {after : State Callback Executor}
    (safe : state.Safe) (consistent : state.Consistent) (ran : state.run actions = some after) :
    (after.Safe ∧ after.Consistent) ∧ state.Prompt actions ∨
      ((after.Lost ∨ after.Doomed) ∧ after.Consistent) ∧ ¬state.Prompt actions := by
  rw [run_eq] at ran
  rw [prompt_iff]
  refine @Runs.run_cases _ _ step Late (fun state => state.Safe ∧ state.Consistent)
    (fun state => (state.Lost ∨ state.Doomed) ∧ state.Consistent) ?_ ?_ ?_ _ _ _ ⟨safe, consistent⟩ ran
  · intro state action next before inTime stepped
    obtain ⟨safe, consistent⟩ := before
    have moves := step_moves stepped
    exact ⟨safe.step consistent moves inTime, consistent.step moves⟩
  · intro state action next before late stepped
    obtain ⟨_, consistent⟩ := before
    have moves := step_moves stepped
    exact ⟨.inr (doomed_of_late consistent moves late), consistent.step moves⟩
  · intro state action next before stepped
    obtain ⟨broken, consistent⟩ := before
    have moves := step_moves stepped
    refine ⟨?_, consistent.step moves⟩
    cases broken with
    | inl lost => exact .inl (lost.step consistent moves)
    | inr doomed => exact doomed.step consistent moves

/-- In a run without a late step no callback is lost, run twice or run too early, in any state; when such a state is
reached between two passes, no step was late. -/
theorem exact_iff_prompt {clock : UInt64} {actions : List (Action Callback Executor)} {after : State Callback Executor}
    (ran : (start clock).run actions = some after) :
    ((start clock : State Callback Executor).Prompt actions → after.Exact) ∧
      (after.pass = none → after.Exact → (start clock : State Callback Executor).Prompt actions) := by
  have safe : (start clock : State Callback Executor).Safe :=
    ⟨fun _ member => absurd member List.not_mem_nil, fun _ member => absurd member List.not_mem_nil⟩
  obtain ⟨⟨safe, consistent⟩, prompt⟩ | ⟨⟨broken, consistent⟩, late⟩ := run_cases safe (consistent_start clock) ran
  · exact ⟨fun _ => ⟨safe.lossless, consistent.once, consistent.notEarly⟩, fun _ _ => prompt⟩
  · refine ⟨fun prompt => absurd prompt late, fun asleep exact_ => ?_⟩
    obtain ⟨cb, removed, never⟩ | ⟨cb, member, _⟩ := broken
    · obtain ⟨run, among, rfl⟩ := List.mem_map.mp (exact_.lossless cb removed)
      exact absurd (List.mem_map_of_mem among) never
    · rw [done_of_asleep asleep] at member
      exact absurd member List.not_mem_nil

/-- Two callbacks of one run time, and a clock that comes to it before the pass begins. -/
theorem exact_iff_prompt_due :
    ∃ after : State Nat Empty, (start 5).run [.add 0 10 none 5, .add 1 10 none 5, .begin_, .visit 10, .visit 11,
        .finish 11] = some after ∧
      ((start 5 : State Nat Empty).Prompt [.add 0 10 none 5, .add 1 10 none 5, .begin_, .visit 10, .visit 11,
        .finish 11] → after.Exact) ∧
      (after.pass = none → after.Exact → (start 5 : State Nat Empty).Prompt [.add 0 10 none 5, .add 1 10 none 5,
        .begin_, .visit 10, .visit 11, .finish 11]) :=
  ⟨_, rfl, exact_iff_prompt rfl⟩

/-- A clock that comes to the run time between the two callbacks: the first one is erased and never runs. -/
theorem not_exact :
    ∃ after : State Nat Empty, (start 5).run [.add 0 10 none 5, .add 1 10 none 5, .begin_, .visit 9, .visit 10,
        .finish 10] = some after ∧
      after.removed.map TimedCallback.callback = [0, 1] ∧ after.ran.map (fun run => run.1.callback) = [1] ∧
      after.rest = [] ∧ ¬after.Exact := by
  refine ⟨_, rfl, rfl, rfl, rfl, fun exact_ => ?_⟩
  have ran := exact_.lossless { number := 0, callback := 0, runTime := 10, executor := none } (by decide)
  revert ran
  decide

end State

end OpenInstrument.Server.DelayedExecutor
