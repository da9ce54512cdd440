import Mathlib.Data.Fintype.Basic
import Mathlib.Logic.Function.Basic
import Mathlib.Data.List.Perm.Basic
import OpenInstrument.Library.Runs

/-! # Requests that add streams at the same time

The goroutine of a writer receives the streams of its request, appends each to the new streams of its block, and
flushes.  `Flush` reads the new streams of a block three times: when it tests whether there are any, when it writes
them to the log, and when it merges them into `LogStreams`.  Then it replaces them by an empty list, with all that was
appended meanwhile by writers, which take no lock.
-/

namespace OpenInstrument

namespace ConcurrentAdds

variable {Call Block Stream : Type}

/-- What `Flush` does next with the block that it visits. -/
inductive Stage where
  | test
  | lock
  | write
  | merge
  | replace
  deriving DecidableEq

/-- The goroutine of a writer: the streams that it has still to receive, each with its block, and the blocks that its
`Flush` has still to visit, the one at hand first. -/
structure Goroutine (Block Stream : Type) where
  toReceive : List (Block × Stream)
  toVisit : List Block
  stage : Stage
  held : List Block

/-- The goroutines and the blocks of the datastore.  `received` has the streams that were received for a block so far,
`log` and `merged` those that were written to its log and merged into its `LogStreams`. -/
structure State (Call Block Stream : Type) where
  calls : Call → Goroutine Block Stream
  newStreams : Block → List Stream
  log : Block → List Stream
  merged : Block → List Stream
  received : Block → List Stream

/-- An Add request: its streams, and the order in which the `Flush` at its end visits the blocks.  The blocks of its
streams are there by then. -/
structure AddRequest (Block Stream : Type) where
  streams : List (Block × Stream)
  order : List Block
  visits : ∀ entry ∈ streams, entry.1 ∈ order

def start (requests : Call → AddRequest Block Stream) : State Call Block Stream :=
  { calls := fun call =>
      { toReceive := (requests call).streams, toVisit := (requests call).order, stage := .test, held := [] }
    newStreams := fun _ => []
    log := fun _ => []
    merged := fun _ => []
    received := fun _ => [] }

def Goroutine.Finished (goroutine : Goroutine Block Stream) : Prop :=
  goroutine.toReceive = [] ∧ goroutine.toVisit = [] ∧ goroutine.held = []

/-- The new streams are in the log already. -/
def Stage.written : Stage → Bool
  | .merge => true
  | .replace => true
  | _ => false

/-- They are in `LogStreams` as well. -/
def Stage.merged : Stage → Bool
  | .replace => true
  | _ => false

/-- The goroutine is past some stage with the new streams of a block, and has not replaced them yet. -/
def Goroutine.Past (past : Stage → Bool) (goroutine : Goroutine Block Stream) (block : Block) : Prop :=
  goroutine.toVisit.head? = some block ∧ past goroutine.stage = true

/-- Some goroutine is past the stage: it does not come back for a stream that is appended to the block now. -/
def State.Open (past : Stage → Bool) (s : State Call Block Stream) (block : Block) : Prop :=
  ∃ call, (s.calls call).Past past block

section

variable [DecidableEq Call]

def State.set (s : State Call Block Stream) (call : Call) (goroutine : Goroutine Block Stream) :
    State Call Block Stream :=
  { s with calls := Function.update s.calls call goroutine }

theorem State.set_calls (s : State Call Block Stream) (call : Call) (goroutine : Goroutine Block Stream) :
    (s.set call goroutine).calls = Function.update s.calls call goroutine := rfl

end

variable [DecidableEq Call] [DecidableEq Block] [Fintype Call]

def step (s : State Call Block Stream) (call : Call) : Option (State Call Block Stream) :=
  let goroutine := s.calls call
  match goroutine.toReceive, goroutine.toVisit, goroutine.stage with
  | (block, stream) :: toReceive, _, _ =>
    some
      { s.set call { goroutine with toReceive } with
        newStreams := Function.update s.newStreams block (s.newStreams block ++ [stream])
        received := Function.update s.received block (s.received block ++ [stream]) }
  | [], [], _ => if goroutine.held = [] then none else some (s.set call { goroutine with held := [] })
  | [], block :: toVisit, .test =>
    if (s.newStreams block).isEmpty then some (s.set call { goroutine with toVisit })
    else some (s.set call { goroutine with stage := .lock })
  | [], block :: _, .lock =>
    if ∀ other, block ∉ (s.calls other).held then
      some (s.set call { goroutine with stage := .write, held := block :: goroutine.held })
    else none
  | [], block :: _, .write =>
    some
      { s.set call { goroutine with stage := .merge } with
        log := Function.update s.log block (s.log block ++ s.newStreams block) }
  | [], block :: _, .merge =>
    some
      { s.set call { goroutine with stage := .replace } with
        merged := Function.update s.merged block (s.merged block ++ s.newStreams block) }
  | [], block :: toVisit, .replace =>
    some
      { s.set call { goroutine with toVisit, stage := .test } with
        newStreams := Function.update s.newStreams block [] }

/-- A run: the goroutines take their steps in the order of `calls`. -/
def run : State Call Block Stream → List Call → Option (State Call Block Stream)
  | s, [] => some s
  | s, call :: calls => (step s call).bind fun next => run next calls

/-- In no step of the run is a stream appended to a block whose new streams some `Flush` has written to the log, but not
replaced yet. -/
def Undisturbed : State Call Block Stream → List Call → Prop
  | _, [] => True
  | s, call :: calls =>
    (∀ entry ∈ (s.calls call).toReceive.head?, ¬s.Open Stage.written entry.1) ∧
      ∀ next, step s call = some next → Undisturbed next calls

/-! ## What a step does -/

inductive Moves (s : State Call Block Stream) (call : Call) : State Call Block Stream → Prop where
  | receive {block : Block} {stream : Stream} {toReceive : List (Block × Stream)} {toVisit : List Block} {stage : Stage}
      {held : List Block} (here : s.calls call = ⟨(block, stream) :: toReceive, toVisit, stage, held⟩) :
      Moves s call
        { s.set call ⟨toReceive, toVisit, stage, held⟩ with
          newStreams := Function.update s.newStreams block (s.newStreams block ++ [stream])
          received := Function.update s.received block (s.received block ++ [stream]) }
  | release {stage : Stage} {held : List Block} (here : s.calls call = ⟨[], [], stage, held⟩) :
      Moves s call (s.set call ⟨[], [], stage, []⟩)
  | skip {block : Block} {toVisit held : List Block} (here : s.calls call = ⟨[], block :: toVisit, .test, held⟩)
      (empty : s.newStreams block = []) : Moves s call (s.set call ⟨[], toVisit, .test, held⟩)
  | find {block : Block} {toVisit held : List Block} (here : s.calls call = ⟨[], block :: toVisit, .test, held⟩) :
      Moves s call (s.set call ⟨[], block :: toVisit, .lock, held⟩)
  | lock {block : Block} {toVisit held : List Block} (here : s.calls call = ⟨[], block :: toVisit, .lock, held⟩)
      (free : ∀ other, block ∉ (s.calls other).held) :
      Moves s call (s.set call ⟨[], block :: toVisit, .write, block :: held⟩)
  | write {block : Block} {toVisit held : List Block} (here : s.calls call = ⟨[], block :: toVisit, .write, held⟩) :
      Moves s call
        { s.set call ⟨[], block :: toVisit, .merge, held⟩ with
          log := Function.update s.log block (s.log block ++ s.newStreams block) }
  | merge {block : Block} {toVisit held : List Block} (here : s.calls call = ⟨[], block :: toVisit, .merge, held⟩) :
      Moves s call
        { s.set call ⟨[], block :: toVisit, .replace, held⟩ with
          merged := Function.update s.merged block (s.merged block ++ s.newStreams block) }
  | replace {block : Block} {toVisit held : List Block} (here : s.calls call = ⟨[], block :: toVisit, .replace, held⟩) :
      Moves s call
        { s.set call ⟨[], toVisit, .test, held⟩ with newStreams := Function.update s.newStreams block [] }

theorem step_moves {s next : State Call Block Stream} {call : Call} (stepped : step s call = some next) :
    Moves s call next := by
  cases here : s.calls call with
  | mk toReceive toVisit stage held =>
    simp only [step, here] at stepped
    cases toReceive with
    | cons entry toReceive => exact Option.some.inj stepped ▸ .receive here
    | nil =>
      cases toVisit with
      | nil =>
        simp only at stepped
        split at stepped
        · cases stepped
        · exact Option.some.inj stepped ▸ .release here
      | cons block toVisit =>
        cases stage with
        | test =>
          simp only at stepped
          split at stepped
          · rename_i empty
            exact Option.some.inj stepped ▸ .skip here (List.isEmpty_iff.mp empty)
          · exact Option.some.inj stepped ▸ .find here
        | lock =>
          simp only at stepped
          split at stepped
          · rename_i free
            exact Option.some.inj stepped ▸ .lock here free
          · cases stepped
        | write => exact Option.some.inj stepped ▸ .write here
        | merge => exact Option.some.inj stepped ▸ .merge here
        | replace => exact Option.some.inj stepped ▸ .replace here

/-! ## Locks -/

/-- A goroutine that writes, merges or replaces new streams holds the lock of their block. -/
def Goroutine.Locks (goroutine : Goroutine Block Stream) : Prop :=
  ∀ block ∈ goroutine.toVisit.head?,
    goroutine.stage = .write ∨ goroutine.stage = .merge ∨ goroutine.stage = .replace → block ∈ goroutine.held

structure State.Locked (s : State Call Block Stream) : Prop where
  locks : ∀ call, (s.calls call).Locks
  alone : ∀ call other block, block ∈ (s.calls call).held → block ∈ (s.calls other).held → call = other

omit [DecidableEq Block] [Fintype Call] in
/-- A goroutine that takes no lock leaves the others alone. -/
theorem State.Locked.keeps {s next : State Call Block Stream} {call : Call} {moved : Goroutine Block Stream}
    (locked : s.Locked) (calls : next.calls = Function.update s.calls call moved) (locks : moved.Locks)
    (fewer : ∀ block ∈ moved.held, block ∈ (s.calls call).held) : next.Locked := by
  have before : ∀ other block, block ∈ (next.calls other).held → block ∈ (s.calls other).held := by
    intro other block holds
    rw [calls, Function.update_apply] at holds
    split at holds
    · rename_i same
      exact same ▸ fewer block holds
    · exact holds
  constructor
  · intro other
    rw [calls, Function.update_apply]
    split
    · exact locks
    · exact locked.locks other
  · intro first second block one two
    exact locked.alone first second block (before first block one) (before second block two)

omit [DecidableEq Block] [Fintype Call] in
/-- A goroutine that takes a free lock is the only one that has it. -/
theorem State.Locked.takes {s : State Call Block Stream} {call : Call} {block : Block} {toVisit held : List Block}
    (locked : s.Locked) (here : (s.calls call).held = held) (free : ∀ other, block ∉ (s.calls other).held) :
    (s.set call ⟨[], block :: toVisit, .write, block :: held⟩).Locked := by
  have before : ∀ other found, found ∈ ((s.set call ⟨[], block :: toVisit, .write, block :: held⟩).calls other).held →
      found ∈ (s.calls other).held ∨ other = call ∧ found = block := by
    intro other found holds
    rw [State.set_calls, Function.update_apply] at holds
    split at holds
    · rename_i same
      cases List.mem_cons.mp holds with
      | inl taken => exact .inr ⟨same, taken⟩
      | inr old => exact .inl (by rwa [same, here])
    · exact .inl holds
  constructor
  · intro other
    rw [State.set_calls, Function.update_apply]
    split
    · intro found head _
      obtain rfl := Option.some.inj head
      exact List.mem_cons_self
    · exact locked.locks other
  · intro first second found one two
    cases before first found one with
    | inl one =>
      cases before second found two with
      | inl two => exact locked.alone first second found one two
      | inr two => exact absurd one (two.2 ▸ free first)
    | inr one =>
      cases before second found two with
      | inl two => exact absurd two (one.2 ▸ free second)
      | inr two => exact one.1.trans two.1.symm

omit [Fintype Call] in
theorem Moves.locked {s next : State Call Block Stream} {call : Call} (moves : Moves s call next) (locked : s.Locked) :
    next.Locked := by
  have locks := locked.locks call
  cases moves with
  | receive here => exact locked.keeps rfl (by rwa [here] at locks) (by simp [here])
  | release here => exact locked.keeps rfl (by simp [Goroutine.Locks]) (by simp)
  | skip here empty => exact locked.keeps rfl (by simp [Goroutine.Locks]) (by simp [here])
  | find here => exact locked.keeps rfl (by simp [Goroutine.Locks]) (by simp [here])
  | lock here free => exact locked.takes (by rw [here]) free
  | write here =>
    rw [here] at locks
    exact locked.keeps rfl (fun block head _ => locks block head (.inl rfl)) (by simp [here])
  | merge here =>
    rw [here] at locks
    exact locked.keeps rfl (fun block head _ => locks block head (.inr (.inl rfl))) (by simp [here])
  | replace here => exact locked.keeps rfl (by simp [Goroutine.Locks]) (by simp [here])

/-! ## Who is still to come -/

/-- Every goroutine has still to visit the blocks of the streams that it has still to receive, and some goroutine every
block with new streams. -/
structure State.Attended (s : State Call Block Stream) : Prop where
  toVisit : ∀ call, ∀ entry ∈ (s.calls call).toReceive, entry.1 ∈ (s.calls call).toVisit
  waiting : ∀ block, s.newStreams block ≠ [] → ∃ call, block ∈ (s.calls call).toVisit

omit [DecidableEq Block] [Fintype Call] in
theorem State.Attended.keeps {s next : State Call Block Stream} {call : Call} {moved : Goroutine Block Stream}
    (attended : s.Attended) (calls : next.calls = Function.update s.calls call moved)
    (receives : ∀ entry ∈ moved.toReceive, entry.1 ∈ moved.toVisit)
    (visits : ∀ block, next.newStreams block ≠ [] → block ∈ moved.toVisit ∨
      s.newStreams block ≠ [] ∧ (block ∈ (s.calls call).toVisit → block ∈ moved.toVisit)) : next.Attended := by
  constructor
  · intro other
    rw [calls, Function.update_apply]
    split
    · exact receives
    · exact attended.toVisit other
  · intro block some_
    cases visits block some_ with
    | inl here => exact ⟨call, by rwa [calls, Function.update_self]⟩
    | inr before =>
      obtain ⟨other, member⟩ := attended.waiting block before.1
      by_cases same : other = call
      · subst same
        exact ⟨other, by rw [calls, Function.update_self]; exact before.2 member⟩
      · exact ⟨other, by rwa [calls, Function.update_of_ne same]⟩

omit [Fintype Call] in
theorem Moves.attended {s next : State Call Block Stream} {call : Call} (moves : Moves s call next)
    (attended : s.Attended) : next.Attended := by
  have toVisit := attended.toVisit call
  cases moves with
  | @receive block stream toReceive visits stage held here =>
    rw [here] at toVisit
    refine attended.keeps rfl (fun entry member => toVisit entry (List.mem_cons_of_mem _ member)) fun other some_ => ?_
    by_cases same : other = block
    · exact .inl (same ▸ toVisit (block, stream) List.mem_cons_self)
    · exact .inr ⟨by rwa [← Function.update_of_ne same (s.newStreams block ++ [stream]) s.newStreams], by simp [here]⟩
  | release here => exact attended.keeps rfl (by simp) fun block some_ => .inr ⟨some_, by simp [here]⟩
  | @skip block visits held here empty =>
    refine attended.keeps rfl (by simp) fun other some_ => .inr ⟨some_, fun member => ?_⟩
    rw [here] at member
    exact (List.mem_cons.mp member).resolve_left fun same => some_ (same ▸ empty)
  | find here => exact attended.keeps rfl (by simp) fun block some_ => .inr ⟨some_, by simp [here]⟩
  | lock here free => exact attended.keeps rfl (by simp) fun block some_ => .inr ⟨some_, by simp [here]⟩
  | write here => exact attended.keeps rfl (by simp) fun block some_ => .inr ⟨some_, by simp [here]⟩
  | merge here => exact attended.keeps rfl (by simp) fun block some_ => .inr ⟨some_, by simp [here]⟩
  | @replace block visits held here =>
    refine attended.keeps rfl (by simp) fun other some_ => ?_
    have apart : other ≠ block := by
      rintro rfl
      exact some_ (Function.update_self ..)
    refine .inr ⟨by rwa [← Function.update_of_ne apart [] s.newStreams], fun member => ?_⟩
    rw [here] at member
    exact (List.mem_cons.mp member).resolve_left apart

/-! ## Who is past a stage -/

section Past

omit [DecidableEq Call] [DecidableEq Block] [Fintype Call] in
theorem Goroutine.past_iff {past : Stage → Bool} {toReceive : List (Block × Stream)} {block : Block}
    {toVisit held : List Block} {stage : Stage} (here : past stage = true) (other : Block) :
    (⟨toReceive, block :: toVisit, stage, held⟩ : Goroutine Block Stream).Past past other ↔ other = block := by
  simp [Goroutine.Past, here, eq_comm]

omit [DecidableEq Call] [DecidableEq Block] [Fintype Call] in
theorem Goroutine.not_past {past : Stage → Bool} {toReceive : List (Block × Stream)} {toVisit held : List Block}
    {stage : Stage} (before : past stage = false) (other : Block) :
    ¬(⟨toReceive, toVisit, stage, held⟩ : Goroutine Block Stream).Past past other := by
  simp [Goroutine.Past, before]

variable {past : Stage → Bool} {s next : State Call Block Stream} {call : Call} {moved : Goroutine Block Stream}

omit [DecidableEq Block] [Fintype Call]

/-- Only the goroutine that steps gets past a stage, or comes back. -/
theorem State.open_iff (calls : next.calls = Function.update s.calls call moved) (block : Block) :
    next.Open past block ↔ moved.Past past block ∨ ∃ other, other ≠ call ∧ (s.calls other).Past past block := by
  simp only [State.Open, calls]
  constructor
  · rintro ⟨other, here⟩
    by_cases same : other = call
    · subst same
      exact .inl (by rwa [Function.update_self] at here)
    · exact .inr ⟨other, same, by rwa [Function.update_of_ne same] at here⟩
  · rintro (here | ⟨other, apart, here⟩)
    · exact ⟨call, by rwa [Function.update_self]⟩
    · exact ⟨other, by rwa [Function.update_of_ne apart]⟩

theorem State.open_keeps (calls : next.calls = Function.update s.calls call moved)
    (same : ∀ block, moved.Past past block ↔ (s.calls call).Past past block) (block : Block) :
    next.Open past block ↔ s.Open past block := by
  rw [State.open_iff calls, same, ← @State.open_iff _ _ _ _ past s s call _ (Function.update_eq_self ..).symm]

omit [DecidableEq Call] in
/-- Two goroutines are not past the locking of one block. -/
theorem State.Locked.apart (locked : s.Locked) (locks : ∀ stage, past stage = true → stage = .merge ∨ stage = .replace)
    {block : Block} (holds : block ∈ (s.calls call).held) {other : Call} (different : other ≠ call) :
    ¬(s.calls other).Past past block := by
  rintro ⟨head, stage⟩
  exact different (locked.alone other call block (locked.locks other block head (.inr (locks _ stage))) holds)

/-- A goroutine that gets past the stage with a block is the only one there. -/
theorem State.open_of_past (locked : s.Locked) (locks : ∀ stage, past stage = true → stage = .merge ∨ stage = .replace)
    {block : Block} (holds : block ∈ (s.calls call).held) (before : ∀ other, ¬(s.calls call).Past past other)
    (after : ∀ other, moved.Past past other ↔ other = block) :
    ¬s.Open past block ∧ ∀ next : State Call Block Stream, next.calls = Function.update s.calls call moved →
      ∀ other, next.Open past other ↔ other = block ∨ s.Open past other := by
  have here := @State.open_iff _ _ _ _ past s s call _ (Function.update_eq_self ..).symm
  constructor
  · rw [here]
    rintro (past_ | ⟨other, different, past_⟩)
    · exact before block past_
    · exact locked.apart locks holds different past_
  · intro next calls other
    rw [State.open_iff calls, after, here, or_iff_right (before other)]

/-- A goroutine that replaces the new streams of a block was the only one past the stage. -/
theorem State.open_of_replaced (locked : s.Locked)
    (locks : ∀ stage, past stage = true → stage = .merge ∨ stage = .replace)
    {block : Block} (holds : block ∈ (s.calls call).held)
    (before : ∀ other, (s.calls call).Past past other ↔ other = block)
    (after : ∀ other, ¬moved.Past past other) :
    s.Open past block ∧ ∀ next : State Call Block Stream, next.calls = Function.update s.calls call moved →
      ∀ other, next.Open past other ↔ other ≠ block ∧ s.Open past other := by
  have here := @State.open_iff _ _ _ _ past s s call _ (Function.update_eq_self ..).symm
  refine ⟨(here block).mpr (.inl ((before block).mpr rfl)), fun next calls other => ?_⟩
  rw [State.open_iff calls, here, before]
  constructor
  · rintro (past_ | ⟨someone, different, past_⟩)
    · exact absurd past_ (after other)
    · refine ⟨?_, .inr ⟨someone, different, past_⟩⟩
      rintro rfl
      exact locked.apart locks holds different past_
  · rintro ⟨apart, past_⟩
    exact .inr (past_.resolve_left apart)

end Past

/-! ## Copies of the new streams -/

/-- What a step is for one of the two copies that are made of the new streams, the log and `LogStreams`. -/
inductive Effect (past : Stage → Bool) (s next : State Call Block Stream) (call : Call)
    (copy after : Block → List Stream) : Prop where
  | keeps (same : ∀ block, next.Open past block ↔ s.Open past block) (newStreams : next.newStreams = s.newStreams)
      (received : next.received = s.received) (kept : after = copy)
  | receives {block : Block} {stream : Stream} (first : (s.calls call).toReceive.head? = some (block, stream))
      (same : ∀ other, next.Open past other ↔ s.Open past other)
      (newStreams : next.newStreams = Function.update s.newStreams block (s.newStreams block ++ [stream]))
      (received : next.received = Function.update s.received block (s.received block ++ [stream])) (kept : after = copy)
  | copies {block : Block} (closed : ¬s.Open past block)
      (opens : ∀ other, next.Open past other ↔ other = block ∨ s.Open past other)
      (newStreams : next.newStreams = s.newStreams) (received : next.received = s.received)
      (copied : after = Function.update copy block (copy block ++ s.newStreams block))
  | replaces {block : Block} (open_ : s.Open past block)
      (closes : ∀ other, next.Open past other ↔ other ≠ block ∧ s.Open past other)
      (newStreams : next.newStreams = Function.update s.newStreams block []) (received : next.received = s.received)
      (kept : after = copy)

theorem written_locks (stage : Stage) (past : stage.written = true) : stage = .merge ∨ stage = .replace := by
  cases stage <;> simp_all [Stage.written]

theorem merged_locks (stage : Stage) (past : stage.merged = true) : stage = .merge ∨ stage = .replace := by
  cases stage <;> simp_all [Stage.merged]

section Effects

variable {s next : State Call Block Stream} {call : Call}

omit [Fintype Call]

/-- A goroutine that neither was past the stage nor gets past it. -/
theorem Effect.stays {past : Stage → Bool} {moved : Goroutine Block Stream} {copy : Block → List Stream}
    (calls : next.calls = Function.update s.calls call moved) (before : ∀ other, ¬(s.calls call).Past past other)
    (after : ∀ other, ¬moved.Past past other) (newStreams : next.newStreams = s.newStreams)
    (received : next.received = s.received) : Effect past s next call copy copy :=
  .keeps (State.open_keeps calls fun other => iff_of_false (after other) (before other)) newStreams received rfl

/-- The log is a copy that is made by the writing. -/
theorem Moves.log_effect (moves : Moves s call next) (locked : s.Locked) :
    Effect Stage.written s next call s.log next.log := by
  have locks := locked.locks call
  cases moves with
  | receive here =>
    exact .receives (by rw [here]; rfl) (State.open_keeps rfl fun _ => by rw [here]; exact Iff.rfl) rfl rfl rfl
  | release here => exact .keeps (State.open_keeps rfl fun _ => by simp [here, Goroutine.Past]) rfl rfl rfl
  | skip here empty => exact .stays rfl (here ▸ Goroutine.not_past rfl) (Goroutine.not_past rfl) rfl rfl
  | find here => exact .stays rfl (here ▸ Goroutine.not_past rfl) (Goroutine.not_past rfl) rfl rfl
  | lock here free => exact .stays rfl (here ▸ Goroutine.not_past rfl) (Goroutine.not_past rfl) rfl rfl
  | @write block toVisit held here =>
    have holds : block ∈ (s.calls call).held := locks block (by rw [here]; rfl) (.inl (by rw [here]))
    obtain ⟨closed, opens⟩ := @State.open_of_past _ _ _ _ _ s call ⟨[], block :: toVisit, .merge, held⟩ locked
      written_locks block holds (here ▸ Goroutine.not_past rfl) (Goroutine.past_iff rfl)
    exact .copies closed (opens _ rfl) rfl rfl rfl
  | merge here =>
    exact .keeps
      (State.open_keeps rfl fun other => by rw [here, Goroutine.past_iff rfl, Goroutine.past_iff rfl]) rfl rfl rfl
  | @replace block toVisit held here =>
    have holds : block ∈ (s.calls call).held := locks block (by rw [here]; rfl) (.inr (.inr (by rw [here])))
    obtain ⟨open_, closes⟩ := @State.open_of_replaced _ _ _ _ _ s call ⟨[], toVisit, .test, held⟩ locked written_locks
      block holds (here ▸ Goroutine.past_iff rfl) (Goroutine.not_past rfl)
    exact .replaces open_ (closes _ rfl) rfl rfl rfl

/-- `LogStreams` is one that is made by the merging. -/
theorem Moves.merged_effect (moves : Moves s call next) (locked : s.Locked) :
    Effect Stage.merged s next call s.merged next.merged := by
  have locks := locked.locks call
  cases moves with
  | receive here =>
    exact .receives (by rw [here]; rfl) (State.open_keeps rfl fun _ => by rw [here]; exact Iff.rfl) rfl rfl rfl
  | release here => exact .keeps (State.open_keeps rfl fun _ => by simp [here, Goroutine.Past]) rfl rfl rfl
  | skip here empty => exact .stays rfl (here ▸ Goroutine.not_past rfl) (Goroutine.not_past rfl) rfl rfl
  | find here => exact .stays rfl (here ▸ Goroutine.not_past rfl) (Goroutine.not_past rfl) rfl rfl
  | lock here free => exact .stays rfl (here ▸ Goroutine.not_past rfl) (Goroutine.not_past rfl) rfl rfl
  | write here => exact .stays rfl (here ▸ Goroutine.not_past rfl) (Goroutine.not_past rfl) rfl rfl
  | @merge block toVisit held here =>
    have holds : block ∈ (s.calls call).held := locks block (by rw [here]; rfl) (.inr (.inl (by rw [here])))
    obtain ⟨closed, opens⟩ := @State.open_of_past _ _ _ _ _ s call ⟨[], block :: toVisit, .replace, held⟩ locked
      merged_locks block holds (here ▸ Goroutine.not_past rfl) (Goroutine.past_iff rfl)
    exact .copies closed (opens _ rfl) rfl rfl rfl
  | @replace block toVisit held here =>
    have holds : block ∈ (s.calls call).held := locks block (by rw [here]; rfl) (.inr (.inr (by rw [here])))
    obtain ⟨open_, closes⟩ := @State.open_of_replaced _ _ _ _ _ s call ⟨[], toVisit, .test, held⟩ locked merged_locks
      block holds (here ▸ Goroutine.past_iff rfl) (Goroutine.not_past rfl)
    exact .replaces open_ (closes _ rfl) rfl rfl rfl

end Effects

/-! ## Nothing is left out -/

section Full

variable {past : Stage → Bool} {s next : State Call Block Stream} {call : Call} {copy after : Block → List Stream}

omit [DecidableEq Call] [Fintype Call]

/-- A copy has all streams that were received for a block, apart from those that somebody has still to copy. -/
def State.Full (past : Stage → Bool) (copy : Block → List Stream) (s : State Call Block Stream) : Prop :=
  ∀ block, (s.Open past block → copy block = s.received block) ∧
    (¬s.Open past block → copy block ++ s.newStreams block = s.received block)

/-- Unless a stream is appended too late, a copy stays full. -/
theorem Effect.full (effect : Effect past s next call copy after) (full : s.Full past copy)
    (undisturbed : ∀ entry ∈ (s.calls call).toReceive.head?, ¬s.Open past entry.1) : next.Full past after := by
  intro other
  cases effect with
  | keeps same newStreams received kept =>
    rw [same, newStreams, received, kept]
    exact full other
  | @receives block stream first same newStreams received kept =>
    have closed : ¬s.Open past block := undisturbed (block, stream) first
    rw [same, newStreams, received, kept]
    by_cases here : other = block
    · subst here
      refine ⟨fun open_ => absurd open_ closed, fun _ => ?_⟩
      rw [Function.update_self, Function.update_self, ← List.append_assoc, (full other).2 closed]
    · rw [Function.update_of_ne here, Function.update_of_ne here]
      exact full other
  | @copies block closed opens newStreams received copied =>
    rw [opens, newStreams, received, copied]
    by_cases here : other = block
    · subst here
      refine ⟨fun _ => ?_, fun later => absurd (.inl rfl) later⟩
      rw [Function.update_self, (full other).2 closed]
    · rw [Function.update_of_ne here, or_iff_right here]
      exact full other
  | @replaces block open_ closes newStreams received kept =>
    rw [closes, newStreams, received, kept]
    by_cases here : other = block
    · subst here
      refine ⟨fun later => absurd rfl later.1, fun _ => ?_⟩
      rw [Function.update_self, List.append_nil, (full other).1 open_]
    · rw [Function.update_of_ne here, and_iff_right here]
      exact full other

/-- The copy of a block lacks some streams, and will always lack as many. -/
def State.Lacks (past : Stage → Bool) (copy : Block → List Stream) (s : State Call Block Stream) (missing : Nat)
    (block : Block) : Prop :=
  (s.Open past block → (copy block).length + missing ≤ (s.received block).length) ∧
    (¬s.Open past block → (copy block).length + (s.newStreams block).length + missing ≤ (s.received block).length)

theorem Effect.lacks (effect : Effect past s next call copy after) {missing : Nat} {other : Block}
    (lacks : s.Lacks past copy missing other) : next.Lacks past after missing other := by
  cases effect with
  | keeps same newStreams received kept =>
    rw [State.Lacks, same, newStreams, received, kept]
    exact lacks
  | @receives block stream first same newStreams received kept =>
    rw [State.Lacks, same, newStreams, received, kept]
    -- Only the lists of the named block change.
    by_cases here : other = block
    · subst here
      simp only [Function.update_self, List.length_append, List.length_singleton]
      refine ⟨fun open_ => ?_, fun closed => ?_⟩
      · have before := lacks.1 open_
        omega
      · have before := lacks.2 closed
        omega
    · rw [Function.update_of_ne here, Function.update_of_ne here]
      exact lacks
  | @copies block closed opens newStreams received copied =>
    rw [State.Lacks, opens, newStreams, received, copied]
    by_cases here : other = block
    · subst here
      refine ⟨fun _ => ?_, fun later => absurd (.inl rfl) later⟩
      rw [Function.update_self, List.length_append]
      exact lacks.2 closed
    · rw [Function.update_of_ne here, or_iff_right here]
      exact lacks
  | @replaces block open_ closes newStreams received kept =>
    rw [State.Lacks, closes, newStreams, received, kept]
    by_cases here : other = block
    · subst here
      refine ⟨fun later => absurd rfl later.1, fun _ => ?_⟩
      rw [Function.update_self]
      exact lacks.1 open_
    · rw [Function.update_of_ne here, and_iff_right here]
      exact lacks

end Full

/-! ## Runs -/

section Runs

variable {s next last : State Call Block Stream} {call : Call} {calls : List Call}

omit [Fintype Call] in
/-- A stream that is appended too late is missing in the log. -/
theorem Moves.disturbed (moves : Moves s call next) {entry : Block × Stream}
    (first : entry ∈ (s.calls call).toReceive.head?) (open_ : s.Open Stage.written entry.1)
    (lacks : s.Lacks Stage.written s.log 0 entry.1) : next.Lacks Stage.written next.log 1 entry.1 := by
  cases moves with
  | @receive block stream toReceive toVisit stage held here =>
    rw [here] at first
    obtain rfl := Option.some.inj first
    have same := @State.open_keeps _ _ _ _ Stage.written s _ call _
      (State.set_calls s call ⟨toReceive, toVisit, stage, held⟩) (fun _ => by rw [here]; exact Iff.rfl)
    refine ⟨fun _ => ?_, fun closed => absurd ((same block).mpr open_) closed⟩
    have before : (s.log block).length + 0 ≤ (s.received block).length := lacks.1 open_
    show (s.log block).length + 1 ≤ (Function.update s.received block (s.received block ++ [stream]) block).length
    rw [Function.update_self, List.length_append, List.length_singleton]
    omega
  | release here => simp [here] at first
  | skip here empty => simp [here] at first
  | find here => simp [here] at first
  | lock here free => simp [here] at first
  | write here => simp [here] at first
  | merge here => simp [here] at first
  | replace here => simp [here] at first

/-- The step appends a stream too late. -/
def State.Disturbs (s : State Call Block Stream) (call : Call) : Prop :=
  ∃ entry ∈ (s.calls call).toReceive.head?, s.Open Stage.written entry.1

/-- No stream has been appended too late so far. -/
structure State.Kept (s : State Call Block Stream) : Prop where
  locked : s.Locked
  log : s.Full Stage.written s.log
  merged : s.Full Stage.merged s.merged
  lacks : ∀ block, s.Lacks Stage.written s.log 0 block

/-- The log of some block lacks a stream. -/
structure State.Short (s : State Call Block Stream) : Prop where
  locked : s.Locked
  lacks : ∃ block, s.Lacks Stage.written s.log 1 block

theorem run_eq : run s calls = Runs.run step s calls := by
  induction calls generalizing s with
  | nil => rfl
  | cons call calls inductionHypothesis => simp only [run, Runs.run, inductionHypothesis]

theorem undisturbed_iff : Undisturbed s calls ↔ Runs.Avoids step State.Disturbs s calls := by
  induction calls generalizing s with
  | nil => exact Iff.rfl
  | cons call calls inductionHypothesis =>
    simp only [Undisturbed, Runs.Avoids, State.Disturbs, not_exists, not_and, inductionHypothesis]

omit [DecidableEq Call] [DecidableEq Block] [Fintype Call] in
theorem open_written {block : Block} (open_ : s.Open Stage.merged block) : s.Open Stage.written block := by
  obtain ⟨call, head, past⟩ := open_
  refine ⟨call, head, ?_⟩
  cases stage : (s.calls call).stage <;> simp_all [Stage.merged, Stage.written]

omit [Fintype Call] in
theorem Moves.kept (moves : Moves s call next) (kept : s.Kept) (inTime : ¬s.Disturbs call) : next.Kept := by
  have closed : ∀ entry ∈ (s.calls call).toReceive.head?, ¬s.Open Stage.written entry.1 := fun entry first open_ =>
    inTime ⟨entry, first, open_⟩
  exact {
    locked := moves.locked kept.locked
    log := (moves.log_effect kept.locked).full kept.log closed
    merged := (moves.merged_effect kept.locked).full kept.merged fun entry first open_ =>
      closed entry first (open_written open_)
    lacks := fun block => (moves.log_effect kept.locked).lacks (kept.lacks block) }

theorem run_cases (kept : s.Kept) (ran : run s calls = some last) :
    last.Kept ∧ Undisturbed s calls ∨ last.Short ∧ ¬Undisturbed s calls := by
  rw [undisturbed_iff]
  rw [run_eq] at ran
  refine Runs.run_cases ?_ ?_ ?_ kept ran
  · intro s call next kept inTime stepped
    exact (step_moves stepped).kept kept inTime
  · intro s call next kept disturbs stepped
    have moves := step_moves stepped
    obtain ⟨entry, first, open_⟩ := disturbs
    exact ⟨moves.locked kept.locked, entry.1, moves.disturbed first open_ (kept.lacks entry.1)⟩
  · intro s call next short stepped
    have moves := step_moves stepped
    obtain ⟨block, lacks⟩ := short.lacks
    exact ⟨moves.locked short.locked, block, (moves.log_effect short.locked).lacks lacks⟩

theorem run_attended (attended : s.Attended) (ran : run s calls = some last) : last.Attended := by
  rw [run_eq] at ran
  exact Runs.run_keeps (fun s call next attended stepped => (step_moves stepped).attended attended) attended ran

end Runs

section Start

variable (requests : Call → AddRequest Block Stream)

omit [DecidableEq Call] [DecidableEq Block] [Fintype Call]

theorem start_locked : (start requests).Locked := ⟨fun _ _ _ stage => by simp [start] at stage, nofun⟩

theorem start_attended : (start requests).Attended :=
  ⟨fun call => (requests call).visits, fun _ some_ => absurd rfl some_⟩

theorem start_closed {past : Stage → Bool} (before : past .test = false) (block : Block) :
    ¬(start requests).Open past block := fun ⟨_, _, here⟩ => Bool.false_ne_true (before.symm.trans here)

theorem start_full {past : Stage → Bool} (before : past .test = false) {copy : Block → List Stream}
    (empty : ∀ block, copy block = []) : (start requests).Full past copy := fun block =>
  ⟨fun open_ => absurd open_ (start_closed requests before block), fun _ => by rw [empty]; rfl⟩

theorem start_kept : (start requests).Kept where
  locked := start_locked requests
  log := start_full requests rfl fun _ => rfl
  merged := start_full requests rfl fun _ => rfl
  lacks _ := ⟨fun _ => Nat.le_refl _, fun _ => Nat.le_refl _⟩

end Start

/-- When all requests have finished, every stream that was received is in the log of its block and in its `LogStreams`
once, exactly when no stream was appended to a block between the writing and the replacing of its new streams. -/
theorem concurrentAdds_iff (requests : Call → AddRequest Block Stream) {calls : List Call} {s : State Call Block Stream}
    (ran : run (start requests) calls = some s) (finished : ∀ call, (s.calls call).Finished) :
    (∀ block, (s.log block).Perm (s.received block) ∧ (s.merged block).Perm (s.received block)) ↔
      Undisturbed (start requests) calls := by
  have closed : ∀ past block, ¬s.Open past block := by
    rintro past block ⟨call, head, -⟩
    rw [(finished call).2.1] at head
    cases head
  have nothing : ∀ block, s.newStreams block = [] := by
    intro block
    by_contra some_
    obtain ⟨call, member⟩ := (run_attended (start_attended requests) ran).waiting block some_
    rw [(finished call).2.1] at member
    cases member
  obtain ⟨kept, undisturbed⟩ | ⟨short, disturbed⟩ := run_cases (start_kept requests) ran
  · refine iff_of_true (fun block => ?_) undisturbed
    have logged := (kept.log block).2 (closed _ block)
    have inStreams := (kept.merged block).2 (closed _ block)
    rw [nothing, List.append_nil] at logged inStreams
    exact ⟨.of_eq logged, .of_eq inStreams⟩
  · refine iff_of_false (fun complete => ?_) disturbed
    obtain ⟨block, lacks⟩ := short.lacks
    have missing := lacks.2 (closed _ block)
    have same := (complete block).1.length_eq
    omega

/-- Two requests with one stream each, for the same block. -/
def twoRequests (call : Bool) : AddRequest Unit Bool :=
  { streams := [((), call)]
    order := [()]
    visits := by simp }

theorem concurrentAdds_iff_twoRequests :
    ∃ s, run (start twoRequests) [false, true, false, false, false, false, false, false, true] = some s ∧
      ((∀ block, (s.log block).Perm (s.received block) ∧ (s.merged block).Perm (s.received block)) ↔
        Undisturbed (start twoRequests) [false, true, false, false, false, false, false, false, true]) := by
  obtain ⟨s, ran⟩ := Option.isSome_iff_exists.mp
    (by rfl : (run (start twoRequests) [false, true, false, false, false, false, false, false, true]).isSome)
  refine ⟨s, ran, concurrentAdds_iff twoRequests ran fun call => ?_⟩
  obtain rfl := Option.some.inj ran
  cases call
  · exact ⟨rfl, rfl, rfl⟩
  · exact ⟨rfl, rfl, rfl⟩

/-- The second request appends its stream when the first one has written the new streams to the log: the stream is
merged, but it is not in the log, and no goroutine comes back for it. -/
theorem concurrentAdds_lose :
    ∃ s, run (start twoRequests) [false, false, false, false, true, false, false, false, true] = some s ∧
      (∀ call, (s.calls call).Finished) ∧ s.received () = [false, true] ∧ s.log () = [false] ∧
      s.merged () = [false, true] ∧ s.newStreams () = [] := by
  refine ⟨_, rfl, fun call => ?_, rfl, rfl, rfl, rfl⟩
  cases call
  · exact ⟨rfl, rfl, rfl⟩
  · exact ⟨rfl, rfl, rfl⟩

end ConcurrentAdds

end OpenInstrument
