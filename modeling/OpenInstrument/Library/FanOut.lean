import Mathlib.Algebra.BigOperators.Group.List.Basic
import Mathlib.Algebra.Order.Ring.Nat
import OpenInstrument.Library.Interleaving
import OpenInstrument.Library.Runs

/-! # Workers that send to one channel

Workers are started one after another, and each is counted before it is started.  A worker sends its messages on a
channel that all share, as long as there is room, and is taken off the count in the end.  When no worker is left to
start or counted, the channel is closed.  A receiver takes messages off the channel until it is closed and empty, or
until it has enough.
-/

namespace FanOut

variable {Message : Type}

/-- A worker that is done has nothing, and one that is not has what it has not sent yet. -/
structure State (Message : Type) where
  starting : List (List Message)
  workers : List (Option (List Message))
  counted : Nat
  channel : List Message
  closed : Bool
  received : List Message
  finished : Bool
  /-- A message was sent on the closed channel, or the count went below zero. -/
  panicked : Bool

inductive Action where
  | start
  | send (worker : Nat)
  | done (worker : Nat)
  | close
  | receive
  | finish
  deriving DecidableEq

def everything : List Message → Bool := fun _ => false

namespace State

variable (capacity : Nat) (enough : List Message → Bool)

def new (jobs : List (List Message)) : State Message :=
  { starting := jobs, workers := [], counted := 0, channel := [], closed := false, received := [], finished := false
    panicked := false }

def step (s : State Message) : Action → Option (State Message)
  | .start =>
    match s.starting with
    | [] => none
    | messages :: starting =>
      some { s with starting, workers := s.workers ++ [some messages], counted := s.counted + 1 }
  | .send worker =>
    match s.workers[worker]? with
    | some (some (message :: messages)) =>
      if s.closed then some { s with panicked := true }
      else if s.channel.length < capacity then
        some { s with workers := s.workers.set worker (some messages), channel := s.channel ++ [message] }
      else none
    | _ => none
  | .done worker =>
    match s.workers[worker]? with
    | some (some []) =>
      if s.counted = 0 then some { s with panicked := true }
      else some { s with workers := s.workers.set worker none, counted := s.counted - 1 }
    | _ => none
  | .close =>
    if s.starting.isEmpty ∧ s.counted = 0 ∧ s.closed = false then some { s with closed := true } else none
  | .receive =>
    match s.channel with
    | message :: channel =>
      if s.finished = false ∧ enough s.received = false then
        some { s with channel, received := s.received ++ [message] }
      else none
    | [] => none
  | .finish =>
    if s.finished = false ∧ (s.closed = true ∧ s.channel.isEmpty ∨ enough s.received = true) then
      some { s with finished := true }
    else none

def left (s : State Message) : List (List Message) := s.workers.map (·.getD []) ++ s.starting

/-- Nobody can take a step any more. -/
def Stopped (s : State Message) : Prop := ∀ action, s.step capacity enough action = none

/-- All workers have come to their end, and the channel is closed. -/
structure Ended (s : State Message) : Prop where
  started : s.starting = []
  done : ∀ worker ∈ s.workers, worker = none
  closed : s.closed = true

end State

/-! ## What every step keeps -/

/-- The messages received, those on the channel and, behind them, any interleaving of what is not sent yet are an
interleaving of all messages. -/
structure Sound (enough : List Message → Bool) (jobs : List (List Message)) (s : State Message) : Prop where
  counts : s.counted = s.workers.countP Option.isSome
  closed : s.closed = true → s.starting = [] ∧ s.counted = 0
  finished : s.finished = true → s.closed = true ∧ s.channel = [] ∨ enough s.received = true
  patient : ∀ before, before <+: s.received → before ≠ s.received → enough before = false
  calm : s.panicked = false
  merges : ∀ {rest}, Interleaved s.left rest → Interleaved jobs (s.received ++ s.channel ++ rest)

variable {capacity : Nat} {enough : List Message → Bool} {jobs : List (List Message)} {s next : State Message}

theorem sound_new (jobs : List (List Message)) : Sound enough jobs (State.new jobs) where
  counts := rfl
  closed := nofun
  finished := nofun
  patient _ start shorter := absurd (List.prefix_nil.mp start) shorter
  calm := rfl
  merges interleaved := interleaved

/-- A worker stands between others, and is replaced there. -/
theorem exists_split {Item : Type} {items : List Item} {place : Nat} {item : Item} (here : items[place]? = some item) :
    ∃ before after, items = before ++ item :: after ∧ ∀ other, items.set place other = before ++ other :: after := by
  obtain ⟨inside, same⟩ := List.getElem?_eq_some_iff.mp here
  refine ⟨items.take place, items.drop (place + 1), ?_, fun other => ?_⟩
  · rw [← same, List.cons_getElem_drop_succ, List.take_append_drop]
  · rw [List.set_eq_take_append_cons_drop, if_pos inside]

/-- A worker that has not come to its end is counted. -/
theorem Sound.counted_pos (sound : Sound enough jobs s) {worker : Nat} {messages : List Message}
    (here : s.workers[worker]? = some (some messages)) : 0 < s.counted := by
  rw [sound.counts, List.countP_pos_iff]
  exact ⟨some messages, List.mem_of_getElem? here, rfl⟩

/-- The channel is not closed while a worker is counted. -/
theorem Sound.opened (sound : Sound enough jobs s) {worker : Nat} {messages : List Message}
    (here : s.workers[worker]? = some (some messages)) : ¬s.closed = true := by
  intro closed
  have counted := sound.counted_pos here
  rw [(sound.closed closed).2] at counted
  exact Nat.lt_irrefl 0 counted

/-- No step breaks what holds of the state, so that no worker ever panics. -/
theorem Sound.step (sound : Sound enough jobs s) {action : Action}
    (stepped : s.step capacity enough action = some next) : Sound enough jobs next := by
  cases action with
  | start =>
    simp only [State.step] at stepped
    split at stepped
    · cases stepped
    · rename_i messages starting first
      cases stepped
      refine ⟨?_, fun closed => ?_, sound.finished, sound.patient, sound.calm,
        fun {rest} interleaved => sound.merges ?_⟩
      · simp [sound.counts]
      · rw [(sound.closed closed).1] at first
        cases first
      · simpa [State.left, first] using interleaved
  | send worker =>
    simp only [State.step] at stepped
    split at stepped
    · rename_i message messages here
      obtain ⟨before, after, workers, replaced⟩ := exists_split here
      have opened := sound.opened here
      split at stepped
      · rename_i closed
        exact absurd closed opened
      · split at stepped
        · cases stepped
          refine ⟨?_, sound.closed, fun finished => ?_, sound.patient, sound.calm, fun {rest} interleaved => ?_⟩
          · show s.counted = (s.workers.set worker (some messages)).countP Option.isSome
            rw [replaced, sound.counts, workers]
            simp
          · rcases sound.finished finished with ⟨closed, _⟩ | more
            · exact absurd closed opened
            · exact .inr more
          · -- The message leaves its worker for the channel, in front of what is not sent yet.
            have longer : Interleaved s.left (message :: rest) := by
              rw [State.left, replaced, List.map_append, List.map_cons, List.append_assoc] at interleaved
              rw [State.left, workers, List.map_append, List.map_cons, List.append_assoc]
              exact .take interleaved
            simpa using sound.merges longer
        · cases stepped
    · cases stepped
  | done worker =>
    simp only [State.step] at stepped
    split at stepped
    · rename_i here
      obtain ⟨before, after, workers, replaced⟩ := exists_split here
      have counted := sound.counted_pos here
      have counts := sound.counts
      rw [workers] at counts
      simp only [List.countP_append, List.countP_cons, Option.isSome_some, if_true] at counts
      split at stepped
      · rename_i zero
        omega
      · cases stepped
        refine ⟨?_, fun closed => ?_, sound.finished, sound.patient, sound.calm,
          fun {rest} interleaved => sound.merges ?_⟩
        · simp only [replaced, List.countP_append, List.countP_cons, Option.isSome_none]
          simp only [Bool.false_eq_true, if_false]
          omega
        · exact absurd closed (sound.opened here)
        · -- A worker that has sent everything has nothing left to interleave.
          rw [State.left, replaced, List.map_append, List.map_cons] at interleaved
          rw [State.left, workers, List.map_append, List.map_cons]
          exact interleaved
    · cases stepped
  | close =>
    simp only [State.step] at stepped
    split at stepped
    · rename_i allowed
      cases stepped
      exact ⟨sound.counts, fun _ => ⟨List.isEmpty_iff.mp allowed.1, allowed.2.1⟩,
        fun finished => (sound.finished finished).imp_left fun ⟨_, empty⟩ => ⟨rfl, empty⟩, sound.patient, sound.calm,
        sound.merges⟩
    · cases stepped
  | receive =>
    simp only [State.step] at stepped
    split at stepped
    · rename_i message channel first
      split at stepped
      · rename_i allowed
        cases stepped
        refine ⟨sound.counts, sound.closed, fun finished => ?_, fun before start shorter => ?_, sound.calm,
          fun {rest} interleaved => ?_⟩
        · exact absurd (allowed.1.symm.trans finished) nofun
        · -- What was received so far is the longest start that is new.
          by_cases now : before = s.received
          · exact now ▸ allowed.2
          · exact sound.patient before ((List.prefix_concat_iff.mp start).resolve_left shorter) now
        · have merges := sound.merges interleaved
          rw [first] at merges
          simpa using merges
      · cases stepped
    · cases stepped
  | finish =>
    simp only [State.step] at stepped
    split at stepped
    · rename_i allowed
      cases stepped
      exact ⟨sound.counts, sound.closed, fun _ => allowed.2.imp_left fun ⟨closed, empty⟩ =>
        ⟨closed, List.isEmpty_iff.mp empty⟩, sound.patient, sound.calm, sound.merges⟩
    · cases stepped

theorem sound_run {actions : List Action}
    (ran : Runs.run (State.step capacity enough) (State.new jobs) actions = some s) : Sound enough jobs s :=
  Runs.run_keeps (fun _ _ _ before stepped => before.step stepped) (sound_new jobs) ran

/-! ## How it ends -/

def State.work (s : State Message) : Nat :=
  (s.starting.map fun messages => 2 * messages.length + 2).sum +
    (s.workers.map fun worker => worker.elim 0 fun messages => 2 * messages.length + 1).sum + s.channel.length +
    (if s.closed then 0 else 1) + (if s.finished then 0 else 1)

/-- Each step leaves less to do: a message counts twice before it is sent, and once on the channel. -/
theorem Sound.work_step (sound : Sound enough jobs s) {action : Action}
    (stepped : s.step capacity enough action = some next) : next.work < s.work := by
  cases action with
  | start =>
    simp only [State.step] at stepped
    split at stepped
    · cases stepped
    · rename_i messages starting first
      cases stepped
      simp only [State.work, first, List.map_cons, List.sum_cons, List.map_append, List.map_nil, List.sum_append,
        List.sum_nil, Option.elim_some]
      omega
  | send worker =>
    simp only [State.step] at stepped
    split at stepped
    · rename_i message messages here
      obtain ⟨before, after, workers, replaced⟩ := exists_split here
      split at stepped
      · rename_i closed
        exact absurd closed (sound.opened here)
      · split at stepped
        · cases stepped
          rw [State.work, State.work]
          simp only [replaced]
          rw [workers]
          simp only [List.map_append, List.map_cons, List.sum_append, List.sum_cons, Option.elim_some,
            List.length_cons, List.length_append, List.length_nil]
          omega
        · cases stepped
    · cases stepped
  | done worker =>
    simp only [State.step] at stepped
    split at stepped
    · rename_i here
      obtain ⟨before, after, workers, replaced⟩ := exists_split here
      split at stepped
      · rename_i zero
        exact absurd zero (sound.counted_pos here).ne'
      · cases stepped
        rw [State.work, State.work]
        simp only [replaced]
        rw [workers]
        simp only [List.map_append, List.map_cons, List.sum_append, List.sum_cons, Option.elim_some,
          Option.elim_none, List.length_nil]
        omega
    · cases stepped
  | close =>
    simp only [State.step] at stepped
    split at stepped
    · rename_i allowed
      cases stepped
      simp only [State.work, allowed.2.2, if_true, Bool.false_eq_true, if_false]
      omega
    · cases stepped
  | receive =>
    simp only [State.step] at stepped
    split at stepped
    · rename_i message channel first
      split at stepped
      · cases stepped
        simp only [State.work, first, List.length_cons]
        omega
      · cases stepped
    · cases stepped
  | finish =>
    simp only [State.step] at stepped
    split at stepped
    · rename_i allowed
      cases stepped
      simp only [State.work, allowed.1, if_true, Bool.false_eq_true, if_false]
      omega
    · cases stepped

/-- No run goes on for ever. -/
theorem Sound.run_length {last : State Message} {actions : List Action} (sound : Sound enough jobs s)
    (ran : Runs.run (State.step capacity enough) s actions = some last) : actions.length + last.work ≤ s.work := by
  induction actions generalizing s with
  | nil =>
    cases ran
    exact Nat.le_of_eq (Nat.zero_add _)
  | cons action actions inductionHypothesis =>
    obtain ⟨middle, stepped, rest⟩ := Option.bind_eq_some_iff.mp ran
    have less := sound.work_step stepped
    have later := inductionHypothesis (sound.step stepped) rest
    rw [List.length_cons]
    omega

/-- What is on the channel and what is not sent yet is no more than all messages. -/
theorem Sound.length_le (sound : Sound enough jobs s) :
    s.channel.length + s.left.flatten.length ≤ jobs.flatten.length := by
  have lengths := (sound.merges (Interleaved.flatten s.left)).perm.length_eq
  simp only [List.length_append] at lengths
  omega

/-- What was received can go on to be an interleaving of all messages. -/
theorem Sound.exists_rest (sound : Sound enough jobs s) : ∃ rest, Interleaved jobs (s.received ++ rest) :=
  ⟨_, List.append_assoc _ _ _ ▸ sound.merges (Interleaved.flatten s.left)⟩

section Stopped

variable (stopped : s.Stopped capacity enough)

include stopped

theorem State.Stopped.starting : s.starting = [] := by
  have none_ := stopped .start
  simp only [State.step] at none_
  split at none_
  · assumption
  · cases none_

theorem State.Stopped.receive : s.finished = true ∨ s.channel = [] ∨ enough s.received = true := by
  have none_ := stopped .receive
  simp only [State.step] at none_
  split at none_
  · split at none_
    · cases none_
    · rename_i blocked
      rw [not_and_or, Bool.not_eq_false, Bool.not_eq_false] at blocked
      exact blocked.imp_right .inr
  · exact .inr (.inl ‹_›)

theorem State.Stopped.finish : s.finished = true ∨
    ¬(s.closed = true ∧ s.channel = []) ∧ enough s.received = false := by
  have none_ := stopped .finish
  simp only [State.step] at none_
  split at none_
  · cases none_
  · rename_i blocked
    rw [not_and_or, Bool.not_eq_false, not_or, List.isEmpty_iff, Bool.not_eq_true (enough s.received)] at blocked
    exact blocked

/-- A worker that has something to send waits for room. -/
theorem State.Stopped.worker {worker : Option (List Message)} (member : worker ∈ s.workers) : worker = none ∨
    s.closed = false ∧ capacity ≤ s.channel.length ∧ ∃ message messages, worker = some (message :: messages) := by
  obtain ⟨place, inside, here⟩ := List.getElem_of_mem member
  have there : s.workers[place]? = some worker := by rw [List.getElem?_eq_getElem inside, here]
  match worker with
  | none => exact .inl rfl
  | some [] =>
    have none_ := stopped (.done place)
    simp only [State.step, there] at none_
    split at none_ <;> cases none_
  | some (message :: messages) =>
    have none_ := stopped (.send place)
    simp only [State.step, there] at none_
    split at none_
    · cases none_
    · rename_i opened
      split at none_
      · cases none_
      · rename_i full
        exact .inr ⟨Bool.eq_false_iff.mpr opened, Nat.not_lt.mp full, message, messages, rfl⟩

theorem State.Stopped.ended (sound : Sound enough jobs s) (idle : ∀ worker ∈ s.workers, worker = none) : s.Ended := by
  refine ⟨stopped.starting, idle, ?_⟩
  by_contra opened
  have counted : s.counted = 0 := by
    rw [sound.counts, List.countP_eq_zero]
    intro worker member
    rw [idle worker member]
    nofun
  have none_ := stopped .close
  rw [State.step, if_pos ⟨List.isEmpty_iff.mpr stopped.starting, counted, Bool.eq_false_iff.mpr opened⟩] at none_
  cases none_

end Stopped

/-- Where there is room for all messages, all workers come to their end. -/
theorem Sound.ended (sound : Sound enough jobs s) (stopped : s.Stopped capacity enough)
    (fits : jobs.flatten.length ≤ capacity) : s.Ended := by
  refine stopped.ended sound fun worker member => ?_
  rcases stopped.worker member with idle | ⟨_, full, message, messages, rfl⟩
  · exact idle
  · have bound := sound.length_le
    have unsent : message ∈ s.left.flatten := List.mem_flatten.mpr
      ⟨_, List.mem_append_left _ (List.mem_map.mpr ⟨_, member, rfl⟩), List.mem_cons_self⟩
    have more := List.length_pos_of_mem unsent
    omega

/-- The receiver comes to its end.  If it never had enough, all workers have come to theirs, and it has an interleaving
of all messages. -/
theorem Sound.outcome (sound : Sound enough jobs s) (stopped : s.Stopped capacity enough) (room : 0 < capacity) :
    s.finished = true ∧ (s.Ended ∧ Interleaved jobs s.received ∨ enough s.received = true) := by
  by_cases more : enough s.received = true
  · exact ⟨stopped.finish.resolve_right fun able => absurd (more.symm.trans able.2) nofun, .inr more⟩
  · have drained : s.channel = [] := by
      rcases stopped.receive with finished | empty | more'
      · exact ((sound.finished finished).resolve_right more).2
      · exact empty
      · exact absurd more' more
    have ended : s.Ended := by
      refine stopped.ended sound fun worker member => (stopped.worker member).resolve_right ?_
      rintro ⟨_, full, _⟩
      rw [drained] at full
      exact absurd room (Nat.not_lt.mpr full)
    have sent : ∀ list ∈ s.left, list = [] := by
      rw [State.left, ended.started, List.append_nil, List.forall_mem_map]
      intro worker member
      rw [ended.done worker member]
      rfl
    have merges := sound.merges (.nil sent)
    rw [drained, List.append_nil, List.append_nil] at merges
    exact ⟨stopped.finish.resolve_right fun able => able.1 ⟨ended.closed, drained⟩, .inl ⟨ended, merges⟩⟩

end FanOut
