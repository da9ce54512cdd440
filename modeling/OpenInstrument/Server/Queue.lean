import OpenInstrument.Library.Monitor

/-! # Queues and notifications

Threads hand values to each other through a `Queue`, and wait for each other at a `Notification`.  Each of the two has
a mutex and a condition variable.  `shutdown_` is read and written without the mutex.
-/

namespace OpenInstrument.Server

open Monitor

variable {T : Type}

namespace Queue

/-! ## The code -/

/-- `shutdown_` and `queue_`.  `pushed` and `popped` say what has been pushed and popped so far, and `undefined` that
`front` or `pop` was called on an empty queue. -/
structure Memory (T : Type) where
  shutdown : Bool
  queue : List T
  pushed : List T
  popped : List T
  undefined : Bool

/-- What a call has returned; `thrown` stands for `out_of_range`. -/
inductive Outcome (T : Type) where
  | none
  | done
  | empty (empty : Bool)
  | nothing
  | value (poppedValue : T)
  | thrown

/-- The calls that pop a value. -/
inductive Pop where
  | tryPop
  | waitAndPop

inductive Point (T : Type) where
  | returned (outcome : Outcome T)
  | shutdown
  | shutdownNotify
  | emptyLock
  | empty
  | pushTest (data : T)
  | pushLock (data : T)
  | push (data : T)
  | pushUnlock
  | pushNotify
  | popTest (pop : Pop)
  | popLock (pop : Pop)
  /-- `!shutdown_`, the first half of the condition. -/
  | whileRunning (pop : Pop)
  /-- `queue_.empty()`, the other half. -/
  | whileEmpty (pop : Pop)
  | wait
  | retest
  | front
  | pop (poppedValue : T)
  /-- The end of the scope of the lock. -/
  | leave (outcome : Outcome T)

def instruction : Point T → Instruction (Point T) (Memory T)
  | .returned _ => .idle
  | .shutdown => .compute fun memory => ({ memory with shutdown := true }, .shutdownNotify)
  | .shutdownNotify => .notifyAll (.returned .done)
  | .emptyLock => .lock .empty
  | .empty => .compute fun memory => (memory, .leave (.empty memory.queue.isEmpty))
  | .pushTest data => .compute fun memory => (memory, if memory.shutdown then .returned .thrown else .pushLock data)
  | .pushLock data => .lock (.push data)
  | .push data => .compute fun memory =>
    ({ memory with queue := memory.queue ++ [data], pushed := memory.pushed ++ [data] }, .pushUnlock)
  | .pushUnlock => .unlock .pushNotify
  | .pushNotify => .notifyOne (.returned .done)
  | .popTest pop => .compute fun memory => (memory, if memory.shutdown then .returned .thrown else .popLock pop)
  | .popLock pop => .lock (.whileRunning pop)
  | .whileRunning pop => .compute fun memory => (memory, if memory.shutdown then .retest else .whileEmpty pop)
  | .whileEmpty pop => .compute fun memory =>
    (memory, if memory.queue.isEmpty then match pop with
      | .tryPop => .leave .nothing
      | .waitAndPop => .wait
    else .retest)
  | .wait => .wait (.whileRunning .waitAndPop)
  | .retest => .compute fun memory => (memory, if memory.shutdown then .leave .thrown else .front)
  | .front => .compute fun memory =>
    match memory.queue with
    | poppedValue :: _ => (memory, .pop poppedValue)
    | [] => ({ memory with undefined := true }, .leave .thrown)
  | .pop poppedValue => .compute fun memory =>
    match memory.queue with
    | _ :: queue => ({ memory with queue, popped := memory.popped ++ [poppedValue] }, .leave (.value poppedValue))
    | [] => ({ memory with undefined := true }, .leave .thrown)
  | .leave outcome => .unlock (.returned outcome)

/-- `Push`, `TryPop`, `WaitAndPop`, `empty` and `Shutdown`, which the destructor calls, too. -/
def entry : Point T → Bool
  | .shutdown | .emptyLock | .pushTest _ | .popTest _ => true
  | _ => false

def inside : Point T → Bool
  | .empty | .push _ | .pushUnlock | .whileRunning _ | .whileEmpty _ | .wait | .retest | .front | .pop _ | .leave _ =>
    true
  | _ => false

theorem tracked (point : Point T) : (instruction point).Tracked inside point := by
  cases point with
  | returned | shutdown | shutdownNotify | empty | push | pushNotify => first | exact rfl | exact fun _ => rfl
  | emptyLock | pushLock | pushUnlock | popLock | wait | leave => exact ⟨rfl, rfl⟩
  | pushTest | popTest | whileRunning | retest =>
    intro memory
    dsimp only
    split <;> rfl
  | whileEmpty pop =>
    intro memory
    cases pop <;> dsimp only <;> split <;> rfl
  | front | pop =>
    intro memory
    dsimp only
    split <;> rfl

def program : Program (Point T) (Memory T) where
  instruction := instruction
  entry := entry
  inside := inside
  entry_outside := by
    intro point enters
    cases point <;> first | rfl | cases enters
  tracked := tracked

variable {Thread : Type}

/-- `Queue()`. -/
def start : State Thread (Point T) (Memory T) where
  memory := { shutdown := false, queue := [], pushed := [], popped := [], undefined := false }
  holder := none
  threads _ := .running (.returned .none)

/-! ## First in, first out -/

/-- What is popped and what is left are what was pushed, in its order. -/
def Sound (memory : Memory T) : Prop :=
  memory.popped ++ memory.queue = memory.pushed ∧ memory.undefined = false

/-- What a thread has seen of the memory before it gets to a point. -/
def Seen : Point T → Memory T → Prop
  | .shutdownNotify, memory => memory.shutdown = true
  | .wait, memory => memory.queue = []
  | .retest, memory => memory.shutdown = true ∨ memory.queue ≠ []
  | .front, memory => memory.queue ≠ []
  | .pop poppedValue, memory => memory.queue.head? = some poppedValue
  | _, _ => True

/-- Without the mutex nothing but `shutdown_` is written. -/
theorem compute_outside {point : Point T} {effect : Memory T → Memory T × Point T}
    (does : instruction point = .compute effect) (outside : inside point = false) (memory : Memory T) :
    (effect memory).1 = memory ∨ (effect memory).1 = { memory with shutdown := true } := by
  cases point with
  | shutdown =>
    cases does
    exact .inr rfl
  | pushTest | popTest =>
    cases does
    exact .inl rfl
  | empty | push | whileRunning | whileEmpty | retest | front | pop => cases outside
  | returned | shutdownNotify | emptyLock | pushLock | pushUnlock | pushNotify | popLock | wait | leave => cases does

/-- Nobody takes a shutdown back. -/
theorem compute_shutdown {point : Point T} {effect : Memory T → Memory T × Point T}
    (does : instruction point = .compute effect) {memory : Memory T} (shut : memory.shutdown = true) :
    (effect memory).1.shutdown = true := by
  cases point with
  | shutdown | empty | pushTest | push | popTest | whileRunning | whileEmpty | retest =>
    cases does
    first | exact shut | rfl
  | front | pop =>
    cases does
    dsimp only
    split <;> exact shut
  | returned | shutdownNotify | emptyLock | pushLock | pushUnlock | pushNotify | popLock | wait | leave => cases does

theorem seen_outside {point : Point T} (outside : inside point = false) (memory : Memory T) :
    Seen point memory ↔ (point = .shutdownNotify → memory.shutdown = true) := by
  cases point with
  | shutdownNotify => exact ⟨fun seen _ => seen, fun seen => seen rfl⟩
  | returned | shutdown | emptyLock | pushTest | pushLock | pushNotify | popTest | popLock =>
    exact iff_of_true trivial nofun
  | empty | push | pushUnlock | whileRunning | whileEmpty | wait | retest | front | pop | leave => cases outside

theorem seen_shutdown {point : Point T} {memory : Memory T} (seen : Seen point memory) :
    Seen point { memory with shutdown := true } := by
  cases point with
  | shutdownNotify => rfl
  | retest => exact .inl rfl
  | wait | front | pop => exact seen
  | returned | shutdown | emptyLock | empty | pushTest | pushLock | push | pushUnlock | pushNotify | popTest | popLock
  | whileRunning | whileEmpty | leave => trivial

/-- A step of the code from what is known where it starts. -/
theorem compute_sound {point : Point T} {effect : Memory T → Memory T × Point T}
    (does : instruction point = .compute effect) {memory : Memory T} (sound : inside point = true → Sound memory)
    (seen : Seen point memory) :
    (inside (effect memory).2 = true → Sound (effect memory).1) ∧ Seen (effect memory).2 (effect memory).1 := by
  cases point with
  | shutdown =>
    cases does
    exact ⟨nofun, rfl⟩
  | empty =>
    cases does
    exact ⟨fun _ => sound rfl, trivial⟩
  | pushTest | popTest =>
    cases does
    dsimp only
    split <;> exact ⟨nofun, trivial⟩
  | push data =>
    cases does
    refine ⟨fun _ => ⟨?_, (sound rfl).2⟩, trivial⟩
    show memory.popped ++ (memory.queue ++ [data]) = memory.pushed ++ [data]
    rw [← (sound rfl).1, List.append_assoc]
  | whileRunning pop =>
    cases does
    dsimp only
    split
    · rename_i shut
      exact ⟨fun _ => sound rfl, .inl shut⟩
    · exact ⟨fun _ => sound rfl, trivial⟩
  | whileEmpty pop =>
    cases does
    dsimp only
    split
    · rename_i none_
      cases pop with
      | tryPop => exact ⟨fun _ => sound rfl, trivial⟩
      | waitAndPop => exact ⟨fun _ => sound rfl, List.isEmpty_iff.mp none_⟩
    · rename_i some_
      exact ⟨fun _ => sound rfl, .inr fun none_ => some_ (List.isEmpty_iff.mpr none_)⟩
  | retest =>
    -- The loop was left with a value or with the shutdown, which this test rules out.
    cases does
    dsimp only
    split
    · exact ⟨fun _ => sound rfl, trivial⟩
    · rename_i running
      exact ⟨fun _ => sound rfl, seen.resolve_left running⟩
  | front =>
    cases does
    dsimp only
    split
    · rename_i poppedValue rest first
      exact ⟨fun _ => sound rfl, congrArg List.head? first⟩
    · rename_i none_
      exact absurd none_ seen
  | pop poppedValue =>
    cases does
    dsimp only
    split
    · rename_i first rest queue
      refine ⟨fun _ => ⟨?_, (sound rfl).2⟩, trivial⟩
      have same : first = poppedValue := by
        rw [Seen, queue] at seen
        exact Option.some.inj seen
      rw [← (sound rfl).1, queue, same, List.append_assoc]
      rfl
    · rename_i none_
      rw [Seen, none_] at seen
      cases seen
  | returned | shutdownNotify | emptyLock | pushLock | pushUnlock | pushNotify | popLock | wait | leave => cases does

/-- What a lock, an unlock, a wait and a notification go on to, nothing is known of but that the queue is sound. -/
theorem seen_next {point next : Point T}
    (does : instruction point = .lock next ∨ instruction point = .unlock next ∨ instruction point = .wait next ∨
      instruction point = .notifyOne next ∨ instruction point = .notifyAll next) (memory : Memory T) :
    Seen next memory := by
  cases point with
  | emptyLock | pushLock | popLock | pushUnlock | leave | wait | pushNotify | shutdownNotify =>
    rcases does with does | does | does | does | does <;> cases does
    trivial
  | returned | shutdown | empty | pushTest | push | popTest | whileRunning | whileEmpty | retest | front | pop =>
    rcases does with does | does | does | does | does <;> cases does

def outline : Outline (program : Program (Point T) (Memory T)) where
  resource := Sound
  assertion point memory := (inside point = true → Sound memory) ∧ Seen point memory
  call {entry memory} enters := by
    have outside := program.entry_outside entry enters
    refine ⟨fun held => absurd (outside.symm.trans held) nofun, ?_⟩
    cases entry <;> trivial
  lock does _ sound := ⟨fun _ => sound, seen_next (.inl does) _⟩
  unlock {point next memory} does known := by
    have tracked := program.tracked point
    rw [does] at tracked
    exact ⟨known.1 tracked.1, fun _ => known.1 tracked.1, seen_next (.inr (.inl does)) _⟩
  wait {point next memory} does known := by
    have tracked := program.tracked point
    rw [does] at tracked
    exact known.1 tracked.1
  resume does sound := ⟨fun _ => sound, seen_next (.inr (.inr (.inl does))) _⟩
  notifyOne {point next memory} does known := by
    have tracked := program.tracked point
    rw [does] at tracked
    exact ⟨fun held => known.1 ((Eq.symm tracked).trans held), seen_next (.inr (.inr (.inr (.inl does)))) _⟩
  notifyAll {point next memory} does known := by
    have tracked := program.tracked point
    rw [does] at tracked
    exact ⟨fun held => known.1 ((Eq.symm tracked).trans held), seen_next (.inr (.inr (.inr (.inr does)))) _⟩
  compute does known := compute_sound does known.1 known.2
  keepsResource {point effect memory} does outside _ sound := by
    rcases compute_outside does outside memory with same | shut
    · rw [same]
      exact sound
    · rw [shut]
      exact sound
  undisturbed {point effect memory other} does apart _ known := by
    by_cases held : inside other = true
    · have outside : inside point = false := apart.resolve_right (Bool.not_eq_false _ ▸ held)
      rcases compute_outside does outside memory with same | shut
      · rw [same]
        exact known
      · rw [shut]
        exact ⟨known.1, seen_shutdown known.2⟩
    · refine ⟨fun inside => absurd inside held, ?_⟩
      have outside := Bool.eq_false_iff.mpr held
      rw [seen_outside outside] at known ⊢
      exact fun notifies => compute_shutdown does (known.2 notifies)

variable [DecidableEq Thread] [Fintype Thread]

omit [DecidableEq Thread] [Fintype Thread] in
theorem holds_start : outline.Holds (start : State Thread (Point T) (Memory T)) :=
  .of_outside rfl ⟨rfl, rfl⟩ fun _ => ⟨_, rfl, rfl, nofun, trivial⟩

theorem holds_run {s : State Thread (Point T) (Memory T)} {actions : List (Action Thread (Point T))}
    (ran : Runs.run (State.step program) start actions = some s) : outline.Holds s :=
  holds_start.run ran

/-- Whatever the threads do to the queue, in whatever order, the values come off it in the order in which they were
pushed, none is lost and none is popped twice, and neither `front` nor `pop` is called without one. -/
theorem fifo {s : State Thread (Point T) (Memory T)} {actions : List (Action Thread (Point T))}
    (ran : Runs.run (State.step program) start actions = some s) :
    s.memory.popped ++ s.memory.queue = s.memory.pushed ∧ s.memory.undefined = false := by
  have holds := holds_run ran
  cases held : s.holder with
  | none => exact holds.free held
  | some thread =>
    have inside := (holds.exclusive.holder thread).mp held
    cases here : s.threads thread with
    | running point =>
      rw [here] at inside
      exact (holds.here here).1 inside
    | waiting | woken =>
      rw [here] at inside
      cases inside

/-- One thread pushes a value while another waits for it. -/
def handed : List (Action Bool (Point Nat)) :=
  [.call true (.popTest .waitAndPop), .step true none, .step true none, .step true none, .step true none,
    .step true none, .call false (.pushTest 7), .step false none, .step false none, .step false none,
    .step false none, .step false (some true), .step true none, .step true none, .step true none, .step true none,
    .step true none, .step true none, .step true none]

theorem fifo_handed : ∃ s : State Bool (Point Nat) (Memory Nat),
    Runs.run (State.step program) start handed = some s ∧ s.memory.popped = [7] ∧
      s.memory.popped ++ s.memory.queue = s.memory.pushed ∧ s.memory.undefined = false :=
  ⟨_, rfl, rfl, fifo (show Runs.run (State.step program) start handed = some _ from rfl)⟩

/-! ## Wake-ups -/

/-- Threads that are needed for the values in the queue; after a shutdown they are needed no more. -/
def need (memory : Memory T) : Nat := if memory.shutdown then 0 else memory.queue.length

/-- A thread between a push and its notification is worth a value of the queue, and so is one that goes to see whether
there is one. -/
def worth : Point T → Nat
  | .pushUnlock | .pushNotify | .whileRunning _ | .whileEmpty _ | .retest | .front | .pop _ => 1
  | _ => 0

theorem need_nil {memory : Memory T} (none_ : memory.queue = []) : need memory = 0 := by
  rw [need, none_]
  exact ite_self 0

theorem compute_need {point : Point T} {effect : Memory T → Memory T × Point T}
    (does : instruction point = .compute effect) {memory : Memory T} (seen : Seen point memory) :
    need (effect memory).1 = 0 ∨ need (effect memory).1 + worth point ≤ need memory + worth (effect memory).2 := by
  cases point with
  | shutdown =>
    cases does
    exact .inl rfl
  | empty =>
    cases does
    exact .inr (Nat.le_refl _)
  | pushTest data =>
    cases does
    exact .inr (Nat.le_add_right _ _)
  | popTest pop =>
    cases does
    exact .inr (Nat.le_add_right _ _)
  | push data =>
    -- One value more is needed, and the notification to come is worth as much.
    cases does
    simp only [need, worth]
    split
    · exact .inl rfl
    · exact .inr (Nat.le_of_eq List.length_append)
  | whileRunning pop =>
    cases does
    refine .inr (Nat.add_le_add_left ?_ _)
    dsimp only
    split <;> exact Nat.le_refl 1
  | whileEmpty pop =>
    -- A call goes to wait only where there is no value, so that nothing is needed.
    cases does
    by_cases none_ : memory.queue = []
    · exact .inl (need_nil none_)
    · rw [← List.isEmpty_iff] at none_
      refine .inr (Nat.add_le_add_left ?_ _)
      dsimp only
      rw [if_neg none_]
      exact Nat.le_refl 1
  | retest =>
    cases does
    by_cases shut : memory.shutdown = true
    · exact .inl (if_pos shut)
    · refine .inr (Nat.add_le_add_left ?_ _)
      dsimp only
      rw [if_neg shut]
      exact Nat.le_refl 1
  | front =>
    cases does
    dsimp only
    split
    · exact .inr (Nat.le_refl _)
    · rename_i none_
      exact absurd none_ seen
  | pop poppedValue =>
    cases does
    dsimp only
    split
    · rename_i first rest queue
      simp only [need, worth, queue, List.length_cons]
      split
      · exact .inl rfl
      · exact .inr (Nat.le_refl _)
    · rename_i none_
      exact .inl (need_nil none_)
  | returned | shutdownNotify | emptyLock | pushLock | pushUnlock | pushNotify | popLock | wait | leave => cases does

def credit : Credit (outline : Outline (program : Program (Point T) (Memory T))) where
  need := need
  credit := worth
  lock {point next} does := by
    cases point <;> cases does <;> exact Nat.zero_le _
  unlock {point next} does := by
    cases point <;> cases does <;> exact Nat.le_refl _
  wait {point next memory} does known := by
    cases point <;> cases does
    exact need_nil known.2
  notifyOne {point next waiting resumed} does waited := by
    cases point <;> cases does
    cases waiting <;> cases waited
    exact Nat.le_refl 1
  compute does known := compute_need does known.2
  idle {point} does := by
    cases point <;> first | rfl | cases does

/-- What a thread has left to do, where so many are woken by a shutdown. -/
def rank (threads : Nat) : Point T → Nat
  | .returned _ => 0
  | .leave _ | .wait => 1
  | .empty | .pop _ => 2
  | .emptyLock | .front => 3
  | .retest => 4
  | .whileEmpty _ => 5
  | .whileRunning _ => 6
  | .popLock _ => 7
  | .popTest _ | .pushNotify => 8
  | .pushUnlock => 9
  | .push _ => 10
  | .pushLock _ => 11
  | .pushTest _ => 12
  | .shutdownNotify => threads * 7 + 1
  | .shutdown => threads * 7 + 2

theorem compute_rank (threads : Nat) {point : Point T} {effect : Memory T → Memory T × Point T}
    (does : instruction point = .compute effect) (memory : Memory T) :
    rank threads (effect memory).2 < rank threads point := by
  cases point with
  | shutdown | empty | push =>
    cases does
    exact Nat.lt_succ_self _
  | pushTest | popTest | whileRunning | retest | front | pop =>
    cases does
    dsimp only
    split <;> simp only [rank] <;> decide
  | whileEmpty pop =>
    cases does
    dsimp only
    split
    · cases pop <;> simp only [rank] <;> decide
    · exact Nat.lt_succ_self _
  | returned | shutdownNotify | emptyLock | pushLock | pushUnlock | pushNotify | popLock | wait | leave => cases does

def ranking (threads : Nat) : Ranking (program : Program (Point T) (Memory T)) threads where
  rank := rank threads
  gain _ _ := 0
  awake := 7
  lock {point next} does := by
    cases point <;> cases does <;> exact Nat.lt_succ_self _
  unlock {point next} does := by
    cases point <;> cases does <;> exact Nat.lt_succ_self _
  wait {point next} does := by
    cases point <;> cases does
    exact ⟨Nat.zero_lt_one, Nat.lt_succ_self 6⟩
  notifyOne {point next} does := by
    cases point <;> cases does
    exact Nat.lt_succ_self _
  notifyAll {point next} does := by
    cases point <;> cases does
    simp only [rank]
    omega
  compute := compute_rank threads

/-- A thread whose call has returned. -/
def Returned (standing : Standing (Point T)) : Prop := ∃ outcome, standing = .running (.returned outcome)

/-- After any run, threads that nobody calls come to rest after so many steps.  At rest a call has returned or waits for
a value, and while the queue is not shut down it waits only if there is none. -/
theorem no_lost_wakeup {s : State Thread (Point T) (Memory T)} {actions : List (Action Thread (Point T))}
    (ran : Runs.run (State.step program) start actions = some s) :
    (∃ bound, ∀ own last, (∀ action ∈ own, action.isStep = true) →
      Runs.run (State.step program) s own = some last → own.length ≤ bound) ∧
    (s.Settled program →
      (∀ thread, Returned (s.threads thread) ∨ s.threads thread = .waiting (.whileRunning .waitAndPop)) ∧
        (s.memory.shutdown = false → s.memory.queue = [] ∨ ∀ thread, Returned (s.threads thread))) := by
  have before : credit.Covers (start : State Thread (Point T) (Memory T)) := .inl fun _ => rfl
  obtain ⟨holds, covers⟩ := before.run holds_start ran
  refine ⟨⟨s.total (ranking (Fintype.card Thread)).worth, fun own last steps stepped => ?_⟩, fun settled => ?_⟩
  · have bound := (ranking (Fintype.card Thread)).run_length holds.exclusive stepped
    have nothing : (ranking (Fintype.card Thread)).gained s own = 0 :=
      (ranking (Fintype.card Thread)).gained_eq_zero (fun _ => True) (fun _ _ _ _ _ => trivial)
        (fun s thread _ => by cases s.threads thread <;> rfl) steps trivial
    omega
  have standing : ∀ thread,
      Returned (s.threads thread) ∨ s.threads thread = .waiting (.whileRunning .waitAndPop) := by
    intro thread
    rcases settled.standing holds.exclusive thread with ⟨point, here, idle⟩ | waits
    · left
      cases point <;> first | exact ⟨_, here⟩ | cases idle
    · cases there : s.threads thread with
      | running | woken =>
        rw [there] at waits
        cases waits
      | waiting point =>
        obtain ⟨before, waited⟩ := holds.exclusive.parked thread point (.inl there)
        cases before <;> cases waited
        exact .inr rfl
  refine ⟨standing, fun running => ?_⟩
  rcases covers.settled settled holds.exclusive with unwaited | nothing
  · right
    intro thread
    refine (standing thread).resolve_right fun waits => ?_
    have active := unwaited thread
    rw [waits] at active
    cases active
  · left
    refine List.eq_nil_of_length_eq_zero ?_
    have needed : need s.memory = 0 := nothing
    rw [need, running] at needed
    exact needed

theorem no_lost_wakeup_handed : ∃ s : State Bool (Point Nat) (Memory Nat),
    Runs.run (State.step program) start handed = some s ∧
      (∃ bound, ∀ own last, (∀ action ∈ own, action.isStep = true) →
        Runs.run (State.step program) s own = some last → own.length ≤ bound) ∧
      (s.Settled program →
        (∀ thread, Returned (s.threads thread) ∨ s.threads thread = .waiting (.whileRunning .waitAndPop)) ∧
          (s.memory.shutdown = false → s.memory.queue = [] ∨ ∀ thread, Returned (s.threads thread))) :=
  ⟨_, rfl, no_lost_wakeup (show Runs.run (State.step program) start handed = some _ from rfl)⟩

/-! ## Shutting down -/

/-- A call has read `shutdown_` while it was not set, and is going to wait. -/
def Misses (memory : Memory T) (standing : Standing (Point T)) : Prop :=
  standing = .running .wait ∨ standing = .running (.whileEmpty .waitAndPop) ∧ memory.queue = []

theorem compute_misses {point : Point T} {effect : Memory T → Memory T × Point T}
    (does : instruction point = .compute effect) {memory : Memory T} (shut : memory.shutdown = true)
    (misses : Misses (effect memory).1 (.running (effect memory).2)) : Misses memory (.running point) := by
  cases point with
  | whileEmpty pop =>
    cases does
    dsimp only at misses
    split at misses
    · rename_i none_
      cases pop with
      | tryPop => rcases misses with waits | ⟨waits, _⟩ <;> cases waits
      | waitAndPop => exact .inr ⟨rfl, List.isEmpty_iff.mp none_⟩
    · rcases misses with waits | ⟨waits, _⟩ <;> cases waits
  | whileRunning pop =>
    cases does
    dsimp only at misses
    rw [if_pos shut] at misses
    rcases misses with waits | ⟨waits, _⟩ <;> cases waits
  | shutdown | empty | push =>
    cases does
    rcases misses with waits | ⟨waits, _⟩ <;> cases waits
  | pushTest | popTest | retest | front | pop =>
    cases does
    dsimp only at misses
    split at misses <;> rcases misses with waits | ⟨waits, _⟩ <;> cases waits
  | returned | shutdownNotify | emptyLock | pushLock | pushUnlock | pushNotify | popLock | wait | leave => cases does

/-- Nobody waits, and nobody is going to. -/
structure Awake (s : State Thread (Point T) (Memory T)) : Prop where
  shut : s.memory.shutdown = true
  unwaited : s.Unwaited
  none_ : ∀ thread, ¬Misses s.memory (s.threads thread)

namespace Awake

variable {s next : State Thread (Point T) (Memory T)}

omit [Fintype Thread] in
theorem move (awake : Awake s) (thread : Thread) (standing : Standing (Point T)) (active : standing.isWaiting = false)
    (sees : ¬Misses s.memory standing) : Awake (s.move thread standing) where
  shut := awake.shut
  unwaited := awake.unwaited.move thread standing active
  none_ := by
    intro other
    rw [State.move_threads]
    split
    · exact sees
    · exact awake.none_ other

omit [Fintype Thread] in
theorem keeps (awake : Awake s) (holds : outline.Holds s) (moves : Moves program s next) : Awake next := by
  cases moves with
  | @call thread point entry here idle enters =>
    refine awake.move _ _ rfl ?_
    rintro (waits | ⟨waits, _⟩) <;> cases waits <;> cases enters
  | @wake thread point here =>
    have waits := awake.unwaited thread
    rw [here] at waits
    cases waits
  | @advance thread _ own =>
    cases own with
    | @resume point here free =>
      obtain ⟨before, waited⟩ := holds.exclusive.parked thread point (.inr here)
      have moved := awake.move thread (.running point) rfl ?_
      · exact ⟨moved.shut, moved.unwaited, moved.none_⟩
      · cases before <;> cases waited
        rintro (waits | ⟨waits, _⟩) <;> cases waits
    | @lock point later here does free =>
      have moved := awake.move thread (.running later) rfl ?_
      · exact ⟨moved.shut, moved.unwaited, moved.none_⟩
      · cases point <;> cases does <;> rintro (waits | ⟨waits, _⟩) <;> cases waits
    | @unlock point later here does =>
      have moved := awake.move thread (.running later) rfl ?_
      · exact ⟨moved.shut, moved.unwaited, moved.none_⟩
      · cases point <;> cases does <;> rintro (waits | ⟨waits, _⟩) <;> cases waits
    | @wait point later here does =>
      -- Nobody stands in front of a wait.
      cases point <;> cases does
      exact absurd (.inl here) (awake.none_ thread)
    | @notifyNone point later here does unwaited =>
      refine awake.move _ _ rfl ?_
      cases point <;> cases does
      rintro (waits | ⟨waits, _⟩) <;> cases waits
    | @notifyOne point later other resumed here does there =>
      have waits := awake.unwaited other
      rw [there] at waits
      cases waits
    | @notifyAll point later here does =>
      rw [awake.unwaited.wakeAll]
      refine awake.move _ _ rfl ?_
      cases point <;> cases does
      rintro (waits | ⟨waits, _⟩) <;> cases waits
    | @compute point effect here does =>
      have unwaited := awake.unwaited.move thread (.running (effect s.memory).2) rfl
      refine ⟨compute_shutdown does awake.shut, unwaited, fun other misses => ?_⟩
      replace misses :
          Misses (effect s.memory).1 ((s.move thread (.running (effect s.memory).2)).threads other) := misses
      rw [State.move_threads] at misses
      split at misses
      · exact awake.none_ thread (here ▸ compute_misses does awake.shut misses)
      · rename_i different
        refine awake.none_ other (misses.imp_right fun ⟨there, none_⟩ => ⟨there, ?_⟩)
        -- The other thread is inside, so that this one does not touch the queue.
        have outside := (holds.outside_or different here there).resolve_right nofun
        rcases compute_outside does outside s.memory with same | shut
        · rwa [same] at none_
        · rwa [shut] at none_

end Awake

theorem awake_run {s last : State Thread (Point T) (Memory T)} {actions : List (Action Thread (Point T))}
    (awake : Awake s) (holds : outline.Holds s) (ran : Runs.run (State.step program) s actions = some last) :
    Awake last := by
  have keeps : ∀ (s : State Thread (Point T) (Memory T)) action next, outline.Holds s ∧ Awake s →
      s.step program action = some next → outline.Holds next ∧ Awake next :=
    fun _ _ _ before stepped =>
      ⟨before.1.keeps (moves_of_step stepped), before.2.keeps before.1 (moves_of_step stepped)⟩
  exact (Runs.run_keeps keeps ⟨holds, awake⟩ ran).2

/-- A call that misses the shutdown can go on to wait. -/
theorem waits_of_misses {s : State Thread (Point T) (Memory T)} {thread : Thread}
    (misses : Misses s.memory (s.threads thread)) :
    ∃ actions last, Runs.run (State.step program) s actions = some last ∧ ¬last.Unwaited := by
  have waits : ∀ s : State Thread (Point T) (Memory T), s.threads thread = .running .wait →
      ∃ last, s.step program (.step thread none) = some last ∧ ¬last.Unwaited := by
    intro s here
    refine ⟨{ s.move thread (.waiting (.whileRunning .waitAndPop)) with holder := none }, ?_, fun unwaited => ?_⟩
    · simp only [State.step, here, program, instruction]
    · have active := unwaited thread
      simp [State.move, Standing.isWaiting] at active
  rcases misses with here | ⟨here, none_⟩
  · obtain ⟨last, stepped, waiting⟩ := waits s here
    exact ⟨[.step thread none], last, by rw [Runs.run, stepped]; rfl, waiting⟩
  · have first : s.step program (.step thread none) = some (s.move thread (.running .wait)) := by
      simp [State.step, here, program, instruction, none_]
      rfl
    obtain ⟨last, stepped, waiting⟩ := waits (s.move thread (.running .wait)) (by simp)
    exact ⟨[.step thread none, .step thread none], last,
      by rw [Runs.run, first, Option.bind_some, Runs.run, stepped]; rfl, waiting⟩

/-- From the notification of a `Shutdown` on nobody waits for a value, whatever happens, if and only if at that moment
no call stands behind its test of `shutdown_` and in front of its wait.  The flag is set without the mutex, so that such
a call is not woken. -/
theorem shutdown_wakes_iff {s next : State Thread (Point T) (Memory T)} {actions : List (Action Thread (Point T))}
    (ran : Runs.run (State.step program) start actions = some s) {thread : Thread} {woken : Option Thread}
    (here : s.threads thread = .running .shutdownNotify)
    (notified : s.step program (.step thread woken) = some next) :
    (∀ later last, Runs.run (State.step program) next later = some last → last.Unwaited) ↔
      ∀ other, ¬Misses s.memory (s.threads other) := by
  have holds := holds_run ran
  have after : next = { s with threads := fun other => (s.threads other).wakeUp }.move thread
      (.running (.returned .done)) := by
    simp only [State.step, here, program, instruction] at notified
    exact (Option.some.inj notified).symm
  have standing : ∀ other, Misses s.memory (next.threads other) ↔ Misses s.memory (s.threads other) := by
    intro other
    rw [after, State.move_threads]
    split
    · rename_i same
      rw [same, here]
      refine iff_of_false ?_ ?_ <;> rintro (waits | ⟨waits, _⟩) <;> cases waits
    · show Misses s.memory (s.threads other).wakeUp ↔ _
      cases s.threads other with
      | running | woken => exact Iff.rfl
      | waiting => refine iff_of_false ?_ ?_ <;> rintro (waits | ⟨waits, _⟩) <;> cases waits
  have memory : next.memory = s.memory := by rw [after]; rfl
  constructor
  · intro never other misses
    rw [← standing, ← memory] at misses
    obtain ⟨later, last, ran, waits⟩ := waits_of_misses misses
    exact waits (never later last ran)
  · intro none_ later last ran
    have awake : Awake next := by
      refine ⟨by rw [memory]; exact (holds.here here).2, fun other => ?_, fun other misses => ?_⟩
      · rw [after, State.move_threads]
        split
        · rfl
        · show (s.threads other).wakeUp.isWaiting = false
          cases s.threads other <;> rfl
      · rw [memory, standing] at misses
        exact none_ other misses
    exact (awake_run awake (holds.keeps (moves_of_step notified)) ran).unwaited

/-- A thread shuts the queue down while another is about to wait. -/
def missed : List (Action Bool (Point Nat)) :=
  [.call true (.popTest .waitAndPop), .step true none, .step true none, .step true none, .call false .shutdown,
    .step false none]

theorem shutdown_wakes_iff_missed : ∃ s next : State Bool (Point Nat) (Memory Nat),
    Runs.run (State.step program) start missed = some s ∧ s.step program (.step false none) = some next ∧
      Misses s.memory (s.threads true) ∧
      ((∀ later last, Runs.run (State.step program) next later = some last → last.Unwaited) ↔
        ∀ other, ¬Misses s.memory (s.threads other)) :=
  ⟨_, _, rfl, rfl, .inr ⟨rfl, rfl⟩,
    shutdown_wakes_iff (show Runs.run (State.step program) start missed = some _ from rfl)
      (show State.threads _ false = .running Point.shutdownNotify from rfl)
      (show State.step program _ (.step false none) = some _ from rfl)⟩

end Queue

namespace Notification

/-! ## Notifications -/

/-- `ready_`, and the clock that `xtime_get` reads. -/
structure Memory where
  ready : Bool
  now : Nat

/-- What a call has returned. -/
inductive Outcome where
  | none
  | notified
  | waited
  | hasBeenNotified (ready : Bool)

/-- A wait has a deadline if it has a time limit. -/
inductive Point where
  | returned (outcome : Outcome)
  | notifyLock
  | setReady
  | notifyUnlock
  | notifyAll
  | waitLock (timeout : Option Nat)
  | setDeadline (timeout : Nat)
  | whileNotReady (deadline : Option Nat)
  | wait (deadline : Option Nat)
  | timedWait (deadline : Nat)
  /-- `timed_wait` behind its deadline: it gives the mutex up and takes it again, and waits for nothing. -/
  | overdue (deadline : Nat)
  | overdueLock (deadline : Nat)
  | leave
  | hasBeenNotified
  /-- The clock goes on. -/
  | tick

def instruction : Point → Instruction Point Memory
  | .returned _ => .idle
  | .notifyLock => .lock .setReady
  | .setReady => .compute fun memory => ({ memory with ready := true }, .notifyUnlock)
  | .notifyUnlock => .unlock .notifyAll
  | .notifyAll => .notifyAll (.returned .notified)
  | .waitLock none => .lock (.whileNotReady none)
  | .waitLock (some timeout) => .lock (.setDeadline timeout)
  | .setDeadline timeout => .compute fun memory => (memory, .whileNotReady (some (memory.now + timeout)))
  | .whileNotReady deadline => .compute fun memory => (memory, if memory.ready then .leave else .wait deadline)
  | .wait none => .wait (.whileNotReady none)
  | .wait (some deadline) => .compute fun memory =>
    (memory, if deadline ≤ memory.now then .overdue deadline else .timedWait deadline)
  | .timedWait deadline => .wait (.whileNotReady (some deadline))
  | .overdue deadline => .unlock (.overdueLock deadline)
  | .overdueLock deadline => .lock (.whileNotReady (some deadline))
  | .leave => .unlock (.returned .waited)
  | .hasBeenNotified => .compute fun memory => (memory, .returned (.hasBeenNotified memory.ready))
  | .tick => .compute fun memory => ({ memory with now := memory.now + 1 }, .returned .none)

/-- `Notify`, both of `WaitForNotification`, and `HasBeenNotified`; a thread stands for the clock. -/
def entry : Point → Bool
  | .notifyLock | .waitLock _ | .hasBeenNotified | .tick => true
  | _ => false

def inside : Point → Bool
  | .setReady | .notifyUnlock | .setDeadline _ | .whileNotReady _ | .wait _ | .timedWait _ | .overdue _ | .leave => true
  | _ => false

theorem tracked (point : Point) : (instruction point).Tracked inside point := by
  cases point with
  | returned | setReady | notifyAll | setDeadline | hasBeenNotified | tick => first | exact rfl | exact fun _ => rfl
  | notifyLock | notifyUnlock | timedWait | overdue | overdueLock | leave => exact ⟨rfl, rfl⟩
  | waitLock timeout => cases timeout <;> exact ⟨rfl, rfl⟩
  | whileNotReady deadline =>
    intro memory
    dsimp only
    split <;> rfl
  | wait deadline =>
    cases deadline with
    | none => exact ⟨rfl, rfl⟩
    | some deadline =>
      intro memory
      dsimp only
      split <;> rfl

def program : Program Point Memory where
  instruction := instruction
  entry := entry
  inside := inside
  entry_outside := by
    intro point enters
    cases point <;> first | rfl | cases enters
  tracked := tracked

variable {Thread : Type}

/-- `Notification()`. -/
def start : State Thread Point Memory where
  memory := { ready := false, now := 0 }
  holder := none
  threads _ := .running (.returned .none)

/-- What a thread has seen of the memory before it gets to a point. -/
def Seen : Point → Memory → Prop
  | .wait _, memory | .timedWait _, memory => memory.ready = false
  | .notifyUnlock, memory | .notifyAll, memory | .leave, memory => memory.ready = true
  | .returned .waited, memory | .returned .notified, memory | .returned (.hasBeenNotified true), memory =>
    memory.ready = true
  | _, _ => True

/-- Only the one who holds the mutex sets the flag. -/
theorem compute_ready {point : Point} {effect : Memory → Memory × Point}
    (does : instruction point = .compute effect) (memory : Memory) :
    (effect memory).1.ready = memory.ready ∨ point = .setReady ∧ (effect memory).1.ready = true := by
  cases point with
  | setReady =>
    cases does
    exact .inr ⟨rfl, rfl⟩
  | setDeadline | whileNotReady | hasBeenNotified | tick =>
    cases does
    exact .inl rfl
  | wait deadline =>
    cases deadline with
    | none => cases does
    | some deadline =>
      cases does
      exact .inl rfl
  | waitLock timeout => cases timeout <;> cases does
  | returned | notifyLock | notifyUnlock | notifyAll | timedWait | overdue | overdueLock | leave => cases does

/-- Of the memory a thread has seen the flag only. -/
theorem seen_of_eq {point : Point} {memory other : Memory} (same : other.ready = memory.ready)
    (seen : Seen point memory) : Seen point other := by
  cases point with
  | wait | timedWait | notifyUnlock | notifyAll | leave => exact same.trans seen
  | returned outcome =>
    cases outcome with
    | none => trivial
    | notified | waited => exact same.trans seen
    | hasBeenNotified ready =>
      cases ready with
      | true => exact same.trans seen
      | false => trivial
  | notifyLock | setReady | waitLock | setDeadline | whileNotReady | overdue | overdueLock | hasBeenNotified
  | tick => trivial

/-- Nobody outside relies on the flag not being set. -/
theorem seen_ready {point : Point} (outside : inside point = false) {memory : Memory} (ready : memory.ready = true) :
    Seen point memory := by
  cases point with
  | notifyAll => exact ready
  | returned outcome =>
    cases outcome with
    | none => trivial
    | notified | waited => exact ready
    | hasBeenNotified seen => cases seen <;> first | exact ready | trivial
  | notifyLock | waitLock | overdueLock | hasBeenNotified | tick => trivial
  | setReady | notifyUnlock | setDeadline | whileNotReady | wait | timedWait | overdue | leave => cases outside

/-- What a test has seen, it has seen in the memory that it leaves. -/
theorem compute_seen {point : Point} {effect : Memory → Memory × Point} (does : instruction point = .compute effect)
    {memory : Memory} (seen : Seen point memory) : Seen (effect memory).2 (effect memory).1 := by
  cases point with
  | setReady =>
    cases does
    rfl
  | whileNotReady deadline =>
    cases does
    dsimp only
    split
    · rename_i ready
      exact ready
    · rename_i waits
      exact Bool.eq_false_iff.mpr waits
  | wait deadline =>
    cases deadline with
    | none => cases does
    | some deadline =>
      cases does
      dsimp only
      split
      · trivial
      · exact seen
  | hasBeenNotified =>
    cases does
    dsimp only
    cases ready : memory.ready with
    | true => exact ready
    | false => trivial
  | setDeadline | tick =>
    cases does
    trivial
  | waitLock timeout => cases timeout <;> cases does
  | returned | notifyLock | notifyUnlock | notifyAll | timedWait | overdue | overdueLock | leave => cases does

/-- A wait goes on with the test. -/
theorem wait_cases {point next : Point} (does : instruction point = .wait next) :
    ∃ deadline, next = .whileNotReady deadline ∧
      (point = .wait none ∨ ∃ deadline, point = .timedWait deadline) := by
  cases point with
  | wait deadline =>
    cases deadline with
    | none =>
      cases does
      exact ⟨none, rfl, .inl rfl⟩
    | some deadline => cases does
  | timedWait deadline =>
    cases does
    exact ⟨some deadline, rfl, .inr ⟨deadline, rfl⟩⟩
  | waitLock timeout => cases timeout <;> cases does
  | _ => cases does

theorem not_notifyOne {point next : Point} : instruction point ≠ .notifyOne next := by
  intro does
  cases point with
  | waitLock timeout => cases timeout <;> cases does
  | wait deadline => cases deadline <;> cases does
  | _ => cases does

theorem notifyAll_cases {point next : Point} (does : instruction point = .notifyAll next) :
    point = .notifyAll ∧ next = .returned .notified := by
  cases point with
  | notifyAll =>
    cases does
    exact ⟨rfl, rfl⟩
  | waitLock timeout => cases timeout <;> cases does
  | wait deadline => cases deadline <;> cases does
  | _ => cases does

theorem idle_cases {point : Point} (does : instruction point = .idle) : ∃ outcome, point = .returned outcome := by
  cases point with
  | returned outcome => exact ⟨outcome, rfl⟩
  | waitLock timeout => cases timeout <;> cases does
  | wait deadline => cases deadline <;> cases does
  | _ => cases does

def outline : Outline program where
  resource _ := True
  assertion := Seen
  call {entry memory} enters := by
    cases entry <;> trivial
  lock {point next memory} does seen _ := by
    cases point with
    | waitLock timeout => cases timeout <;> cases does <;> trivial
    | wait deadline => cases deadline <;> cases does
    | notifyLock | overdueLock =>
      cases does
      trivial
    | _ => cases does
  unlock {point next memory} does seen := by
    cases point with
    | waitLock timeout => cases timeout <;> cases does
    | wait deadline => cases deadline <;> cases does
    | notifyUnlock | leave =>
      cases does
      exact ⟨trivial, seen⟩
    | overdue =>
      cases does
      exact ⟨trivial, trivial⟩
    | _ => cases does
  wait _ _ := trivial
  resume {point next memory} does _ := by
    obtain ⟨deadline, rfl, _⟩ := wait_cases does
    trivial
  notifyOne does := absurd does not_notifyOne
  notifyAll {point next memory} does seen := by
    obtain ⟨rfl, rfl⟩ := notifyAll_cases does
    exact seen
  compute does seen := compute_seen does seen
  keepsResource _ _ _ _ := trivial
  undisturbed {point effect memory other} does apart _ seen := by
    rcases compute_ready does memory with same | ⟨rfl, ready⟩
    · exact seen_of_eq same seen
    · exact seen_ready (apart.resolve_left nofun) ready

/-- After the flag is set one thread is needed, which notifies all. -/
def credit : Credit outline where
  need memory := if memory.ready then 1 else 0
  credit
    | .notifyUnlock | .notifyAll => 1
    | _ => 0
  lock {point next} does := by
    cases point with
    | waitLock timeout => cases timeout <;> cases does <;> exact Nat.zero_le _
    | wait deadline => cases deadline <;> cases does
    | notifyLock | overdueLock =>
      cases does
      exact Nat.zero_le _
    | _ => cases does
  unlock {point next} does := by
    cases point with
    | waitLock timeout => cases timeout <;> cases does
    | wait deadline => cases deadline <;> cases does
    | notifyUnlock | leave | overdue =>
      cases does
      exact Nat.le_refl _
    | _ => cases does
  wait {point next memory} does seen := by
    have unset : memory.ready = false := by
      obtain ⟨_, _, rfl | ⟨deadline, rfl⟩⟩ := wait_cases does
      · exact seen
      · exact seen
    exact if_neg (Bool.eq_false_iff.mp unset)
  notifyOne does _ := absurd does not_notifyOne
  compute {point effect memory} does seen := by
    cases point with
    | setReady =>
      cases does
      exact .inr (Nat.le_add_left 1 _)
    | whileNotReady | setDeadline | hasBeenNotified | tick =>
      cases does
      exact .inr (Nat.le_add_right _ _)
    | wait deadline =>
      cases deadline with
      | none => cases does
      | some deadline =>
        cases does
        exact .inr (Nat.le_add_right _ _)
    | waitLock timeout => cases timeout <;> cases does
    | returned | notifyLock | notifyUnlock | notifyAll | timedWait | overdue | overdueLock | leave => cases does
  idle {point} does := by
    obtain ⟨outcome, rfl⟩ := idle_cases does
    rfl

/-- What a thread has left to do, where so many wait to be notified. -/
def rank (threads : Nat) : Point → Nat
  | .returned _ => 0
  | .leave | .wait none | .hasBeenNotified | .tick => 1
  | .whileNotReady _ => 2
  | .setDeadline _ | .overdueLock _ => 3
  | .waitLock _ | .overdue _ | .timedWait _ => 4
  | .wait (some _) => 5
  | .notifyAll => threads * 3 + 1
  | .notifyUnlock => threads * 3 + 2
  | .setReady => threads * 3 + 3
  | .notifyLock => threads * 3 + 4

/-- A timed wait that finds the flag not set goes round once more. -/
def round (memory : Memory) : Point → Nat
  | .whileNotReady (some _) => if memory.ready then 0 else 4
  | _ => 0

theorem compute_rank (threads : Nat) {point : Point} {effect : Memory → Memory × Point}
    (does : instruction point = .compute effect) (memory : Memory) :
    rank threads (effect memory).2 < rank threads point + round memory point := by
  cases point with
  | setReady | setDeadline | hasBeenNotified | tick =>
    cases does
    exact Nat.lt_succ_self _
  | whileNotReady deadline =>
    cases does
    dsimp only
    cases ready : memory.ready with
    | true => exact Nat.lt_add_right _ (Nat.lt_succ_self 1)
    | false =>
      cases deadline with
      | none => exact Nat.lt_succ_self 1
      | some deadline => simp [rank, round, ready]
  | wait deadline =>
    cases deadline with
    | none => cases does
    | some deadline =>
      cases does
      dsimp only
      split <;> exact Nat.lt_succ_self 4
  | waitLock timeout => cases timeout <;> cases does
  | returned | notifyLock | notifyUnlock | notifyAll | timedWait | overdue | overdueLock | leave => cases does

def ranking (threads : Nat) : Ranking program threads where
  rank := rank threads
  gain := round
  awake := 3
  lock {point next} does := by
    cases point with
    | waitLock timeout => cases timeout <;> cases does <;> simp only [rank] <;> decide
    | wait deadline => cases deadline <;> cases does
    | notifyLock | overdueLock =>
      cases does
      exact Nat.lt_succ_self _
    | _ => cases does
  unlock {point next} does := by
    cases point with
    | waitLock timeout => cases timeout <;> cases does
    | wait deadline => cases deadline <;> cases does
    | notifyUnlock | leave | overdue =>
      cases does
      exact Nat.lt_succ_self _
    | _ => cases does
  wait {point next} does := by
    obtain ⟨_, rfl, rfl | ⟨deadline, rfl⟩⟩ := wait_cases does
    · exact ⟨Nat.zero_lt_one, Nat.lt_succ_self 2⟩
    · exact ⟨Nat.zero_lt_succ 3, Nat.lt_succ_self 2⟩
  notifyOne does := absurd does not_notifyOne
  notifyAll {point next} does := by
    obtain ⟨rfl, rfl⟩ := notifyAll_cases does
    simp only [rank]
    omega
  compute := compute_rank threads

variable [DecidableEq Thread] [Fintype Thread] {s next : State Thread Point Memory}

omit [DecidableEq Thread] [Fintype Thread] in
theorem holds_start : outline.Holds (start : State Thread Point Memory) :=
  .of_outside rfl trivial fun _ => ⟨_, rfl, rfl, trivial⟩

omit [Fintype Thread] in
/-- Nobody takes a notification back. -/
theorem ready_keeps (ready : s.memory.ready = true) (moves : Moves program s next) : next.memory.ready = true := by
  cases moves with
  | call | wake => exact ready
  | advance own =>
    cases own with
    | resume | lock | unlock | wait | notifyNone | notifyOne | notifyAll => exact ready
    | compute here does =>
      rcases compute_ready does s.memory with same | ⟨_, set⟩
      · exact same.trans ready
      · exact set

theorem gainAt_ready (threads : Nat) {memory : Memory} (ready : memory.ready = true) (standing : Standing Point) :
    (ranking threads).gainAt memory standing = 0 := by
  cases standing with
  | waiting | woken => rfl
  | running point =>
    cases point with
    | whileNotReady deadline =>
      cases deadline with
      | none => rfl
      | some deadline => exact if_pos ready
    | _ => rfl

/-- A timed wait behind its deadline comes back to where it was. -/
theorem overdue_goes_round (exclusive : Exclusive program s) {thread : Thread} {deadline : Nat}
    (here : s.threads thread = .running (.whileNotReady (some deadline))) (past : deadline ≤ s.memory.now)
    (unset : s.memory.ready = false) :
    Runs.run (State.step program) s (List.replicate 4 (.step thread none)) = some s := by
  have holds : s.holder = some thread := (exclusive.holder thread).mpr (by rw [here]; rfl)
  have tested : s.step program (.step thread none) = some (s.move thread (.running (.wait (some deadline)))) := by
    simp [State.step, here, program, instruction, unset]
    rfl
  have behind : (s.move thread (.running (.wait (some deadline)))).step program (.step thread none) =
      some (s.move thread (.running (.overdue deadline))) := by
    simp [State.step, State.move, program, instruction, past]
  have given : (s.move thread (.running (.overdue deadline))).step program (.step thread none) =
      some { s.move thread (.running (.overdueLock deadline)) with holder := none } := by
    simp [State.step, State.move, program, instruction]
  have taken : State.step program { s.move thread (.running (.overdueLock deadline)) with holder := none }
      (.step thread none) = some s := by
    simp [State.step, State.move, program, instruction, ← here, ← holds]
  simp only [List.replicate, Runs.run, tested, behind, given, taken, Option.bind_some]

/-- After any run a `WaitForNotification` has returned only if `Notify` was called, also the one with a time limit.  As
long as the flag is not set a timed wait behind its deadline goes round; each round, each call and each wake-up without a
notification allows so many more steps, and no other steps are left.  Threads that nobody calls come to rest once the
flag is set, and at rest all calls have returned if it is, and else those wait that are to be notified. -/
theorem waits_until_notified {actions : List (Action Thread Point)}
    (ran : Runs.run (State.step program) start actions = some s) :
    (∀ thread, s.threads thread = .running (.returned .waited) → s.memory.ready = true) ∧
    (∃ bound, ∀ later last, Runs.run (State.step program) s later = some last →
      later.length ≤ bound + (ranking (Fintype.card Thread)).gained s later) ∧
    (s.memory.ready = true → ∃ bound, ∀ own last, (∀ action ∈ own, action.isStep = true) →
      Runs.run (State.step program) s own = some last → own.length ≤ bound) ∧
    (∀ thread deadline, s.threads thread = .running (.whileNotReady (some deadline)) → deadline ≤ s.memory.now →
      s.memory.ready = false →
        Runs.run (State.step program) s (List.replicate 4 (.step thread none)) = some s) ∧
    (s.Settled program → ∀ thread, (∃ outcome, s.threads thread = .running (.returned outcome)) ∨
      s.memory.ready = false ∧ ∃ deadline, s.threads thread = .waiting (.whileNotReady deadline)) := by
  have before : credit.Covers (start : State Thread Point Memory) := .inl fun _ => rfl
  obtain ⟨holds, covers⟩ := before.run holds_start ran
  let ranked := ranking (Fintype.card Thread)
  have bounded : ∀ later last, Runs.run (State.step program) s later = some last →
      later.length ≤ s.total ranked.worth + ranked.gained s later := by
    intro later last stepped
    have bound := ranked.run_length holds.exclusive stepped
    omega
  refine ⟨fun thread here => holds.here here, ⟨_, bounded⟩,
    fun ready => ⟨s.total ranked.worth, fun own last steps stepped => ?_⟩,
    fun thread deadline here past unset => overdue_goes_round holds.exclusive here past unset,
    fun settled thread => ?_⟩
  · have nothing : ranked.gained s own = 0 :=
      ranked.gained_eq_zero (fun s => s.memory.ready = true)
        (fun _ _ _ ready stepped => ready_keeps ready (moves_of_step stepped))
        (fun _ _ ready => gainAt_ready _ ready _) steps ready
    have bound := bounded own last stepped
    rwa [nothing] at bound
  rcases settled.standing holds.exclusive thread with ⟨point, here, idle⟩ | waits
  · obtain ⟨outcome, rfl⟩ := idle_cases idle
    exact .inl ⟨outcome, here⟩
  right
  cases there : s.threads thread with
  | running | woken =>
    rw [there] at waits
    cases waits
  | waiting point =>
    obtain ⟨before, waited⟩ := holds.exclusive.parked thread point (.inl there)
    obtain ⟨deadline, rfl, _⟩ := wait_cases waited
    refine ⟨?_, deadline, rfl⟩
    rcases covers.settled settled holds.exclusive with unwaited | nothing
    · exact absurd waits (Bool.eq_false_iff.mp (unwaited thread))
    · by_contra ready
      rw [Bool.not_eq_false] at ready
      exact absurd ((if_pos ready).symm.trans nothing) (by decide)

/-- A wait with no time to wait goes round once, and is then notified. -/
def overdueOnce : List (Action Bool Point) :=
  [.call true (.waitLock (some 0)), .step true none, .step true none, .step true none, .step true none,
    .step true none, .call false .notifyLock, .step false none, .step false none, .step false none]

theorem waits_until_notified_overdueOnce : ∃ s : State Bool Point Memory,
    Runs.run (State.step program) start overdueOnce = some s ∧
    (∀ thread, s.threads thread = .running (.returned .waited) → s.memory.ready = true) ∧
    (∃ bound, ∀ later last, Runs.run (State.step program) s later = some last →
      later.length ≤ bound + (ranking (Fintype.card Bool)).gained s later) ∧
    (s.memory.ready = true → ∃ bound, ∀ own last, (∀ action ∈ own, action.isStep = true) →
      Runs.run (State.step program) s own = some last → own.length ≤ bound) ∧
    (∀ thread deadline, s.threads thread = .running (.whileNotReady (some deadline)) → deadline ≤ s.memory.now →
      s.memory.ready = false →
        Runs.run (State.step program) s (List.replicate 4 (.step thread none)) = some s) ∧
    (s.Settled program → ∀ thread, (∃ outcome, s.threads thread = .running (.returned outcome)) ∨
      s.memory.ready = false ∧ ∃ deadline, s.threads thread = .waiting (.whileNotReady deadline)) :=
  ⟨_, rfl, waits_until_notified (show Runs.run (State.step program) start overdueOnce = some _ from rfl)⟩

end Notification

end OpenInstrument.Server
