import OpenInstrument.GetCells
import OpenInstrument.Library.Runs

/-! # What a request changes

Of all goroutines of a request, two write to values that they have received.  `Interpolate` moves its first value to a
boundary, and `ValueStreamWriter` moves the end of the last value it has kept.  Either value may be one of the store.
A run that takes neither of these two branches on a value of the store leaves the store as it was, and no other does.
-/

namespace OpenInstrument

variable {Double : Type} {arithmetic : Arithmetic Double} {request : LimitedRequest}

/-- All values that are reached from the datastore are what they were. -/
def CellStore.Unchanged (s : CellStore Double) (state : GetState Double) : Prop :=
  ∀ address, s.Holds address → state.memory.cells[address]? = s.cells[address]?

/-- The goroutine is an interpolation that has received a value of the store first, and the value is off its
boundaries. -/
def CellStore.Moves (s : CellStore Double) (state : GetState Double) (place : Nat) : Prop :=
  ∃ duration v, state.goroutines[place]? = some (.interpolateFirst duration v) ∧ s.Holds v ∧
    duration ≠ 0 ∧ (cellAt state.memory.cells v).timestamp % duration ≠ 0

/-- The goroutine is a writer of the response that has received a value which repeats the last one of its stream, a
value of the store, and ends that one at another time. -/
def CellStore.Ends (arithmetic : Arithmetic Double) (s : CellStore Double) (state : GetState Double) (place : Nat) :
    Prop :=
  ∃ index v last, state.goroutines[place]? = some (.write index v) ∧
    (state.memory.written index).getLast? = some last ∧ s.Holds last ∧
    (cellAt state.memory.cells last).repeats arithmetic.eq arithmetic.zero (cellAt state.memory.cells v) = true ∧
    ((cellAt state.memory.cells last).extend (cellAt state.memory.cells v)).endTimestamp ≠
      (cellAt state.memory.cells last).endTimestamp

def CellStore.Spoils (arithmetic : Arithmetic Double) (s : CellStore Double) (state : GetState Double) (place : Nat) :
    Prop :=
  s.Moves state place ∨ s.Ends arithmetic state place

/-! ## The two writes -/

/-- Every goroutine but an interpolation at its first value and a writer leaves all values alone, and at most adds
one. -/
theorem GetPoint.program_cells {point : GetPoint Double}
    {effect : GetMemory Double → GetMemory Double × GetPoint Double}
    (computes : program arithmetic request point = .compute effect)
    (notFirst : ∀ duration v, point ≠ .interpolateFirst duration v) (notWriter : ∀ index v, point ≠ .write index v)
    (memory : GetMemory Double) : memory.cells <+: (effect memory).1.cells := by
  cases point with
  | interpolateFirst duration v => exact absurd rfl (notFirst duration v)
  | write index v => exact absurd rfl (notWriter index v)
  | merge streams =>
    cases computes
    dsimp only
    split <;> exact List.prefix_rfl
  | deliver sent next =>
    cases sent with
    | nil =>
      cases computes
      exact List.prefix_rfl
    | cons item sent =>
      rw [program] at computes
      split at computes
      · cases computes
      · cases computes
        exact List.prefix_append _ _
  | fill duration previous v rate timestamp =>
    cases computes
    dsimp only [fillIn]
    split
    · exact List.prefix_append _ _
    · exact List.prefix_rfl
  | behindFill duration previous v timestamp =>
    cases computes
    dsimp only
    split
    · split <;> exact List.prefix_rfl
    · exact List.prefix_rfl
  | interpolate duration previous timestamp => cases previous <;> cases computes
  | nextGroup groups =>
    cases groups with
    | nil => cases computes
    | cons group groups =>
      cases computes
      exact List.prefix_rfl
  | nonNegativeOf | interpolateNext | answerOf | limit =>
    cases computes
    dsimp only
    split <;> exact List.prefix_rfl
  | meanOf | signedRateOf | extremeOf | behindFirst =>
    cases computes
    exact List.prefix_rfl
  | merged | relay | relayed | mean | signedRate | nonNegative | extreme | onBoundary | filled | passOn | answer
  | answerWith | closeWriter | startGroup | writer | stopped | panicked => cases computes

theorem mod_eq_zero_iff {timestamp duration : UInt64} (positive : duration ≠ 0) :
    timestamp / duration * duration = timestamp ↔ timestamp % duration = 0 := by
  have nonzero : duration.toNat ≠ 0 := fun same => positive (UInt64.toNat_inj.mp same)
  have parts := Nat.div_add_mod' timestamp.toNat duration.toNat
  have bound := timestamp.toNat_lt
  rw [← UInt64.toNat_inj, ← UInt64.toNat_inj, UInt64.toNat_mul, UInt64.toNat_div, UInt64.toNat_mod, UInt64.toNat_zero,
    Nat.mod_eq_of_lt (by omega)]
  omega

theorem first_cells {duration : UInt64} (positive : duration ≠ 0) (v : Address) (memory : GetMemory Double) :
    (GetPoint.first duration v memory).1.cells =
      if (cellAt memory.cells v).timestamp % duration = 0 then memory.cells
      else memory.cells.set v
        { cellAt memory.cells v with timestamp := (cellAt memory.cells v).timestamp / duration * duration } := by
  rw [GetPoint.first, Mutations.remainder, if_neg positive]
  dsimp only
  split <;> rfl

theorem first_zero (v : Address) (memory : GetMemory Double) : (GetPoint.first 0 v memory).1 = memory := rfl

theorem Value.extend_eq_iff (last value : Value Double) :
    last.extend value = last ↔ (last.extend value).endTimestamp = last.endTimestamp := by
  constructor
  · exact congrArg _
  · intro same
    have fields : last.extend value = { last with endTimestamp := (last.extend value).endTimestamp } := by
      rw [Value.extend]
      split <;> rfl
    rw [fields, same]

/-! ## A step -/

variable {s : CellStore Double} {state next : GetState Double} {place : Nat}

theorem CellStore.Holds.lt {address : Address} (holds : s.Holds address) : address < s.cells.length := by
  obtain ⟨key, block, found, stream, member, inside⟩ := holds
  exact s.allocated key block found stream member address inside

/-- What an unchanged store holds is still there. -/
theorem CellStore.Unchanged.lt (unchanged : s.Unchanged state) {address : Address} (holds : s.Holds address) :
    address < state.memory.cells.length := by
  by_contra outside
  have gone := unchanged address holds
  rw [List.getElem?_eq_none (not_lt.mp outside), eq_comm, List.getElem?_eq_none_iff] at gone
  exact absurd holds.lt (not_lt.mpr gone)

theorem CellStore.Unchanged.of_prefix (unchanged : s.Unchanged state)
    (grown : state.memory.cells <+: next.memory.cells) : s.Unchanged next := by
  intro address holds
  obtain ⟨more, same⟩ := grown
  rw [← same, List.getElem?_append_left (unchanged.lt holds), unchanged address holds]

theorem CellStore.Unchanged.of_eq (unchanged : s.Unchanged state) (same : next.memory.cells = state.memory.cells) :
    s.Unchanged next :=
  unchanged.of_prefix (same ▸ List.prefix_rfl)

/-- A cell that is written again changes nothing unless the store holds it and it was something else. -/
theorem CellStore.Unchanged.set_iff (unchanged : s.Unchanged state) {v : Address} {value : Value Double}
    (written : next.memory.cells = state.memory.cells.set v value) :
    s.Unchanged next ↔ (s.Holds v → value = cellAt state.memory.cells v) := by
  constructor
  · intro kept holds
    have here := (kept v holds).trans (unchanged v holds).symm
    rw [written, List.getElem?_set_self (unchanged.lt holds)] at here
    rw [cellAt, ← here, Option.getD_some]
  · intro same address holds
    rw [written, ← unchanged address holds]
    by_cases other : v = address
    · subst other
      rw [List.getElem?_set_self (unchanged.lt holds), same holds, cellAt,
        List.getElem?_eq_getElem (unchanged.lt holds), Option.getD_some]
    · rw [List.getElem?_set_ne other]

/-- The step of an interpolation with its first value. -/
theorem CellStore.Unchanged.first_iff (unchanged : s.Unchanged state) {duration : UInt64} {v : Address}
    (here : state.goroutines[place]? = some (.interpolateFirst duration v))
    (memory : next.memory = (GetPoint.first duration v state.memory).1) :
    s.Unchanged next ↔ ¬s.Moves state place := by
  have moves : s.Moves state place ↔
      s.Holds v ∧ duration ≠ 0 ∧ (cellAt state.memory.cells v).timestamp % duration ≠ 0 := by
    constructor
    · rintro ⟨duration', v', here', rest⟩
      rw [here, Option.some.injEq, GetPoint.interpolateFirst.injEq] at here'
      obtain ⟨rfl, rfl⟩ := here'
      exact rest
    · intro rest
      exact ⟨duration, v, here, rest⟩
  rw [moves]
  by_cases zero : duration = 0
  · subst zero
    exact iff_of_true (unchanged.of_eq (by rw [memory, first_zero])) fun moved => moved.2.1 rfl
  · have cells := first_cells zero v state.memory
    rw [← memory] at cells
    by_cases aligned : (cellAt state.memory.cells v).timestamp % duration = 0
    · rw [if_pos aligned] at cells
      exact iff_of_true (unchanged.of_eq cells) fun moved => moved.2.2 aligned
    · rw [if_neg aligned] at cells
      rw [unchanged.set_iff cells]
      -- A timestamp off the boundaries is not the boundary it is moved to.
      have moved : ({ cellAt state.memory.cells v with
          timestamp := (cellAt state.memory.cells v).timestamp / duration * duration } : Value Double) ≠
            cellAt state.memory.cells v := fun same =>
        aligned ((mod_eq_zero_iff zero).mp (congrArg Value.timestamp same))
      constructor
      · intro same held
        exact moved (same held.1)
      · intro free holds
        exact absurd ⟨holds, zero, aligned⟩ free

/-- The step of a writer with a value. -/
theorem CellStore.Unchanged.keep_iff (unchanged : s.Unchanged state) {index : Nat} {v : Address}
    (here : state.goroutines[place]? = some (.write index v))
    (memory : next.memory = (GetPoint.keep arithmetic index v state.memory).1) :
    s.Unchanged next ↔ ¬s.Ends arithmetic state place := by
  have ends : s.Ends arithmetic state place ↔ ∃ last, (state.memory.written index).getLast? = some last ∧
      s.Holds last ∧ (cellAt state.memory.cells last).repeats arithmetic.eq arithmetic.zero
        (cellAt state.memory.cells v) = true ∧
      (cellAt state.memory.cells last).extend (cellAt state.memory.cells v) ≠ cellAt state.memory.cells last := by
    simp only [Ne, Value.extend_eq_iff]
    constructor
    · rintro ⟨index', v', last, here', rest⟩
      rw [here, Option.some.injEq, GetPoint.write.injEq] at here'
      obtain ⟨rfl, rfl⟩ := here'
      exact ⟨last, rest⟩
    · rintro ⟨last, rest⟩
      exact ⟨index, v, last, here, rest⟩
  rw [ends]
  rw [GetPoint.keep] at memory
  cases found : (state.memory.written index).getLast? with
  | none =>
    rw [found] at memory
    exact iff_of_true (unchanged.of_eq (by rw [memory]; rfl)) (by simp)
  | some last =>
    simp only [found] at memory
    simp only [Option.some.injEq, exists_eq_left']
    split at memory
    · rename_i repeats
      rw [unchanged.set_iff (by rw [memory]; rfl)]
      tauto
    · rename_i differs
      exact iff_of_true (unchanged.of_eq (by rw [memory]; rfl)) fun ended => differs ended.2.1

theorem unchanged_step_iff (unchanged : s.Unchanged state) (stepped : request.step arithmetic state place = some next) :
    s.Unchanged next ↔ ¬s.Spoils arithmetic state place := by
  have computesAt : ∀ {point}, state.goroutines[place]? = some point → ∀ {effect},
      GetPoint.program arithmetic request point = .compute effect →
        state.goroutines[place]?.map (GetPoint.program arithmetic request) = some (.compute effect) :=
    fun here _ computes => by rw [here, Option.map_some, computes]
  rw [CellStore.Spoils, not_or]
  obtain ⟨effect, computes, memory⟩ | ⟨quiet, memory⟩ := Goroutines.step_memory stepped
  · obtain ⟨point, here, computes⟩ := Option.map_eq_some_iff.mp computes
    have notMoved : (∀ duration v, point ≠ .interpolateFirst duration v) → ¬s.Moves state place := by
      rintro apart ⟨duration, v, here', _⟩
      exact apart duration v (Option.some.inj (here.symm.trans here'))
    have notEnded : (∀ index v, point ≠ .write index v) → ¬s.Ends arithmetic state place := by
      rintro apart ⟨index, v, last, here', _⟩
      exact apart index v (Option.some.inj (here.symm.trans here'))
    -- Only at these two points does a goroutine write to a cell that was there before.
    by_cases isFirst : ∃ duration v, point = .interpolateFirst duration v
    · obtain ⟨duration, v, rfl⟩ := isFirst
      cases computes
      rw [unchanged.first_iff here memory, and_iff_left (notEnded fun _ _ => nofun)]
    · by_cases isWrite : ∃ index v, point = .write index v
      · obtain ⟨index, v, rfl⟩ := isWrite
        cases computes
        rw [unchanged.keep_iff here memory, and_iff_right (notMoved fun _ _ => nofun)]
      · have apart : ∀ duration v, point ≠ .interpolateFirst duration v := fun duration v same =>
          isFirst ⟨duration, v, same⟩
        have apart' : ∀ index v, point ≠ .write index v := fun index v same => isWrite ⟨index, v, same⟩
        have grown := GetPoint.program_cells computes apart apart' state.memory
        rw [← memory] at grown
        exact iff_of_true (unchanged.of_prefix grown) ⟨notMoved apart, notEnded apart'⟩
  -- A channel operation: both kinds of writes are computations, and cells stay as they are.
  · refine iff_of_true (unchanged.of_eq (by rw [memory])) ⟨?_, ?_⟩
    · rintro ⟨duration, v, here, _⟩
      exact quiet _ (computesAt here rfl)
    · rintro ⟨index, v, last, here, _⟩
      exact quiet _ (computesAt here rfl)

/-! ## A request -/

/-- The store is as it was when the goroutines start. -/
theorem CellStore.unchanged_get {rt : Runtime Double} {arrival : Iteration} {maps : MapOrders} {start : GetState Double}
    (started : s.get rt arrival maps request = .ok start) : s.Unchanged start := by
  have before : s.Unchanged { memory := { cells := s.cells, response := [] }, goroutines := [] } := fun _ _ => rfl
  rw [get] at started
  split at started
  · cases started
    exact before
  · split at started
    · cases started
      exact before
    · obtain ⟨delivered, read, started⟩ := Fallible.bind_ok started
      obtain ⟨mergeBy, _, started⟩ := Fallible.bind_ok started
      obtain ⟨groups, _, started⟩ := Fallible.bind_ok started
      cases started
      obtain ⟨found, _, read⟩ := Fallible.bind_ok read
      cases read
      exact before.of_prefix (isPrefix_allocate s.cells _)

/-- In a run of a request all values of the store are in every state what they were, exactly when no interpolation
moves a value of the store to a boundary and no writer ends one at another time.  Then they are so at its end. -/
theorem get_unchanged_iff {rt : Runtime Double} {arrival : Iteration} {maps : MapOrders} {start last : GetState Double}
    {places : List Nat} (started : s.get rt arrival maps request = .ok start)
    (ran : Runs.run (request.step arithmetic) start places = some last) :
    (Runs.Always (request.step arithmetic) s.Unchanged start places ↔
      Runs.Avoids (request.step arithmetic) (s.Spoils arithmetic) start places) ∧
      (Runs.Avoids (request.step arithmetic) (s.Spoils arithmetic) start places → s.Unchanged last) := by
  have states : Runs.Always (request.step arithmetic) s.Unchanged start places ↔
      Runs.Avoids (request.step arithmetic) (s.Spoils arithmetic) start places :=
    Runs.always_iff_avoids (fun _ _ _ unchanged stepped => unchanged_step_iff unchanged stepped)
      (CellStore.unchanged_get started) ran
  exact ⟨states, fun avoids => (states.mpr avoids).last ran⟩

/-- A store with one block, whose streams are all pending. -/
def pendingCells (streams : List (Stream UInt64)) : CellStore UInt64 where
  disk := Disk.empty
  cells := (allocate [] streams).1
  blocks := AList.singleton (ascii "b")
    { endKey := ascii "b"
      id := ascii "1"
      blockHeader := (newBlock (ascii "b") (ascii "1") : DatastoreBlock UInt64).blockHeader
      blockFooter := { compactionLog := [] }
      logStreams := ∅
      newStreams := (allocate [] streams).2 }
  blockKeys := [ascii "b"]
  allocated key block found stream member address inside := by
    have same := Keyed.mem_pairs.mpr found
    cases List.mem_singleton.mp same
    exact lt_of_mem_allocate member inside

theorem holds_pendingCells (name : String) (first : UInt64) (times : List UInt64) :
    (pendingCells [gauge name (first :: times)]).Holds 0 :=
  ⟨ascii "b", _, Keyed.mem_pairs.mp List.mem_cons_self, _,
    List.mem_append_right _ List.mem_cons_self, List.mem_range'_1.mpr ⟨Nat.le_refl 0, Nat.succ_pos _⟩⟩

def getRequest (name : String) (mutation : List StreamMutation) (aggregation : List StreamAggregation) :
    GetRequest :=
  { streamVariable := some { name := ascii name, label := [] }
    minTimestamp := none
    maxTimestamp := none
    mutation
    aggregation }

def limitedRequest (mutation : List StreamMutation) : LimitedRequest :=
  { getRequest "b" mutation [] with maxValues := none }

/-- A run that is computed, and what it shows in the end. -/
theorem exists_run {s : CellStore UInt64} {request : LimitedRequest} {places : List Nat}
    {shown : GetState UInt64 → Bool}
    (computed : ((s.get protoRuntime .listed .listed request).toOption.bind fun start =>
      Runs.run (request.step wholeNumbers) start places).any shown = true) :
    ∃ start last, s.get protoRuntime .listed .listed request = .ok start ∧
      Runs.run (request.step wholeNumbers) start places = some last ∧ shown last = true := by
  obtain ⟨last, ran, shows⟩ := (Option.any_eq_true shown _).mp computed
  obtain ⟨start, started, ran⟩ := Option.bind_eq_some_iff.mp ran
  refine ⟨start, last, ?_, ran, shows⟩
  cases run : s.get protoRuntime .listed .listed request with
  | error panic =>
    rw [run] at started
    cases started
  | ok other =>
    rw [run] at started
    rw [Option.some.inj started]

/-- A request that interpolates moves a value of the store from 15 to 10. -/
theorem get_changes_store :
    ∃ start last, (pendingCells [gauge "b" [15]]).get protoRuntime .listed .listed
        (limitedRequest [⟨.none, some 10⟩]) = .ok start ∧
      Runs.run ((limitedRequest [⟨.none, some 10⟩]).step wholeNumbers) start
        [0, 0, 1, 1, 1, 2, 2, 3, 3, 4, 4, 5, 6] = some last ∧
      last.Done (GetPoint.program wholeNumbers (limitedRequest [⟨.none, some 10⟩])) ∧
      ¬(pendingCells [gauge "b" [15]]).Unchanged last := by
  obtain ⟨start, last, started, ran, shows⟩ := @exists_run (pendingCells [gauge "b" [15]])
    (limitedRequest [⟨.none, some 10⟩]) [0, 0, 1, 1, 1, 2, 2, 3, 3, 4, 4, 5, 6]
    (fun last => (last.goroutines.all fun point =>
        (GetPoint.program wholeNumbers (limitedRequest [⟨.none, some 10⟩]) point).isStop) &&
      last.memory.cells[0]?.any fun value => value.timestamp = 10) (by decide)
  rw [Bool.and_eq_true, List.all_eq_true] at shows
  refine ⟨start, last, started, ran, shows.1, fun unchanged => ?_⟩
  -- The cell is at 10 in the end and was at 15.
  rw [unchanged 0 (holds_pendingCells _ _ _)] at shows
  exact absurd shows.2 (by decide)

theorem get_unchanged_iff_repeated :
    ∃ start last, (pendingCells [gauge "b" [10, 20]]).get protoRuntime .listed .listed (limitedRequest []) = .ok start ∧
      Runs.run ((limitedRequest []).step wholeNumbers) start
        [0, 0, 1, 1, 1, 2, 2, 1, 1, 2, 3, 2, 2, 2, 3, 3, 4] = some last ∧
      (Runs.Always ((limitedRequest []).step wholeNumbers) (pendingCells [gauge "b" [10, 20]]).Unchanged start
          [0, 0, 1, 1, 1, 2, 2, 1, 1, 2, 3, 2, 2, 2, 3, 3, 4] ↔
        Runs.Avoids ((limitedRequest []).step wholeNumbers) ((pendingCells [gauge "b" [10, 20]]).Spoils wholeNumbers)
          start [0, 0, 1, 1, 1, 2, 2, 1, 1, 2, 3, 2, 2, 2, 3, 3, 4]) ∧
      (Runs.Avoids ((limitedRequest []).step wholeNumbers) ((pendingCells [gauge "b" [10, 20]]).Spoils wholeNumbers)
          start [0, 0, 1, 1, 1, 2, 2, 1, 1, 2, 3, 2, 2, 2, 3, 3, 4] →
        (pendingCells [gauge "b" [10, 20]]).Unchanged last) := by
  obtain ⟨start, last, started, ran, _⟩ := @exists_run (pendingCells [gauge "b" [10, 20]]) (limitedRequest [])
    [0, 0, 1, 1, 1, 2, 2, 1, 1, 2, 3, 2, 2, 2, 3, 3, 4] (fun _ => true) (by decide)
  exact ⟨start, last, started, ran, get_unchanged_iff started ran⟩

end OpenInstrument
