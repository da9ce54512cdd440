import OpenInstrument.GetFrame

/-! # When a get request does not panic

Reading and grouping have their own ways to panic.  Behind them only an interpolation does: it divides its first value
by its sample frequency, which may be missing.  The values it gets are those that the mutations before it let through,
and they may have been moved meanwhile, by another interpolation of the group or of a group that had the same values
before; so the condition is about the runs of the goroutines.
-/

namespace OpenInstrument

variable {Double : Type} {rt : Runtime Double} {arithmetic : Arithmetic Double} {request : LimitedRequest}

/-! ## Dividing -/

/-- What the goroutine divides a timestamp by next. -/
def GetPoint.divisor : GetPoint Double → Option UInt64
  | .interpolateFirst duration _ => some duration
  | .behindFill duration _ _ _ => some duration
  | _ => none

/-- An interpolation without its first value has a duration of the given kind, and the others have one that they have
divided by. -/
def GetPoint.Lasts (fresh : UInt64 → Prop) : GetPoint Double → Prop
  | .interpolate duration none _ => fresh duration
  | .interpolateFirst duration _ => fresh duration
  | .interpolate duration (some _) _ => duration ≠ 0
  | .onBoundary duration _ => duration ≠ 0
  | .behindFirst duration _ => duration ≠ 0
  | .interpolateNext duration _ _ _ => duration ≠ 0
  | .fill duration _ _ _ _ => duration ≠ 0
  | .filled duration _ _ _ _ _ => duration ≠ 0
  | .behindFill duration _ _ _ => duration ≠ 0
  | .passOn duration _ _ => duration ≠ 0
  | .deliver _ next => next.Lasts fresh
  | _ => True

variable {fresh : UInt64 → Prop}

theorem GetPoint.first_lasts (duration : UInt64) (v : Address) (memory : GetMemory Double) :
    (GetPoint.first duration v memory).2.Lasts fresh := by
  rw [GetPoint.first, Mutations.remainder]
  by_cases zero : duration = 0
  · rw [if_pos zero]
    trivial
  · rw [if_neg zero]
    dsimp only
    split
    · exact zero
    · exact zero

/-- The goroutines of a group start with the durations of the request. -/
theorem GetPoint.pipeline_lasts
    (frequencies : ∀ mutation ∈ request.mutation, mutation.sampleType = .none → fresh mutation.duration)
    (index : Nat) (group : List (ValueStream Address)) (groups : List (List (ValueStream Address))) :
    ∀ point ∈ GetPoint.pipeline arithmetic request index group groups, point.Lasts fresh := by
  intro point member
  rw [pipeline, List.mem_cons, List.mem_append, List.mem_flatMap] at member
  obtain rfl | ⟨mutation, given, started⟩ | ending := member
  · trivial
  · have lasts := frequencies mutation given
    rw [GetPoint.mutation] at started
    cases type : mutation.sampleType with
    | none =>
      rw [type] at started
      obtain rfl | rfl : point = .relay ∨ point = .interpolate mutation.duration none 0 := by simpa using started
      · trivial
      · exact lasts type
    | average | min | max | rateSigned =>
      rw [type] at started
      obtain rfl | rfl := List.mem_pair.mp started
      · trivial
      · trivial
    | rate =>
      rw [type] at started
      obtain rfl | rfl | rfl : point = .relay ∨ point = .signedRate none ∨ point = .nonNegative := by
        simpa using started
      · trivial
      · trivial
      · trivial
    | delta | latest =>
      rw [type] at started
      cases started
  · obtain rfl | rfl := List.mem_pair.mp ending
    · trivial
    · trivial

/-- A goroutine keeps its duration, and goes on behind a division only if it is not zero. -/
theorem GetPoint.program_lasts
    (frequencies : ∀ mutation ∈ request.mutation, mutation.sampleType = .none → fresh mutation.duration) :
    Goroutines.Keeps (GetPoint.program arithmetic request) (GetPoint.Lasts fresh) where
  receive {point next} does lasts received := by
    cases point with
    | relay | mean | signedRate | nonNegative | extreme | answer | writer =>
      cases does
      cases received <;> trivial
    | interpolate duration previous timestamp =>
      cases previous with
      | none =>
        cases does
        cases received with
        | none => trivial
        | some v => exact lasts
      | some previous =>
        cases does
        cases received with
        | none => trivial
        | some v => exact lasts
    | deliver sent _ =>
      cases sent with
      | nil => cases does
      | cons item sent =>
        rw [program] at does
        split at does <;> cases does
    | nextGroup groups => cases groups <;> cases does
    | _ => cases does
  send {point message next} does lasts := by
    cases point with
    | merged | relayed | answerWith =>
      cases does
      trivial
    | onBoundary | filled | passOn =>
      cases does
      exact lasts
    | deliver sent _ =>
      cases sent with
      | nil => cases does
      | cons item sent =>
        rw [program] at does
        split at does
        · cases does
          exact lasts
        · cases does
    | interpolate duration previous timestamp => cases previous <;> cases does
    | nextGroup groups => cases groups <;> cases does
    | _ => cases does
  compute {point effect} does lasts memory := by
    cases point with
    | interpolateFirst duration v =>
      cases does
      exact first_lasts duration v memory
    | deliver sent _ =>
      cases sent with
      | nil =>
        cases does
        exact lasts
      | cons item sent =>
        rw [program] at does
        split at does
        · cases does
        · cases does
          exact lasts
    | behindFirst =>
      cases does
      exact lasts
    | fill duration previous v rate timestamp =>
      cases does
      dsimp only [fillIn]
      split
      · exact lasts
      · exact lasts
    | interpolateNext =>
      cases does
      dsimp only
      split
      · exact lasts
      · exact lasts
    | behindFill =>
      cases does
      dsimp only
      split
      · split
        · exact lasts
        · exact lasts
      · exact lasts
    | merge | nonNegativeOf | answerOf | limit =>
      cases does
      dsimp only
      split <;> trivial
    | meanOf | signedRateOf | extremeOf =>
      cases does
      trivial
    | write index v =>
      cases does
      dsimp only [keep]
      split
      · trivial
      · split <;> trivial
    | interpolate duration previous timestamp => cases previous <;> cases does
    | nextGroup groups =>
      cases groups with
      | nil => cases does
      | cons group groups =>
        cases does
        trivial
    | _ => cases does
  start {point goroutines next} does lasts := by
    cases point with
    | startGroup index group groups =>
      cases does
      exact ⟨trivial, pipeline_lasts frequencies index group groups⟩
    | closeWriter index valueCount groups =>
      cases does
      refine ⟨trivial, fun started member => ?_⟩
      obtain rfl := List.mem_singleton.mp member
      trivial
    | deliver sent _ =>
      cases sent with
      | nil => cases does
      | cons item sent =>
        rw [program] at does
        split at does <;> cases does
    | interpolate duration previous timestamp => cases previous <;> cases does
    | nextGroup groups => cases groups <;> cases does
    | _ => cases does

/-- However far the goroutines get, none of them comes to divide by zero. -/
def NeverDivides (arithmetic : Arithmetic Double) (request : LimitedRequest) (start : GetState Double) : Prop :=
  ∀ places last, Runs.run (request.step arithmetic) start places = some last →
    ∀ point ∈ last.goroutines, point.divisor ≠ some 0

variable {s : CellStore Double} {arrival : Iteration} {maps : MapOrders} {start last : GetState Double}

theorem CellStore.get_lasts (started : s.get rt arrival maps request = .ok start) :
    ∀ point ∈ start.goroutines, point.Lasts fresh := by
  cases requested : request.streamVariable with
  | none =>
    rw [get, requested] at started
    cases started
    intro point member
    cases member
  | some p =>
    rw [get, requested] at started
    by_cases named : p.name = []
    · obtain rfl := Except.ok.inj ((if_pos named).symm.trans started)
      intro point member
      cases member
    · replace started := (if_neg named).symm.trans started
      obtain ⟨delivered, _, started⟩ := Fallible.bind_ok started
      obtain ⟨mergeBy, _, started⟩ := Fallible.bind_ok started
      obtain ⟨groups, _, started⟩ := Fallible.bind_ok started
      cases started
      intro point member
      obtain rfl := List.mem_singleton.mp member
      trivial

theorem run_lasts (fresh : UInt64 → Prop)
    (frequencies : ∀ mutation ∈ request.mutation, mutation.sampleType = .none → fresh mutation.duration)
    (started : s.get rt arrival maps request = .ok start) {places : List Nat}
    (ran : Runs.run (request.step arithmetic) start places = some last) :
    ∀ point ∈ last.goroutines, point.Lasts fresh := by
  have keeps : ∀ (state : GetState Double) (place : Nat) (next : GetState Double),
      (∀ point ∈ state.goroutines, point.Lasts fresh) → request.step arithmetic state place = some next →
        ∀ point ∈ next.goroutines, point.Lasts fresh := fun _ _ _ lasts stepped =>
    (GetPoint.program_lasts frequencies).step lasts stepped
  exact Runs.run_keeps keeps (CellStore.get_lasts started) ran

/-- Only an interpolation at its first value divides by a duration that may be zero. -/
theorem GetPoint.Lasts.divisor_iff {point : GetPoint Double} (lasts : point.Lasts fun _ => True) :
    point.divisor = some 0 ↔ ∃ v, point = .interpolateFirst 0 v := by
  cases point with
  | interpolateFirst duration v => simp [divisor]
  | behindFill duration previous v timestamp =>
    have positive : duration ≠ 0 := lasts
    simp [divisor, positive]
  | _ => exact iff_of_false nofun fun same => by cases same.choose_spec

/-- Goroutines divide by zero exactly where an interpolation without a sample frequency gets a value. -/
theorem neverDivides_iff (started : s.get rt arrival maps request = .ok start) :
    NeverDivides arithmetic request start ↔
      ∀ places last, Runs.run (request.step arithmetic) start places = some last →
        ∀ v, .interpolateFirst 0 v ∉ last.goroutines := by
  constructor
  · intro never places last ran v member
    exact never places last ran _ member rfl
  · intro starved places last ran point member divides
    have lasts := run_lasts (fun _ => True) (fun _ _ _ => trivial) started ran point member
    obtain ⟨v, rfl⟩ := lasts.divisor_iff.mp divides
    exact starved places last ran v member

/-- Where every interpolation has a sample frequency, no goroutine divides by zero. -/
theorem neverDivides_of_frequencies
    (frequencies : ∀ mutation ∈ request.mutation, mutation.sampleType = .none → mutation.duration ≠ 0)
    (started : s.get rt arrival maps request = .ok start) : NeverDivides arithmetic request start := by
  rw [neverDivides_iff started]
  intro places last ran v member
  exact run_lasts (· ≠ 0) frequencies started ran _ member rfl

/-! ## Requests -/

/-- No run of the request panics before the loop of `Get` limits an answer. -/
def CellStore.GetSafe (rt : Runtime Double) (arithmetic : Arithmetic Double) (s : CellStore Double)
    (request : LimitedRequest) : Prop :=
  ∀ arrival maps, ∃ start, s.get rt arrival maps request = .ok start ∧ NeverDivides arithmetic request start

/-- None of the ways to panic is taken. -/
structure CellStore.GetGuarded (rt : Runtime Double) (arithmetic : Arithmetic Double) (s : CellStore Double)
    (request : LimitedRequest) (p : StreamVariable) : Prop where
  readable : s.load.Readable rt (request.search p)
  labelled : ∀ aggregation ∈ request.aggregation.head?, aggregation.label ≠ []
  parses : ∀ stream ∈ s.load.selected rt (request.search p), stream.Parses
  /-- An interpolation without a sample frequency gets no value. -/
  starved : ∀ arrival maps start, s.get rt arrival maps request = .ok start →
    ∀ places last, Runs.run (request.step arithmetic) start places = some last →
      ∀ v, .interpolateFirst 0 v ∉ last.goroutines

/-- The streams that the reader delivers have the variables of those that the search selects. -/
theorem CellStore.reader_parses {search : Search} {cells : List (Value Double)}
    {delivered : List (ValueStream Address)} (read : s.reader rt arrival search = .ok (cells, delivered)) :
    s.load.Readable rt search ∧
      ((∀ stream ∈ delivered, stream.Parses) ↔ ∀ stream ∈ s.load.selected rt search, stream.Parses) := by
  obtain ⟨values, sent, same⟩ := (s.load_reader rt arrival search).2 cells delivered read
  have readable := (Datastore.reader_ok_iff arrival).mp ⟨values, sent⟩
  refine ⟨readable, ?_⟩
  rw [readable.reader arrival] at sent
  obtain rfl := Except.ok.inj sent
  have loaded : (∀ stream ∈ delivered.map (ValueStream.load cells), stream.Parses) ↔
      ∀ stream ∈ delivered, stream.Parses := List.forall_mem_map
  rw [← loaded]
  exact forall_congr' fun stream => by rw [same.mem_iff, (arrival.perm _).mem_iff]

theorem CellStore.reader_ok {search : Search} (readable : s.load.Readable rt search) (arrival : Iteration) :
    ∃ cells delivered, s.reader rt arrival search = .ok (cells, delivered) := by
  cases read : s.reader rt arrival search with
  | ok found => exact ⟨found.1, found.2, rfl⟩
  | error panic =>
    have failed := (s.load_reader rt arrival search).1 panic read
    rw [readable.reader arrival] at failed
    cases failed

/-- The stages before the goroutines succeed exactly when each of them does. -/
theorem CellStore.get_ok_iff {p : StreamVariable} (requested : request.streamVariable = some p)
    (named : p.name ≠ []) (arrival : Iteration) (maps : MapOrders) :
    (∃ start, s.get rt arrival maps request = .ok start) ↔
      s.load.Readable rt (request.search p) ∧ (∀ aggregation ∈ request.aggregation.head?, aggregation.label ≠ []) ∧
        ∀ stream ∈ s.load.selected rt (request.search p), stream.Parses := by
  have unfolded : s.get rt arrival maps request = (do
      let read ← s.reader rt arrival (request.search p)
      let mergeBy ← mergeLabel request.aggregation
      let groups ← mergeStreamsBy maps read.2 mergeBy
      return { memory := { cells := read.1, response := [] }, goroutines := [.nextGroup groups] }) := by
    rw [get, requested]
    exact if_neg named
  rw [unfolded]
  constructor
  · rintro ⟨start, ran⟩
    obtain ⟨⟨cells, delivered⟩, read, ran⟩ := Fallible.bind_ok ran
    obtain ⟨mergeBy, hasLabel, ran⟩ := Fallible.bind_ok ran
    obtain ⟨groups, grouped, _⟩ := Fallible.bind_ok ran
    obtain ⟨readable, parses⟩ := reader_parses read
    exact ⟨readable, mergeLabel_ok_iff.mp ⟨mergeBy, hasLabel⟩,
      parses.mp ((mergeStreamsBy_ok_iff maps delivered mergeBy).mp ⟨groups, grouped⟩)⟩
  · rintro ⟨readable, labelled, selected⟩
    obtain ⟨cells, delivered, read⟩ := reader_ok readable arrival
    obtain ⟨mergeBy, hasLabel⟩ := mergeLabel_ok_iff.mpr labelled
    obtain ⟨groups, grouped⟩ :=
      (mergeStreamsBy_ok_iff maps delivered mergeBy).mpr ((reader_parses read).2.mpr selected)
    refine ⟨{ memory := { cells, response := [] }, goroutines := [.nextGroup groups] }, ?_⟩
    rw [read, Fallible.ok_bind]
    dsimp only
    rw [hasLabel, Fallible.ok_bind, grouped, Fallible.ok_bind]
    rfl

theorem CellStore.guarded_of_frequencies {p : StreamVariable} (requested : request.streamVariable = some p)
    (named : p.name ≠ [])
    (frequencies : ∀ mutation ∈ request.mutation, mutation.sampleType = .none → mutation.duration ≠ 0)
    (started : s.get rt arrival maps request = .ok start) : s.GetGuarded rt arithmetic request p := by
  obtain ⟨readable, labelled, parses⟩ := (get_ok_iff requested named arrival maps).mp ⟨start, started⟩
  exact ⟨readable, labelled, parses, fun _ _ _ started =>
    (neverDivides_iff started).mp (neverDivides_of_frequencies frequencies started)⟩

def GetRequest.unlimited (request : GetRequest) : LimitedRequest := { request with maxValues := none }

theorem CellStore.not_getSafe_of_error {panic : Panic} (failed : s.get rt arrival maps request = .error panic) :
    ¬s.GetSafe rt arithmetic request := by
  intro safe
  obtain ⟨start, started, _⟩ := safe arrival maps
  rw [failed] at started
  cases started

theorem not_getSafe_of_run {s : CellStore UInt64} (places : List Nat)
    (computed : ((s.get protoRuntime .listed .listed request).toOption.bind fun start =>
      Runs.run (request.step wholeNumbers) start places).any (fun last =>
        last.goroutines.any fun point => point.divisor = some 0) = true) :
    ¬s.GetSafe protoRuntime wholeNumbers request := by
  intro safe
  obtain ⟨start, last, started, ran, divides⟩ := exists_run computed
  obtain ⟨point, member, zero⟩ := List.any_eq_true.mp divides
  obtain ⟨other, started', never⟩ := safe .listed .listed
  obtain rfl := Except.ok.inj (started'.symm.trans started)
  exact never places last ran point member (of_decide_eq_true zero)

/-- The group of the name that is parsed to another one has the streams of that one once more.  The first group moves
the value from 15 to 10, where the interpolation passes it on when it meets it again. -/
example : ¬(pendingCells [gauge "a" [15], gauge "a\x7bb=c\x7d" [7]]).GetSafe protoRuntime wholeNumbers
    (getRequest "a*" [⟨.none, some 10⟩, ⟨.none, none⟩] []).unlimited :=
  not_getSafe_of_run
    [0, 0, 1, 1, 1, 2, 2, 3, 3, 4, 5, 6, 6, 7, 8, 8, 8, 9, 9, 9, 10, 10, 11, 11, 11, 11, 12] (by decide)

end OpenInstrument
