import OpenInstrument.Server.Aggregation

/-! # When calculations over several streams end

A turn of `ValueStreamCalculation` takes values into the bucket, or it puts the bucket out and begins another
one, or it does neither.  The first turn of a bucket chooses a reference: the first timestamp that is not zero,
since zero stands for no reference at all.  When no value that is next in a stream lies in the window around the
reference, which may wrap around, the bucket stays empty and no later turn does anything either.
-/

namespace OpenInstrument.Server

variable {sampleInterval : UInt64}

/-- The test of the window around a reference, in unsigned integers. -/
def InWindow (sampleInterval ts timestamp : UInt64) : Prop :=
  ts - sampleInterval ≤ timestamp ∧ timestamp ≤ ts + sampleInterval

instance (sampleInterval ts timestamp : UInt64) : Decidable (InWindow sampleInterval ts timestamp) :=
  inferInstanceAs (Decidable (_ ∧ _))

/-- The timestamps of the values that are next in their streams. -/
def nextTimestamps (remaining : List (List (Value UInt64))) : List UInt64 :=
  (remaining.filterMap List.head?).map Value.timestamp

/-- The reference of a bucket: the first timestamp that is not zero. -/
def reference (timestamps : List UInt64) : UInt64 := (timestamps.find? (· ≠ 0)).getD 0

/-- A bucket that is begun gets a value. -/
def Fills (sampleInterval : UInt64) (remaining : List (List (Value UInt64))) : Prop :=
  ∃ timestamp ∈ nextTimestamps remaining, InWindow sampleInterval (reference (nextTimestamps remaining)) timestamp

/-! ## One turn -/

/-- What the loop keeps from one turn to the next. -/
structure Calculation where
  remaining : List (List (Value UInt64))
  bucket : List UInt64
  ts : UInt64

def Calculation.start (input : List ResponseStream) : Calculation :=
  { remaining := input.map ResponseStream.value, bucket := [], ts := 0 }

def Calculation.pass (sampleInterval : UInt64) (state : Calculation) : Pass :=
  state.remaining.foldl (passStream sampleInterval)
    { found := false, foundBracket := false, remaining := [], bucket := state.bucket, ts := state.ts }

def Calculation.turn (sampleInterval : UInt64) (state : Calculation) : Calculation :=
  let pass := state.pass sampleInterval
  if pass.foundBracket = false ∧ pass.bucket ≠ [] then { remaining := pass.remaining, bucket := [], ts := 0 }
  else { remaining := pass.remaining, bucket := pass.bucket, ts := pass.ts }

/-- A turn that puts the bucket out. -/
def Calculation.Puts (sampleInterval : UInt64) (state : Calculation) : Prop :=
  (state.pass sampleInterval).foundBracket = false ∧ (state.pass sampleInterval).bucket ≠ []

instance (state : Calculation) : Decidable (state.Puts sampleInterval) :=
  inferInstanceAs (Decidable (_ ∧ _))

def Calculation.output {Result : Type} (sampleInterval : UInt64) (calcfunc : List UInt64 → Result)
    (state : Calculation) (output : List (Value Result)) : List (Value Result) :=
  if state.Puts sampleInterval then
    output ++ [newValue (state.pass sampleInterval).ts (calcfunc (state.pass sampleInterval).bucket)]
  else output

def Calculation.after (sampleInterval : UInt64) (state : Calculation) : Nat → Calculation
  | 0 => state
  | turns + 1 => (state.turn sampleInterval).after sampleInterval turns

/-- A bucket is begun, and there are values left for it. -/
def Calculation.Begins (state : Calculation) : Prop :=
  state.bucket = [] ∧ state.ts = 0 ∧ nextTimestamps state.remaining ≠ []

def Calculation.left (state : Calculation) : Nat := (state.remaining.map List.length).sum

/-- The loop ends: some turn finds no value left. -/
def Calculation.Ends (sampleInterval : UInt64) (state : Calculation) : Prop :=
  ∃ turns, nextTimestamps (state.after sampleInterval turns).remaining = []

@[simp] theorem nextTimestamps_nil : nextTimestamps [] = [] := rfl

@[simp] theorem nextTimestamps_empty (remaining : List (List (Value UInt64))) :
    nextTimestamps ([] :: remaining) = nextTimestamps remaining := rfl

@[simp] theorem nextTimestamps_cons (val : Value UInt64) (rest : List (Value UInt64))
    (remaining : List (List (Value UInt64))) :
    nextTimestamps ((val :: rest) :: remaining) = val.timestamp :: nextTimestamps remaining := rfl

/-! ## The window -/

/-- The reference when the streams in front had none. -/
def referenceFrom (ts : UInt64) (timestamps : List UInt64) : UInt64 := if ts = 0 then reference timestamps else ts

/-- Whether a pass takes a value; the reference is chosen on the way. -/
def takesSome (sampleInterval : UInt64) : UInt64 → List UInt64 → Bool
  | _, [] => false
  | ts, timestamp :: timestamps =>
    let chosen := if ts = 0 then timestamp else ts
    decide (InWindow sampleInterval chosen timestamp) || takesSome sampleInterval chosen timestamps

theorem reference_cons (timestamp : UInt64) (timestamps : List UInt64) :
    reference (timestamp :: timestamps) = if timestamp = 0 then reference timestamps else timestamp := by
  by_cases zero : timestamp = 0 <;> simp [reference, zero]

theorem referenceFrom_cons (ts timestamp : UInt64) (timestamps : List UInt64) :
    referenceFrom ts (timestamp :: timestamps) = referenceFrom (if ts = 0 then timestamp else ts) timestamps := by
  by_cases zero : ts = 0
  · simp only [referenceFrom, zero, if_true, reference_cons]
  · simp only [referenceFrom, zero, if_false]

/-- Once there is a reference, a pass takes the values in its window. -/
theorem takesSome_of_ne {ts : UInt64} (chosen : ts ≠ 0) (timestamps : List UInt64) :
    takesSome sampleInterval ts timestamps = true ↔
      ∃ timestamp ∈ timestamps, InWindow sampleInterval ts timestamp := by
  induction timestamps with
  | nil => simp [takesSome]
  | cons timestamp timestamps inductionHypothesis => simp [takesSome, chosen, inductionHypothesis]

theorem inWindow_zero_zero : InWindow sampleInterval 0 0 ↔ sampleInterval = 0 := by
  simp only [InWindow, UInt64.le_iff_toNat_le, UInt64.toNat_sub, ← UInt64.toNat_inj]
  have bound := sampleInterval.toNat_lt
  constructor
  · intro both
    have zero : (0 : UInt64).toNat = 0 := rfl
    omega
  · intro zero
    simp [zero]

/-- Without an interval a value lies in its own window. -/
theorem inWindow_self (timestamp : UInt64) : InWindow 0 timestamp timestamp := by simp [InWindow]

theorem fills_of_zero {timestamps : List UInt64} (some_ : timestamps ≠ []) :
    ∃ timestamp ∈ timestamps, InWindow 0 (reference timestamps) timestamp := by
  induction timestamps with
  | nil => exact absurd rfl some_
  | cons timestamp timestamps inductionHypothesis =>
    rw [reference_cons]
    by_cases zero : timestamp = 0
    · rw [if_pos zero]
      by_cases last : timestamps = []
      · exact ⟨timestamp, List.mem_cons_self, by rw [last, zero]; exact inWindow_self 0⟩
      · obtain ⟨other, member, inside⟩ := inductionHypothesis last
        exact ⟨other, List.mem_cons_of_mem _ member, inside⟩
    · rw [if_neg zero]
      exact ⟨timestamp, List.mem_cons_self, inWindow_self _⟩

/-- What the first pass of a bucket takes lies in the window around its reference: zeros in front of the
reference are taken only without an interval. -/
theorem fills_of_takesSome {timestamps : List UInt64} (takes : takesSome sampleInterval 0 timestamps = true) :
    ∃ timestamp ∈ timestamps, InWindow sampleInterval (reference timestamps) timestamp := by
  induction timestamps with
  | nil => cases takes
  | cons timestamp timestamps inductionHypothesis =>
    by_cases zero : timestamp = 0
    · subst zero
      simp only [takesSome, if_true, Bool.or_eq_true, decide_eq_true_eq] at takes
      cases takes with
      | inl inside =>
        rw [inWindow_zero_zero] at inside
        subst inside
        exact fills_of_zero (List.cons_ne_nil _ _)
      | inr later =>
        obtain ⟨other, member, inside⟩ := inductionHypothesis later
        exact ⟨other, List.mem_cons_of_mem _ member, by rwa [reference_cons, if_pos rfl]⟩
    · simp only [takesSome, if_true, Bool.or_eq_true, decide_eq_true_eq, takesSome_of_ne zero] at takes
      rw [reference_cons, if_neg zero]
      cases takes with
      | inl inside => exact ⟨timestamp, List.mem_cons_self, inside⟩
      | inr later =>
        obtain ⟨other, member, inside⟩ := later
        exact ⟨other, List.mem_cons_of_mem _ member, inside⟩

/-- Where all timestamps are zero, the first pass takes what the window around zero holds. -/
theorem takesSome_of_reference_zero {timestamps : List UInt64} (zero : reference timestamps = 0)
    (fills : ∃ timestamp ∈ timestamps, InWindow sampleInterval 0 timestamp) :
    takesSome sampleInterval 0 timestamps = true := by
  induction timestamps with
  | nil =>
    obtain ⟨timestamp, member, _⟩ := fills
    cases member
  | cons timestamp timestamps inductionHypothesis =>
    rw [reference_cons] at zero
    have none_ : timestamp = 0 := by
      by_contra other
      rw [if_neg other] at zero
      exact other zero
    subst none_
    rw [if_pos rfl] at zero
    simp only [takesSome, if_true, Bool.or_eq_true, decide_eq_true_eq]
    obtain ⟨other, member, inside⟩ := fills
    cases member with
    | head => exact .inl inside
    | tail _ member => exact .inr (inductionHypothesis zero ⟨other, member, inside⟩)

/-! ## What a pass does -/

/-- The reference once a value is looked at. -/
def Pass.chosen (pass : Pass) (val : Value UInt64) : UInt64 := if pass.ts = 0 then val.timestamp else pass.ts

theorem passStream_inside {pass : Pass} {val : Value UInt64}
    (inside : InWindow sampleInterval (pass.chosen val) val.timestamp) (rest : List (Value UInt64)) :
    passStream sampleInterval pass (val :: rest) =
      { found := true, foundBracket := true, remaining := pass.remaining ++ [rest]
        bucket := pass.bucket ++ [getDoubleValue val], ts := pass.chosen val } :=
  if_pos inside

theorem passStream_outside {pass : Pass} {val : Value UInt64}
    (outside : ¬ InWindow sampleInterval (pass.chosen val) val.timestamp) (rest : List (Value UInt64)) :
    passStream sampleInterval pass (val :: rest) =
      { pass with found := true, remaining := pass.remaining ++ [val :: rest], ts := pass.chosen val } :=
  if_neg outside

theorem passStream_cons (pass : Pass) (val : Value UInt64) (rest : List (Value UInt64)) :
    (passStream sampleInterval pass (val :: rest)).found = true ∧
      (passStream sampleInterval pass (val :: rest)).ts = pass.chosen val ∧
      (passStream sampleInterval pass (val :: rest)).foundBracket =
        (pass.foundBracket || decide (InWindow sampleInterval (pass.chosen val) val.timestamp)) := by
  by_cases inside : InWindow sampleInterval (pass.chosen val) val.timestamp
  · rw [passStream_inside inside]
    simp [inside]
  · rw [passStream_outside inside]
    simp [inside]

theorem takesSome_cons (pass : Pass) (val : Value UInt64) (timestamps : List UInt64) :
    takesSome sampleInterval pass.ts (val.timestamp :: timestamps) =
      (decide (InWindow sampleInterval (pass.chosen val) val.timestamp) ||
        takesSome sampleInterval (pass.chosen val) timestamps) := rfl

theorem foldl_passStream (streams : List (List (Value UInt64))) (pass : Pass) :
    (streams.foldl (passStream sampleInterval) pass).found =
        (pass.found || !(nextTimestamps streams).isEmpty) ∧
      (streams.foldl (passStream sampleInterval) pass).foundBracket =
        (pass.foundBracket || takesSome sampleInterval pass.ts (nextTimestamps streams)) ∧
      (streams.foldl (passStream sampleInterval) pass).ts = referenceFrom pass.ts (nextTimestamps streams) := by
  induction streams generalizing pass with
  | nil => simp [takesSome, referenceFrom, reference]
  | cons stream streams inductionHypothesis =>
    rw [List.foldl_cons]
    cases stream with
    | nil => simpa [passStream] using inductionHypothesis (passStream sampleInterval pass [])
    | cons val rest =>
      obtain ⟨found, ts, foundBracket⟩ := @passStream_cons sampleInterval pass val rest
      obtain ⟨foundAll, bracketAll, tsAll⟩ := inductionHypothesis (passStream sampleInterval pass (val :: rest))
      rw [foundAll, bracketAll, tsAll, found, ts, foundBracket, nextTimestamps_cons, takesSome_cons, referenceFrom_cons]
      simp [Bool.or_assoc, Pass.chosen]

/-- A value that is taken off its stream is put into the bucket. -/
theorem passStream_conserves (pass : Pass) (stream : List (Value UInt64)) :
    ((passStream sampleInterval pass stream).remaining.map List.length).sum +
        (passStream sampleInterval pass stream).bucket.length =
      (pass.remaining.map List.length).sum + stream.length + pass.bucket.length := by
  cases stream with
  | nil => simp [passStream]
  | cons val rest =>
    by_cases inside : InWindow sampleInterval (pass.chosen val) val.timestamp
    · rw [passStream_inside inside]
      simp
      omega
    · rw [passStream_outside inside]
      simp

theorem foldl_passStream_conserves (streams : List (List (Value UInt64))) (pass : Pass) :
    ((streams.foldl (passStream sampleInterval) pass).remaining.map List.length).sum +
        (streams.foldl (passStream sampleInterval) pass).bucket.length =
      (pass.remaining.map List.length).sum + (streams.map List.length).sum + pass.bucket.length := by
  induction streams generalizing pass with
  | nil => simp
  | cons stream streams inductionHypothesis =>
    have first := @passStream_conserves sampleInterval pass stream
    rw [List.foldl_cons, inductionHypothesis, List.map_cons, List.sum_cons]
    omega

theorem foldl_passStream_bucket (streams : List (List (Value UInt64))) (pass : Pass) :
    pass.bucket.length + (if takesSome sampleInterval pass.ts (nextTimestamps streams) then 1 else 0) ≤
      (streams.foldl (passStream sampleInterval) pass).bucket.length := by
  induction streams generalizing pass with
  | nil => simp [takesSome]
  | cons stream streams inductionHypothesis =>
    rw [List.foldl_cons]
    cases stream with
    | nil => exact inductionHypothesis (passStream sampleInterval pass [])
    | cons val rest =>
      have later := inductionHypothesis (passStream sampleInterval pass (val :: rest))
      rw [(@passStream_cons sampleInterval pass val rest).2.1] at later
      rw [nextTimestamps_cons, takesSome_cons]
      by_cases inside : InWindow sampleInterval (pass.chosen val) val.timestamp
      · have taken : (passStream sampleInterval pass (val :: rest)).bucket.length = pass.bucket.length + 1 := by
          simp [passStream_inside inside]
        simp only [inside, decide_true, Bool.true_or, if_true]
        omega
      · have same : (passStream sampleInterval pass (val :: rest)).bucket = pass.bucket := by
          rw [passStream_outside inside]
        rw [same] at later
        simpa only [inside, decide_false, Bool.false_or] using later

/-- A pass that takes nothing leaves the streams as they are. -/
theorem foldl_passStream_untouched {streams : List (List (Value UInt64))} {pass : Pass}
    (none_ : takesSome sampleInterval pass.ts (nextTimestamps streams) = false) :
    (streams.foldl (passStream sampleInterval) pass).remaining = pass.remaining ++ streams ∧
      (streams.foldl (passStream sampleInterval) pass).bucket = pass.bucket := by
  induction streams generalizing pass with
  | nil => simp
  | cons stream streams inductionHypothesis =>
    rw [List.foldl_cons]
    cases stream with
    | nil =>
      obtain ⟨remaining, bucket⟩ := @inductionHypothesis (passStream sampleInterval pass []) none_
      exact ⟨by rw [remaining]; simp [passStream], bucket⟩
    | cons val rest =>
      rw [nextTimestamps_cons, takesSome_cons] at none_
      simp only [Bool.or_eq_false_iff, decide_eq_false_iff_not] at none_
      have here := @passStream_outside sampleInterval pass val none_.1 rest
      obtain ⟨remaining, bucket⟩ :=
        @inductionHypothesis (passStream sampleInterval pass (val :: rest)) (by rw [here]; exact none_.2)
      exact ⟨by rw [remaining, here]; simp, by rw [bucket, here]⟩

/-! ## What a turn does -/

variable {state : Calculation}

theorem Calculation.pass_takes (state : Calculation) :
    (state.pass sampleInterval).foundBracket =
      takesSome sampleInterval state.ts (nextTimestamps state.remaining) := by
  rw [Calculation.pass, (foldl_passStream state.remaining _).2.1, Bool.false_or]

/-- A turn that takes values has fewer of them left. -/
theorem Calculation.turn_takes (takes : takesSome sampleInterval state.ts (nextTimestamps state.remaining) = true) :
    (state.turn sampleInterval).bucket ≠ [] ∧ (state.turn sampleInterval).left < state.left := by
  have bracket := state.pass_takes.trans takes
  have turned : state.turn sampleInterval =
      { remaining := (state.pass sampleInterval).remaining, bucket := (state.pass sampleInterval).bucket
        ts := (state.pass sampleInterval).ts } := by
    rw [Calculation.turn, if_neg (by simp [bracket])]
  have kept := @foldl_passStream_conserves sampleInterval state.remaining
    { found := false, foundBracket := false, remaining := [], bucket := state.bucket, ts := state.ts }
  have grown := @foldl_passStream_bucket sampleInterval state.remaining
    { found := false, foundBracket := false, remaining := [], bucket := state.bucket, ts := state.ts }
  rw [if_pos takes] at grown
  simp only [List.map_nil, List.sum_nil, Nat.zero_add] at kept grown
  rw [turned]
  constructor
  · intro none_
    have length := congrArg List.length none_
    rw [Calculation.pass] at length
    rw [length] at grown
    simp at grown
  · show ((state.pass sampleInterval).remaining.map List.length).sum < (state.remaining.map List.length).sum
    rw [Calculation.pass]
    omega

/-- A turn that takes nothing puts out a bucket that is not empty. -/
theorem Calculation.turn_puts (rests : takesSome sampleInterval state.ts (nextTimestamps state.remaining) = false)
    (full : state.bucket ≠ []) :
    state.turn sampleInterval = { remaining := state.remaining, bucket := [], ts := 0 } := by
  have bracket := state.pass_takes.trans rests
  obtain ⟨remaining, bucket⟩ := @foldl_passStream_untouched sampleInterval state.remaining
    { found := false, foundBracket := false, remaining := [], bucket := state.bucket, ts := state.ts } rests
  have samePass : (state.pass sampleInterval).remaining = state.remaining := remaining
  have sameBucket : (state.pass sampleInterval).bucket = state.bucket := bucket
  rw [Calculation.turn, if_pos ⟨bracket, by rw [sameBucket]; exact full⟩, samePass]

/-- A turn that takes nothing into an empty bucket does no more than choose the reference. -/
theorem Calculation.turn_rests (rests : takesSome sampleInterval state.ts (nextTimestamps state.remaining) = false)
    (empty : state.bucket = []) :
    state.turn sampleInterval =
      { remaining := state.remaining, bucket := []
        ts := referenceFrom state.ts (nextTimestamps state.remaining) } := by
  obtain ⟨remaining, bucket⟩ := @foldl_passStream_untouched sampleInterval state.remaining
    { found := false, foundBracket := false, remaining := [], bucket := state.bucket, ts := state.ts } rests
  have samePass : (state.pass sampleInterval).remaining = state.remaining := remaining
  have sameBucket : (state.pass sampleInterval).bucket = [] := bucket.trans empty
  have ts : (state.pass sampleInterval).ts = referenceFrom state.ts (nextTimestamps state.remaining) :=
    (foldl_passStream state.remaining _).2.2
  rw [Calculation.turn, if_neg (by simp [sameBucket]), samePass, sameBucket, ts]

/-! ## Runs of the loop -/

theorem Calculation.ends_of_turn (ends : (state.turn sampleInterval).Ends sampleInterval) :
    state.Ends sampleInterval := by
  obtain ⟨turns, none_⟩ := ends
  exact ⟨turns + 1, none_⟩

theorem Calculation.after_after (state : Calculation) (turns more : Nat) :
    (state.after sampleInterval turns).after sampleInterval more = state.after sampleInterval (turns + more) := by
  induction turns generalizing state with
  | zero => rw [Nat.zero_add, Calculation.after]
  | succ turns inductionHypothesis =>
    rw [Nat.succ_add]
    exact inductionHypothesis (state.turn sampleInterval)

theorem Calculation.turn_done (done : nextTimestamps state.remaining = []) :
    nextTimestamps (state.turn sampleInterval).remaining = [] := by
  have rests : takesSome sampleInterval state.ts (nextTimestamps state.remaining) = false := by
    rw [done, takesSome]
  by_cases empty : state.bucket = []
  · rw [Calculation.turn_rests rests empty, done]
  · rw [Calculation.turn_puts rests empty, done]

theorem Calculation.after_done (done : nextTimestamps state.remaining = []) (turns : Nat) :
    nextTimestamps (state.after sampleInterval turns).remaining = [] := by
  induction turns generalizing state with
  | zero => exact done
  | succ turns inductionHypothesis => exact inductionHypothesis (Calculation.turn_done done)

/-- A loop that ends still ends from every state that it reaches. -/
theorem Calculation.Ends.after (ends : state.Ends sampleInterval) (turns : Nat) :
    (state.after sampleInterval turns).Ends sampleInterval := by
  obtain ⟨last, done⟩ := ends
  cases Nat.le_total turns last with
  | inl before =>
    refine ⟨last - turns, ?_⟩
    rw [Calculation.after_after, Nat.add_sub_cancel' before]
    exact done
  | inr behind =>
    refine ⟨0, ?_⟩
    have later := @Calculation.after_done sampleInterval _ done (turns - last)
    rwa [Calculation.after_after, Nat.add_sub_cancel' behind] at later

/-- The loop ends if every bucket that it begins gets a value.  A bucket takes two turns at most to get one,
and with every bucket there are fewer values left. -/
theorem Calculation.ends_of_fills (state : Calculation) (begun : state.bucket ≠ [] ∨ state.ts = 0)
    (fills : ∀ turns, (state.after sampleInterval turns).Begins →
      Fills sampleInterval (state.after sampleInterval turns).remaining) :
    state.Ends sampleInterval := by
  induction bound : 2 * state.left + (if state.bucket = [] then 0 else 1) using Nat.strong_induction_on
    generalizing state with
  | _ bound inductionHypothesis =>
    have later : ∀ more, (∀ turns, ((state.after sampleInterval more).after sampleInterval turns).Begins →
        Fills sampleInterval ((state.after sampleInterval more).after sampleInterval turns).remaining) := by
      intro more turns
      rw [Calculation.after_after]
      exact fills (more + turns)
    by_cases done : nextTimestamps state.remaining = []
    · exact ⟨0, done⟩
    · apply Calculation.ends_of_turn
      by_cases takes : takesSome sampleInterval state.ts (nextTimestamps state.remaining) = true
      · obtain ⟨full, fewer⟩ := Calculation.turn_takes takes
        refine inductionHypothesis _ ?_ _ (.inl full) (later 1) rfl
        rw [if_neg full]
        omega
      · have rests := Bool.not_eq_true _ ▸ takes
        by_cases empty : state.bucket = []
        · have unset : state.ts = 0 := begun.resolve_left fun full => full empty
          have filled : Fills sampleInterval state.remaining := fills 0 ⟨empty, unset, done⟩
          rw [unset] at rests
          -- The first turn has chosen the reference, so the second one takes what lies in its window.
          have chosen : reference (nextTimestamps state.remaining) ≠ 0 := by
            intro zero
            rw [Fills, zero] at filled
            rw [takesSome_of_reference_zero zero filled] at rests
            cases rests
          have turned : state.turn sampleInterval =
              { remaining := state.remaining, bucket := []
                ts := reference (nextTimestamps state.remaining) } := by
            rw [Calculation.turn_rests (by rw [unset]; exact rests) empty, unset, referenceFrom, if_pos rfl]
          have second : takesSome sampleInterval (state.turn sampleInterval).ts
              (nextTimestamps (state.turn sampleInterval).remaining) = true := by
            rw [turned]
            exact (takesSome_of_ne chosen _).mpr filled
          obtain ⟨full, fewer⟩ := Calculation.turn_takes second
          have same : (state.turn sampleInterval).left = state.left := by
            rw [turned, Calculation.left, Calculation.left]
          apply Calculation.ends_of_turn
          refine inductionHypothesis _ ?_ _ (.inl full) (later 2) rfl
          rw [if_neg full]
          omega
        · have turned := Calculation.turn_puts rests empty
          refine inductionHypothesis _ ?_ _ (.inr (by rw [turned])) (later 1) rfl
          rw [turned, if_pos rfl]
          rw [if_neg empty] at bound
          have same : Calculation.left { remaining := state.remaining, bucket := [], ts := 0 } = state.left := rfl
          omega

/-- A bucket that gets no value when it is begun never gets one. -/
theorem Calculation.fills_of_ends (begins : state.Begins) (ends : state.Ends sampleInterval) :
    Fills sampleInterval state.remaining := by
  by_contra misses
  obtain ⟨empty, unset, some_⟩ := begins
  have stuck : ∀ turns (other : Calculation), other.remaining = state.remaining → other.bucket = [] →
      (other.ts = 0 ∨ other.ts = reference (nextTimestamps state.remaining)) →
      (other.after sampleInterval turns).remaining = state.remaining := by
    intro turns
    induction turns with
    | zero => exact fun other same _ _ => same
    | succ turns inductionHypothesis =>
      intro other same bare chosen
      have rests : takesSome sampleInterval other.ts (nextTimestamps other.remaining) = false := by
        rw [← Bool.not_eq_true, same]
        intro takes
        by_cases zero : other.ts = 0
        · rw [zero] at takes
          exact misses (fills_of_takesSome takes)
        · have referred := chosen.resolve_left zero
          rw [takesSome_of_ne zero, referred] at takes
          exact misses takes
      have turned := Calculation.turn_rests rests bare
      apply inductionHypothesis (other.turn sampleInterval)
      · rw [turned, same]
      · rw [turned]
      · rw [turned, same, referenceFrom]
        split
        · exact .inr rfl
        · exact chosen
  obtain ⟨turns, done⟩ := ends
  rw [stuck turns state rfl empty (.inl unset)] at done
  exact some_ done

/-! ## The loop of the source -/

/-- One turn of the loop, with what it adds to the output. -/
theorem calculationLoop_succ {Result : Type} (calcfunc : List UInt64 → Result) (turns : Nat) (state : Calculation)
    (output : List (Value Result)) :
    calculationLoop sampleInterval (fun bucket => .ok (calcfunc bucket)) (turns + 1) state.remaining
        state.bucket state.ts output =
      if nextTimestamps state.remaining = [] then .ok output
      else
        calculationLoop sampleInterval (fun bucket => .ok (calcfunc bucket)) turns
          (state.turn sampleInterval).remaining (state.turn sampleInterval).bucket (state.turn sampleInterval).ts
          (state.output sampleInterval calcfunc output) := by
  have unfolded : calculationLoop sampleInterval (fun bucket => .ok (calcfunc bucket)) (turns + 1) state.remaining
      state.bucket state.ts output =
      if (state.pass sampleInterval).found = false then .ok output
      else if state.Puts sampleInterval then
        calculationLoop sampleInterval (fun bucket => .ok (calcfunc bucket)) turns
          (state.pass sampleInterval).remaining [] 0
          (output ++ [newValue (state.pass sampleInterval).ts (calcfunc (state.pass sampleInterval).bucket)])
      else
        calculationLoop sampleInterval (fun bucket => .ok (calcfunc bucket)) turns
          (state.pass sampleInterval).remaining (state.pass sampleInterval).bucket (state.pass sampleInterval).ts
          output := rfl
  -- The loop ends where no stream has a value left.
  have found : (state.pass sampleInterval).found = false ↔ nextTimestamps state.remaining = [] := by
    rw [Calculation.pass, (foldl_passStream state.remaining _).1, Bool.false_or]
    simp
  have turned : state.turn sampleInterval =
      if state.Puts sampleInterval then
        { remaining := (state.pass sampleInterval).remaining, bucket := [], ts := 0 }
      else
        { remaining := (state.pass sampleInterval).remaining, bucket := (state.pass sampleInterval).bucket
          ts := (state.pass sampleInterval).ts } := rfl
  rw [unfolded, turned, Calculation.output]
  by_cases done : nextTimestamps state.remaining = []
  · rw [if_pos (found.mpr done), if_pos done]
  · rw [if_neg (fun none_ => done (found.mp none_)), if_neg done]
    by_cases puts : state.Puts sampleInterval
    · simp only [if_pos puts]
    · simp only [if_neg puts]

/-- The loop makes all its turns as long as it finds values. -/
theorem calculationLoop_exhausted_iff (calcfunc : List UInt64 → UInt64) (turns : Nat) (state : Calculation)
    (output : List (Value UInt64)) :
    calculationLoop sampleInterval (fun bucket => .ok (calcfunc bucket)) turns state.remaining state.bucket state.ts
        output = .error .exhausted ↔
      ∀ turn < turns, nextTimestamps (state.after sampleInterval turn).remaining ≠ [] := by
  induction turns generalizing state output with
  | zero => simp [calculationLoop]
  | succ turns inductionHypothesis =>
    rw [calculationLoop_succ, Nat.forall_lt_succ_left]
    split
    · rename_i done
      exact iff_of_false (by simp) fun all => all.1 done
    · rename_i some_
      rw [inductionHypothesis]
      exact ⟨fun later => ⟨some_, later⟩, And.right⟩

theorem valueStreamCalculation_exhausted_iff (calcfunc : List UInt64 → UInt64) (turns : Nat)
    (input : List ResponseStream) :
    valueStreamCalculation turns input sampleInterval (fun bucket => .ok (calcfunc bucket)) = .error .exhausted ↔
      input ≠ [] ∧
        ∀ turn < turns, nextTimestamps ((Calculation.start input).after sampleInterval turn).remaining ≠ [] := by
  cases input with
  | nil => simp [valueStreamCalculation]
  | cons first rest =>
    have loop := @calculationLoop_exhausted_iff sampleInterval calcfunc turns (.start (first :: rest)) []
    rw [← loop, valueStreamCalculation]
    simp only [Calculation.start]
    cases calculationLoop sampleInterval (fun bucket => .ok (calcfunc bucket)) turns
        ((first :: rest).map ResponseStream.value) [] 0 [] with
    | error stop =>
      show (Except.error stop : Except Stop ResponseStream) = _ ↔ _
      simp
    | ok value =>
      show (Except.ok _ : Except Stop ResponseStream) = _ ↔ _
      simp

theorem valueStreamCalculation_ends (input : List ResponseStream) (calcfunc : List UInt64 → UInt64) :
    (∃ turns, valueStreamCalculation turns input sampleInterval (fun bucket => .ok (calcfunc bucket)) ≠
        .error .exhausted) ↔ (Calculation.start input).Ends sampleInterval := by
  simp only [ne_eq, valueStreamCalculation_exhausted_iff, not_and, not_forall, not_not]
  constructor
  · rintro ⟨turns, ended⟩
    by_cases none_ : input = []
    · exact ⟨0, by rw [none_]; rfl⟩
    · obtain ⟨turn, _, done⟩ := ended none_
      exact ⟨turn, done⟩
  · rintro ⟨turn, done⟩
    exact ⟨turn + 1, fun _ => ⟨turn, Nat.lt_succ_self _, done⟩⟩

/-- The main loop of `ValueStreamCalculation` ends exactly when every bucket that it begins gets a value. -/
theorem valueStreamCalculation_ends_iff (input : List ResponseStream) (sampleInterval : UInt64)
    (calcfunc : List UInt64 → UInt64) :
    (∃ turns, valueStreamCalculation turns input sampleInterval (fun bucket => .ok (calcfunc bucket)) ≠
        .error .exhausted) ↔
      ∀ turns, ((Calculation.start input).after sampleInterval turns).Begins →
        Fills sampleInterval ((Calculation.start input).after sampleInterval turns).remaining := by
  rw [valueStreamCalculation_ends]
  constructor
  · intro ended turns begins
    exact Calculation.fills_of_ends begins (ended.after turns)
  · exact Calculation.ends_of_fills _ (.inr rfl)

/-- One value at 5 with an interval of 10: the window around 5 wraps around, and the loop never ends. -/
theorem valueStreamCalculation_hangs :
    ¬∃ turns, valueStreamCalculation turns [{ variable_ := none, value := [newValue 5 0] }] 10 (fun _ => .ok 0) ≠
      .error .exhausted := by
  rintro ⟨turns, ends⟩
  apply ends
  rw [@valueStreamCalculation_exhausted_iff 10 (fun _ => 0)]
  refine ⟨by simp, fun turn _ done => ?_⟩
  have ends : (Calculation.start [{ variable_ := none, value := [newValue 5 0] }]).Ends 10 := ⟨turn, done⟩
  obtain ⟨timestamp, member, inside⟩ := Calculation.fills_of_ends ⟨rfl, rfl, by decide⟩ ends
  rw [List.mem_singleton.mp member] at inside
  exact absurd inside (by decide)

/-! ## Inputs on which the loop ends -/

theorem reference_mem {timestamps : List UInt64} (some_ : timestamps ≠ []) : reference timestamps ∈ timestamps := by
  cases timestamps with
  | nil => exact absurd rfl some_
  | cons first timestamps =>
    cases found : (first :: timestamps).find? (· ≠ 0) with
    | some timestamp =>
      rw [reference, found]
      exact List.mem_of_find?_eq_some found
    | none =>
      have zero : first = 0 := by simpa using List.find?_eq_none.mp found first List.mem_cons_self
      rw [reference, found, zero]
      exact List.mem_cons_self

/-- A pass leaves no values but those it began with. -/
theorem foldl_passStream_mem {streams : List (List (Value UInt64))} {pass : Pass} {val : Value UInt64}
    (member : val ∈ (streams.foldl (passStream sampleInterval) pass).remaining.flatten) :
    val ∈ pass.remaining.flatten ∨ val ∈ streams.flatten := by
  induction streams generalizing pass with
  | nil => exact .inl member
  | cons stream streams inductionHypothesis =>
    have step : val ∈ (passStream sampleInterval pass stream).remaining.flatten →
        val ∈ pass.remaining.flatten ∨ val ∈ stream := by
      cases stream with
      | nil => simp [passStream]
      | cons first rest =>
        by_cases inside : InWindow sampleInterval (pass.chosen first) first.timestamp
        · rw [passStream_inside inside]
          simp only [List.flatten_append, List.mem_append, List.flatten_singleton]
          exact Or.imp_right (List.mem_cons_of_mem _)
        · rw [passStream_outside inside]
          simp
    rw [List.flatten_cons, List.mem_append]
    cases inductionHypothesis member with
    | inl before => exact (step before).imp_right .inl
    | inr later => exact .inr (.inr later)

theorem Calculation.turn_mem {val : Value UInt64} (member : val ∈ (state.turn sampleInterval).remaining.flatten) :
    val ∈ state.remaining.flatten := by
  have same : (state.turn sampleInterval).remaining = (state.pass sampleInterval).remaining := by
    rw [Calculation.turn]
    split <;> rfl
  rw [same] at member
  exact (foldl_passStream_mem member).resolve_left (by simp)

theorem Calculation.after_mem {val : Value UInt64} (turns : Nat)
    (member : val ∈ (state.after sampleInterval turns).remaining.flatten) : val ∈ state.remaining.flatten := by
  induction turns generalizing state with
  | zero => exact member
  | succ turns inductionHypothesis => exact Calculation.turn_mem (inductionHypothesis member)

theorem mem_nextTimestamps {remaining : List (List (Value UInt64))} {timestamp : UInt64}
    (member : timestamp ∈ nextTimestamps remaining) : ∃ val ∈ remaining.flatten, val.timestamp = timestamp := by
  obtain ⟨val, next, same⟩ := List.mem_map.mp member
  obtain ⟨stream, left, head⟩ := List.mem_filterMap.mp next
  exact ⟨val, List.mem_flatten.mpr ⟨stream, left, List.mem_of_head? head⟩, same⟩

/-- The loop ends when every value lies in the window around itself: no window wraps around. -/
theorem valueStreamCalculation_ends_of_inside {input : List ResponseStream} (calcfunc : List UInt64 → UInt64)
    (inside : ∀ stream ∈ input, ∀ val ∈ stream.value, InWindow sampleInterval val.timestamp val.timestamp) :
    ∃ turns, valueStreamCalculation turns input sampleInterval (fun bucket => .ok (calcfunc bucket)) ≠
      .error .exhausted := by
  rw [valueStreamCalculation_ends]
  refine Calculation.ends_of_fills _ (.inr rfl) fun turns begins => ?_
  have chosen := reference_mem begins.2.2
  refine ⟨_, chosen, ?_⟩
  obtain ⟨val, left, same⟩ := mem_nextTimestamps chosen
  obtain ⟨values, among, member⟩ := List.mem_flatten.mp (Calculation.after_mem turns left)
  obtain ⟨stream, given, rfl⟩ := List.mem_map.mp among
  rw [← same]
  exact inside stream given val member

end OpenInstrument.Server
