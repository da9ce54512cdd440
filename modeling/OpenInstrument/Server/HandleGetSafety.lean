import Mathlib.Data.List.Chain
import OpenInstrument.GetReading
import OpenInstrument.Library.Bounded
import OpenInstrument.Server.HandleGet

/-! # When Get requests are safe

A mutation divides by an interval that the request gives, and by the distance of two timestamps; an aggregation
without labels takes all streams of a variable name, whether there are any or not.  What the handler reaches is
what lies behind loops that come to an end.
-/

namespace OpenInstrument.Server

open Bounded

def Stop.Unsafe (stop : Stop) : Prop := stop = .divisionByZero ∨ stop = .noInput

theorem not_unsafe_exhausted : ¬Stop.Unsafe .exhausted := by simp [Stop.Unsafe]

theorem not_unsafe_exception (what : Bytes) : ¬Stop.Unsafe (.exception what) := by simp [Stop.Unsafe]

theorem sub_ne_zero_of_ne {first second : UInt64} (apart : first ≠ second) : first - second ≠ 0 := by
  intro none_
  have same := UInt64.sub_add_cancel first second
  rw [none_, UInt64.zero_add] at same
  exact apart same.symm

variable {arithmetic : Arithmetic UInt64}

/-! ## Points of a series -/

/-- A point is added without a division by zero.  The first one is divided by the interval.  A later one is divided
by its distance from the one before it if it lies behind the next output. -/
def UniformTimeSeries.PointSound (series : UniformTimeSeries UInt64) (point : Value UInt64) : Prop :=
  if series.pointsInput + 1 = 1 then series.interval ≠ 0
  else point.timestamp = series.lastInputTimestamp → point.timestamp ≤ series.nextOutputTimestamp

theorem UniformTimeSeries.output_succ {Double : Type} {arithmetic : Arithmetic Double} (timestamp : UInt64)
    (value : Double) (turns : Nat) (series : UniformTimeSeries Double) (output : List (Value Double)) :
    UniformTimeSeries.output arithmetic timestamp value (turns + 1) series output =
      if timestamp = series.nextOutputTimestamp then
        .ok (output ++ [newValue timestamp value], { series with pointsOutput := series.pointsOutput + 1 })
      else if timestamp < series.nextOutputTimestamp then .ok (output, series)
      else
        series.interpolate arithmetic timestamp value series.nextOutputTimestamp >>= fun newvalue =>
          UniformTimeSeries.output arithmetic timestamp value turns
            { series with pointsOutput := series.pointsOutput + 1 }
            (output ++ [newValue series.nextOutputTimestamp newvalue]) := rfl

theorem UniformTimeSeries.output_steady (timestamp value : UInt64) (series : UniformTimeSeries UInt64)
    (output : List (Value UInt64)) :
    Steady Stop.exhausted fun turns => UniformTimeSeries.output arithmetic timestamp value turns series output := by
  intro turns
  induction turns generalizing series output with
  | zero => exact fun _ _ unexhausted => absurd rfl unexhausted
  | succ turns inductionHypothesis =>
    intro more enough unexhausted
    obtain ⟨more, rfl⟩ : ∃ fewer, more = fewer + 1 := ⟨more - 1, by omega⟩
    simp only [UniformTimeSeries.output_succ] at unexhausted ⊢
    split
    · rfl
    · rename_i apart
      rw [if_neg apart] at unexhausted
      split
      · rfl
      · rename_i behind
        rw [if_neg behind] at unexhausted
        cases drawn : series.interpolate arithmetic timestamp value series.nextOutputTimestamp with
        | error stop => rfl
        | ok newvalue =>
          simp only [drawn, Fallible.ok_bind] at unexhausted ⊢
          exact inductionHypothesis _ _ more (Nat.le_of_succ_le_succ enough) unexhausted

/-- Points apart from the last one only wait for the loop to end. -/
theorem UniformTimeSeries.output_ends {timestamp : UInt64} (value : UInt64) {series : UniformTimeSeries UInt64}
    (apart : timestamp ≠ series.lastInputTimestamp) (output : List (Value UInt64)) (turns : Nat) :
    Fallible.Ends (· = .exhausted) (fun _ => True)
      (UniformTimeSeries.output arithmetic timestamp value turns series output) := by
  induction turns generalizing series output with
  | zero => exact rfl
  | succ turns inductionHypothesis =>
    rw [UniformTimeSeries.output_succ]
    split
    · trivial
    · split
      · trivial
      · rw [UniformTimeSeries.interpolate, if_neg (sub_ne_zero_of_ne apart), Fallible.ok_bind]
        exact @inductionHypothesis { series with pointsOutput := series.pointsOutput + 1 } apart _

/-- The loop fails only in its first turn, on a point at the timestamp of the last one. -/
theorem UniformTimeSeries.fails_output (timestamp value : UInt64) (series : UniformTimeSeries UInt64)
    (output : List (Value UInt64)) :
    Fails Stop.Unsafe (fun turns => UniformTimeSeries.output arithmetic timestamp value turns series output) ↔
      ¬(timestamp = series.lastInputTimestamp → timestamp ≤ series.nextOutputTimestamp) := by
  by_cases last : timestamp = series.lastInputTimestamp
  · constructor
    · rintro ⟨stop, bad, turns, failed⟩ before
      cases turns with
      | zero =>
        cases failed
        exact not_unsafe_exhausted bad
      | succ turns =>
        have failed :
            UniformTimeSeries.output arithmetic timestamp value (turns + 1) series output = .error stop := failed
        rw [UniformTimeSeries.output_succ] at failed
        split at failed
        · cases failed
        · rename_i apart
          have below : timestamp < series.nextOutputTimestamp := UInt64.lt_of_le_of_ne (before last) apart
          rw [if_pos below] at failed
          cases failed
    · intro behind
      have behind : ¬timestamp ≤ series.nextOutputTimestamp := fun before => behind fun _ => before
      refine ⟨.divisionByZero, .inl rfl, 1, ?_⟩
      have apart : timestamp ≠ series.nextOutputTimestamp := fun same => behind (same ▸ UInt64.le_refl _)
      have above : ¬timestamp < series.nextOutputTimestamp := fun below => behind (UInt64.le_of_lt below)
      have distance : timestamp - series.lastInputTimestamp = 0 := by rw [last, UInt64.sub_self]
      show UniformTimeSeries.output arithmetic timestamp value (0 + 1) series output = _
      rw [UniformTimeSeries.output_succ, if_neg apart, if_neg above, UniformTimeSeries.interpolate, if_pos distance]
      rfl
  · refine iff_of_false ?_ fun sound => sound fun same => absurd same last
    exact not_fails_of_ends (UniformTimeSeries.output_ends value last output) fun stop same bad =>
      not_unsafe_exhausted (same ▸ bad)

theorem UniformTimeSeries.addPoint_steady (state : List (Value UInt64) × UniformTimeSeries UInt64)
    (point : Value UInt64) :
    Steady Stop.exhausted fun turns => UniformTimeSeries.addPoint arithmetic turns state point := by
  simp only [UniformTimeSeries.addPoint, UniformTimeSeries.addPointAt]
  split
  · exact .const _
  · exact (UniformTimeSeries.output_steady _ _ _ _).bind fun _ => .const _

theorem UniformTimeSeries.fails_addPoint (state : List (Value UInt64) × UniformTimeSeries UInt64)
    (point : Value UInt64) :
    Fails Stop.Unsafe (fun turns => UniformTimeSeries.addPoint arithmetic turns state point) ↔
      ¬state.2.PointSound point := by
  simp only [UniformTimeSeries.addPoint, UniformTimeSeries.addPointAt, UniformTimeSeries.PointSound]
  split
  · rw [fails_const]
    split
    · rename_i zero
      exact iff_of_true ⟨.divisionByZero, .inl rfl, rfl⟩ fun sound => sound zero
    · rename_i positive
      exact iff_of_false (by simp) fun unsound => unsound positive
  · rw [fails_bind_pure, UniformTimeSeries.fails_output]
    rfl

/-- Every point that is added to a new series is sound. -/
def SeriesSound (arithmetic : Arithmetic UInt64) (interval : UInt64) (points : List (Value UInt64)) : Prop :=
  ∀ before point after state, points = before ++ point :: after →
    Yields (fun turns => before.foldlM (UniformTimeSeries.addPoint arithmetic turns) ([], .new arithmetic interval))
      (.ok state) → state.2.PointSound point

theorem fails_series (interval : UInt64) (points : List (Value UInt64)) :
    Fails Stop.Unsafe (fun turns =>
        points.foldlM (UniformTimeSeries.addPoint arithmetic turns) ([], .new arithmetic interval)) ↔
      ¬SeriesSound arithmetic interval points := by
  rw [fails_foldlM UniformTimeSeries.addPoint_steady not_unsafe_exhausted]
  simp only [UniformTimeSeries.fails_addPoint, SeriesSound, not_forall, exists_prop]

theorem UniformTimeSeries.output_interval {timestamp value : UInt64} {turns : Nat} {series : UniformTimeSeries UInt64}
    {output : List (Value UInt64)} {result : List (Value UInt64) × UniformTimeSeries UInt64}
    (run : UniformTimeSeries.output arithmetic timestamp value turns series output = .ok result) :
    result.2.interval = series.interval := by
  induction turns generalizing series output with
  | zero => cases run
  | succ turns inductionHypothesis =>
    rw [UniformTimeSeries.output_succ] at run
    split at run
    · cases run
      rfl
    · split at run
      · cases run
        rfl
      · obtain ⟨newvalue, -, later⟩ := Fallible.bind_ok run
        exact @inductionHypothesis { series with pointsOutput := series.pointsOutput + 1 } _ later

/-- Adding a point keeps the interval, and the point is the last one then. -/
theorem UniformTimeSeries.addPoint_ok {turns : Nat} {state next : List (Value UInt64) × UniformTimeSeries UInt64}
    {point : Value UInt64} (added : UniformTimeSeries.addPoint arithmetic turns state point = .ok next) :
    next.2.interval = state.2.interval ∧ next.2.lastInputTimestamp = point.timestamp := by
  simp only [UniformTimeSeries.addPoint, UniformTimeSeries.addPointAt] at added
  split at added
  · split at added
    · cases added
    · cases added
      exact ⟨rfl, rfl⟩
  · obtain ⟨result, run, returned⟩ := Fallible.bind_ok added
    have kept := UniformTimeSeries.output_interval run
    cases returned
    exact ⟨kept, rfl⟩

theorem UniformTimeSeries.foldlM_addPoint_ok {turns : Nat} {points : List (Value UInt64)}
    {state next : List (Value UInt64) × UniformTimeSeries UInt64}
    (run : points.foldlM (UniformTimeSeries.addPoint arithmetic turns) state = .ok next) :
    next.2.interval = state.2.interval ∧
      ∀ point ∈ points.getLast?, next.2.lastInputTimestamp = point.timestamp := by
  induction points using List.reverseRecOn generalizing next with
  | nil =>
    cases run
    exact ⟨rfl, nofun⟩
  | append_singleton points point inductionHypothesis =>
    rw [List.foldlM_append] at run
    obtain ⟨middle, before, last⟩ := Fallible.bind_ok run
    obtain ⟨final, added, returned⟩ := Fallible.bind_ok last
    cases returned
    obtain ⟨interval, timestamp⟩ := UniformTimeSeries.addPoint_ok added
    refine ⟨interval.trans (inductionHypothesis before).1, fun other same => ?_⟩
    rw [List.getLast?_concat, Option.mem_some_iff] at same
    rw [timestamp, same]

/-- With an interval, points are sound when none has the timestamp of the one before it. -/
theorem seriesSound_of_apart {interval : UInt64} (positive : interval ≠ 0) {points : List (Value UInt64)}
    (apart : points.IsChain fun point next => point.timestamp ≠ next.timestamp) :
    SeriesSound arithmetic interval points := by
  rintro before point after state rfl ⟨turns, run⟩
  obtain ⟨same, last⟩ := UniformTimeSeries.foldlM_addPoint_ok run
  rw [UniformTimeSeries.PointSound]
  split
  · rw [same]
    exact positive
  · rename_i later
    intro repeats
    cases before using List.reverseRecOn with
    | nil =>
      cases run
      exact absurd rfl later
    | append_singleton front previous =>
      rw [List.append_assoc] at apart
      have neighbours := (List.isChain_append_cons_cons.mp apart).2.1
      exact absurd (repeats.trans (last previous (by simp))).symm neighbours

/-! ## Mutations -/

/-- Rates fail where a value has the timestamp of the one before it. -/
theorem fails_rates (signed : Bool) (last : Value UInt64) (values : List (Value UInt64)) :
    Fails Stop.Unsafe (fun _ => rates arithmetic signed last values) ↔
      ¬(last :: values).IsChain fun value next => value.timestamp ≠ next.timestamp := by
  rw [fails_const]
  induction values generalizing last with
  | nil => simp [rates]
  | cons oldvalue rest inductionHypothesis =>
    rw [List.isChain_cons_cons, rates]
    by_cases same : last.timestamp = oldvalue.timestamp
    · rw [if_pos (by rw [same, UInt64.sub_self])]
      exact iff_of_true ⟨.divisionByZero, .inl rfl, rfl⟩ fun apart => apart.1 same
    · rw [if_neg (sub_ne_zero_of_ne (Ne.symm same))]
      cases later : rates arithmetic signed oldvalue rest with
      | error stop =>
        have failed := inductionHypothesis oldvalue
        simp only [later, Fallible.error_bind] at failed ⊢
        rw [failed]
        simp [same]
      | ok values =>
        have fine := inductionHypothesis oldvalue
        simp only [later, Fallible.ok_bind, pure, Except.pure, reduceCtorEq, and_false, exists_false, false_iff,
          not_not] at fine ⊢
        exact ⟨same, fine⟩

/-- A mutation of a range divides by no zero.  Those that are not valid are answered by an exception. -/
structure MutationSound (arithmetic : Arithmetic UInt64) (range : ResponseStream)
    (mutation : StreamMutation) : Prop where
  average : mutation.isValid = true → mutation.sampleType = .average →
    SeriesSound arithmetic mutation.getSampleFrequency.toUInt64 range.value
  rate : mutation.sampleType = .rate ∨ mutation.sampleType = .rateSigned →
    range.value.IsChain fun value next => value.timestamp ≠ next.timestamp

theorem applyMutation_steady (range : ResponseStream) (mutation : StreamMutation) :
    Steady Stop.exhausted fun turns => applyMutation arithmetic turns range mutation := by
  simp only [applyMutation]
  split
  · exact .const _
  · split
    · exact .const _
    · split
      · exact (Steady.foldlM UniformTimeSeries.addPoint_steady).bind fun _ => .const _
      all_goals exact .const _

theorem fails_applyMutation (range : ResponseStream) (mutation : StreamMutation) :
    Fails Stop.Unsafe (fun turns => applyMutation arithmetic turns range mutation) ↔
      ¬MutationSound arithmetic range mutation := by
  by_cases valid : mutation.isValid = true
  · cases values : range.value with
    | nil =>
      simp only [applyMutation, valid, values, Bool.true_eq_false, if_false]
      refine iff_of_false (by simp [fails_const]) fun unsound => unsound ⟨fun _ _ => ?_, fun _ => ?_⟩
      · intro before point after state split
        rw [values] at split
        exact absurd split (by simp)
      · rw [values]
        exact .nil
    | cons first rest =>
      cases type : mutation.sampleType with
      | average =>
        simp only [applyMutation, valid, values, type, Bool.true_eq_false, if_false]
        rw [fails_bind_pure, fails_series, not_iff_not, ← values]
        exact ⟨fun sound => ⟨fun _ _ => sound, by simp [type]⟩, fun sound => sound.average valid type⟩
      | rate =>
        simp only [applyMutation, valid, values, type, Bool.true_eq_false, if_false]
        rw [fails_bind_pure, fails_rates, not_iff_not, ← values]
        exact ⟨fun apart => ⟨by simp [type], fun _ => apart⟩, fun sound => sound.rate (.inl type)⟩
      | rateSigned =>
        simp only [applyMutation, valid, values, type, Bool.true_eq_false, if_false]
        rw [fails_bind_pure, fails_rates, not_iff_not, ← values]
        exact ⟨fun apart => ⟨by simp [type], fun _ => apart⟩, fun sound => sound.rate (.inr type)⟩
      | _ =>
        simp only [applyMutation, valid, values, type, Bool.true_eq_false, if_false]
        exact iff_of_false (by simp [fails_const]) fun unsound => unsound ⟨by simp [type], by simp [type]⟩
  · simp only [applyMutation, valid, if_true]
    refine iff_of_false (by simp [fails_const, Stop.Unsafe]) fun unsound =>
      unsound ⟨fun true_ => absurd true_ valid, ?_⟩
    intro rate
    -- Only averages, minima and maxima are checked.
    have checked : mutation.isValid = true := by cases rate with | _ type => simp [StreamMutation.isValid, type]
    exact absurd checked valid

/-! ## Aggregations -/

theorem calcfunc_ok (type : AggregateType) {bucket : List UInt64} (full : bucket ≠ []) :
    ∃ value, type.calcfunc arithmetic bucket = .ok value := by
  cases type with
  | average => exact ⟨_, if_neg fun none_ => full (List.length_eq_zero_iff.mp none_)⟩
  | _ => exact ⟨_, rfl⟩

theorem calculationLoop_turn (sampleInterval : UInt64) (calcfunc : List UInt64 → Except Stop UInt64)
    (remaining : List (List (Value UInt64))) (bucket : List UInt64) (ts : UInt64) (output : List (Value UInt64)) :
    ∃ pass : Pass, ∀ turns,
      calculationLoop sampleInterval calcfunc (turns + 1) remaining bucket ts output =
        if pass.found = false then .ok output
        else if pass.foundBracket = false ∧ pass.bucket ≠ [] then
          calcfunc pass.bucket >>= fun value =>
            calculationLoop sampleInterval calcfunc turns pass.remaining [] 0 (output ++ [newValue pass.ts value])
        else calculationLoop sampleInterval calcfunc turns pass.remaining pass.bucket pass.ts output :=
  ⟨_, fun _ => rfl⟩

theorem calculationLoop_steady (sampleInterval : UInt64) (calcfunc : List UInt64 → Except Stop UInt64)
    (remaining : List (List (Value UInt64))) (bucket : List UInt64) (ts : UInt64) (output : List (Value UInt64)) :
    Steady Stop.exhausted fun turns => calculationLoop sampleInterval calcfunc turns remaining bucket ts output := by
  intro turns
  induction turns generalizing remaining bucket ts output with
  | zero => exact fun _ _ unexhausted => absurd rfl unexhausted
  | succ turns inductionHypothesis =>
    intro more enough unexhausted
    obtain ⟨more, rfl⟩ : ∃ fewer, more = fewer + 1 := ⟨more - 1, by omega⟩
    obtain ⟨pass, turn⟩ := calculationLoop_turn sampleInterval calcfunc remaining bucket ts output
    have fewer := Nat.le_of_succ_le_succ enough
    simp only [turn] at unexhausted ⊢
    split
    · rfl
    · rename_i found
      rw [if_neg found] at unexhausted
      split
      · rename_i put
        rw [if_pos put] at unexhausted
        cases calculated : calcfunc pass.bucket with
        | error stop => rfl
        | ok value =>
          simp only [calculated, Fallible.ok_bind] at unexhausted ⊢
          exact inductionHypothesis _ _ _ _ more fewer unexhausted
      · rename_i kept
        rw [if_neg kept] at unexhausted
        exact inductionHypothesis _ _ _ _ more fewer unexhausted

/-- The loop calculates with full buckets only. -/
theorem calculationLoop_ends (sampleInterval : UInt64) (type : AggregateType) (turns : Nat)
    (remaining : List (List (Value UInt64))) (bucket : List UInt64) (ts : UInt64) (output : List (Value UInt64)) :
    Fallible.Ends (· = .exhausted) (fun _ => True)
      (calculationLoop sampleInterval (type.calcfunc arithmetic) turns remaining bucket ts output) := by
  induction turns generalizing remaining bucket ts output with
  | zero => exact rfl
  | succ turns inductionHypothesis =>
    obtain ⟨pass, turn⟩ := calculationLoop_turn sampleInterval (type.calcfunc arithmetic) remaining bucket ts output
    rw [turn]
    split
    · trivial
    · split
      · rename_i put
        obtain ⟨value, calculated⟩ := @calcfunc_ok arithmetic type _ put.2
        rw [calculated, Fallible.ok_bind]
        exact inductionHypothesis _ _ _ _
      · exact inductionHypothesis _ _ _ _

theorem aggregateStreams_steady (agg : StreamAggregation) (input : List ResponseStream) :
    Steady Stop.exhausted fun turns => aggregateStreams arithmetic turns agg input := by
  cases input with
  | nil => exact .const _
  | cons first rest => exact (calculationLoop_steady _ _ _ _ _ _).bind fun _ => .const _

theorem aggregateStreams_ends (agg : StreamAggregation) {input : List ResponseStream} (some_ : input ≠ [])
    (turns : Nat) :
    Fallible.Ends (· = .exhausted) (fun _ => True) (aggregateStreams arithmetic turns agg input) := by
  cases input with
  | nil => exact absurd rfl some_
  | cons first rest => exact (calculationLoop_ends _ _ _ _ _ _ _).bind fun _ _ => trivial

theorem aggregateLabel_steady (agg : StreamAggregation) (v : Variable) (aggstreams : List ResponseStream)
    (label value : Bytes) :
    Steady Stop.exhausted fun turns => aggregateLabel arithmetic turns agg v aggstreams label value := by
  simp only [aggregateLabel]
  split
  · exact .const _
  · exact (aggregateStreams_steady _ _).bind fun _ => .const _

/-- An aggregation over a label passes over values without streams. -/
theorem aggregateLabel_ends (agg : StreamAggregation) (v : Variable) (aggstreams : List ResponseStream)
    (label value : Bytes) (turns : Nat) :
    Fallible.Ends (· = .exhausted) (fun _ => True) (aggregateLabel arithmetic turns agg v aggstreams label value) := by
  rw [aggregateLabel]
  split
  · trivial
  · rename_i some_
    exact (aggregateStreams_ends agg some_ turns).bind fun _ _ => trivial

theorem aggregate_steady (aggstreams : List ResponseStream) (agg : StreamAggregation) :
    Steady Stop.exhausted fun turns => aggregate arithmetic turns aggstreams agg := by
  simp only [aggregate]
  split
  · exact (aggregateStreams_steady _ _).bind fun _ => .const _
  · refine (Steady.mapM fun label => Steady.mapM fun value => ?_).bind fun _ => .const _
    exact aggregateLabel_steady _ _ _ _ _

/-- An aggregation fails when it has no labels and no streams. -/
theorem fails_aggregate (aggstreams : List ResponseStream) (agg : StreamAggregation) :
    Fails Stop.Unsafe (fun turns => aggregate arithmetic turns aggstreams agg) ↔
      agg.label = [] ∧ aggstreams = [] := by
  have apart : ∀ stop, stop = .exhausted → ¬Stop.Unsafe stop := fun stop same => same ▸ not_unsafe_exhausted
  simp only [aggregate]
  split
  · rename_i unlabelled
    rw [fails_bind_pure, and_iff_right unlabelled]
    constructor
    · intro fails
      by_contra some_
      exact not_fails_of_ends (aggregateStreams_ends agg some_) apart fails
    · rintro rfl
      exact ⟨.noInput, .inr rfl, 0, rfl⟩
  · rename_i labelled
    rw [fails_bind_pure]
    refine iff_of_false ?_ fun both => labelled both.1
    refine not_fails_of_ends (fun turns => @Fallible.Ends.mapM _ _ _ _ (fun _ => True) _ _ fun label _ => ?_) apart
    exact (Fallible.Ends.mapM fun value _ => aggregateLabel_ends _ _ _ _ _ turns).mono fun _ _ => trivial

theorem aggregate_completes {agg : StreamAggregation} (labelled : agg.label ≠ []) :
    Completes fun turns => aggregate arithmetic turns [] agg := by
  have nothing : ∀ v : Variable, ∀ label ∈ agg.label,
      (distinctValues label []).mapM (fun value => aggregateLabel arithmetic 0 agg v [] label value) = .ok [] :=
    fun _ _ _ => rfl
  have ran : ∃ outputs, aggregate arithmetic 0 [] agg = .ok outputs := by
    rw [aggregate]
    simp only [if_neg labelled]
    rw [Fallible.mapM_ok (nothing _)]
    exact ⟨_, rfl⟩
  obtain ⟨outputs, ran⟩ := ran
  exact ⟨outputs, 0, ran⟩

theorem aggregateName_steady (req : GetRequest) (streams : List ResponseStream) (varname : Bytes) :
    Steady Stop.exhausted fun turns => aggregateName arithmetic turns req streams varname :=
  (Steady.mapM (aggregate_steady _)).bind fun _ => .const _

/-- The aggregations of a name fail when it has no streams and one of them has no labels. -/
theorem fails_aggregateName (req : GetRequest) (streams : List ResponseStream) (varname : Bytes) :
    Fails Stop.Unsafe (fun turns => aggregateName arithmetic turns req streams varname) ↔
      (∃ agg ∈ req.aggregation, agg.label = []) ∧ namedStreams streams varname = [] := by
  simp only [aggregateName]
  rw [fails_bind_pure, fails_mapM (aggregate_steady _) not_unsafe_exhausted]
  simp only [fails_aggregate]
  by_cases none_ : namedStreams streams varname = []
  · simp only [none_, and_true]
    exact exists_reached fun agg _ labelled => aggregate_completes labelled
  · simp [none_]

/-! ## Reading -/

section Reading

variable {liveData : LiveData} {now : UInt64} {req : GetRequest} {v : Variable}

/-- What is read for a variable: the range that the request asks for. -/
def GetRequest.range (req : GetRequest) (liveData : LiveData) (now : UInt64) (v : Variable) : ResponseStream :=
  getRangeStream liveData v (req.start now) (req.finish now)

theorem readVariable_steady (v : Variable) :
    Steady Stop.exhausted fun turns => readVariable arithmetic turns liveData now req v := by
  simp only [readVariable]
  split
  · exact .const _
  · exact Steady.mapM (applyMutation_steady _)

theorem fails_readVariable (v : Variable) :
    Fails Stop.Unsafe (fun turns => readVariable arithmetic turns liveData now req v) ↔
      ∃ mutation,
        Reached (fun earlier =>
          Completes fun turns => applyMutation arithmetic turns (req.range liveData now v) earlier)
          req.mutation mutation ∧ ¬MutationSound arithmetic (req.range liveData now v) mutation := by
  simp only [readVariable]
  split
  · rename_i none_
    refine iff_of_false (by simp [fails_const]) ?_
    rintro ⟨mutation, ⟨before, after, split, -⟩, -⟩
    rw [none_] at split
    exact absurd split (by simp)
  · rw [fails_mapM (applyMutation_steady _) not_unsafe_exhausted]
    simp only [fails_applyMutation]
    rfl

/-- The variable name of the streams that are read for a variable.  A mutation makes a stream without a variable of
a range without values. -/
def GetRequest.readName (req : GetRequest) (liveData : LiveData) (now : UInt64) (v : Variable) : Bytes :=
  if req.mutation ≠ [] ∧ (req.range liveData now v).value = [] then [] else (req.range liveData now v).toVariable.name

/-- A mutated stream keeps the variable of its range, if the range has values. -/
theorem applyMutation_variable {turns : Nat} {range mutated : ResponseStream} {mutation : StreamMutation}
    (applied : applyMutation arithmetic turns range mutation = .ok mutated) :
    mutated.toVariable.name = if range.value = [] then [] else range.toVariable.name := by
  simp only [applyMutation] at applied
  split at applied
  · cases applied
  · split at applied
    · rename_i none_
      cases applied
      rw [if_pos none_]
      rfl
    · rename_i some_
      rw [if_neg (by rw [some_]; simp)]
      split at applied
      · obtain ⟨added, -, returned⟩ := Fallible.bind_ok applied
        cases returned
        rfl
      · obtain ⟨value, -, returned⟩ := Fallible.bind_ok applied
        cases returned
        rfl
      · obtain ⟨value, -, returned⟩ := Fallible.bind_ok applied
        cases returned
        rfl
      all_goals
        cases applied
        rfl

theorem readVariable_names {turns : Nat} {streams : List ResponseStream}
    (read : readVariable arithmetic turns liveData now req v = .ok streams) :
    streams ≠ [] ∧ ∀ stream ∈ streams, stream.toVariable.name = req.readName liveData now v := by
  simp only [readVariable] at read
  split at read
  · rename_i none_
    cases read
    refine ⟨List.cons_ne_nil _ _, fun stream member => ?_⟩
    rw [List.mem_singleton.mp member, GetRequest.readName, if_neg fun both => both.1 none_]
    rfl
  · rename_i some_
    obtain ⟨fromMutation, toStream⟩ := Fallible.mem_of_mapM_ok read
    constructor
    · rintro rfl
      obtain ⟨mutation, member⟩ := List.exists_mem_of_ne_nil _ some_
      obtain ⟨stream, inside, -⟩ := toStream mutation member
      cases inside
    · intro stream member
      obtain ⟨mutation, -, applied⟩ := fromMutation stream member
      have name := applyMutation_variable applied
      by_cases empty : (req.range liveData now v).value = []
      · exact (name.trans (if_pos empty)).trans (if_pos ⟨some_, empty⟩).symm
      · exact (name.trans (if_neg empty)).trans (if_neg fun both => empty both.2).symm

/-- A name has streams exactly when some variable is read under it. -/
theorem namedStreams_eq_nil {turns : Nat} {vars : List Variable} {streams : List (List ResponseStream)}
    (read : vars.mapM (readVariable arithmetic turns liveData now req) = .ok streams) (varname : Bytes) :
    namedStreams streams.flatten varname = [] ↔ ¬∃ v ∈ vars, req.readName liveData now v = varname := by
  obtain ⟨fromVariable, toStreams⟩ := Fallible.mem_of_mapM_ok read
  simp only [namedStreams, List.filter_eq_nil_iff, decide_eq_true_eq]
  constructor
  · rintro others ⟨v, member, rfl⟩
    obtain ⟨some_, inside, ran⟩ := toStreams v member
    obtain ⟨nonempty, names⟩ := readVariable_names ran
    obtain ⟨stream, among⟩ := List.exists_mem_of_ne_nil _ nonempty
    exact others stream (List.mem_flatten.mpr ⟨some_, inside, among⟩) (names stream among)
  · intro nobody stream member same
    obtain ⟨some_, inside, among⟩ := List.mem_flatten.mp member
    obtain ⟨v, given, ran⟩ := fromVariable some_ inside
    exact nobody ⟨v, given, ((readVariable_names ran).2 stream among).symm.trans same⟩

/-! ## The handler -/

/-- The variables that a request reads divide by no zero, and its aggregations without labels have streams: every name
that they are reached for is the name of something read. -/
structure GetSound (arithmetic : Arithmetic UInt64) (liveData : LiveData) (now : UInt64) (req : GetRequest)
    (vars : List Variable) : Prop where
  mutations : ∀ v,
    Reached (fun earlier => Completes fun turns => readVariable arithmetic turns liveData now req earlier) vars v →
    ∀ mutation,
      Reached (fun earlier => Completes fun turns => applyMutation arithmetic turns (req.range liveData now v) earlier)
        req.mutation mutation →
      MutationSound arithmetic (req.range liveData now v) mutation
  aggregations : (∃ agg ∈ req.aggregation, agg.label = []) →
    ∀ streams, Yields (fun turns => vars.mapM (readVariable arithmetic turns liveData now req)) (.ok streams) →
    ∀ varname,
      Reached (fun earlier => Completes fun turns => aggregateName arithmetic turns req streams.flatten earlier)
        (uniqueNames vars) varname →
      ∃ v ∈ vars, req.readName liveData now v = varname

/-- What `HandleGet` makes of the streams that it has read. -/
def aggregateNames (arithmetic : Arithmetic UInt64) (turns : Nat) (req : GetRequest) (vars : List Variable)
    (streams : List (List ResponseStream)) : Except Stop (List ResponseStream) :=
  if req.aggregation = [] then .ok streams.flatten
  else do
    let outputs ← (uniqueNames vars).mapM (aggregateName arithmetic turns req streams.flatten)
    return outputs.flatten

theorem respond_eq (turns : Nat) (vars : List Variable) :
    respond arithmetic turns liveData now req vars =
      (limitVariables req.getMaxVariables 0 vars).mapM (readVariable arithmetic turns liveData now req) >>=
        aggregateNames arithmetic turns req (limitVariables req.getMaxVariables 0 vars) := rfl

theorem aggregateNames_steady (vars : List Variable) (streams : List (List ResponseStream)) :
    Steady Stop.exhausted fun turns => aggregateNames arithmetic turns req vars streams := by
  simp only [aggregateNames]
  split
  · exact .const _
  · exact (Steady.mapM (aggregateName_steady _ _)).bind fun _ => .const _

theorem fails_aggregateNames (vars : List Variable) (streams : List (List ResponseStream)) :
    Fails Stop.Unsafe (fun turns => aggregateNames arithmetic turns req vars streams) ↔
      ∃ varname,
        Reached (fun earlier => Completes fun turns => aggregateName arithmetic turns req streams.flatten earlier)
          (uniqueNames vars) varname ∧
        (∃ agg ∈ req.aggregation, agg.label = []) ∧ namedStreams streams.flatten varname = [] := by
  simp only [aggregateNames]
  split
  · rename_i none_
    refine iff_of_false (by simp [fails_const]) ?_
    rintro ⟨varname, -, ⟨agg, member, -⟩, -⟩
    rw [none_] at member
    cases member
  · rw [fails_bind_pure, fails_mapM (aggregateName_steady _ _) not_unsafe_exhausted]
    simp only [fails_aggregateName]

theorem fails_respond (vars : List Variable) :
    Fails Stop.Unsafe (fun turns => respond arithmetic turns liveData now req vars) ↔
      ¬GetSound arithmetic liveData now req (limitVariables req.getMaxVariables 0 vars) := by
  simp only [respond_eq]
  rw [fails_bind (Steady.mapM readVariable_steady) (aggregateNames_steady _) not_unsafe_exhausted,
    fails_mapM readVariable_steady not_unsafe_exhausted]
  simp only [fails_readVariable, fails_aggregateNames]
  constructor
  · intro fails sound
    cases fails with
    | inl reading =>
      obtain ⟨v, reached, mutation, applied, unsound⟩ := reading
      exact unsound (sound.mutations v reached mutation applied)
    | inr aggregating =>
      obtain ⟨streams, ⟨turns, read⟩, varname, reached, unlabelled, empty⟩ := aggregating
      exact (namedStreams_eq_nil read varname).mp empty
        (sound.aggregations unlabelled streams ⟨turns, read⟩ varname reached)
  · intro unsound
    by_contra safe
    apply unsound
    constructor
    · intro v reached mutation applied
      by_contra fails
      exact safe (.inl ⟨v, reached, mutation, applied, fails⟩)
    · intro unlabelled streams ⟨turns, read⟩ varname reached
      by_contra nobody
      have empty := (namedStreams_eq_nil read varname).mpr nobody
      exact safe (.inr ⟨streams, ⟨turns, read⟩, varname, reached, unlabelled, empty⟩)

end Reading

/-! ## Requests -/

section Requests

variable {regexMatch : RegexMatch} {order : Iteration} {liveData : LiveData} {now : UInt64} {req : GetRequest}

theorem parseKey_ends (key : Bytes) :
    Fallible.Ends (fun stop => ∃ what, stop = .exception what) (fun _ => True) (parseKey key) := by
  rw [parseKey]
  split
  · trivial
  · exact ⟨_, rfl⟩

theorem matchesSearch_ends (search v : Variable) :
    Fallible.Ends (fun stop => ∃ what, stop = .exception what) (fun _ => True) (matchesSearch regexMatch search v) := by
  rw [matchesSearch]
  split
  · trivial
  · exact ⟨_, rfl⟩

/-- A search is stopped by exceptions only. -/
theorem findVariables_ends (search : Variable) :
    Fallible.Ends (fun stop => ∃ what, stop = .exception what) (fun _ => True)
      (findVariables regexMatch order liveData search) := by
  have step : ∀ vars key, Fallible.Ends (fun stop => ∃ what, stop = .exception what) (fun _ => True) (do
      let v ← parseKey key
      let matched ← matchesSearch regexMatch search v
      return if matched then insertVariable vars v else vars) :=
    fun _ key => (parseKey_ends key).bind fun v _ => (matchesSearch_ends search v).bind fun _ _ => trivial
  exact (Fallible.Ends.foldlM (fun vars key _ _ => step vars key) trivial).bind fun _ _ => trivial

/-- The handler catches exceptions of what it does with the variables. -/
theorem handleGet_error_iff (named : req.getVariable.name ≠ []) {vars : List Variable}
    (found : findVariables regexMatch order liveData (fromProtobuf req.getVariable) = .ok vars) {stop : Stop}
    (fails : stop.Unsafe) (turns : Nat) :
    handleGet arithmetic turns regexMatch order liveData now (some req) = .error stop ↔
      respond arithmetic turns liveData now req vars = .error stop := by
  simp only [handleGet, if_neg named, found, Fallible.ok_bind]
  cases responded : respond arithmetic turns liveData now req vars with
  | ok streams => exact iff_of_false nofun nofun
  | error other =>
    cases other with
    | exception what =>
      refine iff_of_false nofun fun same => ?_
      cases same
      exact not_unsafe_exception what fails
    | _ => simp

/-- A Get request with a variable name divides by no zero, and aggregates nothing but streams, exactly when what it
reaches is sound. -/
theorem handleGet_safe_iff (arithmetic : Arithmetic UInt64) (regexMatch : RegexMatch) (order : Iteration)
    (liveData : LiveData) (now : UInt64) {req : GetRequest} (named : req.getVariable.name ≠ []) :
    (∀ turns,
        handleGet arithmetic turns regexMatch order liveData now (some req) ≠ .error .divisionByZero ∧
          handleGet arithmetic turns regexMatch order liveData now (some req) ≠ .error .noInput) ↔
      ∀ vars, findVariables regexMatch order liveData (fromProtobuf req.getVariable) = .ok vars →
        GetSound arithmetic liveData now req (limitVariables req.getMaxVariables 0 vars) := by
  cases found : findVariables regexMatch order liveData (fromProtobuf req.getVariable) with
  | error stop =>
    obtain ⟨what, rfl⟩ := (findVariables_ends _).of_error found
    have reply : ∀ turns, handleGet arithmetic turns regexMatch order liveData now (some req) =
        .error (.exception what) := by
      intro turns
      simp only [handleGet, if_neg named, found, Fallible.error_bind]
    exact iff_of_true (fun turns => by simp [reply]) nofun
  | ok vars =>
    have same := @handleGet_error_iff arithmetic regexMatch order liveData now req named vars found
    have sound := not_iff_comm.mp (@fails_respond arithmetic liveData now req vars).symm
    constructor
    · intro safe others same_
      obtain rfl := Except.ok.inj same_
      rw [← sound]
      rintro ⟨stop, fails, turns, failed⟩
      have replied := (same fails turns).mpr failed
      cases fails with
      | inl division => exact (safe turns).1 (division ▸ replied)
      | inr input => exact (safe turns).2 (input ▸ replied)
    · intro all turns
      have safe := sound.mpr (all vars rfl)
      constructor
      · intro replied
        exact safe ⟨_, .inl rfl, turns, (same (.inl rfl) turns).mp replied⟩
      · intro replied
        exact safe ⟨_, .inr rfl, turns, (same (.inr rfl) turns).mp replied⟩

def oneValue : LiveData :=
  (∅ : LiveData).insert (ascii "a")
    { streamVariable := { name := ascii "a", label := [], type := none }, value := [newValue 5 0] }

def getRequest (minTimestamp : UInt64) (mutation : List StreamMutation) (aggregation : List StreamAggregation) :
    GetRequest :=
  { variable_ := some { name := ascii "a", label := [], type := none }
    minTimestamp := some minTimestamp
    maxTimestamp := some 10
    mutation
    aggregation
    maxVariables := some 10 }

theorem handleGet_safe_iff_average :
    (∀ turns,
        handleGet wholeNumbers turns (fun _ _ => .ok true) .listed oneValue 10
            (some (getRequest 0 [⟨.average, some 2, none⟩] [])) ≠ .error .divisionByZero ∧
          handleGet wholeNumbers turns (fun _ _ => .ok true) .listed oneValue 10
            (some (getRequest 0 [⟨.average, some 2, none⟩] [])) ≠ .error .noInput) ↔
      ∀ vars, findVariables (fun _ _ => .ok true) .listed oneValue
          (fromProtobuf (getRequest 0 [⟨.average, some 2, none⟩] []).getVariable) = .ok vars →
        GetSound wholeNumbers oneValue 10 (getRequest 0 [⟨.average, some 2, none⟩] [])
          (limitVariables (getRequest 0 [⟨.average, some 2, none⟩] []).getMaxVariables 0 vars) :=
  handleGet_safe_iff wholeNumbers (fun _ _ => .ok true) .listed oneValue 10 (by decide)

/-- An average with a sample frequency of zero divides by it.  Where the range of the only variable has no values, the
mutated stream has no variable, and the aggregation gets no streams. -/
theorem handleGet_breaks :
    handleGet wholeNumbers 1 (fun _ _ => .ok true) .listed oneValue 10
        (some (getRequest 0 [⟨.average, some 0, none⟩] [])) = .error .divisionByZero ∧
      handleGet wholeNumbers 1 (fun _ _ => .ok true) .listed oneValue 10
        (some (getRequest 6 [⟨.none, none, none⟩] [⟨some .sum, [], none⟩])) = .error .noInput := by
  constructor <;> decide

end Requests

end OpenInstrument.Server
