import OpenInstrument.Server.DiskDatastore
import OpenInstrument.Library.Keyed
import Mathlib.Data.List.Induction

/-! # Range reads of run-length encoded samples

A run of equal samples is stored as one value with an end, under the timestamp of the first sample.
`GetRange` looks at that timestamp only.  So a range read finds all its samples exactly when the first
one does not continue a run that started before the range.
-/

namespace OpenInstrument.Server

/-- A sample of a variable: when it was taken, and its double. -/
structure Sample where
  timestamp : UInt64
  double : UInt64
  deriving DecidableEq

def Sample.value (sample : Sample) : Value UInt64 :=
  { timestamp := sample.timestamp, doubleValue := some sample.double, stringValue := none, endTimestamp := none }

def Sample.call (v : Variable) (sample : Sample) : RecordCall :=
  { variable_ := v, timestamp := sample.timestamp, value := sample.value }

def recordSamples (values : List (Value UInt64)) (samples : List Sample) : List (Value UInt64) :=
  samples.foldl (fun values sample => (recordValue values sample.timestamp sample.value).1) values

/-! ## Doubles -/

/-- The same bits, or equal as doubles. -/
def SameDouble (first second : UInt64) : Prop := first = second ∨ doubleEq first second = true

theorem doubleEq_symm {first second : UInt64} (same : doubleEq first second = true) :
    doubleEq second first = true := by
  simp only [doubleEq, Bool.and_eq_true, Bool.or_eq_true, beq_iff_eq] at same ⊢
  obtain ⟨⟨left, right⟩, bits⟩ := same
  exact ⟨⟨right, left⟩, bits.imp Eq.symm And.symm⟩

theorem doubleEq_trans {first second third : UInt64} (left : doubleEq first second = true)
    (right : doubleEq second third = true) : doubleEq first third = true := by
  simp only [doubleEq, Bool.and_eq_true, Bool.or_eq_true, beq_iff_eq] at left right ⊢
  obtain ⟨⟨number, -⟩, bits⟩ := left
  obtain ⟨⟨-, otherNumber⟩, otherBits⟩ := right
  refine ⟨⟨number, otherNumber⟩, ?_⟩
  cases bits with
  | inl same => rwa [same]
  | inr zeros =>
    cases otherBits with
    | inl same => exact .inr (same ▸ zeros)
    | inr otherZeros => exact .inr ⟨zeros.1, otherZeros.2⟩

theorem SameDouble.trans_doubleEq {first second third : UInt64} (left : doubleEq first second = true)
    (right : SameDouble second third) : SameDouble first third := by
  cases right with
  | inl same => exact .inr (same ▸ left)
  | inr right => exact .inr (doubleEq_trans left right)

/-! ## One sample -/

/-- A sample repeats the double of the last value. -/
def Repeats (values : List (Value UInt64)) (sample : Sample) : Prop :=
  ∃ last, values.getLast? = some last ∧ repeatsDouble last sample.value = true

theorem mergeValue_sample (last : Value UInt64) (sample : Sample) :
    mergeValue last sample.timestamp sample.value =
      if repeatsDouble last sample.value then
        some { last with doubleValue := some sample.double, endTimestamp := some sample.timestamp }
      else none := by
  have noString : repeatsString last sample.value = false := rfl
  have double : getDoubleValue sample.value = sample.double := rfl
  simp only [mergeValue, noString, double, Bool.false_eq_true, if_false]

theorem recordValue_repeats {values : List (Value UInt64)} {last : Value UInt64} {sample : Sample}
    (repeats : repeatsDouble last sample.value = true) :
    (recordValue (values ++ [last]) sample.timestamp sample.value).1 =
      values ++ [{ last with doubleValue := some sample.double, endTimestamp := some sample.timestamp }] := by
  rw [recordValue, List.getLast?_append, List.getLast?_singleton, Option.some_or, Option.bind_some,
    mergeValue_sample, if_pos repeats, List.dropLast_concat]

theorem recordValue_new {values : List (Value UInt64)} {sample : Sample} (new : ¬Repeats values sample) :
    (recordValue values sample.timestamp sample.value).1 = values ++ [sample.value] := by
  rw [recordValue]
  cases present : values.getLast? with
  | none => rfl
  | some last =>
    have differs : ¬repeatsDouble last sample.value = true := fun repeats => new ⟨last, present, repeats⟩
    rw [Option.bind_some, mergeValue_sample, if_neg differs]
    rfl

/-- Only the last value matters to what is recorded. -/
theorem recordValue_append (before : List (Value UInt64)) {values : List (Value UInt64)}
    (nonempty : values ≠ []) (sample : Sample) :
    (recordValue (before ++ values) sample.timestamp sample.value).1 =
      before ++ (recordValue values sample.timestamp sample.value).1 := by
  obtain ⟨earlier, last, rfl⟩ := (List.eq_nil_or_concat' values).resolve_left nonempty
  rw [← List.append_assoc]
  by_cases repeats : repeatsDouble last sample.value = true
  · rw [recordValue_repeats repeats, recordValue_repeats repeats, List.append_assoc]
  · have new : ∀ values : List (Value UInt64), ¬Repeats (values ++ [last]) sample := by
      rintro values ⟨other, found, repeatsOther⟩
      rw [List.getLast?_append, List.getLast?_singleton, Option.some_or, Option.some.injEq] at found
      exact repeats (found ▸ repeatsOther)
    rw [recordValue_new (new _), recordValue_new (new _)]
    simp only [List.append_assoc]

theorem recordValue_ne_nil (values : List (Value UInt64)) (sample : Sample) :
    (recordValue values sample.timestamp sample.value).1 ≠ [] := by
  by_cases repeats : Repeats values sample
  · obtain ⟨last, present, same⟩ := repeats
    obtain ⟨earlier, rfl⟩ := List.getLast?_eq_some_iff.mp present
    rw [recordValue_repeats same]
    simp
  · rw [recordValue_new repeats]
    simp

/-! ## Samples -/

theorem recordSamples_cons (values : List (Value UInt64)) (sample : Sample) (samples : List Sample) :
    recordSamples values (sample :: samples) =
      recordSamples (recordValue values sample.timestamp sample.value).1 samples := rfl

theorem recordSamples_concat (values : List (Value UInt64)) (samples : List Sample) (sample : Sample) :
    recordSamples values (samples ++ [sample]) =
      (recordValue (recordSamples values samples) sample.timestamp sample.value).1 := by
  simp [recordSamples]

theorem recordSamples_append_samples (values : List (Value UInt64)) (first second : List Sample) :
    recordSamples values (first ++ second) = recordSamples (recordSamples values first) second :=
  List.foldl_append

theorem recordSamples_append (before : List (Value UInt64)) {values : List (Value UInt64)}
    (nonempty : values ≠ []) (samples : List Sample) :
    recordSamples (before ++ values) samples = before ++ recordSamples values samples := by
  induction samples generalizing values with
  | nil => rfl
  | cons sample samples inductionHypothesis =>
    rw [recordSamples_cons, recordValue_append before nonempty,
      inductionHypothesis (recordValue_ne_nil values sample), recordSamples_cons]

/-- The samples from one on that starts a run are stored on their own. -/
theorem recordSamples_split {values : List (Value UInt64)} {sample : Sample} (new : ¬Repeats values sample)
    (samples : List Sample) :
    recordSamples values (sample :: samples) = values ++ recordSamples [] (sample :: samples) := by
  have start : (recordValue [] sample.timestamp sample.value).1 = [sample.value] := rfl
  rw [recordSamples_cons, recordSamples_cons, recordValue_new new, start,
    recordSamples_append values (List.cons_ne_nil _ _)]

/-- The last value has the double of the last sample. -/
theorem recordSamples_getLast (samples : List Sample) (sample : Sample) :
    ∃ last, (recordSamples [] (samples ++ [sample])).getLast? = some last ∧
      last.doubleValue = some sample.double := by
  rw [recordSamples_concat]
  by_cases repeats : Repeats (recordSamples [] samples) sample
  · obtain ⟨last, present, same⟩ := repeats
    obtain ⟨earlier, held⟩ := List.getLast?_eq_some_iff.mp present
    rw [held, recordValue_repeats same]
    exact ⟨_, List.getLast?_concat, rfl⟩
  · rw [recordValue_new repeats]
    exact ⟨_, List.getLast?_concat, rfl⟩

/-! ## What the values stand for -/

/-- A value has the double of a sample, and its interval holds the time of the sample. -/
def Represents (value : Value UInt64) (sample : Sample) : Prop :=
  (∃ double, value.doubleValue = some double ∧ SameDouble double sample.double) ∧
    value.timestamp ≤ sample.timestamp ∧
    sample.timestamp ≤ value.endTimestamp.getD value.timestamp

/-- Every value has the timestamp of an earlier value or of a sample. -/
theorem recordSamples_timestamp {values : List (Value UInt64)} {samples : List Sample} :
    ∀ value ∈ recordSamples values samples, (∃ earlier ∈ values, value.timestamp = earlier.timestamp) ∨
      ∃ sample ∈ samples, value.timestamp = sample.timestamp := by
  induction samples using List.reverseRecOn with
  | nil => exact fun value member => .inl ⟨value, member, rfl⟩
  | append_singleton samples sample inductionHypothesis =>
    have earlier : ∀ value ∈ recordSamples values samples,
        (∃ earlier ∈ values, value.timestamp = earlier.timestamp) ∨
          ∃ other ∈ samples ++ [sample], value.timestamp = other.timestamp := by
      intro value member
      refine (inductionHypothesis value member).imp_right fun found => ?_
      obtain ⟨other, memberOther, same⟩ := found
      exact ⟨other, List.mem_append_left _ memberOther, same⟩
    intro value member
    rw [recordSamples_concat] at member
    by_cases repeats : Repeats (recordSamples values samples) sample
    · obtain ⟨last, present, same⟩ := repeats
      obtain ⟨before, held⟩ := List.getLast?_eq_some_iff.mp present
      rw [held, recordValue_repeats same] at member
      rw [held] at earlier
      cases List.mem_append.mp member with
      | inl member => exact earlier value (List.mem_append_left _ member)
      | inr member =>
        rw [List.mem_singleton.mp member]
        exact earlier last (by simp)
    · rw [recordValue_new repeats] at member
      cases List.mem_append.mp member with
      | inl member => exact earlier value member
      | inr member =>
        rw [List.mem_singleton.mp member]
        exact .inr ⟨sample, by simp, rfl⟩

/-- Samples are represented by the values that are stored for them. -/
theorem recordSamples_represents {samples : List Sample}
    (increasing : samples.Pairwise fun first second => first.timestamp < second.timestamp) :
    ∀ sample ∈ samples, ∃ value ∈ recordSamples [] samples, Represents value sample := by
  induction samples using List.reverseRecOn with
  | nil => simp
  | append_singleton samples next inductionHypothesis =>
    obtain ⟨increasingBefore, -, later⟩ := List.pairwise_append.mp increasing
    have before := inductionHypothesis increasingBefore
    have below : ∀ sample ∈ samples, sample.timestamp < next.timestamp :=
      fun sample member => later sample member next (List.mem_singleton_self next)
    intro sample member
    rw [recordSamples_concat]
    by_cases repeats : Repeats (recordSamples [] samples) next
    · obtain ⟨last, present, same⟩ := repeats
      obtain ⟨earlier, held⟩ := List.getLast?_eq_some_iff.mp present
      have equal : doubleEq (getDoubleValue last) next.double = true := by
        simpa [repeatsDouble, Sample.value, getDoubleValue] using same
      have lastBelow : last.timestamp ≤ next.timestamp := by
        have member : last ∈ recordSamples [] samples := by simp [held]
        obtain ⟨other, memberOther, -⟩ | ⟨other, memberOther, time⟩ := recordSamples_timestamp last member
        · cases memberOther
        · rw [time]
          exact le_of_lt (below other memberOther)
      rw [held, recordValue_repeats same]
      cases List.mem_append.mp member with
      | inl member =>
        obtain ⟨value, memberValue, ⟨double, has, sameDouble⟩, starts, ends⟩ := before sample member
        rw [held] at memberValue
        cases List.mem_append.mp memberValue with
        | inl memberValue =>
          exact ⟨value, List.mem_append_left _ memberValue, ⟨double, has, sameDouble⟩, starts, ends⟩
        | inr memberValue =>
          -- The sample was represented by the last value, which now ends later.
          obtain rfl := List.mem_singleton.mp memberValue
          have double_eq : getDoubleValue value = double := by simp [getDoubleValue, has]
          rw [double_eq] at equal
          have doubles := SameDouble.trans_doubleEq (doubleEq_symm equal) sameDouble
          exact ⟨{ value with doubleValue := some next.double, endTimestamp := some next.timestamp },
            List.mem_append_right _ (List.mem_singleton_self _), ⟨next.double, rfl, doubles⟩, starts,
            le_of_lt (below sample member)⟩
      | inr member =>
        obtain rfl := List.mem_singleton.mp member
        exact ⟨{ last with doubleValue := some sample.double, endTimestamp := some sample.timestamp },
          List.mem_append_right _ (List.mem_singleton_self _), ⟨sample.double, rfl, .inl rfl⟩, lastBelow,
          le_rfl⟩
    · rw [recordValue_new repeats]
      cases List.mem_append.mp member with
      | inl member =>
        obtain ⟨value, memberValue, represents⟩ := before sample member
        exact ⟨value, List.mem_append_left _ memberValue, represents⟩
      | inr member =>
        obtain rfl := List.mem_singleton.mp member
        exact ⟨sample.value, by simp, ⟨sample.double, rfl, .inl rfl⟩, le_rfl, le_rfl⟩

/-! ## Range reads -/

theorem recordAll_samples (v : Variable) (samples : List Sample) :
    (getOrCreateVariable (DiskDatastore.empty.recordAll (samples.map (Sample.call v))).liveData v).value =
      recordSamples [] samples := by
  induction samples using List.reverseRecOn with
  | nil => rfl
  | append_singleton samples sample inductionHypothesis =>
    rw [recordSamples_concat, ← inductionHypothesis]
    simp [DiskDatastore.recordAll, DiskDatastore.record, recordNoLog, getOrCreateVariable, Sample.call]

theorem mem_getRange {liveData : LiveData} {v : Variable} {start finish : UInt64} (order : start < finish)
    {value : Value UInt64} :
    value ∈ getRange liveData v start finish ↔
      value ∈ (getOrCreateVariable liveData v).value ∧ start ≤ value.timestamp ∧ value.timestamp < finish := by
  have nonzero : finish ≠ 0 := by
    rintro rfl
    exact absurd order (not_lt.mpr (UInt64.zero_le))
  rw [getRange, getOrCreateVariable]
  cases liveData.lookup v.toString with
  | none => simp
  | some stream => simp [nonzero]

/-- Every sample in the range is represented by a value that `GetRange` returns. -/
def FindsSamples (v : Variable) (samples : List Sample) (start finish : UInt64) : Prop :=
  ∀ sample ∈ samples, start ≤ sample.timestamp → sample.timestamp < finish →
    ∃ value ∈ getRange (DiskDatastore.empty.recordAll (samples.map (Sample.call v))).liveData v start finish,
      Represents value sample

/-- The first sample of the range, if there is one, does not repeat the double of the one before it. -/
def StartsRun (samples : List Sample) (start finish : UInt64) : Prop :=
  ∀ before previous sample after, samples = (before ++ [previous]) ++ sample :: after →
    previous.timestamp < start → start ≤ sample.timestamp → sample.timestamp < finish →
    doubleEq previous.double sample.double = false

theorem repeats_iff (before : List Sample) (previous sample : Sample) :
    Repeats (recordSamples [] (before ++ [previous])) sample ↔
      doubleEq previous.double sample.double = true := by
  obtain ⟨last, present, double⟩ := recordSamples_getLast before previous
  simp [Repeats, present, repeatsDouble, Sample.value, getDoubleValue, double]

/-- Increasing samples are those before a time and those from then on. -/
theorem samples_split {samples : List Sample} (start : UInt64)
    (increasing : samples.Pairwise fun first second => first.timestamp < second.timestamp) :
    ∃ before rest, samples = before ++ rest ∧ (∀ sample ∈ before, sample.timestamp < start) ∧
      ∀ sample ∈ rest, start ≤ sample.timestamp := by
  induction samples with
  | nil => exact ⟨[], [], rfl, by simp, by simp⟩
  | cons first samples inductionHypothesis =>
    obtain ⟨later, increasingAfter⟩ := List.pairwise_cons.mp increasing
    by_cases early : first.timestamp < start
    · obtain ⟨before, rest, rfl, below, above⟩ := inductionHypothesis increasingAfter
      exact ⟨first :: before, rest, rfl, List.forall_mem_cons.mpr ⟨early, below⟩, above⟩
    · have from_first := not_lt.mp early
      have from_start : ∀ sample ∈ samples, start ≤ sample.timestamp :=
        fun sample member => le_of_lt (lt_of_le_of_lt from_first (later sample member))
      exact ⟨[], first :: samples, rfl, by simp, List.forall_mem_cons.mpr ⟨from_first, from_start⟩⟩

/-- The samples of a range whose first one starts a run are stored apart from those before it. -/
theorem StartsRun.recordSamples {before rest : List Sample} {start finish : UInt64}
    (starts : StartsRun (before ++ rest) start finish)
    (below : ∀ sample ∈ before, sample.timestamp < start)
    (above : ∀ sample ∈ rest, start ≤ sample.timestamp)
    (inside : ∀ sample ∈ rest.head?, sample.timestamp < finish) :
    recordSamples [] (before ++ rest) = recordSamples [] before ++ recordSamples [] rest := by
  rw [recordSamples_append_samples]
  cases rest with
  | nil => exact (List.append_nil _).symm
  | cons sample after =>
    apply recordSamples_split
    cases List.eq_nil_or_concat' before with
    | inl empty =>
      subst empty
      rintro ⟨last, present, -⟩
      cases present
    | inr nonempty =>
      obtain ⟨earlier, previous, rfl⟩ := nonempty
      rw [repeats_iff, Bool.not_eq_true]
      exact starts earlier previous sample after rfl (below previous (by simp)) (above sample (by simp))
        (inside sample rfl)

/-- A value whose run starts before the range is not returned, and the first sample of the range has no
other one. -/
theorem startsRun_of_findsSamples {v : Variable} {samples : List Sample} {start finish : UInt64}
    (increasing : samples.Pairwise fun first second => first.timestamp < second.timestamp)
    (order : start < finish) (finds : FindsSamples v samples start finish) :
    StartsRun samples start finish := by
  intro before previous sample after split early late inside
  subst split
  obtain ⟨increasingBefore, increasingAfter, -⟩ := List.pairwise_append.mp increasing
  have below : ∀ other ∈ before ++ [previous], other.timestamp < start := by
    intro other member
    cases List.mem_append.mp member with
    | inl member =>
      have ordered := (List.pairwise_append.mp increasingBefore).2.2 other member previous (by simp)
      exact ordered.trans early
    | inr member => exact List.mem_singleton.mp member ▸ early
  have above : ∀ other ∈ after, sample.timestamp < other.timestamp :=
    (List.pairwise_cons.mp increasingAfter).1
  by_contra repeated
  rw [Bool.not_eq_false, ← repeats_iff before] at repeated
  obtain ⟨last, present, same⟩ := repeated
  obtain ⟨values, held⟩ := List.getLast?_eq_some_iff.mp present
  have stored : recordSamples [] ((before ++ [previous]) ++ sample :: after) =
      recordSamples (values ++ [{ last with
        doubleValue := some sample.double, endTimestamp := some sample.timestamp }]) after := by
    rw [recordSamples_append_samples, recordSamples_cons, held, recordValue_repeats same]
  -- Had the sample been merged, its value would begin before the range.
  have early_values : ∀ value ∈ values ++ [last], value.timestamp < start := by
    intro value member
    rw [← held] at member
    obtain ⟨other, memberOther, -⟩ | ⟨other, memberOther, time⟩ := recordSamples_timestamp value member
    · cases memberOther
    · exact time ▸ below other memberOther
  obtain ⟨value, returned, -, begins, -⟩ := finds sample (by simp) late inside
  rw [mem_getRange order, recordAll_samples, stored] at returned
  obtain ⟨member, from_start, -⟩ := returned
  obtain ⟨earlier, memberEarlier, time⟩ | ⟨other, memberOther, time⟩ := recordSamples_timestamp value member
  · -- The value was there before the sample, or it is the one into which the sample was merged.
    have before_start : earlier.timestamp < start := by
      cases List.mem_append.mp memberEarlier with
      | inl member => exact early_values earlier (List.mem_append_left _ member)
      | inr member =>
        rw [List.mem_singleton.mp member]
        exact early_values last (by simp)
    exact absurd from_start (not_le.mpr (time ▸ before_start))
  · exact absurd begins (not_le.mpr (time ▸ above other memberOther))

/-- A range read finds all samples of the range exactly when the first of them starts a run. -/
theorem getRange_finds_iff (v : Variable) {samples : List Sample} {start finish : UInt64}
    (increasing : samples.Pairwise fun first second => first.timestamp < second.timestamp)
    (order : start < finish) :
    FindsSamples v samples start finish ↔ StartsRun samples start finish := by
  constructor
  · exact startsRun_of_findsSamples increasing order
  · intro starts sample member late inside
    obtain ⟨before, rest, rfl, below, above⟩ := samples_split start increasing
    obtain ⟨-, increasingRest, -⟩ := List.pairwise_append.mp increasing
    have memberRest : sample ∈ rest := by
      cases List.mem_append.mp member with
      | inl member => exact absurd late (not_le.mpr (below sample member))
      | inr member => exact member
    have head_inside : ∀ first ∈ rest.head?, first.timestamp < finish := by
      intro first head
      obtain ⟨tail, rfl⟩ := List.head?_eq_some_iff.mp head
      cases List.mem_cons.mp memberRest with
      | inl same => exact same ▸ inside
      | inr memberTail =>
        exact ((List.pairwise_cons.mp increasingRest).1 sample memberTail).trans inside
    obtain ⟨value, memberValue, represents⟩ := recordSamples_represents increasingRest sample memberRest
    refine ⟨value, ?_, represents⟩
    rw [mem_getRange order, recordAll_samples, starts.recordSamples below above head_inside]
    obtain ⟨other, memberOther, -⟩ | ⟨other, memberOther, time⟩ := recordSamples_timestamp value memberValue
    · cases memberOther
    · exact ⟨List.mem_append_right _ memberValue, time ▸ above other memberOther,
        lt_of_le_of_lt represents.2.1 inside⟩

/-- The range starts with the second sample, which has another double than the first. -/
theorem getRange_finds_iff_changed :
    FindsSamples { name := ascii "/a", labels := .empty, type := .gauge } [⟨1, 5⟩, ⟨2, 7⟩, ⟨3, 7⟩] 2 4 := by
  refine (getRange_finds_iff _ (by decide) (by decide)).mpr ?_
  intro before previous sample after split early late inside
  match before with
  | [] =>
    obtain ⟨rfl, rfl, -⟩ : (⟨1, 5⟩ : Sample) = previous ∧ (⟨2, 7⟩ : Sample) = sample ∧ [⟨3, 7⟩] = after := by
      simpa using split
    decide
  | [_] =>
    obtain ⟨-, rfl, -⟩ : _ ∧ (⟨2, 7⟩ : Sample) = previous ∧ _ := by simpa using split
    exact absurd early (by decide)
  | _ :: _ :: before =>
    have sizes := congrArg List.length split
    simp at sizes
    omega

/-- The second sample continues the run of the first, which starts before the range. -/
theorem getRange_misses :
    ¬FindsSamples { name := ascii "/a", labels := .empty, type := .gauge } [⟨1, 5⟩, ⟨2, 5⟩] 2 3 := by
  intro finds
  have nothing : getRange (DiskDatastore.empty.recordAll ([⟨1, 5⟩, ⟨2, 5⟩].map
      (Sample.call { name := ascii "/a", labels := .empty, type := .gauge }))).liveData
      { name := ascii "/a", labels := .empty, type := .gauge } 2 3 = [] := by
    decide
  obtain ⟨value, returned, -⟩ := finds ⟨2, 5⟩ (by simp) (by decide) (by decide)
  rw [nothing] at returned
  cases returned

end OpenInstrument.Server
