import Mathlib.Algebra.BigOperators.Group.List.Basic
import Mathlib.Algebra.Order.Field.Rat
import OpenInstrument.Server.Calculation

/-! # The buckets of a calculation

Every value that a stream has is put into one bucket.  A bucket is put out by the turn that takes nothing, and a
turn that finds no value in any stream ends the loop before that: the last bucket is not put out.
-/

namespace OpenInstrument.Server

variable {sampleInterval : UInt64}

/-- The buckets that the loop puts out, and the one that it leaves when it ends. -/
def Calculation.run (sampleInterval : UInt64) : Nat → Calculation → Option (List (List UInt64) × List UInt64)
  | 0, _ => none
  | turns + 1, state =>
    if nextTimestamps state.remaining = [] then some ([], state.bucket)
    else
      let later := (state.turn sampleInterval).run sampleInterval turns
      if state.Puts sampleInterval then
        later.map fun buckets => ((state.pass sampleInterval).bucket :: buckets.1, buckets.2)
      else later

def allBuckets (buckets : List (List UInt64) × List UInt64) : List (List UInt64) :=
  if buckets.2 = [] then buckets.1 else buckets.1 ++ [buckets.2]

def doublesOf (streams : List (List (Value UInt64))) : List UInt64 := streams.flatten.map getDoubleValue

/-- Each value is put into one bucket, each bucket leads to one output, and exact sums add up to the sum of all
values, whatever numbers the doubles stand for. -/
def AccountsForValues (sampleInterval : UInt64) (input : List ResponseStream) : Prop :=
  ∃ turns buckets,
    (Calculation.start input).run sampleInterval turns = some buckets ∧
      (allBuckets buckets).flatten.Perm (doublesOf (input.map ResponseStream.value)) ∧
      (∀ calcfunc : List UInt64 → UInt64, ∃ output,
        valueStreamCalculation turns input sampleInterval (fun bucket => .ok (calcfunc bucket)) = .ok output ∧
          output.value.map Value.doubleValue = (allBuckets buckets).map fun bucket => some (calcfunc bucket)) ∧
      ∀ number : UInt64 → ℚ, ∃ output : List (Value ℚ),
        calculationLoop sampleInterval (fun bucket => .ok (bucket.map number).sum) turns
            (input.map ResponseStream.value) [] 0 [] = .ok output ∧
          (output.map fun value => value.doubleValue.getD 0).sum =
            ((doublesOf (input.map ResponseStream.value)).map number).sum

/-! ## What a run puts into buckets -/

theorem doublesOf_cons (stream : List (Value UInt64)) (streams : List (List (Value UInt64))) :
    doublesOf (stream :: streams) = stream.map getDoubleValue ++ doublesOf streams := by
  simp [doublesOf]

theorem doublesOf_concat (streams : List (List (Value UInt64))) (stream : List (Value UInt64)) :
    doublesOf (streams ++ [stream]) = doublesOf streams ++ stream.map getDoubleValue := by
  simp [doublesOf]

/-- A value that is taken off its stream is put into the bucket. -/
theorem passStream_perm (pass : Pass) (stream : List (Value UInt64)) :
    ((passStream sampleInterval pass stream).bucket ++
        doublesOf (passStream sampleInterval pass stream).remaining).Perm
      (pass.bucket ++ (doublesOf pass.remaining ++ stream.map getDoubleValue)) := by
  cases stream with
  | nil => simp [passStream, doublesOf_concat]
  | cons val rest =>
    by_cases inside : InWindow sampleInterval (pass.chosen val) val.timestamp
    · rw [passStream_inside inside, doublesOf_concat, List.append_assoc, List.map_cons, List.singleton_append]
      exact List.perm_middle.symm.append_left _
    · rw [passStream_outside inside, doublesOf_concat]

theorem foldl_passStream_perm (streams : List (List (Value UInt64))) (pass : Pass) :
    ((streams.foldl (passStream sampleInterval) pass).bucket ++
        doublesOf (streams.foldl (passStream sampleInterval) pass).remaining).Perm
      (pass.bucket ++ (doublesOf pass.remaining ++ doublesOf streams)) := by
  induction streams generalizing pass with
  | nil => simp [doublesOf]
  | cons stream streams inductionHypothesis =>
    have first := @passStream_perm sampleInterval pass stream
    rw [List.foldl_cons, doublesOf_cons]
    apply (inductionHypothesis _).trans
    rw [← List.append_assoc]
    apply (first.append_right _).trans
    simp

variable {state : Calculation}

theorem Calculation.pass_untouched
    (rests : takesSome sampleInterval state.ts (nextTimestamps state.remaining) = false) :
    (state.pass sampleInterval).bucket = state.bucket := by
  obtain ⟨-, bucket⟩ := @foldl_passStream_untouched sampleInterval state.remaining
    { found := false, foundBracket := false, remaining := [], bucket := state.bucket, ts := state.ts } rests
  exact bucket

theorem Calculation.puts_iff (state : Calculation) :
    state.Puts sampleInterval ↔
      takesSome sampleInterval state.ts (nextTimestamps state.remaining) = false ∧ state.bucket ≠ [] := by
  rw [Calculation.Puts, Calculation.pass_takes]
  constructor
  · rintro ⟨rests, full⟩
    rw [Calculation.pass_untouched rests] at full
    exact ⟨rests, full⟩
  · rintro ⟨rests, full⟩
    rw [Calculation.pass_untouched rests]
    exact ⟨rests, full⟩

/-- A turn that does not put the bucket out keeps all values. -/
theorem Calculation.turn_perm (keeps : ¬state.Puts sampleInterval) :
    ((state.turn sampleInterval).bucket ++ doublesOf (state.turn sampleInterval).remaining).Perm
      (state.bucket ++ doublesOf state.remaining) := by
  have turned : state.turn sampleInterval =
      { remaining := (state.pass sampleInterval).remaining, bucket := (state.pass sampleInterval).bucket
        ts := (state.pass sampleInterval).ts } := if_neg keeps
  have passed := @foldl_passStream_perm sampleInterval state.remaining
    { found := false, foundBracket := false, remaining := [], bucket := state.bucket, ts := state.ts }
  rw [turned]
  exact passed

theorem doublesOf_done {remaining : List (List (Value UInt64))} (done : nextTimestamps remaining = []) :
    doublesOf remaining = [] := by
  induction remaining with
  | nil => rfl
  | cons stream remaining inductionHypothesis =>
    cases stream with
    | nil => rw [doublesOf_cons, inductionHypothesis done]; rfl
    | cons val rest => cases done

/-- A run puts all values into buckets. -/
theorem Calculation.run_perm {turns : Nat} {buckets : List (List UInt64) × List UInt64}
    (ran : state.run sampleInterval turns = some buckets) :
    (buckets.1.flatten ++ buckets.2).Perm (state.bucket ++ doublesOf state.remaining) := by
  induction turns generalizing state buckets with
  | zero => cases ran
  | succ turns inductionHypothesis =>
    rw [Calculation.run] at ran
    split at ran
    · rename_i done
      cases ran
      rw [doublesOf_done done]
      simp
    · simp only at ran
      split at ran
      · rename_i puts
        obtain ⟨rests, full⟩ := state.puts_iff.mp puts
        obtain ⟨later, laterRan, rfl⟩ := Option.map_eq_some_iff.mp ran
        have rest := inductionHypothesis laterRan
        rw [Calculation.turn_puts rests full, List.nil_append] at rest
        rw [Calculation.pass_untouched rests, List.flatten_cons, List.append_assoc]
        exact rest.append_left _
      · rename_i keeps
        exact (inductionHypothesis ran).trans (Calculation.turn_perm keeps)

/-- A run that has a value in its bucket or in a stream leaves a bucket with a value. -/
theorem Calculation.run_leaves {turns : Nat} {buckets : List (List UInt64) × List UInt64}
    (ran : state.run sampleInterval turns = some buckets)
    (some_ : state.bucket ≠ [] ∨ nextTimestamps state.remaining ≠ []) : buckets.2 ≠ [] := by
  induction turns generalizing state buckets with
  | zero => cases ran
  | succ turns inductionHypothesis =>
    rw [Calculation.run] at ran
    split at ran
    · rename_i done
      cases ran
      exact some_.resolve_right fun other => other done
    · rename_i more
      have next : (state.turn sampleInterval).bucket ≠ [] ∨
          nextTimestamps (state.turn sampleInterval).remaining ≠ [] := by
        by_cases takes : takesSome sampleInterval state.ts (nextTimestamps state.remaining) = true
        · exact .inl (Calculation.turn_takes takes).1
        · have rests := Bool.not_eq_true _ ▸ takes
          by_cases empty : state.bucket = []
          · exact .inr (by rw [Calculation.turn_rests rests empty]; exact more)
          · exact .inr (by rw [Calculation.turn_puts rests empty]; exact more)
      simp only at ran
      split at ran
      · obtain ⟨later, laterRan, rfl⟩ := Option.map_eq_some_iff.mp ran
        have here : later.2 ≠ [] := inductionHypothesis laterRan next
        exact here
      · exact inductionHypothesis ran next

/-- A loop that ends leaves its buckets. -/
theorem Calculation.run_of_ends (ends : state.Ends sampleInterval) :
    ∃ turns buckets, state.run sampleInterval turns = some buckets := by
  obtain ⟨turns, done⟩ := ends
  induction turns generalizing state with
  | zero => exact ⟨1, ([], state.bucket), if_pos done⟩
  | succ turns inductionHypothesis =>
    obtain ⟨later, buckets, ran⟩ := inductionHypothesis done
    refine ⟨later + 1, ?_⟩
    rw [Calculation.run, ran]
    split
    · exact ⟨_, rfl⟩
    · simp only
      split
      · exact ⟨_, rfl⟩
      · exact ⟨_, rfl⟩

/-! ## What a run puts out -/

/-- The loop puts out the buckets but the one that it leaves. -/
theorem calculationLoop_of_run {Result : Type} (calcfunc : List UInt64 → Result) {turns : Nat}
    {buckets : List (List UInt64) × List UInt64} (ran : state.run sampleInterval turns = some buckets)
    (output : List (Value Result)) :
    ∃ values, calculationLoop sampleInterval (fun bucket => .ok (calcfunc bucket)) turns state.remaining state.bucket
        state.ts output = .ok (output ++ values) ∧
      values.map Value.doubleValue = buckets.1.map fun bucket => some (calcfunc bucket) := by
  induction turns generalizing state buckets output with
  | zero => cases ran
  | succ turns inductionHypothesis =>
    rw [Calculation.run] at ran
    rw [calculationLoop_succ]
    split at ran
    · rename_i done
      cases ran
      exact ⟨[], by rw [if_pos done, List.append_nil], rfl⟩
    · rename_i more
      rw [if_neg more, Calculation.output]
      simp only at ran
      split at ran
      · rename_i puts
        obtain ⟨later, laterRan, rfl⟩ := Option.map_eq_some_iff.mp ran
        obtain ⟨values, loop, doubles⟩ := inductionHypothesis laterRan (output ++
          [newValue (state.pass sampleInterval).ts (calcfunc (state.pass sampleInterval).bucket)])
        refine ⟨newValue (state.pass sampleInterval).ts (calcfunc (state.pass sampleInterval).bucket) :: values, ?_, ?_⟩
        · rw [if_pos puts, loop, List.append_assoc, List.singleton_append]
        · rw [List.map_cons, List.map_cons, doubles]
          rfl
      · rename_i keeps
        rw [if_neg keeps]
        exact inductionHypothesis ran output

theorem valueStreamCalculation_of_run (calcfunc : List UInt64 → UInt64) {turns : Nat}
    {buckets : List (List UInt64) × List UInt64} {input : List ResponseStream} (some_ : input ≠ [])
    (ran : (Calculation.start input).run sampleInterval turns = some buckets) :
    ∃ output, valueStreamCalculation turns input sampleInterval (fun bucket => .ok (calcfunc bucket)) = .ok output ∧
      output.value.map Value.doubleValue = buckets.1.map fun bucket => some (calcfunc bucket) := by
  obtain ⟨values, loop, doubles⟩ := calculationLoop_of_run calcfunc ran []
  cases input with
  | nil => exact absurd rfl some_
  | cons first rest =>
    refine ⟨{ variable_ := some first.getVariable, value := values }, ?_, doubles⟩
    rw [valueStreamCalculation]
    simp only [Calculation.start, List.nil_append] at loop
    rw [loop]
    rfl

/-- The timestamps of the values leave room for a window around each. -/
def InRange (sampleInterval : UInt64) (input : List ResponseStream) : Prop :=
  ∀ stream ∈ input, ∀ val ∈ stream.value,
    sampleInterval ≤ val.timestamp ∧ val.timestamp.toNat + sampleInterval.toNat < 2 ^ 64

theorem inWindow_self_of_room {timestamp : UInt64} (low : sampleInterval ≤ timestamp)
    (high : timestamp.toNat + sampleInterval.toNat < 2 ^ 64) : InWindow sampleInterval timestamp timestamp := by
  constructor
  · rw [UInt64.le_iff_toNat_le, UInt64.toNat_sub_of_le _ _ low]
    omega
  · rw [UInt64.le_iff_toNat_le, UInt64.toNat_add, Nat.mod_eq_of_lt high]
    omega

theorem nextTimestamps_start {input : List ResponseStream} :
    nextTimestamps (Calculation.start input).remaining = [] ↔ ∀ stream ∈ input, stream.value = [] := by
  induction input with
  | nil => simp [Calculation.start]
  | cons stream input inductionHypothesis =>
    rw [List.forall_mem_cons, ← inductionHypothesis]
    cases values : stream.value with
    | nil => simp [Calculation.start, values]
    | cons val rest => simp [Calculation.start, values]

/-- A calculation on an input in range puts every value into a bucket, and puts out all buckets but the last. -/
theorem valueStreamCalculation_buckets {input : List ResponseStream} (some_ : input ≠ [])
    (range : InRange sampleInterval input) (calcfunc : List UInt64 → UInt64) :
    ∃ turns buckets output,
      (Calculation.start input).run sampleInterval turns = some buckets ∧
        (buckets.1.flatten ++ buckets.2).Perm (doublesOf (input.map ResponseStream.value)) ∧
        valueStreamCalculation turns input sampleInterval (fun bucket => .ok (calcfunc bucket)) = .ok output ∧
        output.value.map Value.doubleValue = buckets.1.map fun bucket => some (calcfunc bucket) := by
  have ends := (valueStreamCalculation_ends input calcfunc).mp
    (valueStreamCalculation_ends_of_inside calcfunc fun stream given val member =>
      inWindow_self_of_room (range stream given val member).1 (range stream given val member).2)
  obtain ⟨turns, buckets, ran⟩ := Calculation.run_of_ends ends
  obtain ⟨output, returned, doubles⟩ := valueStreamCalculation_of_run calcfunc some_ ran
  exact ⟨turns, buckets, output, ran, Calculation.run_perm ran, returned, doubles⟩

/-- A bucket that the loop leaves is one that no output stands for. -/
theorem AccountsForValues.done {input : List ResponseStream} (accounts : AccountsForValues sampleInterval input)
    (some_ : input ≠ []) : nextTimestamps (Calculation.start input).remaining = [] := by
  obtain ⟨turns, buckets, ran, -, outputs, -⟩ := accounts
  by_contra more
  have left := Calculation.run_leaves ran (.inr more)
  obtain ⟨output, returned, all⟩ := outputs fun _ => 0
  obtain ⟨same, again, putOut⟩ := valueStreamCalculation_of_run (fun _ => 0) some_ ran
  cases returned.symm.trans again
  have lengths := congrArg List.length (all.symm.trans putOut)
  rw [allBuckets, if_neg left] at lengths
  simp at lengths

/-- A calculation accounts for all values only when there are none: the bucket that it leaves is not put out. -/
theorem accountsForValues_iff {sampleInterval : UInt64} {input : List ResponseStream} (some_ : input ≠ []) :
    AccountsForValues sampleInterval input ↔ ∀ stream ∈ input, stream.value = [] := by
  rw [← nextTimestamps_start]
  constructor
  · exact fun accounts => accounts.done some_
  · intro done
    have ran : (Calculation.start input).run sampleInterval 1 = some ([], []) := if_pos done
    have none_ := doublesOf_done done
    refine ⟨1, ([], []), ran, ?_, fun calcfunc => valueStreamCalculation_of_run calcfunc some_ ran, fun number => ?_⟩
    · exact List.Perm.of_eq none_.symm
    · obtain ⟨values, loop, doubles⟩ := calculationLoop_of_run (fun bucket => (bucket.map number).sum) ran []
      have empty : values = [] := List.map_eq_nil_iff.mp doubles
      refine ⟨values, loop, ?_⟩
      rw [empty, show doublesOf (input.map ResponseStream.value) = [] from none_]
      rfl

/-- Two streams, the first with a value that comes later than the others. -/
def laterValue : List ResponseStream :=
  [{ variable_ := none, value := [newValue 100 1, newValue 200 4] }, { variable_ := none, value := [newValue 105 2] }]

theorem accountsForValues_iff_laterValue :
    AccountsForValues 10 laterValue ↔ ∀ stream ∈ laterValue, stream.value = [] :=
  accountsForValues_iff (by decide)

/-- The later value is put into a bucket that is not put out. -/
theorem accountsForValues_fails :
    (∀ stream ∈ laterValue, stream.value.Pairwise fun val next => val.timestamp ≤ next.timestamp) ∧
      (∀ stream ∈ laterValue, ∀ val ∈ stream.value, 0 < val.timestamp) ∧ InRange 10 laterValue ∧
      valueStreamCalculation 5 laterValue 10 (fun bucket => .ok (bucket.foldl (· + ·) 0)) =
        .ok { variable_ := some ResponseStream.empty.getVariable, value := [newValue 100 3] } ∧
      ¬AccountsForValues 10 laterValue := by
  refine ⟨by decide, by decide, by simp [InRange, laterValue, newValue], rfl, fun accounts => ?_⟩
  exact absurd (accounts.done (by decide)) (by decide)

end OpenInstrument.Server
