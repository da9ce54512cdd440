import OpenInstrument.MutationWindows
import OpenInstrument.Server.Aggregation

/-! # The functions of a bucket

A bucket of doubles becomes one double: the average, the sum, the greatest, the least, or the median.  The doubles
are of any type here, so that they can be taken to be rational numbers.  `_DoMin` starts from the first double of the
bucket and `_DoMax` from zero, which need not be one of them.
-/

namespace OpenInstrument.Server.BucketFunctions

/-- A `vector<double>`.  Its size is a `size_t`. -/
structure Bucket (Double : Type) where
  values : List Double
  size_lt : values.length < UInt64.size

section

variable {Double : Type} (arithmetic : Arithmetic Double)

/-- `_DoSum`. -/
def doSum (bucket : List Double) : Double := bucket.foldl arithmetic.add arithmetic.zero

/-- `_DoAverage`. -/
def doAverage (bucket : List Double) : Double :=
  arithmetic.div (doSum arithmetic bucket) (arithmetic.ofUInt64 (.ofNat bucket.length))

/-- `_DoMax`. -/
def doMax (bucket : List Double) : Double :=
  bucket.foldl (fun max value => if arithmetic.lt max value then value else max) arithmetic.zero

/-- `_DoMin`, which reads the first double whether there is one or not. -/
def doMin (bucket : List Double) : Option Double :=
  bucket.head?.map fun first =>
    bucket.foldl (fun min value => if arithmetic.lt value min then value else min) first

/-- `_DoMedian`. -/
def doMedian (bucket : List Double) : Option Double :=
  (bucket.insertionSort fun first second => arithmetic.lt second first = false)[bucket.length / 2]?

/-- What the functions of a bucket are to return. -/
structure Correct (arithmetic : Arithmetic ℚ) (bucket : List ℚ) : Prop where
  max : doMax arithmetic bucket ∈ bucket ∧ ∀ value ∈ bucket, value ≤ doMax arithmetic bucket
  min : ∃ min ∈ bucket, doMin arithmetic bucket = some min ∧ ∀ value ∈ bucket, min ≤ value
  median : ∃ median ∈ bucket, doMedian arithmetic bucket = some median ∧
    bucket.length / 2 ≤ bucket.countP (fun value => decide (value ≤ median)) ∧
    bucket.length / 2 ≤ bucket.countP (fun value => decide (median ≤ value))
  average : doAverage arithmetic bucket * bucket.length = doSum arithmetic bucket

end

/-! ## The same functions on bits

The server calls them for a bucket that is not empty. -/

section

variable (arithmetic : Arithmetic UInt64) {bucket : List UInt64}

theorem server_doSum : Server.doSum arithmetic bucket = .ok (doSum arithmetic bucket) := rfl

theorem server_doAverage (nonempty : bucket ≠ []) :
    Server.doAverage arithmetic bucket = .ok (doAverage arithmetic bucket) := by
  rw [Server.doAverage, if_neg fun empty => nonempty (List.length_eq_zero_iff.mp empty)]
  rfl

theorem server_doMax : Server.doMax arithmetic bucket = .ok (doMax arithmetic bucket) := rfl

theorem server_doMin (nonempty : bucket ≠ []) :
    (Server.doMin arithmetic bucket).toOption = doMin arithmetic bucket := by
  cases bucket with
  | nil => exact absurd rfl nonempty
  | cons first rest => rfl

theorem server_doMedian (nonempty : bucket ≠ []) :
    (Server.doMedian arithmetic bucket).toOption = doMedian arithmetic bucket := by
  have inside : bucket.length / 2 <
      (bucket.insertionSort fun first second => arithmetic.lt second first = false).length := by
    rw [List.length_insertionSort]
    exact Nat.div_lt_self (List.length_pos_iff.mpr nonempty) (by decide)
  rw [Server.doMedian, doMedian, List.getD_eq_getElem?_getD, List.getElem?_eq_getElem inside]
  rfl

end

/-! ## Positions in a sorted list -/

section

variable {Item : Type} [LinearOrder Item] {items : List Item}

/-- As many items are not above the one at a position as stand before it. -/
theorem le_countP_le (sorted : items.Pairwise (· ≤ ·)) {position : Nat} (inside : position < items.length) :
    position ≤ items.countP fun item => decide (item ≤ items[position]) := by
  have before : ∀ item ∈ items.take position, decide (item ≤ items[position]) = true := by
    intro item member
    obtain ⟨index, small, rfl⟩ := List.mem_iff_getElem.mp member
    rw [List.length_take] at small
    rw [List.getElem_take, decide_eq_true_eq]
    exact List.pairwise_iff_getElem.mp sorted _ _ (by omega) inside (by omega)
  calc position = (items.take position).length := by rw [List.length_take, Nat.min_eq_left inside.le]
    _ = (items.take position).countP fun item => decide (item ≤ items[position]) :=
      (List.countP_eq_length.mpr before).symm
    _ ≤ items.countP fun item => decide (item ≤ items[position]) := (List.take_sublist _ _).countP_le

/-- As many items are not below the one at a position as stand from there on. -/
theorem le_countP_ge (sorted : items.Pairwise (· ≤ ·)) {position : Nat} (inside : position < items.length) :
    items.length - position ≤ items.countP fun item => decide (items[position] ≤ item) := by
  have behind : ∀ item ∈ items.drop position, decide (items[position] ≤ item) = true := by
    intro item member
    obtain ⟨index, small, rfl⟩ := List.mem_iff_getElem.mp member
    rw [List.length_drop] at small
    rw [List.getElem_drop, decide_eq_true_eq]
    cases index with
    | zero => exact le_refl _
    | succ index => exact List.pairwise_iff_getElem.mp sorted _ _ inside (by omega) (by omega)
  calc items.length - position = (items.drop position).length := List.length_drop.symm
    _ = (items.drop position).countP fun item => decide (items[position] ≤ item) :=
      (List.countP_eq_length.mpr behind).symm
    _ ≤ items.countP fun item => decide (items[position] ≤ item) := (List.drop_sublist _ _).countP_le

end

/-! ## On rational numbers -/

variable {arithmetic : Arithmetic ℚ} {bucket : List ℚ}

/-- The greatest of the bucket and zero. -/
theorem best_doMax (exact_ : arithmetic.Exact) :
    doMax arithmetic bucket ∈ 0 :: bucket ∧ ∀ value ∈ 0 :: bucket, value ≤ doMax arithmetic bucket := by
  obtain ⟨member, all⟩ := Mutations.best_foldl_pick (Mutations.ranking_gt exact_) bucket arithmetic.zero
  rw [exact_.zero] at member all
  refine ⟨?_, fun value among => ?_⟩
  · rw [doMax, exact_.zero]
    exact member
  · have notAbove : arithmetic.lt _ value = false := all value among
    rw [exact_.lt, decide_eq_false_iff_not, not_lt] at notAbove
    rw [doMax, exact_.zero]
    exact notAbove

theorem doMax_correct_iff (exact_ : arithmetic.Exact) :
    (doMax arithmetic bucket ∈ bucket ∧ ∀ value ∈ bucket, value ≤ doMax arithmetic bucket) ↔
      ∃ value ∈ bucket, 0 ≤ value := by
  obtain ⟨member, all⟩ := @best_doMax _ bucket exact_
  obtain ⟨zero, rest⟩ := List.forall_mem_cons.mp all
  constructor
  · intro correct
    exact ⟨_, correct.1, zero⟩
  · intro some_
    obtain ⟨value, among, notNegative⟩ := some_
    refine ⟨?_, rest⟩
    cases List.mem_cons.mp member with
    | inl isZero =>
      -- Zero is the greatest, and so it is the double that is not negative.
      have atMost := rest value among
      rw [isZero] at atMost ⊢
      rwa [← le_antisymm atMost notNegative]
    | inr among => exact among

theorem doMin_correct (exact_ : arithmetic.Exact) (nonempty : bucket ≠ []) :
    ∃ min ∈ bucket, doMin arithmetic bucket = some min ∧ ∀ value ∈ bucket, min ≤ value := by
  cases bucket with
  | nil => exact absurd rfl nonempty
  | cons first rest =>
    obtain ⟨member, all⟩ := Mutations.best_foldl_pick (Mutations.ranking_lt exact_) (first :: rest) first
    refine ⟨_, ?_, rfl, fun value among => ?_⟩
    · cases List.mem_cons.mp member with
      | inl isFirst => exact List.mem_cons.mpr (.inl isFirst)
      | inr among => exact among
    · have notBelow := all value (List.mem_cons_of_mem _ among)
      rw [exact_.lt, decide_eq_false_iff_not, not_lt] at notBelow
      exact notBelow

theorem doMedian_correct (exact_ : arithmetic.Exact) (nonempty : bucket ≠ []) :
    ∃ median ∈ bucket, doMedian arithmetic bucket = some median ∧
      bucket.length / 2 ≤ bucket.countP (fun value => decide (value ≤ median)) ∧
      bucket.length / 2 ≤ bucket.countP (fun value => decide (median ≤ value)) := by
  have order : (fun first second => arithmetic.lt second first = false) = fun first second : ℚ => first ≤ second := by
    funext first second
    rw [exact_.lt, decide_eq_false_iff_not, not_lt]
  have sort : (bucket.insertionSort fun first second => arithmetic.lt second first = false) =
      bucket.insertionSort (· ≤ ·) := by
    congr
  have same := List.perm_insertionSort (· ≤ ·) bucket
  have sorted := List.pairwise_insertionSort (· ≤ ·) bucket
  have inside : bucket.length / 2 < (bucket.insertionSort (· ≤ ·)).length := by
    rw [same.length_eq]
    exact Nat.div_lt_self (List.length_pos_iff.mpr nonempty) (by decide)
  refine ⟨(bucket.insertionSort (· ≤ ·))[bucket.length / 2], same.mem_iff.mp (List.getElem_mem inside), ?_, ?_, ?_⟩
  · rw [doMedian, sort, List.getElem?_eq_getElem inside]
  · rw [← same.countP_eq]
    exact le_countP_le sorted inside
  · rw [← same.countP_eq]
    have many := le_countP_ge sorted inside
    rw [same.length_eq] at many
    omega

theorem doAverage_mul_length (exact_ : arithmetic.Exact) {bucket : Bucket ℚ} (nonempty : bucket.values ≠ []) :
    doAverage arithmetic bucket.values * bucket.values.length = doSum arithmetic bucket.values := by
  have count : arithmetic.ofUInt64 (.ofNat bucket.values.length) = (bucket.values.length : ℚ) := by
    rw [exact_.ofUInt64, UInt64.toNat_ofNat_of_lt' bucket.size_lt]
  have positive : (bucket.values.length : ℚ) ≠ 0 :=
    Nat.cast_ne_zero.mpr fun empty => nonempty (List.length_eq_zero_iff.mp empty)
  rw [doAverage, count, exact_.div _ _ positive, div_mul_cancel₀ _ positive]

/-- The functions return what they are to return when there is a double in the bucket that is not negative. -/
theorem bucketFunctions_correct_iff (exact_ : arithmetic.Exact) (bucket : Bucket ℚ) (nonempty : bucket.values ≠ []) :
    Correct arithmetic bucket.values ↔ ∃ value ∈ bucket.values, 0 ≤ value := by
  constructor
  · exact fun correct => (doMax_correct_iff exact_).mp correct.max
  · intro notNegative
    exact {
      max := (doMax_correct_iff exact_).mpr notNegative
      min := doMin_correct exact_ nonempty
      median := doMedian_correct exact_ nonempty
      average := doAverage_mul_length exact_ nonempty }

theorem bucketFunctions_correct_iff_two : Correct rationals [-2, 3] ↔ ∃ value ∈ [-2, (3 : ℚ)], 0 ≤ value :=
  bucketFunctions_correct_iff rationals_exact { values := [-2, 3], size_lt := by decide } (List.cons_ne_nil _ _)

/-- Of doubles that are all negative, `_DoMax` returns zero. -/
theorem not_correct : doMax rationals [-1] = 0 ∧ ¬Correct rationals [-1] := by
  refine ⟨rfl, fun correct => ?_⟩
  have zero : (0 : ℚ) ∈ [(-1 : ℚ)] := correct.max.1
  revert zero
  decide

end OpenInstrument.Server.BucketFunctions
