import Mathlib.Algebra.BigOperators.Group.List.Basic
import Mathlib.Algebra.Order.Ring.Rat
import Mathlib.Algebra.Order.Field.Rat
import OpenInstrument.Library.Windows
import OpenInstrument.Mutations

/-! # Means and extremes of windows

`Mean`, `Min` and `Max` are to make one value of each window of their input.  `Mean` puts a window out when the
next one begins and once more when its input ends.  `Min` and `Max` put a window out with the timestamp of the
value that begins the next one, and never put out the last.

Doubles are taken to be rational numbers.  What a division by zero yields is open, so a result that does not
depend on it is reached without one.
-/

namespace OpenInstrument

open Windows (Window IsDivision divide divideFrom sent)

variable {Address Double : Type}

/-- Exact arithmetic on rational numbers, with any result for a division by zero. -/
structure Arithmetic.Exact (arithmetic : Arithmetic ℚ) : Prop where
  zero : arithmetic.zero = 0
  add : ∀ first second, arithmetic.add first second = first + second
  sub : ∀ first second, arithmetic.sub first second = first - second
  mul : ∀ first second, arithmetic.mul first second = first * second
  div : ∀ dividend divisor, divisor ≠ 0 → arithmetic.div dividend divisor = dividend / divisor
  ofUInt64 : ∀ number, arithmetic.ofUInt64 number = number.toNat
  lt : ∀ first second, arithmetic.lt first second = decide (first < second)
  le : ∀ first second, arithmetic.le first second = decide (first ≤ second)
  eq : ∀ first second, arithmetic.eq first second = decide (first = second)

def rationals : Arithmetic ℚ where
  zero := 0
  add first second := first + second
  sub first second := first - second
  mul first second := first * second
  div dividend divisor := dividend / divisor
  ofUInt64 number := number.toNat
  lt first second := decide (first < second)
  le first second := decide (first ≤ second)
  eq first second := decide (first = second)

theorem rationals_exact : rationals.Exact where
  zero := rfl
  add _ _ := rfl
  sub _ _ := rfl
  mul _ _ := rfl
  div _ _ _ := rfl
  ofUInt64 _ := rfl
  lt _ _ := rfl
  le _ _ := rfl
  eq _ _ := rfl

namespace Mutations

def NonDecreasing (items : List (Item Address Double)) : Prop :=
  items.Pairwise fun first second => first.timestamp ≤ second.timestamp

/-! ## Mean -/

/-- The value comes more than the duration after the first one. -/
def Outlasts (duration : UInt64) (first v : Item Address Double) : Prop :=
  first.timestamp.toNat + duration.toNat < v.timestamp.toNat

instance (duration : UInt64) : DecidableRel (@Outlasts Address Double duration) := fun first v =>
  inferInstanceAs (Decidable (first.timestamp.toNat + duration.toNat < v.timestamp.toNat))

def doubles (arithmetic : Arithmetic Double) (window : Window (Item Address Double)) : List Double :=
  window.items.map (Item.getDoubleValue arithmetic)

/-- What `Mean` knows of a window. -/
def meanState (arithmetic : Arithmetic Double) (window : Window (Item Address Double)) : MeanState Double :=
  { sum := (doubles arithmetic window).foldl arithmetic.add arithmetic.zero
    count := UInt64.ofNat window.items.length
    firstTimestamp := window.first.timestamp
    lastTimestamp := window.last.timestamp
    first := false }

/-- The value that `Mean` makes of a window. -/
def meanOf (arithmetic : Arithmetic Double) (window : Window (Item Address Double)) : Effect Address Double :=
  .send (.new window.last.timestamp
    (arithmetic.div ((doubles arithmetic window).foldl arithmetic.add arithmetic.zero)
      (arithmetic.ofUInt64 (UInt64.ofNat window.items.length))))

theorem outlasts_iff {duration : UInt64} {first v : Item Address Double} (after : first.timestamp ≤ v.timestamp) :
    v.timestamp - first.timestamp > duration ↔ Outlasts duration first v := by
  rw [Outlasts, gt_iff_lt, UInt64.lt_iff_toNat_lt, UInt64.toNat_sub_of_le _ _ after]
  rw [UInt64.le_iff_toNat_le] at after
  omega

section

variable (arithmetic : Arithmetic Double) {duration : UInt64} (positive : duration ≠ 0)
  {window : Window (Item Address Double)} {v : Item Address Double}

include positive

theorem meanTurn_start (v : Item Address Double) :
    meanTurn arithmetic duration (mean arithmetic duration : Loop (Item Address Double) _ _ _).start v =
      ([], meanState arithmetic (.single v)) := by
  have within : ¬ v.timestamp - v.timestamp > duration := by simp
  rw [meanTurn, if_neg positive]
  simp only [mean, if_true, if_neg within, meanState, doubles, Window.items, Window.single_first, Window.single_rest,
    Window.single_last]
  rfl

theorem meanTurn_within (after : window.first.timestamp ≤ v.timestamp)
    (within : ¬ Outlasts duration window.first v) :
    meanTurn arithmetic duration (meanState arithmetic window) v = ([], meanState arithmetic (window.add v)) := by
  rw [← outlasts_iff after] at within
  rw [meanTurn, if_neg positive]
  simp only [meanState, Bool.false_eq_true, if_false, if_neg within]
  simp [doubles, UInt64.ofNat_add]

theorem meanTurn_beyond (after : window.first.timestamp ≤ v.timestamp)
    (beyond : Outlasts duration window.first v) :
    meanTurn arithmetic duration (meanState arithmetic window) v =
      ([meanOf arithmetic window], meanState arithmetic (.single v)) := by
  rw [← outlasts_iff after] at beyond
  rw [meanTurn, if_neg positive]
  simp only [meanState, Bool.false_eq_true, if_false, if_pos beyond]
  rfl

theorem mean_collects :
    Windows.Collects (@Outlasts Address Double duration) (fun first v => first.timestamp ≤ v.timestamp)
      (mean arithmetic duration) (fun state window => state = meanState arithmetic window)
      (fun window _ => [meanOf arithmetic window])
      (fun window => meanFinish arithmetic (meanState arithmetic window)) := by
  have turn : ∀ state (v : Item Address Double), (mean arithmetic duration).turn state v =
      .ok ((meanTurn arithmetic duration state v).1, some (meanTurn arithmetic duration state v).2) :=
    fun _ _ => rfl
  constructor
  · intro v
    exact ⟨_, by rw [turn, meanTurn_start arithmetic positive], rfl⟩
  · rintro _ window v rfl after within
    exact ⟨_, by rw [turn, meanTurn_within arithmetic positive after within], rfl⟩
  · rintro _ window v rfl after beyond
    exact ⟨_, by rw [turn, meanTurn_beyond arithmetic positive after beyond], rfl⟩
  · rintro _ window rfl
    rfl

end

/-- What `Mean` sends, for any arithmetic. -/
theorem mean_run (arithmetic : Arithmetic Double) {duration : UInt64} (positive : duration ≠ 0)
    {items : List (Item Address Double)} (sorted : NonDecreasing items) :
    (mean arithmetic duration).run { items, closed := true } =
      .ok { items := sent (fun window _ => [meanOf arithmetic window])
              (fun window => meanFinish arithmetic (meanState arithmetic window)) (divide (Outlasts duration) items)
            closed := true } := by
  by_cases empty : items = []
  · subst empty
    rfl
  · exact (mean_collects arithmetic positive).run empty sorted

theorem meanFinish_of_short (arithmetic : Arithmetic Double) {window : Window (Item Address Double)}
    (short : window.items.length < 2 ^ 64) :
    meanFinish arithmetic (meanState arithmetic window) = [meanOf arithmetic window] := by
  have counted : UInt64.ofNat window.items.length > 0 := by
    rw [gt_iff_lt, UInt64.lt_iff_toNat_lt, UInt64.toNat_ofNat', Nat.mod_eq_of_lt short]
    exact Nat.succ_pos _
  rw [meanFinish, if_pos (show (meanState arithmetic window).count > 0 from counted)]
  rfl

theorem foldl_add_exact {arithmetic : Arithmetic ℚ} (exact_ : arithmetic.Exact) (values : List ℚ) (sum : ℚ) :
    values.foldl arithmetic.add sum = sum + values.sum := by
  induction values generalizing sum with
  | nil => simp
  | cons value values inductionHypothesis =>
    rw [List.foldl_cons, inductionHypothesis, exact_.add, List.sum_cons, add_assoc]

/-- The timestamp of the last value of a run, and the sum of its values divided by their number. -/
def average (run : Window (Item Address ℚ)) : Item Address ℚ :=
  .new run.last.timestamp ((run.items.map fun v => v.value.doubleValue.getD 0).sum / run.items.length)

theorem meanOf_exact {arithmetic : Arithmetic ℚ} (exact_ : arithmetic.Exact) {run : Window (Item Address ℚ)}
    (short : run.items.length < 2 ^ 64) : meanOf arithmetic run = .send (average run) := by
  have count : arithmetic.ofUInt64 (UInt64.ofNat run.items.length) = (run.items.length : ℚ) := by
    rw [exact_.ofUInt64, UInt64.toNat_ofNat', Nat.mod_eq_of_lt short]
  have positive : (run.items.length : ℚ) ≠ 0 := Nat.cast_ne_zero.mpr (Nat.succ_ne_zero _)
  have values : doubles arithmetic run = run.items.map fun v => v.value.doubleValue.getD 0 :=
    List.map_congr_left fun v _ => by rw [Item.getDoubleValue, exact_.zero]
  rw [meanOf, count, exact_.div _ _ positive, foldl_add_exact exact_, exact_.zero, zero_add, values]
  rfl

/-- The input has one division into runs, and `Mean` sends the average of each of them, if none has so many
values that their count wraps around. -/
theorem mean_averages {arithmetic : Arithmetic ℚ} (exact_ : arithmetic.Exact) {duration : UInt64}
    (positive : duration ≠ 0) {items : List (Item Address ℚ)} (sorted : NonDecreasing items) :
    ∃ runs, IsDivision (Outlasts duration) items runs ∧
      (∀ other, IsDivision (Outlasts duration) items other → other = runs) ∧
      ((∀ run ∈ runs, run.items.length < 2 ^ 64) →
        (mean arithmetic duration).run { items, closed := true } =
          .ok { items := runs.map fun run => .send (average run), closed := true }) := by
  refine ⟨divide (Outlasts duration) items, Windows.isDivision_divide items, fun other => IsDivision.eq_divide, ?_⟩
  intro short
  rw [mean_run arithmetic positive sorted]
  have each := @Windows.sent_eq_map (Item Address ℚ) (Effect Address ℚ) (fun run _ => [meanOf arithmetic run])
    (fun run => meanFinish arithmetic (meanState arithmetic run)) (fun run => .send (average run))
    (divide (Outlasts duration) items)
  rw [each]
  · intro run member _
    rw [meanOf_exact exact_ (short run member)]
  · intro run member
    rw [meanFinish_of_short arithmetic (short run member), meanOf_exact exact_ (short run member)]

theorem mean_averages_two :
    ∃ runs, IsDivision (Outlasts 10) [Item.new 0 2, Item.new 5 4, (Item.new 20 7 : Item Empty ℚ)] runs ∧
      (∀ other, IsDivision (Outlasts 10) [Item.new 0 2, Item.new 5 4, (Item.new 20 7 : Item Empty ℚ)] other →
        other = runs) ∧
      ((∀ run ∈ runs, run.items.length < 2 ^ 64) →
        (mean rationals 10).run
            { items := [Item.new 0 2, Item.new 5 4, (Item.new 20 7 : Item Empty ℚ)], closed := true } =
          .ok { items := runs.map fun run => .send (average run), closed := true }) :=
  mean_averages rationals_exact (by decide) (by simp [NonDecreasing, Item.timestamp, Item.new])

/-- A single run whose count wraps around is not put out at the end. -/
theorem mean_run_replicate (arithmetic : Arithmetic Double) {duration : UInt64} (positive : duration ≠ 0)
    (v : Item Address Double) {others : Nat} (wraps : UInt64.ofNat (others + 1) = 0) :
    (mean arithmetic duration).run { items := List.replicate (others + 1) v, closed := true } =
      .ok { items := [], closed := true } := by
  have sorted : NonDecreasing (List.replicate (others + 1) v) := List.pairwise_replicate_of_refl
  rw [mean_run arithmetic positive sorted, List.replicate_succ, divide, Windows.divideFrom_of_within]
  · have count : (meanState arithmetic { first := v, rest := List.replicate others v }).count = 0 := by
      rw [meanState, ← wraps]
      simp [Window.items]
    simp [sent, meanFinish, count]
  · intro other member
    rw [List.eq_of_mem_replicate member, Window.single_first, Outlasts]
    omega

theorem isDivision_replicate (duration : UInt64) (v : Item Address Double) (others : Nat) :
    IsDivision (Outlasts duration) (List.replicate (others + 1) v)
      [{ first := v, rest := List.replicate others v }] := by
  refine ⟨by simp [Window.items, List.replicate_succ], ?_, List.isChain_singleton _⟩
  intro window only other member
  obtain rfl := List.mem_singleton.mp only
  obtain rfl := List.eq_of_mem_replicate member
  exact not_lt.mpr (Nat.le_add_right _ _)

/-- With `2 ^ 64` values in one run, nothing is sent for it. -/
theorem mean_miscounts :
    IsDivision (Outlasts 1) (List.replicate (2 ^ 64) (Item.new 0 1 : Item Empty ℚ))
        [{ first := Item.new 0 1, rest := List.replicate (2 ^ 64 - 1) (Item.new 0 1) }] ∧
      (mean rationals 1).run { items := List.replicate (2 ^ 64) (Item.new 0 1 : Item Empty ℚ), closed := true } =
        .ok { items := [], closed := true } := by
  have whole : 2 ^ 64 - 1 + 1 = 2 ^ 64 := rfl
  have division := isDivision_replicate 1 (Item.new 0 1 : Item Empty ℚ) (2 ^ 64 - 1)
  have run := @mean_run_replicate Empty ℚ rationals 1 (by decide) (Item.new 0 1) (2 ^ 64 - 1) (by rw [whole]; rfl)
  rw [whole] at division run
  exact ⟨division, run⟩

/-! ## Minimum and maximum -/

/-- A strict total order of the doubles, by which one is better than another. -/
structure Ranking (better : Double → Double → Bool) : Prop where
  asymm : ∀ first second, better first second = true → better second first = false
  trans : ∀ first second third, better first second = false → better second third = false →
    better first third = false
  antisymm : ∀ first second, better first second = false → better second first = false → first = second

variable {better : Double → Double → Bool}

/-- The best of some doubles. -/
def Best (better : Double → Double → Bool) (values : List Double) (best : Double) : Prop :=
  best ∈ values ∧ ∀ value ∈ values, better value best = false

theorem Best.unique (ranking : Ranking better) {values : List Double} {one other : Double}
    (first : Best better values one) (second : Best better values other) : one = other :=
  ranking.antisymm _ _ (second.2 one first.1) (first.2 other second.1)

theorem Ranking.irrefl (ranking : Ranking better) (double : Double) : better double double = false := by
  cases same : better double double with
  | false => rfl
  | true => rw [← same, ranking.asymm double double same]

/-- The better one of two doubles, and the first one if neither is better. -/
def pick (better : Double → Double → Bool) (best value : Double) : Double :=
  if better value best then value else best

theorem best_foldl_pick (ranking : Ranking better) (values : List Double) (start : Double) :
    Best better (start :: values) (values.foldl (pick better) start) := by
  induction values generalizing start with
  | nil => exact ⟨List.mem_singleton_self _, by simp [ranking.irrefl]⟩
  | cons value values inductionHypothesis =>
    obtain ⟨member, all⟩ := inductionHypothesis (pick better start value)
    obtain ⟨picked, rest⟩ := List.forall_mem_cons.mp all
    rw [List.foldl_cons]
    generalize values.foldl (pick better) (pick better start value) = best at member picked rest
    rw [pick] at member picked
    cases wins : better value start with
    | true =>
      simp only [wins, if_true] at member picked
      -- The value that lost is worse than the one that won, and so than the best.
      have lost := ranking.trans start value best (ranking.asymm value start wins) picked
      refine ⟨List.mem_cons_of_mem _ member, ?_⟩
      simp only [List.forall_mem_cons]
      exact ⟨lost, picked, rest⟩
    | false =>
      simp only [wins, Bool.false_eq_true, if_false] at member picked
      have lost := ranking.trans value start best wins picked
      refine ⟨?_, ?_⟩
      · cases List.mem_cons.mp member with
        | inl same => rw [same]; exact List.mem_cons_self
        | inr later => exact List.mem_cons_of_mem _ (List.mem_cons_of_mem _ later)
      · simp only [List.forall_mem_cons]
        exact ⟨picked, lost, rest⟩

/-- The test with which `Min` and `Max` begin a window; the sum wraps around. -/
def Reaches (duration : UInt64) (first v : Item Address Double) : Prop := first.timestamp + duration ≤ v.timestamp

instance (duration : UInt64) : DecidableRel (@Reaches Address Double duration) := fun first v =>
  inferInstanceAs (Decidable (first.timestamp + duration ≤ v.timestamp))

/-- The value comes at least the duration after the first one. -/
def Spans (duration : UInt64) (first v : Item Address Double) : Prop :=
  first.timestamp.toNat + duration.toNat ≤ v.timestamp.toNat

instance (duration : UInt64) : DecidableRel (@Spans Address Double duration) := fun first v =>
  inferInstanceAs (Decidable (first.timestamp.toNat + duration.toNat ≤ v.timestamp.toNat))

/-- What `Min` and `Max` keep of a window. -/
def extremeOf (arithmetic : Arithmetic Double) (better : Double → Double → Bool)
    (window : Window (Item Address Double)) : Double :=
  (window.rest.map (Item.getDoubleValue arithmetic)).foldl (pick better) (window.first.getDoubleValue arithmetic)

/-- What is sent for a window when the value comes that begins the next one. -/
def extremeSent (arithmetic : Arithmetic Double) (better : Double → Double → Bool)
    (window : Window (Item Address Double)) (next : Item Address Double) : Effect Address Double :=
  .send (.new next.timestamp (extremeOf arithmetic better window))

def extremeState (arithmetic : Arithmetic Double) (better : Double → Double → Bool)
    (window : Window (Item Address Double)) : ExtremeState Double :=
  { extreme := extremeOf arithmetic better window, lastTimestamp := window.first.timestamp, first := false }

theorem extreme_collects (arithmetic : Arithmetic Double) (better : Double → Double → Bool) (duration : UInt64) :
    Windows.Collects (@Reaches Address Double duration) (fun _ _ => True) (extreme arithmetic better duration)
      (fun state window => state = extremeState arithmetic better window)
      (fun window next => [extremeSent arithmetic better window next]) (fun _ => []) := by
  have turn : ∀ state (v : Item Address Double), (extreme arithmetic better duration).turn state v =
      .ok ((extremeTurn arithmetic better duration state v).1,
        some (extremeTurn arithmetic better duration state v).2) := fun _ _ => rfl
  constructor
  · intro v
    exact ⟨_, rfl, rfl⟩
  · rintro _ window v rfl - within
    have stays : ¬ v.timestamp ≥ (extremeState arithmetic better window).lastTimestamp + duration := within
    refine ⟨_, by rw [turn, extremeTurn, if_neg (by simp [extremeState]), if_neg stays], ?_⟩
    simp only [extremeState, extremeOf, Window.add_rest, Window.add_first, List.map_append, List.foldl_append]
    rfl
  · rintro _ window v rfl - beyond
    have leaves : v.timestamp ≥ (extremeState arithmetic better window).lastTimestamp + duration := beyond
    exact ⟨_, by rw [turn, extremeTurn, if_neg (by simp [extremeState]), if_pos leaves]; rfl, rfl⟩
  · intros
    rfl

/-- What `Min` and `Max` send: for each window but the last its extreme, at the time of the next one. -/
theorem extreme_run (arithmetic : Arithmetic Double) (better : Double → Double → Bool) (duration : UInt64)
    {items : List (Item Address Double)} (nonempty : items ≠ []) :
    (extreme arithmetic better duration).run { items, closed := true } =
      .ok { items := List.zipWith (fun window next => extremeSent arithmetic better window next.first)
              (divide (Reaches duration) items) (divide (Reaches duration) items).tail
            closed := true } := by
  rw [(extreme_collects arithmetic better duration).run nonempty
      (List.pairwise_iff_forall_sublist.mpr fun _ => trivial),
    Windows.sent_eq_zipWith (fun _ _ => rfl) fun _ => rfl]

/-- The windows make up the input, and there is one output for each: its best value, at the time of its last
one. -/
def Covers (arithmetic : Arithmetic Double) (better : Double → Double → Bool)
    (mutation : Loop (Item Address Double) (Effect Address Double) (ExtremeState Double) Panic)
    (items : List (Item Address Double)) (windows : List (Window (Item Address Double))) : Prop :=
  windows.flatMap Window.items = items ∧
    ∃ outputs, mutation.run { items, closed := true } = .ok { items := outputs, closed := true } ∧
      List.Forall₂ (fun window output => ∃ best, Best better (doubles arithmetic window) best ∧
        output = .send (.new window.last.timestamp best)) windows outputs

/-- The input has windows, one fewer than the mutation forms, each of which ends at the time at which the next
window of the mutation begins, and has the same best value as that window. -/
def Slides (arithmetic : Arithmetic Double) (better : Double → Double → Bool) (duration : UInt64)
    (items : List (Item Address Double)) : Prop :=
  ∃ windows : List (Window (Item Address Double)), windows.flatMap Window.items = items ∧
    List.Forall₂ (fun window pair => window.last.timestamp = pair.2.first.timestamp ∧
        Best better (doubles arithmetic window) (extremeOf arithmetic better pair.1)) windows
      ((divide (Reaches duration) items).zip (divide (Reaches duration) items).tail)

/-- Two values that are sent are the same. -/
theorem send_new_inj {timestamp other : UInt64} {double double' : Double} :
    (.send (.new timestamp double) : Effect Address Double) = .send (.new other double') ↔
      timestamp = other ∧ double = double' := by
  simp [Item.new]

theorem covers_iff_slides (arithmetic : Arithmetic Double) (better : Double → Double → Bool) (duration : UInt64)
    {items : List (Item Address Double)} (nonempty : items ≠ []) :
    (∃ windows, Covers arithmetic better (extreme arithmetic better duration) items windows) ↔
      Slides arithmetic better duration items := by
  have run := extreme_run arithmetic better duration nonempty
  have each : ∀ (window : Window (Item Address Double))
      (pair : Window (Item Address Double) × Window (Item Address Double)),
      (∃ best, Best better (doubles arithmetic window) best ∧
        extremeSent arithmetic better pair.1 pair.2.first = .send (.new window.last.timestamp best)) ↔
      window.last.timestamp = pair.2.first.timestamp ∧
        Best better (doubles arithmetic window) (extremeOf arithmetic better pair.1) := by
    intro window pair
    simp only [extremeSent, send_new_inj]
    constructor
    · rintro ⟨best, isBest, time, rfl⟩
      exact ⟨time.symm, isBest⟩
    · rintro ⟨time, isBest⟩
      exact ⟨_, isBest, time.symm, rfl⟩
  have outputs : List.zipWith (fun window next => extremeSent arithmetic better window next.first)
      (divide (Reaches duration) items) (divide (Reaches duration) items).tail =
      ((divide (Reaches duration) items).zip (divide (Reaches duration) items).tail).map
        fun pair => extremeSent arithmetic better pair.1 pair.2.first := by
    rw [List.zip, List.map_zipWith]
  rw [outputs] at run
  constructor
  · rintro ⟨windows, all, sent, ran, matched⟩
    rw [run] at ran
    cases ran
    rw [List.forall₂_map_right_iff] at matched
    exact ⟨windows, all, matched.imp fun window pair => (each window pair).mp⟩
  · rintro ⟨windows, all, matched⟩
    refine ⟨windows, all, _, run, ?_⟩
    rw [List.forall₂_map_right_iff]
    exact matched.imp fun window pair => (each window pair).mpr

/-! ### Windows of the duration -/

/-- Two values, of which the first lies within the duration of the end of time, so that the second begins a
window, and the second is not better. -/
def EndsTime (arithmetic : Arithmetic Double) (better : Double → Double → Bool) (duration : UInt64)
    (items : List (Item Address Double)) : Prop :=
  ∃ first second, items = [first, second] ∧ 2 ^ 64 ≤ first.timestamp.toNat + duration.toNat ∧
    better (second.getDoubleValue arithmetic) (first.getDoubleValue arithmetic) = false

section

variable {duration : UInt64} {first v : Item Address Double}

theorem reaches_of_wraps (wraps : 2 ^ 64 ≤ first.timestamp.toNat + duration.toNat)
    (after : first.timestamp ≤ v.timestamp) : Reaches duration first v := by
  rw [UInt64.le_iff_toNat_le] at after
  rw [Reaches, UInt64.le_iff_toNat_le, UInt64.toNat_add]
  have bound := first.timestamp.toNat_lt
  have boundDuration := duration.toNat_lt
  omega

theorem not_spans_of_wraps (wraps : 2 ^ 64 ≤ first.timestamp.toNat + duration.toNat) : ¬ Spans duration first v := by
  have bound := v.timestamp.toNat_lt
  rw [Spans]
  omega

theorem spans_of_reaches (reaches : Reaches duration first v)
    (fits : first.timestamp.toNat + duration.toNat < 2 ^ 64) : Spans duration first v := by
  rw [Reaches, UInt64.le_iff_toNat_le, UInt64.toNat_add, Nat.mod_eq_of_lt fits] at reaches
  exact reaches

/-- Where the end of time is near, `Min` and `Max` make a window of every value. -/
theorem divide_of_wraps {rest : List (Item Address Double)}
    (wraps : 2 ^ 64 ≤ first.timestamp.toNat + duration.toNat) (sorted : NonDecreasing (first :: rest)) :
    divide (Reaches duration) (first :: rest) = (first :: rest).map Window.single := by
  apply Windows.divideFrom_of_pairwise
  have later : ∀ v ∈ first :: rest, first.timestamp ≤ v.timestamp :=
    List.forall_mem_cons.mpr ⟨UInt64.le_refl _, (List.pairwise_cons.mp sorted).1⟩
  refine List.Pairwise.imp_of_mem ?_ sorted
  intro one other member _ ordered
  refine reaches_of_wraps ?_ ordered
  have after := UInt64.le_iff_toNat_le.mp (later one member)
  omega

/-- Every window of the duration ends less than the duration after it begins. -/
theorem last_of_isDivision (positive : duration ≠ 0) {items : List (Item Address Double)}
    {windows : List (Window (Item Address Double))} (division : IsDivision (Spans duration) items windows)
    {window : Window (Item Address Double)} (member : window ∈ windows) :
    window.last.timestamp.toNat < window.first.timestamp.toNat + duration.toNat := by
  have some_ : 0 < duration.toNat := Nat.pos_of_ne_zero fun zero => positive (UInt64.toNat_inj.mp zero)
  cases List.eq_nil_or_concat' window.rest with
  | inl alone =>
    rw [Window.last, alone]
    exact Nat.lt_add_of_pos_right some_
  | inr concat =>
    obtain ⟨before, last, split⟩ := concat
    have within := division.within window member last (by simp [split])
    rw [Window.last, split]
    simpa [Spans] using within

/-- Away from the end of time, the first window of the duration ends before the second window of the mutation
begins. -/
theorem wraps_of_meets (positive : duration ≠ 0) {rest : List (Item Address Double)}
    {window next : Window (Item Address Double)} {later windows : List (Window (Item Address Double))}
    (division : IsDivision (Spans duration) (first :: rest) (window :: later))
    (formed : divide (Reaches duration) (first :: rest) = windows)
    (second : windows[1]? = some next) (meets : window.last.timestamp = next.first.timestamp) :
    2 ^ 64 ≤ first.timestamp.toNat + duration.toNat := by
  by_contra fits
  have ends := last_of_isDivision positive division List.mem_cons_self
  have all := division.all
  rw [List.flatMap_cons, Window.items, List.cons_append, List.cons.injEq] at all
  rw [all.1, meets] at ends
  obtain ⟨own, others, split⟩ := @Windows.divideFrom_eq_cons _ (Reaches duration) _ (.single first) rest
  have apart := (@Windows.isDivision_divide _ (Reaches duration) _ (first :: rest)).apart
  rw [divide, split] at formed
  rw [divide, split] at apart
  subst formed
  cases others with
  | nil => cases second
  | cons head others =>
    cases second
    exact absurd (spans_of_reaches (List.isChain_cons_cons.mp apart).1 (not_le.mp fits)) (not_le.mpr ends)

/-- With the windows of the duration, one output for each of them is met only at the end of time. -/
theorem covers_division_iff (arithmetic : Arithmetic Double) {better : Double → Double → Bool}
    (ranking : Ranking better)
    (positive : duration ≠ 0) {items : List (Item Address Double)} (nonempty : items ≠ [])
    (sorted : NonDecreasing items) :
    (∃ windows, IsDivision (Spans duration) items windows ∧
        Covers arithmetic better (extreme arithmetic better duration) items windows) ↔
      EndsTime arithmetic better duration items := by
  have run := extreme_run arithmetic better duration nonempty
  constructor
  · rintro ⟨windows, division, -, outputs, ran, matched⟩
    rw [run] at ran
    cases ran
    cases items with
    | nil => exact absurd rfl nonempty
    | cons first rest =>
      cases windows with
      | nil => exact absurd division.all (by simp)
      | cons window later =>
        generalize formed : divide (Reaches duration) (first :: rest) = own at matched
        cases own with
        | nil => cases matched
        | cons one own =>
          cases own with
          | nil => cases matched
          | cons next others =>
            cases matched with
            | cons head more =>
              obtain ⟨best, isBest, same⟩ := head
              obtain ⟨meets, value⟩ := send_new_inj.mp same
              have wraps := wraps_of_meets positive division formed rfl meets.symm
              -- The input is one window of the duration, so the mutation forms two, of one value each.
              have whole : window :: later = [{ first, rest }] :=
                division.eq_divide.trans
                  (Windows.divideFrom_of_within (.single first) fun _ _ => not_spans_of_wraps wraps)
              rw [divide_of_wraps wraps sorted, List.map_cons, List.cons.injEq] at formed
              obtain ⟨rfl, formed⟩ := formed
              obtain ⟨rfl, rfl⟩ := List.cons.inj whole
              cases rest with
              | nil => cases formed
              | cons second rest =>
                obtain ⟨rfl, rfl⟩ := List.cons.inj formed
                cases rest with
                | cons third rest => cases more
                | nil =>
                  refine ⟨first, second, rfl, wraps, ?_⟩
                  have beaten := isBest.2 (second.getDoubleValue arithmetic) (by simp [doubles, Window.items])
                  rw [← value] at beaten
                  exact beaten
  · rintro ⟨first, second, rfl, wraps, loses⟩
    refine ⟨[{ first, rest := [second] }], ?_, rfl, _, run, ?_⟩
    · refine ⟨rfl, ?_, List.isChain_singleton _⟩
      intro window only v member
      obtain rfl := List.mem_singleton.mp only
      exact not_spans_of_wraps wraps
    · rw [divide_of_wraps wraps sorted]
      refine .cons ⟨first.getDoubleValue arithmetic, ⟨List.mem_cons_self, ?_⟩, rfl⟩ .nil
      simp only [doubles, Window.items, List.map_cons, List.map_nil, List.forall_mem_cons]
      exact ⟨ranking.irrefl _, loses, by simp⟩

end

theorem ranking_lt {arithmetic : Arithmetic ℚ} (exact_ : arithmetic.Exact) : Ranking arithmetic.lt := by
  constructor <;> simp only [exact_.lt, decide_eq_true_eq, decide_eq_false_iff_not, not_lt]
  · exact fun _ _ => le_of_lt
  · exact fun _ _ _ first second => second.trans first
  · exact fun _ _ first second => le_antisymm second first

theorem ranking_gt {arithmetic : Arithmetic ℚ} (exact_ : arithmetic.Exact) :
    Ranking fun first second => arithmetic.lt second first := by
  constructor <;> simp only [exact_.lt, decide_eq_true_eq, decide_eq_false_iff_not, not_lt]
  · exact fun _ _ => le_of_lt
  · exact fun _ _ _ first second => first.trans second
  · exact fun _ _ first second => le_antisymm first second

/-- `Min` and `Max` send one output for each window of the duration, with its extreme and the time of its last
value, only at the end of time; with windows of any length they do where the windows they form can be slid. -/
theorem extremes_cover_iff {arithmetic : Arithmetic ℚ} (exact_ : arithmetic.Exact) {duration : UInt64}
    (positive : duration ≠ 0) {items : List (Item Address ℚ)} (nonempty : items ≠ []) (sorted : NonDecreasing items) :
    (((∃ windows, IsDivision (Spans duration) items windows ∧
          Covers arithmetic arithmetic.lt (Mutations.min arithmetic duration) items windows) ↔
        EndsTime arithmetic arithmetic.lt duration items) ∧
      ((∃ windows, Covers arithmetic arithmetic.lt (Mutations.min arithmetic duration) items windows) ↔
        Slides arithmetic arithmetic.lt duration items)) ∧
    ((∃ windows, IsDivision (Spans duration) items windows ∧
          Covers arithmetic (fun first second => arithmetic.lt second first) (Mutations.max arithmetic duration) items
            windows) ↔
        EndsTime arithmetic (fun first second => arithmetic.lt second first) duration items) ∧
      ((∃ windows, Covers arithmetic (fun first second => arithmetic.lt second first)
            (Mutations.max arithmetic duration) items windows) ↔
        Slides arithmetic (fun first second => arithmetic.lt second first) duration items) :=
  ⟨⟨covers_division_iff arithmetic (ranking_lt exact_) positive nonempty sorted,
      covers_iff_slides arithmetic _ duration nonempty⟩,
    covers_division_iff arithmetic (ranking_gt exact_) positive nonempty sorted,
    covers_iff_slides arithmetic _ duration nonempty⟩

theorem extremes_cover_two :
    (((∃ windows, IsDivision (Spans 10) [Item.new 0 5, (Item.new 20 7 : Item Empty ℚ)] windows ∧
          Covers rationals rationals.lt (Mutations.min rationals 10) [Item.new 0 5, Item.new 20 7] windows) ↔
        EndsTime rationals rationals.lt 10 [Item.new 0 5, (Item.new 20 7 : Item Empty ℚ)]) ∧
      ((∃ windows, Covers rationals rationals.lt (Mutations.min rationals 10)
            [Item.new 0 5, (Item.new 20 7 : Item Empty ℚ)] windows) ↔
        Slides rationals rationals.lt 10 [Item.new 0 5, (Item.new 20 7 : Item Empty ℚ)])) ∧
    ((∃ windows, IsDivision (Spans 10) [Item.new 0 5, (Item.new 20 7 : Item Empty ℚ)] windows ∧
          Covers rationals (fun first second => rationals.lt second first) (Mutations.max rationals 10)
            [Item.new 0 5, Item.new 20 7] windows) ↔
        EndsTime rationals (fun first second => rationals.lt second first) 10
          [Item.new 0 5, (Item.new 20 7 : Item Empty ℚ)]) ∧
      ((∃ windows, Covers rationals (fun first second => rationals.lt second first) (Mutations.max rationals 10)
            [Item.new 0 5, (Item.new 20 7 : Item Empty ℚ)] windows) ↔
        Slides rationals (fun first second => rationals.lt second first) 10
          [Item.new 0 5, (Item.new 20 7 : Item Empty ℚ)]) :=
  extremes_cover_iff rationals_exact (by decide) (List.cons_ne_nil _ _)
    (by simp [NonDecreasing, Item.timestamp, Item.new])

/-- Nothing is sent for a single value, so there are no windows that it splits into; and what is sent for the
first of two windows has the time of the second. -/
theorem extremes_miss :
    (Mutations.min rationals 10).run { items := [(Item.new 5 1 : Item Empty ℚ)], closed := true } =
        .ok { items := [], closed := true } ∧
      (¬ ∃ windows, Covers rationals rationals.lt (Mutations.min rationals 10) [(Item.new 5 1 : Item Empty ℚ)]
        windows) ∧
      (Mutations.max rationals 10).run { items := [(Item.new 5 1 : Item Empty ℚ)], closed := true } =
        .ok { items := [], closed := true } ∧
      (¬ ∃ windows, Covers rationals (fun first second => rationals.lt second first) (Mutations.max rationals 10)
        [(Item.new 5 1 : Item Empty ℚ)] windows) ∧
      (Mutations.min rationals 10).run { items := [Item.new 5 1, (Item.new 25 2 : Item Empty ℚ)], closed := true } =
        .ok { items := [.send (.new 25 1)], closed := true } := by
  have none_ : ∀ better mutation, mutation.run { items := [(Item.new 5 1 : Item Empty ℚ)], closed := true } =
      .ok { items := [], closed := true } →
        ¬ ∃ windows, Covers rationals better mutation [(Item.new 5 1 : Item Empty ℚ)] windows := by
    rintro better mutation silent ⟨windows, all, outputs, run, matched⟩
    rw [silent] at run
    cases run
    cases matched
    cases all
  exact ⟨rfl, none_ _ _ rfl, rfl, none_ _ _ rfl, rfl⟩

end Mutations

end OpenInstrument
