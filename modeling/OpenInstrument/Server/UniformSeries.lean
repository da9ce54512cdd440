import Mathlib.Tactic.Ring
import Mathlib.Tactic.FieldSimp
import OpenInstrument.Library.Grid
import OpenInstrument.MutationWindows
import OpenInstrument.Server.HandleGetSafety

/-! # The grid of a uniform time series

`AddPoint` puts out the points of a grid whose base is the first point, rounded down.  The next point of the grid
lies behind every point that was added, however they were ordered, and so every value that is drawn lies between
the point before and the one that is added.

The number of points that were added is a `uint64_t`, and the point that brings it back to one moves the base.
-/

namespace OpenInstrument.Server

variable {Double : Type} {arithmetic : Arithmetic Double}

/-- Adding points to a new series, each with its timestamp and its double. -/
def UniformTimeSeries.addPoints (arithmetic : Arithmetic Double) (turns : Nat) (interval : UInt64)
    (points : List (UInt64 × Double)) : Except Stop (List (Value Double) × UniformTimeSeries Double) :=
  points.foldlM (fun state point => UniformTimeSeries.addPointAt arithmetic turns state point.1 point.2)
    ([], .new arithmetic interval)

/-! ## The grid -/

/-- The first timestamp, rounded down. -/
def gridBase (interval : UInt64) (points : List (UInt64 × Double)) : Nat :=
  (points.head?.map fun first => first.1.toNat - first.1.toNat % interval.toNat).getD 0

def highest (points : List (UInt64 × Double)) : Nat := points.foldl (fun high point => max high point.1.toNat) 0

def gridTimestamps (interval : UInt64) (points : List (UInt64 × Double)) : List Nat :=
  Grid.pointsTo interval.toNat (gridBase interval points) (highest points)

/-! ## What calls do -/

/-- No turn of the loops of `AddPoint` divides by zero or subtracts a timestamp from an earlier one. -/
def UniformTimeSeries.TurnsForward (timestamp : UInt64) : Nat → UniformTimeSeries Double → Prop
  | 0, _ => True
  | turns + 1, series =>
    series.nextOutputTimestamp < timestamp →
      series.lastInputTimestamp < timestamp ∧ series.lastInputTimestamp ≤ series.nextOutputTimestamp ∧
        TurnsForward timestamp turns { series with pointsOutput := series.pointsOutput + 1 }

/-- No step of `AddPoint` does. -/
def UniformTimeSeries.Forward (series : UniformTimeSeries Double) (timestamp : UInt64) : Prop :=
  if series.pointsInput + 1 = 1 then series.interval ≠ 0 ∧ timestamp % series.interval ≤ timestamp
  else ∀ turns, TurnsForward timestamp turns { series with pointsInput := series.pointsInput + 1 }

/-- A call of `AddPoint` behind some others comes to an end, and all that it does meets some conditions. -/
def UniformTimeSeries.Call (arithmetic : Arithmetic Double) (interval : UInt64) (before : List (UInt64 × Double))
    (point : UInt64 × Double) (conditions : UniformTimeSeries Double → List (Value Double) → Prop) : Prop :=
  ∃ output series added next,
    (∀ turns, 2 ^ 64 ≤ turns →
      UniformTimeSeries.addPoints arithmetic turns interval before = .ok (output, series) ∧
        UniformTimeSeries.addPointAt arithmetic turns (output, series) point.1 point.2 =
          .ok (output ++ added, next)) ∧
      conditions series added

/-- The output of all calls is the grid, and no call fails. -/
structure UniformTimeSeries.GapFree (arithmetic : Arithmetic Double) (interval : UInt64)
    (points : List (UInt64 × Double)) : Prop where
  grid : ∃ output series,
    (∀ turns, 2 ^ 64 ≤ turns →
      UniformTimeSeries.addPoints arithmetic turns interval points = .ok (output, series)) ∧
      output.map (fun value => value.timestamp.toNat) = gridTimestamps interval points
  forward : ∀ before point after, points = before ++ point :: after →
    UniformTimeSeries.Call arithmetic interval before point fun series _ => series.Forward point.1

/-- The value lies on the line between two points. -/
def OnLine (previous point : UInt64 × ℚ) (value : Value ℚ) : Prop :=
  previous.1 < value.timestamp ∧ value.timestamp ≤ point.1 ∧
    value.doubleValue = some (previous.2 +
      (point.2 - previous.2) / ((point.1.toNat : ℚ) - previous.1.toNat) *
        ((value.timestamp.toNat : ℚ) - previous.1.toNat))

/-- Every output lies on the line between the point before and the one that is added. -/
def UniformTimeSeries.Interpolates (arithmetic : Arithmetic ℚ) (interval : UInt64) (points : List (UInt64 × ℚ)) :
    Prop :=
  ∀ before point after, points = before ++ point :: after →
    UniformTimeSeries.Call arithmetic interval before point fun _ added =>
      ∀ value ∈ added, ∃ previous ∈ before.getLast?, OnLine previous point value

/-- Every timestamp has room for one more interval. -/
def HasRoom (interval : UInt64) (points : List (UInt64 × Double)) : Prop :=
  ∀ point ∈ points, point.1.toNat + interval.toNat < 2 ^ 64

theorem ne_zero_of_toNat {interval : UInt64} (positive : 0 < interval.toNat) : interval ≠ 0 := by
  intro zero
  rw [zero] at positive
  exact absurd positive (Nat.lt_irrefl 0)

/-! ## The loops of a call -/

def UniformTimeSeries.advanced (series : UniformTimeSeries Double) (count : Nat) : UniformTimeSeries Double :=
  { series with pointsOutput := series.pointsOutput + .ofNat count }

def UniformTimeSeries.drawn (arithmetic : Arithmetic Double) (series : UniformTimeSeries Double)
    (point : UInt64 × Double) (timestamp : UInt64) : Value Double :=
  newValue timestamp (if point.1 = timestamp then point.2 else
    arithmetic.add
      (arithmetic.mul
        (arithmetic.div (arithmetic.sub point.2 series.lastInputValue)
          (arithmetic.ofUInt64 (point.1 - series.lastInputTimestamp)))
        (arithmetic.ofUInt64 (timestamp - series.lastInputTimestamp)))
      series.lastInputValue)

@[simp] theorem UniformTimeSeries.advanced_zero (series : UniformTimeSeries Double) : series.advanced 0 = series := by
  cases series
  simp [UniformTimeSeries.advanced]

theorem UniformTimeSeries.advanced_succ (series : UniformTimeSeries Double) (count : Nat) :
    UniformTimeSeries.advanced { series with pointsOutput := series.pointsOutput + 1 } count =
      series.advanced (count + 1) := by
  simp only [UniformTimeSeries.advanced, UniformTimeSeries.mk.injEq, true_and, and_true]
  rw [UInt64.add_assoc, ← UInt64.ofNat_one, ← UInt64.ofNat_add, Nat.add_comm 1 count]

theorem UniformTimeSeries.next_advanced (series : UniformTimeSeries Double) :
    (series.advanced 1).nextOutputTimestamp = series.nextOutputTimestamp + series.interval := by
  simp only [UniformTimeSeries.nextOutputTimestamp, UniformTimeSeries.advanced]
  rw [UInt64.ofNat_one, UInt64.mul_add, UInt64.mul_one, UInt64.add_assoc]

/-- The output behind one that is reached lies an interval later. -/
theorem UniformTimeSeries.next_lt {series : UniformTimeSeries Double} {timestamp : UInt64}
    (positive : series.interval ≠ 0) (room : timestamp.toNat + series.interval.toNat < 2 ^ 64)
    (reached : series.nextOutputTimestamp ≤ timestamp) :
    series.nextOutputTimestamp < (series.advanced 1).nextOutputTimestamp := by
  have reached := UInt64.le_iff_toNat_le.mp reached
  have positive : series.interval.toNat ≠ 0 := fun none_ => positive (UInt64.toNat_inj.mp none_)
  rw [UniformTimeSeries.next_advanced, UInt64.lt_iff_toNat_lt, UInt64.toNat_add, Nat.mod_eq_of_lt (by omega)]
  omega

theorem UniformTimeSeries.turnsForward {series : UniformTimeSeries Double} {timestamp : UInt64}
    (positive : series.interval ≠ 0) (room : timestamp.toNat + series.interval.toNat < 2 ^ 64)
    (apart : series.lastInputTimestamp < series.nextOutputTimestamp) (turns : Nat) :
    UniformTimeSeries.TurnsForward timestamp turns series := by
  induction turns generalizing series with
  | zero => trivial
  | succ turns inductionHypothesis =>
    intro before
    have further := UniformTimeSeries.next_lt positive room (UInt64.le_of_lt before)
    have later : UniformTimeSeries.TurnsForward timestamp turns (series.advanced 1) :=
      inductionHypothesis positive room (UInt64.lt_trans apart further)
    exact ⟨UInt64.lt_trans apart before, UInt64.le_of_lt apart, later⟩

/-- The loops put out the next points of the grid, up to the point that is added. -/
theorem UniformTimeSeries.output_ok {series : UniformTimeSeries Double} {point : UInt64 × Double} {count : Nat}
    (positive : series.interval ≠ 0) (room : point.1.toNat + series.interval.toNat < 2 ^ 64)
    (reached : ∀ index, index < count → (series.advanced index).nextOutputTimestamp ≤ point.1)
    (short : point.1 < (series.advanced count).nextOutputTimestamp)
    (apart : series.lastInputTimestamp < series.nextOutputTimestamp) (output : List (Value Double)) {turns : Nat}
    (enough : count < turns) :
    UniformTimeSeries.output arithmetic point.1 point.2 turns series output =
      .ok (output ++ (List.range count).map fun index =>
          series.drawn arithmetic point (series.advanced index).nextOutputTimestamp,
        series.advanced count) := by
  induction count generalizing series output turns with
  | zero =>
    obtain ⟨turns, rfl⟩ : ∃ fewer, turns = fewer + 1 := ⟨turns - 1, by omega⟩
    rw [UniformTimeSeries.advanced_zero] at short ⊢
    rw [UniformTimeSeries.output_succ, if_neg (UInt64.ne_of_lt short), if_pos short]
    simp
  | succ count inductionHypothesis =>
    obtain ⟨turns, rfl⟩ : ∃ fewer, turns = fewer + 1 := ⟨turns - 1, by omega⟩
    have here := reached 0 (by omega)
    rw [UniformTimeSeries.advanced_zero] at here
    have further := UniformTimeSeries.next_lt positive room here
    rw [UniformTimeSeries.output_succ, List.range_succ_eq_map, List.map_cons, UniformTimeSeries.advanced_zero]
    by_cases same : point.1 = series.nextOutputTimestamp
    · -- The point itself is the last point of the grid that is reached.
      have last : count = 0 := by
        by_contra more
        have beyond := reached 1 (by omega)
        rw [same] at beyond
        exact absurd further (UInt64.not_lt.mpr beyond)
      subst last
      rw [if_pos same, UniformTimeSeries.drawn, if_pos same, ← same]
      rfl
    · have before : series.nextOutputTimestamp < point.1 := UInt64.lt_of_le_of_ne here (Ne.symm same)
      have distance := sub_ne_zero_of_ne (UInt64.ne_of_lt (UInt64.lt_trans apart before)).symm
      rw [if_neg same, if_neg (UInt64.not_lt.mpr here), UniformTimeSeries.interpolate, if_neg distance,
        Fallible.ok_bind]
      -- One point is drawn between the two, and the rest of the grid comes after it.
      have rest := @inductionHypothesis { series with pointsOutput := series.pointsOutput + 1 } positive room
        (fun index inside => by rw [UniformTimeSeries.advanced_succ]; exact reached _ (by omega))
        (by rw [UniformTimeSeries.advanced_succ]; exact short) (UInt64.lt_trans apart further)
        (output ++ [series.drawn arithmetic point series.nextOutputTimestamp]) turns (by omega)
      simp only [UniformTimeSeries.drawn, if_neg same] at rest ⊢
      rw [rest, List.map_map, List.append_assoc, UniformTimeSeries.advanced_succ]
      simp only [Function.comp_def, UniformTimeSeries.advanced_succ]
      rfl

/-! ## What holds behind each call -/

theorem gridBase_concat (interval : UInt64) {seen : List (UInt64 × Double)} (some_ : seen ≠ [])
    (point : UInt64 × Double) : gridBase interval (seen ++ [point]) = gridBase interval seen := by
  rw [gridBase, gridBase, List.head?_append_of_ne_nil _ some_]

theorem highest_concat (seen : List (UInt64 × Double)) (point : UInt64 × Double) :
    highest (seen ++ [point]) = max (highest seen) point.1.toNat := by
  rw [highest, List.foldl_append]
  rfl

theorem le_highest {seen : List (UInt64 × Double)} {point : UInt64 × Double} (member : point ∈ seen) :
    point.1.toNat ≤ highest seen := by
  induction seen using List.reverseRecOn with
  | nil => cases member
  | append_singleton seen last inductionHypothesis =>
    rw [highest_concat]
    cases List.mem_append.mp member with
    | inl before => exact (inductionHypothesis before).trans (Nat.le_max_left _ _)
    | inr here =>
      rw [List.mem_singleton.mp here]
      exact Nat.le_max_right _ _

theorem gridBase_le_highest (interval : UInt64) (seen : List (UInt64 × Double)) :
    gridBase interval seen ≤ highest seen := by
  cases seen with
  | nil => exact Nat.zero_le _
  | cons first rest => exact (Nat.sub_le _ _).trans (le_highest (List.mem_cons_self ..))

theorem highest_room {interval : UInt64} {seen : List (UInt64 × Double)} (room : HasRoom interval seen) :
    highest seen + interval.toNat < 2 ^ 64 := by
  induction seen using List.reverseRecOn with
  | nil => simpa [highest] using interval.toNat_lt
  | append_singleton seen last inductionHypothesis =>
    have before := inductionHypothesis fun point member => room point (List.mem_append_left _ member)
    have here := room last (by simp)
    rw [highest_concat]
    omega

/-- The state behind the calls on some points. -/
structure UniformTimeSeries.Follows (interval : UInt64) (seen : List (UInt64 × Double)) (output : List (Value Double))
    (series : UniformTimeSeries Double) : Prop where
  step : series.interval = interval
  base : series.baseTimestamp.toNat = gridBase interval seen
  input : series.pointsInput = .ofNat seen.length
  outputs : series.pointsOutput.toNat = Grid.countTo interval.toNat (gridBase interval seen) (highest seen) + 1
  last : seen.getLast? = some (series.lastInputTimestamp, series.lastInputValue)
  grid : output.map (fun value => value.timestamp.toNat) = gridTimestamps interval seen

theorem UniformTimeSeries.advanced_outputs {series : UniformTimeSeries Double} {count : Nat}
    (positive : 0 < series.interval.toNat)
    (room : series.baseTimestamp.toNat + series.interval.toNat * (series.pointsOutput.toNat + count) < 2 ^ 64) :
    (series.advanced count).pointsOutput.toNat = series.pointsOutput.toNat + count := by
  have small : series.pointsOutput.toNat + count ≤ series.interval.toNat * (series.pointsOutput.toNat + count) :=
    Nat.le_mul_of_pos_left _ positive
  rw [UniformTimeSeries.advanced, UInt64.toNat_add, UInt64.toNat_ofNat', Nat.add_mod_mod, Nat.mod_eq_of_lt (by omega)]

theorem UniformTimeSeries.advanced_next {series : UniformTimeSeries Double} {count : Nat}
    (positive : 0 < series.interval.toNat)
    (room : series.baseTimestamp.toNat + series.interval.toNat * (series.pointsOutput.toNat + count) < 2 ^ 64) :
    (series.advanced count).nextOutputTimestamp.toNat =
      series.baseTimestamp.toNat + series.interval.toNat * (series.pointsOutput.toNat + count) := by
  rw [UniformTimeSeries.nextOutputTimestamp, UInt64.toNat_add, UInt64.toNat_mul,
    UniformTimeSeries.advanced_outputs positive room, Nat.add_mod_mod]
  exact Nat.mod_eq_of_lt room


section

variable {interval : UInt64} {seen : List (UInt64 × Double)} {output : List (Value Double)}
  {series : UniformTimeSeries Double} {point : UInt64 × Double}

/-- How many points the next call puts out. -/
def more (interval : UInt64) (seen : List (UInt64 × Double)) (point : UInt64 × Double) : Nat :=
  Grid.countTo interval.toNat (gridBase interval seen) (max (highest seen) point.1.toNat) -
    Grid.countTo interval.toNat (gridBase interval seen) (highest seen)

theorem UniformTimeSeries.Follows.fits (follows : UniformTimeSeries.Follows interval seen output series)
    (room : HasRoom interval (seen ++ [point])) {index : Nat} (less : index ≤ more interval seen point) :
    series.baseTimestamp.toNat + series.interval.toNat * (series.pointsOutput.toNat + index) < 2 ^ 64 := by
  have near := Grid.next_near (gridBase_le_highest interval seen) less
  have all := highest_room room
  rw [highest_concat] at all
  rw [follows.outputs, follows.base, follows.step]
  exact Nat.lt_of_le_of_lt near all

/-- The outputs that the next call makes. -/
theorem UniformTimeSeries.Follows.next (follows : UniformTimeSeries.Follows interval seen output series)
    (positive : 0 < interval.toNat) (room : HasRoom interval (seen ++ [point])) {index : Nat}
    (less : index ≤ more interval seen point) :
    (series.advanced index).nextOutputTimestamp.toNat =
      gridBase interval seen + interval.toNat *
        (Grid.countTo interval.toNat (gridBase interval seen) (highest seen) + 1 + index) := by
  have fits := follows.fits room less
  rw [← follows.outputs, ← follows.base, ← follows.step]
  rw [← follows.step] at positive
  exact UniformTimeSeries.advanced_next positive fits

theorem UniformTimeSeries.Follows.reached (follows : UniformTimeSeries.Follows interval seen output series)
    (positive : 0 < interval.toNat) (room : HasRoom interval (seen ++ [point])) {index : Nat}
    (less : index < more interval seen point) : (series.advanced index).nextOutputTimestamp ≤ point.1 := by
  rw [UInt64.le_iff_toNat_le, follows.next positive room (Nat.le_of_lt less)]
  exact Grid.next_le positive (gridBase_le_highest interval seen) less

/-- The next outputs lie behind every point so far. -/
theorem UniformTimeSeries.Follows.behind (follows : UniformTimeSeries.Follows interval seen output series)
    (positive : 0 < interval.toNat) (room : HasRoom interval (seen ++ [point])) {index : Nat}
    (less : index ≤ more interval seen point) :
    series.lastInputTimestamp < (series.advanced index).nextOutputTimestamp := by
  have behind := @Grid.lt_countTo interval.toNat (highest seen) (gridBase interval seen) positive
  have here := le_highest (List.mem_of_getLast? follows.last)
  rw [UInt64.lt_iff_toNat_lt, follows.next positive room less]
  apply Nat.lt_of_le_of_lt here (Nat.lt_of_lt_of_le behind _)
  exact Nat.add_le_add_left (Nat.mul_le_mul_left _ (Nat.le_add_right _ _)) _

def UniformTimeSeries.added (arithmetic : Arithmetic Double) (series : UniformTimeSeries Double)
    (point : UInt64 × Double) (count : Nat) : List (Value Double) :=
  (List.range count).map fun index => series.drawn arithmetic point (series.advanced index).nextOutputTimestamp

def UniformTimeSeries.after (series : UniformTimeSeries Double) (point : UInt64 × Double) (count : Nat) :
    UniformTimeSeries Double :=
  { series.advanced count with
    pointsInput := series.pointsInput + 1, lastInputTimestamp := point.1, lastInputValue := point.2 }

/-- A later call puts out the points of the grid up to its point. -/
theorem UniformTimeSeries.Follows.addPointAt_ok (follows : UniformTimeSeries.Follows interval seen output series)
    (positive : 0 < interval.toNat) (room : HasRoom interval (seen ++ [point])) (later : series.pointsInput + 1 ≠ 1)
    {turns : Nat} (enough : 2 ^ 64 ≤ turns) :
    UniformTimeSeries.addPointAt arithmetic turns (output, series) point.1 point.2 =
      .ok (output ++ series.added arithmetic point (more interval seen point),
        series.after point (more interval seen point)) := by
  have nonzero : series.interval ≠ 0 := follows.step ▸ ne_zero_of_toNat positive
  have roomHere : point.1.toNat + series.interval.toNat < 2 ^ 64 := by
    rw [follows.step]
    exact room point (by simp)
  have short : point.1 < (series.advanced (more interval seen point)).nextOutputTimestamp := by
    rw [UInt64.lt_iff_toNat_lt, follows.next positive room (Nat.le_refl _)]
    exact Grid.lt_next positive
  have behind := follows.behind positive room (Nat.zero_le _)
  rw [UniformTimeSeries.advanced_zero] at behind
  -- Each output is another timestamp.
  have small : more interval seen point < 2 ^ 64 := by
    have counted := UniformTimeSeries.advanced_outputs (follows.step ▸ positive) (follows.fits room (Nat.le_refl _))
    have bounded := (series.advanced (more interval seen point)).pointsOutput.toNat_lt
    omega
  have run := @UniformTimeSeries.output_ok _ arithmetic { series with pointsInput := series.pointsInput + 1 } point
    (more interval seen point) nonzero roomHere (fun _ less => follows.reached positive room less) short behind output
    turns (by omega)
  rw [UniformTimeSeries.addPointAt]
  simp only [if_neg later, run, Fallible.ok_bind]
  rfl

theorem UniformTimeSeries.Follows.concat (follows : UniformTimeSeries.Follows interval seen output series)
    (positive : 0 < interval.toNat) (room : HasRoom interval (seen ++ [point])) (some_ : seen ≠ []) :
    UniformTimeSeries.Follows interval (seen ++ [point])
      (output ++ series.added arithmetic point (more interval seen point))
      (series.after point (more interval seen point)) where
  step := follows.step
  base := by rw [gridBase_concat interval some_]; exact follows.base
  input := by
    rw [UniformTimeSeries.after, follows.input, List.length_append, List.length_singleton, UInt64.ofNat_add]
    rfl
  outputs := by
    have counted := UniformTimeSeries.advanced_outputs (follows.step ▸ positive) (follows.fits room (Nat.le_refl _))
    have mono := @Grid.countTo_mono interval.toNat _ _ (gridBase interval seen)
      (Nat.le_max_left (highest seen) point.1.toNat)
    rw [UniformTimeSeries.after, counted, follows.outputs, gridBase_concat interval some_, highest_concat, more]
    omega
  last := List.getLast?_concat
  grid := by
    rw [List.map_append, follows.grid, gridTimestamps, gridTimestamps, gridBase_concat interval some_, highest_concat,
      Grid.pointsTo_append (Nat.le_max_left (highest seen) point.1.toNat), UniformTimeSeries.added, List.map_map]
    congr 1
    apply List.map_congr_left
    intro index member
    exact follows.next positive room (Nat.le_of_lt (List.mem_range.mp member))

def UniformTimeSeries.first (interval : UInt64) (point : UInt64 × Double) : UniformTimeSeries Double :=
  { interval, baseTimestamp := point.1 - point.1 % interval, pointsInput := 1, pointsOutput := 1
    lastInputTimestamp := point.1, lastInputValue := point.2 }

theorem UniformTimeSeries.addPointAt_first (positive : 0 < interval.toNat) (turns : Nat) :
    UniformTimeSeries.addPointAt arithmetic turns ([], .new arithmetic interval) point.1 point.2 =
      .ok ([], .first interval point) := if_neg (ne_zero_of_toNat positive)

theorem UniformTimeSeries.follows_first (positive : 0 < interval.toNat) :
    UniformTimeSeries.Follows interval [point] [] (.first interval point) := by
  have base : gridBase interval [point] = point.1.toNat - point.1.toNat % interval.toNat := rfl
  have high : highest [point] = point.1.toNat := Nat.zero_max _
  have left := Nat.mod_le point.1.toNat interval.toNat
  have less := Nat.mod_lt point.1.toNat positive
  have none_ : Grid.countTo interval.toNat (gridBase interval [point]) (highest [point]) = 0 := by
    rw [base, high]
    apply Grid.countTo_eq <;> omega
  constructor
  · rfl
  · rw [base, UniformTimeSeries.first, UInt64.toNat_sub_of_le _ _ (UInt64.le_iff_toNat_le.mpr _), UInt64.toNat_mod]
    rw [UInt64.toNat_mod]
    exact left
  · rfl
  · rw [none_]
    rfl
  · rfl
  · rw [gridTimestamps, Grid.pointsTo, none_]
    rfl

/-- The point is not taken for the first one. -/
theorem UniformTimeSeries.Follows.later (follows : UniformTimeSeries.Follows interval seen output series)
    (some_ : seen ≠ []) (few : seen.length < 2 ^ 64) : series.pointsInput + 1 ≠ 1 := by
  intro one
  have none_ : series.pointsInput = 0 := by simpa using one
  have length := List.length_pos_iff.mpr some_
  have wrapped := congrArg UInt64.toNat (follows.input.symm.trans none_)
  rw [UInt64.toNat_ofNat', Nat.mod_eq_of_lt few] at wrapped
  exact absurd wrapped (Nat.ne_of_gt length)

theorem UniformTimeSeries.addPoints_concat (turns : Nat) :
    UniformTimeSeries.addPoints arithmetic turns interval (seen ++ [point]) =
      UniformTimeSeries.addPoints arithmetic turns interval seen >>= fun state =>
        UniformTimeSeries.addPointAt arithmetic turns state point.1 point.2 := by
  rw [UniformTimeSeries.addPoints, List.foldlM_append]
  simp only [List.foldlM_cons, List.foldlM_nil, bind_pure]
  rfl

/-- Behind some calls. -/
theorem UniformTimeSeries.addPoints_follows (positive : 0 < interval.toNat) (some_ : seen ≠ [])
    (room : HasRoom interval seen) (few : seen.length ≤ 2 ^ 64) :
    ∃ output series,
      (∀ turns, 2 ^ 64 ≤ turns →
        UniformTimeSeries.addPoints arithmetic turns interval seen = .ok (output, series)) ∧
        UniformTimeSeries.Follows interval seen output series := by
  induction seen using List.reverseRecOn with
  | nil => exact absurd rfl some_
  | append_singleton seen point inductionHypothesis =>
    cases seen with
    | nil =>
      refine ⟨[], .first interval point, fun turns _ => ?_, UniformTimeSeries.follows_first positive⟩
      rw [UniformTimeSeries.addPoints, List.nil_append, List.foldlM_cons,
        UniformTimeSeries.addPointAt_first positive]
      rfl
    | cons front rest =>
      have before : front :: rest ≠ [] := List.cons_ne_nil _ _
      rw [List.length_append, List.length_singleton] at few
      obtain ⟨output, series, run, follows⟩ := inductionHypothesis before
        (fun point member => room point (List.mem_append_left _ member)) (by omega)
      refine ⟨output ++ series.added arithmetic point (more interval (front :: rest) point), _, fun turns enough => ?_,
        follows.concat positive room before⟩
      rw [UniformTimeSeries.addPoints_concat, run turns enough, Fallible.ok_bind]
      exact follows.addPointAt_ok positive room (follows.later before (by omega)) enough

theorem HasRoom.front {before after : List (UInt64 × Double)} (room : HasRoom interval (before ++ point :: after)) :
    HasRoom interval (before ++ [point]) := by
  intro other member
  apply room
  rw [List.append_cons]
  exact List.mem_append_left _ member

/-- What a call does in its place among others. -/
theorem UniformTimeSeries.call_ok (positive : 0 < interval.toNat) {before after : List (UInt64 × Double)}
    (room : HasRoom interval (before ++ point :: after)) (few : (before ++ point :: after).length ≤ 2 ^ 64)
    {conditions : UniformTimeSeries Double → List (Value Double) → Prop}
    (first : before = [] → conditions (.new arithmetic interval) [])
    (later : ∀ output series, before ≠ [] → series.pointsInput + 1 ≠ 1 →
      UniformTimeSeries.Follows interval before output series →
      conditions series (series.added arithmetic point (more interval before point))) :
    UniformTimeSeries.Call arithmetic interval before point conditions := by
  by_cases none_ : before = []
  · subst none_
    refine ⟨[], .new arithmetic interval, [], .first interval point, fun turns _ => ⟨rfl, ?_⟩, first rfl⟩
    exact UniformTimeSeries.addPointAt_first positive turns
  · rw [List.length_append, List.length_cons] at few
    obtain ⟨output, series, run, follows⟩ := @UniformTimeSeries.addPoints_follows _ arithmetic _ _ positive
      none_ (fun other member => room other (List.mem_append_left _ member)) (by omega)
    have notFirst := follows.later none_ (by omega)
    exact ⟨output, series, _, _, fun turns enough => ⟨run turns enough,
      follows.addPointAt_ok positive room.front notFirst enough⟩, later output series none_ notFirst follows⟩

/-! ## Lines -/

theorem UniformTimeSeries.Follows.drawn_between
    (follows : UniformTimeSeries.Follows interval seen output series) (positive : 0 < interval.toNat)
    (room : HasRoom interval (seen ++ [point])) {value : Value Double}
    (member : value ∈ series.added arithmetic point (more interval seen point)) :
    ∃ timestamp, series.lastInputTimestamp < timestamp ∧ timestamp ≤ point.1 ∧
      value = series.drawn arithmetic point timestamp := by
  obtain ⟨index, less, rfl⟩ := List.mem_map.mp member
  have less := List.mem_range.mp less
  exact ⟨_, follows.behind positive room (Nat.le_of_lt less), follows.reached positive room less, rfl⟩

end

theorem UniformTimeSeries.drawn_onLine {arithmetic : Arithmetic ℚ} (exact_ : arithmetic.Exact)
    {series : UniformTimeSeries ℚ} {point : UInt64 × ℚ} {timestamp : UInt64}
    (behind : series.lastInputTimestamp < timestamp) (before : timestamp ≤ point.1) :
    OnLine (series.lastInputTimestamp, series.lastInputValue) point (series.drawn arithmetic point timestamp) := by
  refine ⟨behind, before, ?_⟩
  have start := UInt64.lt_iff_toNat_lt.mp behind
  have stop := UInt64.le_iff_toNat_le.mp before
  have distance : (point.1.toNat : ℚ) - series.lastInputTimestamp.toNat ≠ 0 := by
    rw [sub_ne_zero]
    exact_mod_cast (by omega : point.1.toNat ≠ series.lastInputTimestamp.toNat)
  have whole : ((point.1 - series.lastInputTimestamp).toNat : ℚ) =
      (point.1.toNat : ℚ) - series.lastInputTimestamp.toNat := by
    rw [UInt64.toNat_sub_of_le _ _ (UInt64.le_iff_toNat_le.mpr (by omega)), Nat.cast_sub (by omega)]
  have part : ((timestamp - series.lastInputTimestamp).toNat : ℚ) =
      (timestamp.toNat : ℚ) - series.lastInputTimestamp.toNat := by
    rw [UInt64.toNat_sub_of_le _ _ (UInt64.le_of_lt behind), Nat.cast_sub (by omega)]
  simp only [UniformTimeSeries.drawn, newValue, Option.some.injEq]
  split
  · rename_i same
    rw [← same, div_mul_cancel₀ _ distance]
    ring
  · rw [exact_.add, exact_.mul, exact_.div, exact_.sub, exact_.ofUInt64, exact_.ofUInt64, whole, part]
    · ring
    · rw [exact_.ofUInt64, whole]
      exact distance

/-! ## All calls -/

theorem UniformTimeSeries.addPoints_gapFree {interval : UInt64} (positive : 0 < interval.toNat)
    {points : List (UInt64 × Double)} (room : HasRoom interval points) (few : points.length ≤ 2 ^ 64) :
    UniformTimeSeries.GapFree arithmetic interval points := by
  constructor
  · by_cases none_ : points = []
    · subst none_
      refine ⟨[], .new arithmetic interval, fun _ _ => rfl, ?_⟩
      simp [gridTimestamps, Grid.pointsTo, Grid.countTo, highest]
    · obtain ⟨output, series, run, follows⟩ := UniformTimeSeries.addPoints_follows positive none_ room few
      exact ⟨output, series, run, follows.grid⟩
  · rintro before point after rfl
    apply UniformTimeSeries.call_ok positive room few
    · intro _
      refine ⟨ne_zero_of_toNat positive, ?_⟩
      rw [UInt64.le_iff_toNat_le, UInt64.toNat_mod]
      exact Nat.mod_le _ _
    · intro output series some_ later follows
      have behind := follows.behind positive room.front (Nat.zero_le _)
      rw [UniformTimeSeries.advanced_zero] at behind
      have here : point.1.toNat + series.interval.toNat < 2 ^ 64 := by
        rw [follows.step]
        exact room point (by simp)
      have nonzero : series.interval ≠ 0 := follows.step ▸ ne_zero_of_toNat positive
      rw [UniformTimeSeries.Forward, if_neg later]
      exact fun turns => @UniformTimeSeries.turnsForward _ { series with pointsInput := series.pointsInput + 1 } _
        nonzero here behind turns

theorem UniformTimeSeries.addPoints_interpolates {arithmetic : Arithmetic ℚ} (exact_ : arithmetic.Exact)
    {interval : UInt64} (positive : 0 < interval.toNat) {points : List (UInt64 × ℚ)} (room : HasRoom interval points)
    (few : points.length ≤ 2 ^ 64) : UniformTimeSeries.Interpolates arithmetic interval points := by
  rintro before point after rfl
  apply UniformTimeSeries.call_ok positive room few
  · intro _ value member
    cases member
  · intro output series some_ later follows value member
    obtain ⟨timestamp, behind, short, rfl⟩ := follows.drawn_between positive room.front member
    exact ⟨_, follows.last, UniformTimeSeries.drawn_onLine exact_ behind short⟩

/-- A series of at most `2 ^ 64` points has no gap, and over the rational numbers it lies on the lines between its
points. -/
theorem uniformTimeSeries_gapFree {interval : UInt64} (positive : 0 < interval) :
    (∀ (Double : Type) (arithmetic : Arithmetic Double) (points : List (UInt64 × Double)),
      HasRoom interval points → points.length ≤ 2 ^ 64 → UniformTimeSeries.GapFree arithmetic interval points) ∧
    ∀ points : List (UInt64 × ℚ), HasRoom interval points → points.length ≤ 2 ^ 64 →
      UniformTimeSeries.Interpolates rationals interval points := by
  have steps : 0 < interval.toNat := UInt64.lt_iff_toNat_lt.mp positive
  exact ⟨fun _ _ _ room few => UniformTimeSeries.addPoints_gapFree steps room few,
    fun _ room few => UniformTimeSeries.addPoints_interpolates rationals_exact steps room few⟩

theorem uniformTimeSeries_gapFree_two :
    UniformTimeSeries.GapFree rationals 60 [(30, 1), (150, 5)] ∧
      UniformTimeSeries.Interpolates rationals 60 [(30, 1), (150, 5)] := by
  have room : HasRoom 60 [(30, 1), (150, (5 : ℚ))] := by simp [HasRoom]
  have gapFree := @uniformTimeSeries_gapFree 60 (by decide)
  exact ⟨gapFree.1 ℚ rationals _ room (by decide), gapFree.2 _ room (by decide)⟩

/-! ## More points -/

theorem highest_replicate (count : Nat) : highest (List.replicate count ((0 : UInt64), (0 : ℚ))) = 0 := by
  induction count with
  | zero => rfl
  | succ count inductionHypothesis => rw [List.replicate_succ', highest_concat, inductionHypothesis]; rfl

/-- The point that brings the number of points back to one is taken for the first one. -/
theorem UniformTimeSeries.not_gapFree_of_wraps {count : Nat} (many : count = 2 ^ 64) :
    ¬UniformTimeSeries.GapFree rationals 1 (List.replicate count (0, 0) ++ [(5, 0)]) := by
  intro gapFree
  have some_ : List.replicate count ((0 : UInt64), (0 : ℚ)) ≠ [] := by
    rw [ne_eq, List.replicate_eq_nil_iff]
    omega
  have room : HasRoom 1 (List.replicate count ((0 : UInt64), (0 : ℚ))) := by
    intro point member
    rw [List.eq_of_mem_replicate member]
    decide
  have length : (List.replicate count ((0 : UInt64), (0 : ℚ))).length = 2 ^ 64 := List.length_replicate.trans many
  obtain ⟨output, series, run, follows⟩ :=
    @UniformTimeSeries.addPoints_follows _ rationals _ _ (by decide) some_ room (Nat.le_of_eq length)
  obtain ⟨all, final, whole, grid⟩ := gapFree.grid
  have first : series.pointsInput + 1 = 1 := by
    rw [follows.input, length]
    rfl
  have low : highest (List.replicate count ((0 : UInt64), (0 : ℚ))) = 0 := highest_replicate count
  have base : gridBase 1 (List.replicate count ((0 : UInt64), (0 : ℚ))) = 0 := by
    have below := gridBase_le_highest 1 (List.replicate count ((0 : UInt64), (0 : ℚ)))
    omega
  have empty : output = [] := by
    have grid := follows.grid
    rw [gridTimestamps, low, base] at grid
    exact List.map_eq_nil_iff.mp grid
  have last := whole (2 ^ 64) (Nat.le_refl _)
  rw [UniformTimeSeries.addPoints_concat, run (2 ^ 64) (Nat.le_refl _), Fallible.ok_bind, UniformTimeSeries.addPointAt]
    at last
  have step : series.interval ≠ 0 := follows.step ▸ (by decide)
  simp only [if_pos first, if_neg step, Except.ok.injEq, Prod.mk.injEq] at last
  rw [← last.1, empty, gridTimestamps, gridBase_concat 1 some_, base, highest_concat, low] at grid
  exact absurd grid (by decide)

/-- The series misses the grid on a point behind `2 ^ 64` others. -/
theorem uniformTimeSeries_wraps :
    (0 : UInt64) < 1 ∧ HasRoom 1 (List.replicate (2 ^ 64) (0, 0) ++ [(5, (0 : ℚ))]) ∧
      ¬UniformTimeSeries.GapFree rationals 1 (List.replicate (2 ^ 64) (0, 0) ++ [(5, 0)]) := by
  refine ⟨by decide, ?_, UniformTimeSeries.not_gapFree_of_wraps rfl⟩
  intro point member
  cases List.mem_append.mp member with
  | inl before =>
    rw [List.eq_of_mem_replicate before]
    decide
  | inr last =>
    rw [List.mem_singleton.mp last]
    decide

end OpenInstrument.Server
