import OpenInstrument.Library.Fallible
import OpenInstrument.Library.Grid
import OpenInstrument.MutationWindows

/-! # The grid of `Interpolate`

`Interpolate` is to send one value for each multiple of the duration from its first value to its last.  It keeps
the next boundary, which is the first multiple behind the last value.  The loop that fills in missing values
goes up to and including the value at hand; when that lies on a boundary itself, it is sent a second time and
the boundary behind it is passed over.

A value that was passed on can only be moved back meanwhile.
-/

namespace OpenInstrument.Mutations

open Grid (IsGrid IsNext)

variable {Address Double : Type}

def stamps (effects : List (Effect Address Double)) : List Nat :=
  (effects.filterMap Effect.sent).map fun item => item.timestamp.toNat

@[simp] theorem stamps_nil : stamps ([] : List (Effect Address Double)) = [] := rfl

@[simp] theorem stamps_append (first second : List (Effect Address Double)) :
    stamps (first ++ second) = stamps first ++ stamps second := by
  simp [stamps]

@[simp] theorem stamps_send (item : Item Address Double) (effects : List (Effect Address Double)) :
    stamps (.send item :: effects) = item.timestamp.toNat :: stamps effects := rfl

@[simp] theorem stamps_setTimestamp (addresses : List Address) (timestamp : UInt64) :
    stamps (addresses.map fun address => (.setTimestamp address timestamp : Effect Address Double)) = [] := by
  induction addresses with
  | nil => rfl
  | cons address addresses inductionHypothesis => exact inductionHypothesis

/-! ## One turn -/

section

variable (arithmetic : Arithmetic Double) {duration : UInt64} {read : Reads} {turns : Nat}

theorem toNat_pos (positive : duration ≠ 0) : 0 < duration.toNat :=
  Nat.pos_of_ne_zero fun zero => positive (UInt64.toNat_inj.mp zero)

/-- The loop that fills in values sends the boundaries up to the value, and ends at the next one. -/
theorem fillLoop_grid (positive : duration ≠ 0) (previous : Previous Address Double) {v : Item Address Double}
    (rate : Double)
    (room : ∀ point, duration.toNat ∣ point → point ≤ v.timestamp.toNat → point + duration.toNat < 2 ^ 64)
    (reads : Nat) {timestamp : UInt64} (boundary : duration.toNat ∣ timestamp.toNat)
    (near : timestamp.toNat ≤ v.timestamp.toNat + duration.toNat) :
    (∃ effects, fillLoop arithmetic duration read previous v rate turns reads timestamp = (effects, none) ∧
        turns ≤ v.timestamp.toNat + 1 - timestamp.toNat) ∨
      ∃ effects later next,
        fillLoop arithmetic duration read previous v rate turns reads timestamp = (effects, some (later, next)) ∧
          IsGrid duration.toNat timestamp.toNat (v.timestamp.toNat + 1) (stamps effects) ∧
          IsNext duration.toNat v.timestamp.toNat next.toNat := by
  have some_ := toNat_pos positive
  induction turns generalizing reads timestamp with
  | zero => exact .inl ⟨[], rfl, Nat.zero_le _⟩
  | succ turns inductionHypothesis =>
    rw [fillLoop]
    by_cases inside : timestamp ≤ v.timestamp
    · have before := UInt64.le_iff_toNat_le.mp inside
      have advanced : (timestamp + duration).toNat = timestamp.toNat + duration.toNat := by
        rw [UInt64.toNat_add, Nat.mod_eq_of_lt (room _ boundary before)]
      simp only [if_pos inside]
      -- One boundary is sent, and the loop goes on from the next one.
      have rest := @inductionHypothesis (reads + 2) (timestamp + duration)
        (by rw [advanced]; exact Nat.dvd_add boundary (Nat.dvd_refl _)) (by omega)
      rw [advanced] at rest
      cases rest with
      | inl exhausted =>
        obtain ⟨effects, filled, few⟩ := exhausted
        exact .inl ⟨_, by rw [filled], by omega⟩
      | inr ended =>
        obtain ⟨effects, later, next, filled, grid, isNext⟩ := ended
        refine .inr ⟨_, later, next, by rw [filled], ?_, isNext⟩
        exact grid.cons some_ boundary (by omega)
    · have behind := not_le.mp fun before => inside (UInt64.le_iff_toNat_le.mpr before)
      simp only [if_neg inside]
      exact .inr ⟨[], reads, timestamp, rfl, IsGrid.nil_of_le behind, ⟨boundary, behind, near⟩⟩

/-- The state behind some values, the last of which lies at a place. -/
structure Awaits (duration : UInt64) (place : Nat) (state : InterpolateState Address Double) : Prop where
  holds : ∃ previous, state.previous = some previous ∧ previous.item.timestamp.toNat ≤ place
  isNext : IsNext duration.toNat place state.timestamp.toNat

/-- No boundary up to the value wraps around when the duration is added. -/
def Room (duration : UInt64) (v : Item Address Double) : Prop :=
  ∀ point, duration.toNat ∣ point → point ≤ v.timestamp.toNat → point + duration.toNat < 2 ^ 64

/-- The value lies on a boundary. -/
def Aligned (duration : UInt64) (v : Item Address Double) : Prop := v.timestamp % duration = 0

instance (duration : UInt64) (v : Item Address Double) : Decidable (Aligned duration v) :=
  inferInstanceAs (Decidable (v.timestamp % duration = 0))

theorem aligned_iff {v : Item Address Double} : Aligned duration v ↔ duration.toNat ∣ v.timestamp.toNat := by
  rw [Aligned, Nat.dvd_iff_mod_eq_zero, ← UInt64.toNat_mod, ← UInt64.toNat_inj]
  rfl

variable {place : Nat} {state : InterpolateState Address Double} {v : Item Address Double}

/-- The first value: it is sent where it lies on the grid. -/
theorem interpolateFirst_grid (positive : duration ≠ 0) (room : Room duration v) :
    ∃ effects next, interpolateFirst duration v = .ok (effects, some next) ∧
      IsGrid duration.toNat v.timestamp.toNat (v.timestamp.toNat + 1) (stamps effects) ∧
      Awaits duration v.timestamp.toNat next := by
  have some_ := toNat_pos positive
  rw [interpolateFirst, remainder, if_neg positive]
  by_cases aligned : v.timestamp % duration = 0
  · have multiple : duration.toNat ∣ v.timestamp.toNat := aligned_iff.mp aligned
    have advanced : (v.timestamp + duration).toNat = v.timestamp.toNat + duration.toNat := by
      rw [UInt64.toNat_add, Nat.mod_eq_of_lt (room _ multiple (le_refl _))]
    refine ⟨_, _, by simp only [Fallible.ok_bind, if_pos aligned]; rfl, ?_, ⟨⟨_, rfl, le_refl _⟩, ?_⟩⟩
    · exact (IsGrid.nil_of_le (by omega)).cons some_ multiple (Nat.lt_succ_self _)
    · exact advanced ▸ ⟨Nat.dvd_add multiple (Nat.dvd_refl _), by omega, le_refl _⟩
  · -- The value is moved back to the boundary before it, and nothing is sent.
    have off : ¬ duration.toNat ∣ v.timestamp.toNat := fun multiple => aligned (aligned_iff.mpr multiple)
    have boundary : (v.timestamp / duration * duration).toNat =
        v.timestamp.toNat / duration.toNat * duration.toNat := by
      rw [UInt64.toNat_mul, UInt64.toNat_div, Nat.mod_eq_of_lt]
      exact lt_of_le_of_lt (Nat.div_mul_le_self _ _) v.timestamp.toNat_lt
    have parts := Nat.div_add_mod' v.timestamp.toNat duration.toNat
    have rest := Nat.mod_lt v.timestamp.toNat some_
    have multiple : duration.toNat ∣ v.timestamp.toNat / duration.toNat * duration.toNat := Nat.dvd_mul_left _ _
    have advanced : (v.timestamp / duration * duration + duration).toNat =
        v.timestamp.toNat / duration.toNat * duration.toNat + duration.toNat := by
      rw [UInt64.toNat_add, boundary, Nat.mod_eq_of_lt (room _ multiple (by omega))]
    have remains : v.timestamp.toNat % duration.toNat ≠ 0 := fun none => off (Nat.dvd_of_mod_eq_zero none)
    refine ⟨_, _, by simp only [Fallible.ok_bind, if_neg aligned, quotient, if_neg positive]; rfl, ?_, ?_⟩
    · rw [stamps_setTimestamp]
      refine ⟨List.Pairwise.nil, fun point => ?_⟩
      simp only [List.not_mem_nil, false_iff]
      rintro ⟨divides, behind, before⟩
      obtain rfl : point = v.timestamp.toNat := by omega
      exact off divides
    · refine ⟨⟨_, rfl, ?_⟩, ?_⟩
      · change (v.timestamp / duration * duration).toNat ≤ _
        rw [boundary]
        omega
      · change IsNext _ _ (v.timestamp / duration * duration + duration).toNat
        rw [advanced]
        exact ⟨Nat.dvd_add multiple (Nat.dvd_refl _), by omega, by omega⟩

/-- A value before the next boundary is passed over. -/
theorem interpolate_turn_before (awaits : Awaits duration place state) (later : place < v.timestamp.toNat)
    (before : v.timestamp < state.timestamp) :
    (interpolate arithmetic duration read turns).turn state v = .ok ([], some state) ∧
      Awaits duration v.timestamp.toNat state := by
  obtain ⟨previous, held, earlier⟩ := awaits.holds
  constructor
  · simp only [interpolate, held, ge_iff_le, if_neg (not_le.mpr before)]
  · have near := awaits.isNext.near
    exact ⟨⟨previous, held, by omega⟩, awaits.isNext.multiple, UInt64.lt_iff_toNat_lt.mp before, by omega⟩

/-- A value at or behind the next boundary: the boundaries up to it are sent, and itself where it is one. -/
theorem interpolate_turn_behind (positive : duration ≠ 0) (settled : ∀ time timestamp, read time timestamp ≤ timestamp)
    (awaits : Awaits duration place state) (later : place < v.timestamp.toNat) (room : Room duration v)
    (behind : state.timestamp ≤ v.timestamp) :
    (∃ effects, (interpolate arithmetic duration read turns).turn state v = .ok (effects, none) ∧
        turns ≤ v.timestamp.toNat + 1) ∨
      ∃ effects next reads,
        IsGrid duration.toNat state.timestamp.toNat (v.timestamp.toNat + 1) (stamps effects) ∧
        IsNext duration.toNat v.timestamp.toNat next.toNat ∧
        (interpolate arithmetic duration read turns).turn state v =
          .ok (if Aligned duration v then
              (effects ++ [.send v],
                some { previous := some { item := v, passedOn := true }, timestamp := next + duration, reads })
            else (effects, some { previous := some { item := v, passedOn := false }, timestamp := next, reads })) := by
  obtain ⟨previous, held, earlier⟩ := awaits.holds
  have near := awaits.isNext.near
  have turn : (interpolate arithmetic duration read turns).turn state v =
      interpolateNext arithmetic duration read turns previous state v := by
    simp only [interpolate, held, ge_iff_le, if_pos behind]
  -- A value that was passed on may have been changed since, but never to a later time.
  have held_before : ∀ time, previous.readTimestamp read time < v.timestamp := by
    intro time
    have before : previous.item.timestamp < v.timestamp := UInt64.lt_iff_toNat_lt.mpr (by omega)
    rw [Previous.readTimestamp]
    split
    · exact lt_of_le_of_lt (settled time _) before
    · exact before
  have filled := @fillLoop_grid Address Double arithmetic duration read turns positive previous v
    (arithmetic.sub (v.getDoubleValue arithmetic) (previous.item.getDoubleValue arithmetic)) room state.reads
    state.timestamp awaits.isNext.multiple (by omega)
  rw [turn, interpolateNext]
  cases filled with
  | inl exhausted =>
    obtain ⟨effects, filled, few⟩ := exhausted
    exact .inl ⟨effects, by rw [filled], by omega⟩
  | inr ended =>
    obtain ⟨effects, reads, next, filled, grid, isNext⟩ := ended
    refine .inr ⟨effects, next, reads + 1, grid, isNext, ?_⟩
    by_cases aligned : Aligned duration v
    · have none : v.timestamp % duration = 0 := aligned
      simp only [filled, if_pos (held_before reads), remainder, if_neg positive, if_pos none, if_pos aligned]
    · have some_ : ¬ v.timestamp % duration = 0 := aligned
      simp only [filled, if_pos (held_before reads), remainder, if_neg positive, if_neg some_, if_neg aligned]

/-! ## A run -/

/-- Values off the grid, each behind the one before it: the boundaries between the place and the last of them
are sent. -/
theorem interpolate_runFrom_grid (positive : duration ≠ 0)
    (settled : ∀ time timestamp, read time timestamp ≤ timestamp) (enough : 2 ^ 64 < turns)
    {items : List (Item Address Double)} (awaits : Awaits duration place state)
    (increasing : (place :: items.map fun v => v.timestamp.toNat).Pairwise (· < ·))
    (room : ∀ v ∈ items, Room duration v) (off : ∀ v ∈ items, ¬ Aligned duration v) :
    ∃ effects, (interpolate arithmetic duration read turns).runFrom true state items =
        .ok { items := effects, closed := true } ∧
      IsGrid duration.toNat (place + 1) ((place :: items.map fun v => v.timestamp.toNat).getLast (by simp) + 1)
        (stamps effects) := by
  induction items generalizing place state with
  | nil => exact ⟨[], rfl, IsGrid.nil_of_le (by simp)⟩
  | cons v items inductionHypothesis =>
    rw [List.map_cons, List.pairwise_cons] at increasing
    have later := increasing.1 _ List.mem_cons_self
    have last := Grid.head_le_getLast increasing.2
    simp only [List.map_cons, List.getLast_cons_cons, Loop.runFrom]
    -- A value before the next boundary sends nothing; any other fills the boundaries up to itself.
    by_cases before : v.timestamp < state.timestamp
    · obtain ⟨turn, next⟩ :=
        @interpolate_turn_before _ _ arithmetic duration read turns place state v awaits later before
      obtain ⟨effects, ran, grid⟩ := inductionHypothesis next increasing.2
        (fun v member => room v (List.mem_cons_of_mem _ member)) (fun v member => off v (List.mem_cons_of_mem _ member))
      refine ⟨effects, by simp only [turn, ran, List.nil_append], ?_⟩
      have skipped := awaits.isNext.isGrid_nil (UInt64.lt_iff_toNat_lt.mp before)
      exact skipped.append grid (by omega) (by omega)
    · cases @interpolate_turn_behind _ _ arithmetic duration read turns place state v positive settled awaits later
        (room v List.mem_cons_self) (not_lt.mp before) with
      | inl exhausted =>
        obtain ⟨_, _, few⟩ := exhausted
        have bound := v.timestamp.toNat_lt
        omega
      | inr ended =>
        obtain ⟨filled, next, reads, fill, isNext, turn⟩ := ended
        rw [if_neg (off v List.mem_cons_self)] at turn
        have waits : Awaits duration v.timestamp.toNat
            { previous := some { item := v, passedOn := false }, timestamp := next, reads } :=
          ⟨⟨_, rfl, le_refl _⟩, isNext⟩
        obtain ⟨effects, ran, grid⟩ := inductionHypothesis waits increasing.2
          (fun v member => room v (List.mem_cons_of_mem _ member))
          (fun v member => off v (List.mem_cons_of_mem _ member))
        refine ⟨filled ++ effects, by simp only [turn, ran], ?_⟩
        have reached := UInt64.le_iff_toNat_le.mp (not_lt.mp before)
        rw [stamps_append]
        exact (fill.extend awaits.isNext (by omega)).append grid (by omega) (by omega)

/-- A value on the grid behind the first one is sent twice. -/
theorem interpolate_runFrom_repeats (positive : duration ≠ 0)
    (settled : ∀ time timestamp, read time timestamp ≤ timestamp) {items : List (Item Address Double)}
    (awaits : Awaits duration place state)
    (increasing : (place :: items.map fun v => v.timestamp.toNat).Pairwise (· < ·))
    (room : ∀ v ∈ items, Room duration v) (on : ∃ v ∈ items, Aligned duration v)
    {values : Values Address Double}
    (ran : (interpolate arithmetic duration read turns).runFrom true state items = .ok values)
    (closed : values.closed = true) : ¬ (stamps values.items).Pairwise (· < ·) := by
  induction items generalizing place state values with
  | nil =>
    obtain ⟨v, none, _⟩ := on
    cases none
  | cons v items inductionHypothesis =>
    rw [List.map_cons, List.pairwise_cons] at increasing
    have later := increasing.1 _ List.mem_cons_self
    -- What is sent for the values behind this one is not increasing, unless this one lies on the grid.
    have rest : ∀ next sent, Awaits duration v.timestamp.toNat next → ¬ Aligned duration v →
        (interpolate arithmetic duration read turns).turn state v = .ok (sent, some next) →
        ¬ (stamps values.items).Pairwise (· < ·) := by
      intro next sent waits off turn
      have behind : ∃ v ∈ items, Aligned duration v := by
        obtain ⟨other, member, aligned⟩ := on
        cases List.mem_cons.mp member with
        | inl same => exact absurd (same ▸ aligned) off
        | inr member => exact ⟨other, member, aligned⟩
      obtain ⟨later, run, rfl⟩ := Loop.exists_of_runFrom_cons turn ran
      intro sorted
      rw [stamps_append] at sorted
      exact inductionHypothesis waits increasing.2 (fun v member => room v (List.mem_cons_of_mem _ member)) behind
        run closed (List.pairwise_append.mp sorted).2.1
    by_cases before : v.timestamp < state.timestamp
    · obtain ⟨turn, next⟩ :=
        @interpolate_turn_before _ _ arithmetic duration read turns place state v awaits later before
      apply rest state [] next _ turn
      intro aligned
      have least := awaits.isNext.le (aligned_iff.mp aligned) later
      have less := UInt64.lt_iff_toNat_lt.mp before
      omega
    · cases @interpolate_turn_behind _ _ arithmetic duration read turns place state v positive settled awaits later
        (room v List.mem_cons_self) (not_lt.mp before) with
      | inl exhausted =>
        obtain ⟨_, turn, _⟩ := exhausted
        rw [Loop.runFrom, turn] at ran
        obtain rfl := Except.ok.inj ran
        cases closed
      | inr ended =>
        obtain ⟨filled, next, reads, fill, isNext, turn⟩ := ended
        by_cases aligned : Aligned duration v
        · -- The value is the last of the boundaries that were filled in.
          have reached := UInt64.le_iff_toNat_le.mp (not_lt.mp before)
          have member : v.timestamp.toNat ∈ stamps filled :=
            (fill.exact_ _).mpr ⟨aligned_iff.mp aligned, reached, Nat.lt_succ_self _⟩
          rw [if_pos aligned] at turn
          obtain ⟨later, _, rfl⟩ := Loop.exists_of_runFrom_cons turn ran
          intro sorted
          rw [stamps_append, stamps_append] at sorted
          exact Grid.not_increasing_concat member (List.pairwise_append.mp sorted).1
        · rw [if_neg aligned] at turn
          exact rest _ _ ⟨⟨_, rfl, le_refl _⟩, isNext⟩ aligned turn

end

/-! ## The grid -/

/-- The multiples of the duration from the first timestamp to the last, in increasing order. -/
structure Uniform (duration : UInt64) (items : List (Item Address Double)) (timestamps : List Nat) : Prop where
  increasing : timestamps.Pairwise (· < ·)
  exact_ : ∀ point, point ∈ timestamps ↔ duration.toNat ∣ point ∧
    (∃ first ∈ items.head?, first.timestamp.toNat ≤ point) ∧ ∃ last ∈ items.getLast?, point ≤ last.timestamp.toNat

/-- Strictly increasing timestamps, the last with a boundary behind it. -/
structure Fits (duration : UInt64) (items : List (Item Address Double)) : Prop where
  increasing : items.Pairwise fun first second => first.timestamp < second.timestamp
  room : ∀ last ∈ items.getLast?, (last.timestamp.toNat / duration.toNat + 1) * duration.toNat < 2 ^ 64

theorem Fits.increasing_toNat {duration : UInt64} {items : List (Item Address Double)} (fits : Fits duration items) :
    (items.map fun v => v.timestamp.toNat).Pairwise (· < ·) :=
  List.pairwise_map.mpr (fits.increasing.imp fun less => UInt64.lt_iff_toNat_lt.mp less)

theorem Fits.le_last {duration : UInt64} {items : List (Item Address Double)} (fits : Fits duration items)
    {v last : Item Address Double} (member : v ∈ items) (isLast : last ∈ items.getLast?) :
    v.timestamp.toNat ≤ last.timestamp.toNat := by
  obtain ⟨before, rfl⟩ := List.getLast?_eq_some_iff.mp isLast
  cases List.mem_append.mp member with
  | inl earlier =>
    have less := (List.pairwise_append.mp fits.increasing).2.2 v earlier last (List.mem_singleton_self _)
    exact le_of_lt (UInt64.lt_iff_toNat_lt.mp less)
  | inr same => rw [List.mem_singleton.mp same]

theorem Fits.room_mem {duration : UInt64} (positive : duration ≠ 0) {items : List (Item Address Double)}
    (fits : Fits duration items) {v : Item Address Double} (member : v ∈ items) : Room duration v := by
  obtain ⟨last, isLast⟩ : ∃ last, items.getLast? = some last :=
    Option.isSome_iff_exists.mp (by simpa using List.ne_nil_of_mem member)
  have before := fits.le_last member isLast
  rintro point ⟨times, rfl⟩ inside
  have some_ := toNat_pos positive
  have few : times ≤ last.timestamp.toNat / duration.toNat := by
    rw [Nat.le_div_iff_mul_le some_, Nat.mul_comm]
    omega
  calc duration.toNat * times + duration.toNat
      = (times + 1) * duration.toNat := by rw [Nat.add_mul, Nat.one_mul, Nat.mul_comm]
    _ ≤ (last.timestamp.toNat / duration.toNat + 1) * duration.toNat := Nat.mul_le_mul_right _ (by omega)
    _ < 2 ^ 64 := fits.room last isLast

/-- The first timestamp and the last are the bounds of the grid. -/
theorem uniform_iff {duration : UInt64} {v : Item Address Double} {items : List (Item Address Double)}
    {timestamps : List Nat} :
    Uniform duration (v :: items) timestamps ↔
      IsGrid duration.toNat v.timestamp.toNat
        ((v.timestamp.toNat :: items.map fun v => v.timestamp.toNat).getLast (by simp) + 1) timestamps := by
  have last : (v.timestamp.toNat :: items.map fun v => v.timestamp.toNat).getLast (by simp) =
      ((v :: items).getLast (by simp)).timestamp.toNat := by
    rw [← List.getLast_map (f := fun v : Item Address Double => v.timestamp.toNat) (by simp)]
    rfl
  have bounds : ∀ point, (duration.toNat ∣ point ∧ (∃ first ∈ (v :: items).head?, first.timestamp.toNat ≤ point) ∧
        ∃ last ∈ (v :: items).getLast?, point ≤ last.timestamp.toNat) ↔
      duration.toNat ∣ point ∧ v.timestamp.toNat ≤ point ∧
        point < ((v :: items).getLast (by simp)).timestamp.toNat + 1 := by
    intro point
    rw [Nat.lt_add_one_iff]
    simp [List.getLast?_eq_some_getLast]
  rw [last]
  constructor
  · intro uniform
    exact ⟨uniform.increasing, fun point => (uniform.exact_ point).trans (bounds point)⟩
  · intro grid
    exact ⟨grid.increasing, fun point => (grid.exact_ point).trans (bounds point).symm⟩

/-- `Interpolate` sends the grid exactly when no value but the first lies on a boundary. -/
theorem interpolate_uniform_iff (arithmetic : Arithmetic Double) {duration : UInt64} (positive : duration ≠ 0)
    {read : Reads} (settled : ∀ time timestamp, read time timestamp ≤ timestamp)
    {items : List (Item Address Double)} (fits : Fits duration items) :
    (∃ turns values, (interpolate arithmetic duration read turns).run { items, closed := true } = .ok values ∧
        values.closed = true ∧ Uniform duration items (stamps values.items)) ↔
      ∀ v ∈ items.tail, v.timestamp % duration ≠ 0 := by
  cases items with
  | nil =>
    simp only [List.tail_nil, List.not_mem_nil, false_implies, implies_true, iff_true]
    refine ⟨0, _, rfl, rfl, ⟨List.Pairwise.nil, ?_⟩⟩
    simp [stamps, interpolate]
  | cons v items =>
    have increasing := fits.increasing_toNat
    have room : ∀ v ∈ items, Room duration v :=
      fun v member => fits.room_mem positive (List.mem_cons_of_mem _ member)
    obtain ⟨effects, next, first, grid, awaits⟩ :=
      interpolateFirst_grid positive (fits.room_mem positive (List.mem_cons_self (a := v)))
    have turn : ∀ turns, (interpolate arithmetic duration read turns).turn
        (interpolate arithmetic duration read turns).start v = .ok (effects, some next) := fun _ => first
    rw [List.tail_cons]
    constructor
    -- A later value on a boundary is sent twice, once by the filling loop.
    · rintro ⟨turns, values, ran, closed, uniform⟩ w member aligned
      obtain ⟨later, run, rfl⟩ := Loop.exists_of_runFrom_cons (turn turns) ran
      have repeats := interpolate_runFrom_repeats arithmetic positive settled awaits increasing room
        ⟨w, member, aligned⟩ run closed
      have sorted := uniform.increasing
      rw [stamps_append] at sorted
      exact repeats (List.pairwise_append.mp sorted).2.1
    · intro off
      obtain ⟨later, ran, rest⟩ := interpolate_runFrom_grid arithmetic positive settled
        (Nat.lt_succ_self (2 ^ 64)) awaits increasing room off
      refine ⟨2 ^ 64 + 1, { items := effects ++ later, closed := true }, ?_, rfl, ?_⟩
      · simp only [Loop.run, Loop.runFrom, turn, ran]
      · rw [uniform_iff, stamps_append]
        exact grid.append rest (by omega) (Nat.succ_le_succ (Grid.head_le_getLast increasing))

theorem interpolate_uniform_two :
    (∃ turns values,
        (interpolate rationals 10 (fun _ timestamp => timestamp) turns).run
          { items := [Item.new 1 5, (Item.new 35 7 : Item Empty ℚ)], closed := true } = .ok values ∧
        values.closed = true ∧
        Uniform 10 [Item.new 1 5, (Item.new 35 7 : Item Empty ℚ)] (stamps values.items)) ↔
      ∀ v ∈ [Item.new 1 5, (Item.new 35 7 : Item Empty ℚ)].tail, v.timestamp % 10 ≠ 0 :=
  interpolate_uniform_iff rationals (by decide) (fun _ _ => le_refl _)
    ⟨by simp [Item.timestamp, Item.new], by simp [Item.timestamp, Item.new]⟩

/-- The value at 10 is sent twice, and the one at 20 is not sent. -/
theorem interpolate_repeats :
    Fits 10 [Item.new 0 1, Item.new 10 2, (Item.new 20 3 : Item Empty ℚ)] ∧
      ∀ turns, ∃ values,
        (interpolate rationals 10 (fun _ timestamp => timestamp) (turns + 2)).run
            { items := [Item.new 0 1, Item.new 10 2, (Item.new 20 3 : Item Empty ℚ)], closed := true } = .ok values ∧
          values.closed = true ∧ stamps values.items = [0, 10, 10] ∧
          ¬ Uniform 10 [Item.new 0 1, Item.new 10 2, (Item.new 20 3 : Item Empty ℚ)] (stamps values.items) := by
  refine ⟨⟨by simp [Item.timestamp, Item.new], by simp [Item.timestamp, Item.new]⟩, fun turns => ?_⟩
  refine ⟨_, rfl, rfl, rfl, fun uniform => ?_⟩
  have increasing : ([0, 10, 10] : List Nat).Pairwise (· < ·) := uniform.increasing
  exact absurd increasing (by decide)

end OpenInstrument.Mutations
