import Mathlib.Algebra.Order.Ring.Nat
import Mathlib.Data.List.Basic
import Mathlib.Data.Nat.Basic

/-! # Uniform grids

The points of a grid are the multiples of its step.  A list is the grid of a range when it has exactly the points
in the range, in increasing order.  The next point behind a place is at most a step away from it.
-/

namespace Grid

variable {step low middle high place point : Nat} {points more : List Nat}

/-- The points in a range, its lower bound included and its upper bound not. -/
structure IsGrid (step low high : Nat) (points : List Nat) : Prop where
  increasing : points.Pairwise (· < ·)
  exact_ : ∀ point, point ∈ points ↔ step ∣ point ∧ low ≤ point ∧ point < high

/-- The first point behind a place. -/
structure IsNext (step place point : Nat) : Prop where
  multiple : step ∣ point
  behind : place < point
  near : point ≤ place + step

/-- Two points are at least a step apart. -/
theorem add_step_le (one : step ∣ low) (other : step ∣ high) (less : low < high) : low + step ≤ high := by
  have apart : step ≤ high - low := Nat.le_of_dvd (Nat.sub_pos_of_lt less) (Nat.dvd_sub other one)
  omega

/-- No point lies between a place and the next point. -/
theorem IsNext.le (next : IsNext step place point) (multiple : step ∣ high) (behind : place < high) :
    point ≤ high := by
  by_contra less
  have apart := add_step_le multiple next.multiple (not_le.mp less)
  have near := next.near
  omega

theorem IsGrid.nil_of_le (empty : high ≤ low) : IsGrid step low high [] := by
  refine ⟨List.Pairwise.nil, fun point => ?_⟩
  simp only [List.not_mem_nil, false_iff]
  omega

theorem IsNext.isGrid_nil (next : IsNext step place point) (before : high ≤ point) :
    IsGrid step (place + 1) high [] := by
  refine ⟨List.Pairwise.nil, fun other => ?_⟩
  simp only [List.not_mem_nil, false_iff]
  rintro ⟨multiple, behind, less⟩
  have least := next.le multiple behind
  omega

theorem IsGrid.cons (rest : IsGrid step (low + step) high points) (positive : 0 < step) (multiple : step ∣ low)
    (inside : low < high) : IsGrid step low high (low :: points) := by
  constructor
  · rw [List.pairwise_cons]
    refine ⟨fun point member => ?_, rest.increasing⟩
    have behind := ((rest.exact_ point).mp member).2.1
    omega
  · intro point
    rw [List.mem_cons, rest.exact_]
    constructor
    · rintro (rfl | ⟨divides, behind, less⟩)
      · exact ⟨multiple, le_refl _, inside⟩
      · exact ⟨divides, by omega, less⟩
    · rintro ⟨divides, behind, less⟩
      by_cases same : point = low
      · exact .inl same
      · exact .inr ⟨divides, add_step_le multiple divides (by omega), less⟩

theorem IsGrid.append (first : IsGrid step low middle points) (second : IsGrid step middle high more)
    (lower : low ≤ middle) (upper : middle ≤ high) : IsGrid step low high (points ++ more) := by
  constructor
  · refine List.pairwise_append.mpr ⟨first.increasing, second.increasing, fun one member other later => ?_⟩
    have before := ((first.exact_ one).mp member).2.2
    have behind := ((second.exact_ other).mp later).2.1
    omega
  · intro point
    rw [List.mem_append, first.exact_, second.exact_]
    constructor
    · rintro (⟨multiple, behind, less⟩ | ⟨multiple, behind, less⟩)
      · exact ⟨multiple, behind, by omega⟩
      · exact ⟨multiple, by omega, less⟩
    · rintro ⟨multiple, behind, less⟩
      by_cases before : point < middle
      · exact .inl ⟨multiple, behind, before⟩
      · exact .inr ⟨multiple, by omega, less⟩

/-- Nothing is missed from a place to the next point. -/
theorem IsGrid.extend (rest : IsGrid step point high points) (next : IsNext step place point)
    (inside : point ≤ high) : IsGrid step (place + 1) high points :=
  (next.isGrid_nil (le_refl point)).append rest next.behind inside

theorem head_le_getLast (increasing : (place :: points).Pairwise (· < ·)) :
    place ≤ (place :: points).getLast (List.cons_ne_nil _ _) := by
  cases List.mem_cons.mp (List.getLast_mem (List.cons_ne_nil place points)) with
  | inl same => exact le_of_eq same.symm
  | inr behind => exact le_of_lt ((List.pairwise_cons.mp increasing).1 _ behind)

/-- A grid that a point is added to again is not increasing. -/
theorem not_increasing_concat (member : point ∈ points) : ¬ (points ++ [point]).Pairwise (· < ·) := by
  intro increasing
  exact lt_irrefl point ((List.pairwise_append.mp increasing).2.2 point member point (List.mem_singleton_self _))

/-! ## Counted points -/

/-- How many points lie behind the base, up to a place. -/
def countTo (step base place : Nat) : Nat := (place - base) / step

def pointsTo (step base place : Nat) : List Nat :=
  (List.range (countTo step base place)).map fun index => base + step * (index + 1)

variable {base : Nat}

theorem countTo_le (inside : base ≤ place) : base + step * countTo step base place ≤ place := by
  have below := Nat.mul_div_le (place - base) step
  rw [countTo]
  omega

theorem lt_countTo (positive : 0 < step) : place < base + step * (countTo step base place + 1) := by
  have above := Nat.lt_mul_div_succ (place - base) positive
  rw [countTo]
  omega

/-- The count of a place is the one whose point is the last that is not behind it. -/
theorem countTo_eq {count : Nat} (reached : base + step * count ≤ place)
    (short : place < base + step * (count + 1)) : countTo step base place = count := by
  rw [countTo]
  apply Nat.div_eq_of_lt_le
  · rw [Nat.mul_comm]
    omega
  · rw [Nat.mul_comm]
    omega

theorem countTo_mono (less : low ≤ high) : countTo step base low ≤ countTo step base high :=
  Nat.div_le_div_right (Nat.sub_le_sub_right less base)

/-- The points between two places lie at or before the later one. -/
theorem next_le {index : Nat} (positive : 0 < step) (inside : base ≤ low)
    (less : index < countTo step base (max low place) - countTo step base low) :
    base + step * (countTo step base low + 1 + index) ≤ place := by
  have reached := @countTo_le step (max low place) base (inside.trans (Nat.le_max_left _ _))
  have behind := @lt_countTo step low base positive
  have lower : step * (countTo step base low + 1) ≤ step * (countTo step base low + 1 + index) :=
    Nat.mul_le_mul_left _ (Nat.le_add_right _ _)
  have upper : step * (countTo step base low + 1 + index) ≤ step * countTo step base (max low place) :=
    Nat.mul_le_mul_left _ (by omega)
  omega

/-- The point behind them lies behind both places, and is at most a step away. -/
theorem lt_next (positive : 0 < step) :
    place < base + step * (countTo step base low + 1 +
      (countTo step base (max low place) - countTo step base low)) := by
  have short := @lt_countTo step (max low place) base positive
  have more := @countTo_mono step low (max low place) base (Nat.le_max_left _ _)
  rw [show countTo step base low + 1 + (countTo step base (max low place) - countTo step base low) =
    countTo step base (max low place) + 1 by omega]
  omega

theorem next_near {index : Nat} (inside : base ≤ low)
    (less : index ≤ countTo step base (max low place) - countTo step base low) :
    base + step * (countTo step base low + 1 + index) ≤ max low place + step := by
  have reached := @countTo_le step (max low place) base (inside.trans (Nat.le_max_left _ _))
  have more := @countTo_mono step low (max low place) base (Nat.le_max_left _ _)
  have upper : step * (countTo step base low + 1 + index) ≤ step * (countTo step base (max low place) + 1) :=
    Nat.mul_le_mul_left _ (by omega)
  rw [Nat.mul_add _ _ 1] at upper
  omega

/-- The points up to a place are followed by those up to a later one. -/
theorem pointsTo_append (less : low ≤ high) :
    pointsTo step base high =
      pointsTo step base low ++
        (List.range (countTo step base high - countTo step base low)).map fun index =>
          base + step * (countTo step base low + 1 + index) := by
  have split : countTo step base high = countTo step base low + (countTo step base high - countTo step base low) := by
    have more := @countTo_mono step low high base less
    omega
  rw [pointsTo, split, List.range_add, List.map_append, List.map_map, pointsTo]
  congr 1
  rw [Nat.add_sub_cancel_left]
  exact List.map_congr_left fun index _ => by simp only [Function.comp]; congr 2; omega

end Grid
