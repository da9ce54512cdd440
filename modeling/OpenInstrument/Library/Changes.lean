import Mathlib.Data.List.Basic

/-! # Changes along a list

Going along a list, the last value is kept together with how often it has changed.
-/

namespace Changes

variable {Item : Type*} [DecidableEq Item]

/-- How often the value has changed, and what it is, after one more item. -/
def count (known : Nat × Item) (item : Item) : Nat × Item :=
  if known.2 = item then known else (known.1 + 1, item)

theorem count_same (changes : Nat) (item : Item) : count (changes, item) item = (changes, item) := if_pos rfl

theorem count_other {last item : Item} (other : last ≠ item) (changes : Nat) :
    count (changes, last) item = (changes + 1, item) := if_neg other

theorem le_foldl_count (known : Nat × Item) (items : List Item) : known.1 ≤ (items.foldl count known).1 := by
  induction items generalizing known with
  | nil => exact Nat.le_refl _
  | cons item items inductionHypothesis =>
    have step : known.1 ≤ (count known item).1 := by
      unfold count
      split
      · exact Nat.le_refl _
      · exact Nat.le_succ _
    exact Nat.le_trans step (inductionHypothesis _)

/-- Nothing changes along items that are all the same. -/
theorem foldl_count_steady {changes : Nat} {last item : Item} {items : List Item} :
    items.foldl count (changes, last) = (changes, item) ↔ item = last ∧ items = List.replicate items.length last := by
  induction items with
  | nil => simp [eq_comm]
  | cons first rest inductionHypothesis =>
    rw [List.foldl_cons, List.length_cons, List.replicate_succ]
    by_cases same : last = first
    · subst same
      rw [count_same, inductionHypothesis]
      simp
    · rw [count_other same]
      constructor
      · intro steady
        -- The number of changes does not go down again.
        have more := le_foldl_count (changes + 1, first) rest
        rw [steady] at more
        exact absurd more (Nat.not_succ_le_self changes)
      · intro all
        exact absurd (List.cons.inj all.2).1.symm same

/-- The value changes once along items that are the first value for a while, and another one from then on. -/
theorem foldl_count_once {changes : Nat} {initial item : Item} {items : List Item} :
    items.foldl count (changes, initial) = (changes + 1, item) ↔
      item ≠ initial ∧ ∃ before after, items = List.replicate before initial ++ List.replicate (after + 1) item := by
  induction items with
  | nil => simp
  | cons first rest inductionHypothesis =>
    rw [List.foldl_cons]
    by_cases same : initial = first
    · subst same
      rw [count_same, inductionHypothesis]
      constructor
      · intro once
        obtain ⟨other, before, after, split⟩ := once
        exact ⟨other, before + 1, after, congrArg (List.cons initial) split⟩
      · intro once
        obtain ⟨other, before, after, split⟩ := once
        cases before with
        | zero =>
          rw [List.replicate_zero, List.nil_append, List.replicate_succ] at split
          exact absurd (List.cons.inj split).1.symm other
        | succ before =>
          rw [List.replicate_succ, List.cons_append] at split
          exact ⟨other, before, after, (List.cons.inj split).2⟩
    · rw [count_other same, foldl_count_steady]
      constructor
      · intro steady
        obtain ⟨rfl, all⟩ := steady
        exact ⟨Ne.symm same, 0, rest.length, congrArg (List.cons _) all⟩
      · intro once
        obtain ⟨other, before, after, split⟩ := once
        cases before with
        | zero =>
          rw [List.replicate_zero, List.nil_append, List.replicate_succ] at split
          obtain ⟨rfl, all⟩ := List.cons.inj split
          exact ⟨rfl, by rw [all, List.length_replicate]⟩
        | succ before =>
          rw [List.replicate_succ, List.cons_append] at split
          exact absurd (List.cons.inj split).1.symm same

end Changes
