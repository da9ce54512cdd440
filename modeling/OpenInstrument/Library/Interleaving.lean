import Mathlib.Data.List.Basic

/-! # Interleavings

A list is an interleaving of several lists when it comes about by taking, again and again, the first
element off one of them until all are empty.
-/

inductive Interleaved {α : Type} : List (List α) → List α → Prop where
  | nil {lists : List (List α)} (empty : ∀ list ∈ lists, list = []) : Interleaved lists []
  | take {before after : List (List α)} {a : α} {rest taken : List α}
      (later : Interleaved (before ++ rest :: after) taken) :
      Interleaved (before ++ (a :: rest) :: after) (a :: taken)

namespace Interleaved

variable {α : Type}

/-- An interleaving has each element of the lists once. -/
theorem perm {lists : List (List α)} {taken : List α} (interleaved : Interleaved lists taken) :
    taken.Perm lists.flatten := by
  induction interleaved with
  | nil empty => rw [List.flatten_eq_nil_iff.mpr empty]
  | @take before after a rest taken later inductionHypothesis =>
    apply (inductionHypothesis.cons a).trans
    simp only [List.flatten_append, List.flatten_cons, List.cons_append]
    exact List.perm_middle.symm

/-- One list after the other is an interleaving of them. -/
theorem flatten (lists : List (List α)) : Interleaved lists lists.flatten := by
  -- Lists that are empty already may stand in front of those that are left.
  suffices general : ∀ before : List (List α), (∀ list ∈ before, list = []) →
      Interleaved (before ++ lists) lists.flatten from general [] (by simp)
  induction lists with
  | nil =>
    intro before empty
    exact .nil (by simpa using empty)
  | cons list lists inductionHypothesis =>
    intro before empty
    induction list with
    | nil =>
      have skipped := inductionHypothesis (before ++ [[]]) (by
        intro list member
        cases List.mem_append.mp member with
        | inl member => exact empty list member
        | inr member => exact List.mem_singleton.mp member)
      simpa using skipped
    | cons a rest taken => exact .take taken

end Interleaved
