import Mathlib.Data.List.Basic
import Mathlib.Data.List.Perm.Subperm
import Mathlib.Order.Lattice
import Mathlib.Order.Basic

/-! # Ranges between boundaries

A list of boundaries divides a linear order into ranges, each of which ends at a boundary and starts
behind the previous one.  `covering` looks for the range of a key as a scan of the list does;
`InRange` says which keys a range has.  In a strictly increasing list the two agree.
-/

namespace Boundaries

variable {Key : Type*} [LinearOrder Key] {boundaries : List Key} {boundary key : Key}

/-- The first boundary that is not below the key. -/
def covering (boundaries : List Key) (key : Key) : Option Key :=
  boundaries.find? fun boundary => key ≤ boundary

/-- The key is at most the boundary and above every lower boundary. -/
def InRange (boundaries : List Key) (boundary key : Key) : Prop :=
  key ≤ boundary ∧ ∀ lower ∈ boundaries, lower < boundary → lower < key

theorem covering_eq_none : covering boundaries key = none ↔ ∀ boundary ∈ boundaries, boundary < key := by
  simp [covering]

theorem le_of_covering (found : covering boundaries key = some boundary) : key ≤ boundary := by
  simpa using List.find?_some found

theorem mem_of_covering (found : covering boundaries key = some boundary) : boundary ∈ boundaries :=
  List.mem_of_find?_eq_some found

theorem inRange_of_covering (increasing : boundaries.Pairwise (· < ·))
    (found : covering boundaries key = some boundary) : InRange boundaries boundary key := by
  refine ⟨le_of_covering found, fun lower member below => ?_⟩
  obtain ⟨-, before, after, rfl, passed⟩ := List.find?_eq_some_iff_append.mp found
  rw [List.pairwise_append, List.pairwise_cons] at increasing
  rcases List.mem_append.mp member with early | late
  · simpa using passed lower early
  · rcases List.mem_cons.mp late with rfl | later
    · exact absurd below (lt_irrefl _)
    · exact absurd (increasing.2.1.1 lower later) below.asymm

/-- A key is found in the range that it lies in. -/
theorem covering_of_inRange (increasing : boundaries.Pairwise (· < ·)) (listed : boundary ∈ boundaries)
    (inRange : InRange boundaries boundary key) : covering boundaries key = some boundary := by
  obtain ⟨below, above⟩ := inRange
  cases found : covering boundaries key with
  | none => exact absurd (covering_eq_none.mp found boundary listed) below.not_gt
  | some other =>
    obtain ⟨otherBelow, otherAbove⟩ := inRange_of_covering increasing found
    rcases lt_trichotomy other boundary with less | rfl | greater
    · exact absurd (above other (mem_of_covering found) less) otherBelow.not_gt
    · rfl
    · exact absurd (otherAbove boundary listed greater) below.not_gt

/-- A new boundary leaves a key in its range unless it falls between the two. -/
theorem InRange.insert {added : Key} {renewed : List Key} (inRange : InRange boundaries boundary key)
    (members : ∀ other, other ∈ renewed → other ∈ boundaries ∨ other = added)
    (outside : added < boundary → added < key) : InRange renewed boundary key := by
  refine ⟨inRange.1, fun lower member below => ?_⟩
  rcases members lower member with old | rfl
  · exact inRange.2 lower old below
  · exact outside below

/-- The lower part of a range that is divided. -/
theorem InRange.lower {added : Key} {renewed : List Key} (inRange : InRange boundaries boundary key)
    (members : ∀ other, other ∈ renewed → other ∈ boundaries ∨ other = added)
    (within : added < boundary) (below : key ≤ added) : InRange renewed added key := by
  refine ⟨below, fun lower member less => ?_⟩
  rcases members lower member with old | rfl
  · exact inRange.2 lower old (less.trans within)
  · exact absurd less (lt_irrefl _)

/-! ## How many keys lie on each side -/

section Sides

variable {before after keys : List Key} (increasing : (before ++ boundary :: after).Pairwise (· < ·))
  (distinct : keys.Nodup)

include increasing distinct

theorem length_below (below : ∀ key ∈ keys, key ∈ before ++ boundary :: after ∧ key ≤ boundary) :
    keys.length ≤ before.length + 1 := by
  have inside : keys ⊆ before ++ [boundary] := by
    intro key member
    obtain ⟨listed, small⟩ := below key member
    rcases List.mem_append.mp listed with early | late
    · exact List.mem_append_left _ early
    · rcases List.mem_cons.mp late with rfl | later
      · exact List.mem_append_right _ (List.mem_singleton_self _)
      · rw [List.pairwise_append, List.pairwise_cons] at increasing
        exact absurd (increasing.2.1.1 key later) small.not_gt
  simpa using (distinct.subperm inside).length_le

theorem length_above (above : ∀ key ∈ keys, key ∈ before ++ boundary :: after ∧ boundary < key) :
    keys.length ≤ after.length := by
  have inside : keys ⊆ after := by
    intro key member
    obtain ⟨listed, large⟩ := above key member
    rw [List.pairwise_append] at increasing
    rcases List.mem_append.mp listed with early | late
    · exact absurd (increasing.2.2 key early boundary List.mem_cons_self) large.asymm
    · rcases List.mem_cons.mp late with rfl | later
      · exact absurd large (lt_irrefl _)
      · exact later
  exact (distinct.subperm inside).length_le

end Sides

end Boundaries
