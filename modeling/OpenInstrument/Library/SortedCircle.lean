import Mathlib.Data.List.Pairwise
import Mathlib.Order.Basic
import Mathlib.Order.Lattice

/-! # A circle in a sorted list

Points stand at places of a circle, several of them maybe at one place.  A point answers for a key if its place is the
first from the key on.  In a list that is sorted by the places it is found by a binary search, whatever the order of
the points of one place.
-/

namespace SortedCircle

/-! ## Binary search -/

def searchFrom (found : Nat → Bool) : Nat → Nat → Nat → Nat
  | 0, first, _ => first
  | turns + 1, first, last =>
    if first < last then
      let middle := (first + last) / 2
      if found middle then searchFrom found turns first middle else searchFrom found turns (middle + 1) last
    else first

/-- The first of so many numbers for which a property holds, if it holds of all behind that one. -/
def search (numbers : Nat) (found : Nat → Bool) : Nat := searchFrom found numbers 0 numbers

theorem searchFrom_spec {numbers : Nat} {found : Nat → Bool}
    (monotone : ∀ {here there}, here ≤ there → there < numbers → found here = true → found there = true)
    {turns first last : Nat} (enough : last - first ≤ turns) (order : first ≤ last) (bound : last ≤ numbers)
    (below : ∀ number < first, found number = false) (above : ∀ number, last ≤ number → number < numbers →
      found number = true) :
    (∀ number < searchFrom found turns first last, found number = false) ∧
      (∀ number, searchFrom found turns first last ≤ number → number < numbers → found number = true) ∧
      searchFrom found turns first last ≤ numbers := by
  induction turns generalizing first last with
  | zero =>
    have same : first = last := by omega
    subst same
    exact ⟨below, above, bound⟩
  | succ turns inductionHypothesis =>
    rw [searchFrom]
    split
    · dsimp only
      split
      · -- The property holds of the middle and of all behind it, and else of none up to it.
        rename_i here
        refine inductionHypothesis (by omega) (by omega) (by omega) below fun number behind inside => ?_
        exact monotone behind inside here
      · rename_i here
        refine inductionHypothesis (by omega) (by omega) bound (fun number before => ?_) above
        by_contra later
        rw [Bool.not_eq_false] at later
        exact here (monotone (by omega) (by omega) later)
    · have same : first = last := by omega
      subst same
      exact ⟨below, above, bound⟩

theorem search_spec {numbers : Nat} {found : Nat → Bool}
    (monotone : ∀ {here there}, here ≤ there → there < numbers → found here = true → found there = true) :
    (∀ number < search numbers found, found number = false) ∧
      (∀ number, search numbers found ≤ number → number < numbers → found number = true) ∧
      search numbers found ≤ numbers :=
  searchFrom_spec monotone (Nat.le_refl _) (Nat.zero_le _) (Nat.le_refl _) (fun _ => nofun) fun _ behind inside => by
    omega

/-- The search does not look past the numbers. -/
theorem search_congr {numbers : Nat} {found other : Nat → Bool}
    (monotone : ∀ {here there}, here ≤ there → there < numbers → found here = true → found there = true)
    (same : ∀ number < numbers, found number = other number) : search numbers found = search numbers other := by
  obtain ⟨below, above, bound⟩ := search_spec monotone
  have monotone' : ∀ {here there}, here ≤ there → there < numbers → other here = true → other there = true := by
    intro here there order inside
    rw [← same here (by omega), ← same there inside]
    exact monotone order inside
  obtain ⟨below', above', bound'⟩ := search_spec monotone'
  rcases Nat.lt_trichotomy (search numbers found) (search numbers other) with less | equal | more
  · have here := above _ (Nat.le_refl _) (by omega)
    rw [same _ (by omega), below' _ less] at here
    cases here
  · exact equal
  · have here := above' _ (Nat.le_refl _) (by omega)
    rw [← same _ (by omega), below _ more] at here
    cases here

/-! ## Who answers for a key -/

variable {Point Place : Type*} [LinearOrder Place] (place : Point → Place)

/-- No place lies between the key and the point.  Behind the last place the first one comes again. -/
structure Answers (points : List Point) (key : Place) (point : Point) : Prop where
  member : point ∈ points
  first : key ≤ place point ∧ (∀ other ∈ points, key ≤ place other → place point ≤ place other) ∨
    (∀ other ∈ points, place other < key) ∧ ∀ other ∈ points, place point ≤ place other

variable {place} {points more : List Point} {key : Place} {point other : Point}

/-- Two points that answer for a key stand at one place. -/
theorem Answers.unique (answers : Answers place points key point) (also : Answers place points key other) :
    place point = place other := by
  rcases answers.first with ⟨behind, first⟩ | ⟨none_, first⟩
  · rcases also.first with ⟨behind', first'⟩ | ⟨none_', _⟩
    · exact le_antisymm (first other also.member behind') (first' point answers.member behind)
    · exact absurd (none_' point answers.member) (not_lt.mpr behind)
  · rcases also.first with ⟨behind', _⟩ | ⟨_, first'⟩
    · exact absurd (none_ other also.member) (not_lt.mpr behind')
    · exact le_antisymm (first other also.member) (first' point answers.member)

theorem Answers.of_mem_iff (answers : Answers place points key point) (same : ∀ point, point ∈ more ↔ point ∈ points) :
    Answers place more key point where
  member := (same point).mpr answers.member
  first := by simpa only [same] using answers.first

/-- A point that was there before has answered for the key before. -/
theorem Answers.before (answers : Answers place (points ++ more) key point) (member : point ∈ points) :
    Answers place points key point where
  member := member
  first := by
    refine answers.first.imp (fun ⟨behind, first⟩ => ⟨behind, fun other there => ?_⟩) fun ⟨none_, first⟩ =>
      ⟨fun other there => ?_, fun other there => ?_⟩
    · exact first other (List.mem_append_left _ there)
    · exact none_ other (List.mem_append_left _ there)
    · exact first other (List.mem_append_left _ there)

theorem place_mono (sorted : points.Pairwise fun point other => place point ≤ place other) {here there : Nat}
    (order : here ≤ there) (inside : there < points.length) :
    place (points.get ⟨here, Nat.lt_of_le_of_lt order inside⟩) ≤ place points[there] := by
  rcases Nat.lt_or_eq_of_le order with less | same
  · exact List.pairwise_iff_getElem.mp sorted here there _ inside less
  · subst same
    exact le_refl _

section Search

variable (sorted : points.Pairwise fun point other => place point ≤ place other) {found : Nat → Bool}
  (reads : ∀ number (inside : number < points.length), found number = decide (key ≤ place points[number]))

include sorted reads

theorem found_mono {here there : Nat} (order : here ≤ there) (inside : there < points.length)
    (holds : found here = true) : found there = true := by
  rw [reads here (by omega)] at holds
  rw [reads there inside]
  exact decide_eq_true (le_trans (of_decide_eq_true holds) (place_mono sorted order inside))

/-- The point that the search comes to, or the first of all. -/
theorem answers_search :
    let number := if search points.length found = points.length then 0 else search points.length found
    ∀ point, points[number]? = some point → Answers place points key point := by
  intro number point here
  obtain ⟨below, above, bound⟩ := search_spec (found_mono sorted reads)
  obtain ⟨inside, here⟩ := List.getElem?_eq_some_iff.mp here
  subst here
  refine ⟨List.getElem_mem inside, ?_⟩
  -- Behind the last point the circle begins again.
  by_cases past : search points.length found = points.length
  · right
    have zero : number = 0 := if_pos past
    refine ⟨fun other member => ?_, fun other member => ?_⟩
    · obtain ⟨there, inside', same⟩ := List.getElem_of_mem member
      have later := below there (by omega)
      rw [reads there inside', same] at later
      exact not_le.mp (of_decide_eq_false later)
    · obtain ⟨there, inside', same⟩ := List.getElem_of_mem member
      subst same
      exact place_mono sorted (by omega) inside'
  · left
    have same : number = search points.length found := if_neg past
    have here := above number (by omega) inside
    rw [reads number inside] at here
    refine ⟨of_decide_eq_true here, fun other member behind => ?_⟩
    obtain ⟨there, inside', same'⟩ := List.getElem_of_mem member
    subst same'
    refine place_mono sorted ?_ inside'
    by_contra before
    have not_ := below there (by omega)
    rw [reads there inside'] at not_
    exact of_decide_eq_false not_ behind

end Search

end SortedCircle
