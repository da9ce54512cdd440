import Mathlib.Algebra.Order.Ring.Nat
import Mathlib.Data.List.Basic
import Mathlib.Order.Lattice

/-! # Merging lists by their heads

Of some lists, the one whose head has the least key gives it away, again and again.  So every list gives away its items
in their order, and the items come in the order of their keys when they stand so in each list.
-/

namespace Merge

variable {Item Key : Type*} [LinearOrder Key] (key : Item → Key)

/-- The better of what was found and the head of a list: the earlier one of two with the same key. -/
def better (found : Option (Nat × Item)) (index : Nat) (list : List Item) : Option (Nat × Item) :=
  list.head?.elim found fun item =>
    found.elim (some (index, item)) fun other => if key item < key other.2 then some (index, item) else found

def leastFrom (found : Option (Nat × Item)) (index : Nat) : List (List Item) → Option (Nat × Item)
  | [] => found
  | list :: lists => leastFrom (better key found index list) (index + 1) lists

/-- The head with the least key, and the index of its list. -/
def least (lists : List (List Item)) : Option (Nat × Item) := leastFrom key none 0 lists

def run : Nat → List (List Item) → List (Nat × Item)
  | 0, _ => []
  | fuel + 1, lists =>
    match least key lists with
    | none => []
    | some found => found :: run fuel (lists.modify found.1 List.tail)

def givenBy (index : Nat) (items : List (Nat × Item)) : List Item :=
  items.filterMap fun found => if found.1 = index then some found.2 else none

/-- No head of the lists has a smaller key than what was found, if there is a head at all. -/
def IsLeast (lists : List (List Item)) (found : Option (Nat × Item)) : Prop :=
  found.elim (∀ list ∈ lists, list = []) fun found =>
    (∃ rest, lists[found.1]? = some (found.2 :: rest)) ∧
      ∀ list ∈ lists, ∀ head ∈ list.head?, key found.2 ≤ key head

/-! ## One step -/

variable {key}

theorem forall_head_concat {bounded : Item → Prop} {lists : List (List Item)} {list : List Item} :
    (∀ other ∈ lists ++ [list], ∀ head ∈ other.head?, bounded head) ↔
      (∀ other ∈ lists, ∀ head ∈ other.head?, bounded head) ∧ ∀ head ∈ list.head?, bounded head := by
  simp only [List.forall_mem_append, List.forall_mem_singleton]

theorem IsLeast.better {lists : List (List Item)} {found : Option (Nat × Item)} (least : IsLeast key lists found)
    (list : List Item) : IsLeast key (lists ++ [list]) (Merge.better key found lists.length list) := by
  cases list with
  | nil =>
    cases found with
    | none =>
      intro other member
      cases List.mem_append.mp member with
      | inl before => exact least other before
      | inr last => exact List.mem_singleton.mp last
    | some found =>
      obtain ⟨⟨rest, stands⟩, below⟩ := least
      have inside := (List.getElem?_eq_some_iff.mp stands).1
      refine ⟨⟨rest, by rw [List.getElem?_append_left inside, stands]⟩, forall_head_concat.mpr ⟨below, ?_⟩⟩
      intro head first
      cases first
  | cons item rest =>
    -- The last list competes with the least head that was found before it.
    have here : (lists ++ [item :: rest])[lists.length]? = some (item :: rest) := List.getElem?_concat_length
    cases found with
    | none =>
      refine ⟨⟨rest, here⟩, forall_head_concat.mpr ⟨fun other before head first => ?_, fun head first => ?_⟩⟩
      · rw [least other before] at first
        cases first
      · cases first
        exact le_rfl
    | some found =>
      obtain ⟨⟨others, stands⟩, below⟩ := least
      have inside := (List.getElem?_eq_some_iff.mp stands).1
      show IsLeast key _ (if key item < key found.2 then some (lists.length, item) else some found)
      split
      · rename_i smaller
        refine ⟨⟨rest, here⟩, forall_head_concat.mpr ⟨fun other before head first => ?_, fun head first => ?_⟩⟩
        · exact le_trans (le_of_lt smaller) (below other before head first)
        · cases first
          exact le_rfl
      · rename_i notSmaller
        refine ⟨⟨others, by rw [List.getElem?_append_left inside, stands]⟩, forall_head_concat.mpr ⟨below, ?_⟩⟩
        intro head first
        cases first
        exact not_lt.mp notSmaller

theorem IsLeast.leastFrom {seen : List (List Item)} {found : Option (Nat × Item)} (isLeast : IsLeast key seen found)
    (lists : List (List Item)) : IsLeast key (seen ++ lists) (Merge.leastFrom key found seen.length lists) := by
  induction lists generalizing seen found with
  | nil => simpa [Merge.leastFrom] using isLeast
  | cons list lists inductionHypothesis =>
    have rest := inductionHypothesis (isLeast.better list)
    rw [List.length_append, List.length_singleton, List.append_assoc] at rest
    exact rest

theorem isLeast_least (lists : List (List Item)) : IsLeast key lists (least key lists) := by
  have none_ : IsLeast key [] none := fun _ member => by cases member
  exact none_.leastFrom lists

theorem least_eq_none {lists : List (List Item)} (none_ : least key lists = none) : ∀ list ∈ lists, list = [] := by
  have isLeast : IsLeast key lists (least key lists) := isLeast_least lists
  rwa [none_] at isLeast

theorem least_eq_some {lists : List (List Item)} {found : Nat × Item} (some_ : least key lists = some found) :
    (∃ rest, lists[found.1]? = some (found.2 :: rest)) ∧
      ∀ list ∈ lists, ∀ head ∈ list.head?, key found.2 ≤ key head := by
  have isLeast : IsLeast key lists (least key lists) := isLeast_least lists
  rwa [some_] at isLeast

/-! ## All steps -/

def size (lists : List (List Item)) : Nat := (lists.map List.length).sum

theorem size_modify {lists : List (List Item)} {index : Nat} {item : Item} {rest : List Item}
    (stands : lists[index]? = some (item :: rest)) : size (lists.modify index List.tail) + 1 = size lists := by
  induction lists generalizing index with
  | nil => cases stands
  | cons list lists inductionHypothesis =>
    cases index with
    | zero =>
      rw [List.getElem?_cons_zero, Option.some.injEq] at stands
      simp only [size, stands, List.modify_zero_cons, List.map_cons, List.sum_cons, List.tail_cons, List.length_cons]
      omega
    | succ index =>
      have later := inductionHypothesis (by simpa using stands)
      simp only [size, List.modify_succ_cons, List.map_cons, List.sum_cons] at later ⊢
      omega

theorem eq_nil_of_size_zero {lists : List (List Item)} (empty : size lists = 0) {list : List Item}
    (member : list ∈ lists) : list = [] := by
  have lengths := List.sum_eq_zero_iff_forall_eq_nat.mp empty
  exact List.length_eq_zero_iff.mp (lengths _ (List.mem_map_of_mem member))

/-- A list gives away its items in their order. -/
theorem givenBy_run {fuel : Nat} {lists : List (List Item)} (enough : size lists ≤ fuel) {index : Nat}
    {list : List Item} (stands : lists[index]? = some list) : givenBy index (run key fuel lists) = list := by
  have member := List.mem_of_getElem? stands
  induction fuel generalizing lists list with
  | zero => rw [eq_nil_of_size_zero (Nat.le_zero.mp enough) member, run, givenBy, List.filterMap_nil]
  | succ fuel inductionHypothesis =>
    rw [run]
    cases some_ : least key lists with
    | none => rw [least_eq_none some_ list member, givenBy, List.filterMap_nil]
    | some found =>
      obtain ⟨⟨rest, given⟩, -⟩ := least_eq_some some_
      have smaller := size_modify given
      rw [givenBy, List.filterMap_cons]
      by_cases here : found.1 = index
      · rw [if_pos here]
        rw [here, stands, Option.some.injEq] at given
        have left : (lists.modify found.1 List.tail)[index]? = some rest := by
          rw [here, List.getElem?_modify_eq, stands, given]
          rfl
        rw [given]
        exact congrArg (List.cons found.2) (inductionHypothesis (by omega) left (List.mem_of_getElem? left))
      · rw [if_neg here]
        have left : (lists.modify found.1 List.tail)[index]? = some list := by
          rw [List.getElem?_modify_ne _ _ here, stands]
        exact inductionHypothesis (by omega) left (List.mem_of_getElem? left)

/-- What is given away stood in one of the lists, at its index. -/
theorem mem_run {fuel : Nat} {lists : List (List Item)} {found : Nat × Item} (member : found ∈ run key fuel lists) :
    ∃ list, lists[found.1]? = some list ∧ found.2 ∈ list := by
  induction fuel generalizing lists with
  | zero => cases member
  | succ fuel inductionHypothesis =>
    rw [run] at member
    cases some_ : least key lists with
    | none =>
      rw [some_] at member
      cases member
    | some first =>
      rw [some_] at member
      obtain ⟨⟨rest, given⟩, -⟩ := least_eq_some some_
      cases List.mem_cons.mp member with
      | inl same =>
        subst same
        exact ⟨_, given, List.mem_cons_self⟩
      | inr later =>
        obtain ⟨list, stands, inside⟩ := inductionHypothesis later
        by_cases here : first.1 = found.1
        · rw [here, List.getElem?_modify_eq, Option.map_eq_map, Option.map_eq_some_iff] at stands
          obtain ⟨whole, before, rfl⟩ := stands
          exact ⟨whole, before, List.mem_of_mem_tail inside⟩
        · rw [List.getElem?_modify_ne _ _ here] at stands
          exact ⟨list, stands, inside⟩

/-- The items of sorted lists come in the order of their keys. -/
theorem run_sorted {fuel : Nat} {lists : List (List Item)}
    (sorted : ∀ list ∈ lists, list.Pairwise fun first second => key first ≤ key second) :
    (run key fuel lists).Pairwise fun first second => key first.2 ≤ key second.2 := by
  induction fuel generalizing lists with
  | zero => exact .nil
  | succ fuel inductionHypothesis =>
    rw [run]
    cases some_ : least key lists with
    | none => exact .nil
    | some first =>
      obtain ⟨⟨rest, given⟩, below⟩ := least_eq_some some_
      have tails : ∀ list ∈ lists.modify first.1 List.tail, ∃ whole ∈ lists, list = whole ∨ list = whole.tail := by
        intro list member
        obtain ⟨index, stands⟩ := List.mem_iff_getElem?.mp member
        by_cases here : first.1 = index
        · rw [here, List.getElem?_modify_eq, Option.map_eq_map, Option.map_eq_some_iff] at stands
          obtain ⟨whole, before, rfl⟩ := stands
          exact ⟨whole, List.mem_of_getElem? before, .inr rfl⟩
        · rw [List.getElem?_modify_ne _ _ here] at stands
          exact ⟨list, List.mem_of_getElem? stands, .inl rfl⟩
      apply List.Pairwise.cons
      · intro second later
        obtain ⟨list, stands, inside⟩ := mem_run later
        obtain ⟨whole, member, part⟩ := tails list (List.mem_of_getElem? stands)
        have among : second.2 ∈ whole := by
          cases part with
          | inl same => exact same ▸ inside
          | inr tail => exact List.mem_of_mem_tail (tail ▸ inside)
        -- The head of the list is below all of it.
        cases whole with
        | nil => cases among
        | cons head tail =>
          have least_ := below _ member head rfl
          cases List.mem_cons.mp among with
          | inl same => exact same ▸ least_
          | inr behind => exact le_trans least_ ((List.pairwise_cons.mp (sorted _ member)).1 _ behind)
      · apply inductionHypothesis
        intro list member
        obtain ⟨whole, inside, part⟩ := tails list member
        cases part with
        | inl same => exact same ▸ sorted whole inside
        | inr tail => exact tail ▸ (sorted whole inside).tail

end Merge
