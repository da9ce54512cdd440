import Mathlib.Algebra.BigOperators.Group.Multiset.Defs
import Mathlib.Algebra.Order.Group.Multiset

/-! # Selecting items from a list

Items carry contents, and some items are selected among the relevant ones.  The selection is complete
with respect to a property of the contents exactly when no relevant item with such contents is left out.
-/

namespace Selection

variable {Item Content : Type*}

/-- Selecting an item or nothing for each item, and gathering the results. -/
theorem flatten_map_singleton (selected : Item → Prop) [DecidablePred selected] (items : List Item) :
    (items.map fun item => if selected item then [item] else []).flatten =
      items.filter fun item => selected item := by
  induction items with
  | nil => rfl
  | cons item items inductionHypothesis =>
    by_cases here : selected item <;> simp [here, inductionHypothesis]

/-- Selecting what is made of an item, or nothing. -/
theorem flatten_map_if {Made : Type*} (selected : Item → Prop) [DecidablePred selected] (make : Item → Made)
    (items : List Item) : (items.map fun item => if selected item then [make item] else []).flatten =
      (items.filter fun item => selected item).map make := by
  induction items with
  | nil => rfl
  | cons item items inductionHypothesis =>
    by_cases here : selected item <;> simp [here, inductionHypothesis]

/-- The items of several lists, counted list by list. -/
theorem coe_flatMap (contents : Item → List Content) (items : List Item) :
    (items.flatMap contents : Multiset Content) = (items.map fun item => (contents item : Multiset Content)).sum := by
  induction items with
  | nil => rfl
  | cons item items inductionHypothesis =>
    rw [List.flatMap_cons, List.map_cons, List.sum_cons, ← inductionHypothesis, Multiset.coe_add]

variable (contents : Item → Multiset Content)

theorem sum_eq_zero_iff {items : List Item} :
    (items.map contents).sum = 0 ↔ ∀ item ∈ items, contents item = 0 := by
  induction items with
  | nil => simp
  | cons item items inductionHypothesis =>
    rw [List.map_cons, List.sum_cons, ← Multiset.card_eq_zero, Multiset.card_add, Nat.add_eq_zero_iff,
      Multiset.card_eq_zero, Multiset.card_eq_zero, inductionHypothesis, List.forall_mem_cons]

theorem filter_sum_eq_zero {wanted : Content → Prop} [DecidablePred wanted] {items : List Item} :
    (items.map contents).sum.filter wanted = 0 ↔
      ∀ item ∈ items, ∀ content ∈ contents item, ¬ wanted content := by
  rw [Multiset.filter_eq_nil]
  induction items with
  | nil => simp
  | cons item items inductionHypothesis =>
    simp only [List.map_cons, List.sum_cons, Multiset.mem_add, or_imp, forall_and, inductionHypothesis,
      List.mem_cons, forall_eq]

theorem sum_filter_add {relevant selected : Item → Prop} [DecidablePred relevant] [DecidablePred selected]
    {items : List Item} (within : ∀ item ∈ items, selected item → relevant item) :
    ((items.filter fun item => relevant item).map contents).sum =
      ((items.filter fun item => selected item).map contents).sum +
        ((items.filter fun item => relevant item ∧ ¬ selected item).map contents).sum := by
  induction items with
  | nil => rfl
  | cons item items inductionHypothesis =>
    replace inductionHypothesis :=
      inductionHypothesis fun other member => within other (List.mem_cons_of_mem _ member)
    by_cases chosen : selected item
    · simp only [chosen, within item List.mem_cons_self chosen, not_true, and_false, List.filter_cons,
        decide_true, decide_false, Bool.false_eq_true, if_true, if_false, List.map_cons, List.sum_cons,
        inductionHypothesis, add_assoc]
    · by_cases present : relevant item
      · simp only [chosen, present, not_false_eq_true, and_self, List.filter_cons, decide_true, decide_false,
          Bool.false_eq_true, if_true, if_false, List.map_cons, List.sum_cons, inductionHypothesis,
          add_left_comm]
      · simp only [chosen, present, false_and, List.filter_cons, decide_false, Bool.false_eq_true, if_false,
          inductionHypothesis]

/-- The selected items hold all wanted contents of the relevant ones exactly when every relevant item that
is not selected has none. -/
theorem filter_le_selected_iff {wanted : Content → Prop} [DecidablePred wanted]
    {relevant selected : Item → Prop} [DecidablePred relevant] [DecidablePred selected]
    {items : List Item} (within : ∀ item ∈ items, selected item → relevant item) :
    ((items.filter fun item => relevant item).map contents).sum.filter wanted ≤
        ((items.filter fun item => selected item).map contents).sum ↔
      ∀ item ∈ items, relevant item → ¬ selected item → ∀ content ∈ contents item, ¬ wanted content := by
  obtain ⟨lost, lostDef⟩ : ∃ lost,
      ((items.filter fun item => relevant item ∧ ¬ selected item).map contents).sum = lost := ⟨_, rfl⟩
  have none : lost.filter wanted = 0 ↔ ∀ item ∈ items, relevant item → ¬ selected item →
      ∀ content ∈ contents item, ¬ wanted content := by
    rw [← lostDef, filter_sum_eq_zero]
    simp [List.mem_filter]
  rw [sum_filter_add contents within, lostDef, Multiset.filter_add, ← none]
  generalize ((items.filter fun item => selected item).map contents).sum = kept
  constructor
  · intro held
    have both : kept.filter wanted + lost.filter wanted ≤ kept.filter wanted := by
      have filtered := Multiset.filter_le_filter wanted held
      simpa only [Multiset.filter_add, Multiset.filter_filter, and_self_iff] using filtered
    exact Multiset.le_zero.mp ((add_le_iff_nonpos_right _).mp both)
  · intro empty
    rw [empty, add_zero]
    exact Multiset.filter_le _ _

/-- The selected items hold all that the relevant ones do exactly when those left out hold nothing. -/
theorem sum_selected_eq_iff {relevant selected : Item → Prop} [DecidablePred relevant] [DecidablePred selected]
    {items : List Item} (within : ∀ item ∈ items, selected item → relevant item) :
    ((items.filter fun item => selected item).map contents).sum =
        ((items.filter fun item => relevant item).map contents).sum ↔
      ∀ item ∈ items, relevant item → ¬ selected item → contents item = 0 := by
  rw [sum_filter_add contents within, left_eq_add, sum_eq_zero_iff]
  simp only [List.mem_filter, decide_eq_true_eq, and_imp]

end Selection
