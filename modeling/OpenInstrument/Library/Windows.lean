import Mathlib.Data.List.Basic
import Mathlib.Data.List.Chain
import OpenInstrument.Library.Channel

/-! # Dividing a list into windows

A window begins with an item and goes on until an item comes that lies beyond it; this item begins the next
window.  A list has exactly one such division.  A loop over a channel that keeps a summary of the window at hand
sends what it makes of each window when it sees the first item of the next one, or when its input ends.
-/

namespace Windows

variable {Item Output State Error : Type*}

/-- Consecutive items, at least one. -/
structure Window (Item : Type*) where
  first : Item
  rest : List Item

def Window.items (window : Window Item) : List Item := window.first :: window.rest

def Window.last (window : Window Item) : Item := window.rest.getLastD window.first

def Window.add (window : Window Item) (item : Item) : Window Item :=
  { first := window.first, rest := window.rest ++ [item] }

def Window.single (item : Item) : Window Item := { first := item, rest := [] }

@[simp] theorem Window.add_first (window : Window Item) (item : Item) : (window.add item).first = window.first := rfl

@[simp] theorem Window.add_rest (window : Window Item) (item : Item) :
    (window.add item).rest = window.rest ++ [item] := rfl

@[simp] theorem Window.add_items (window : Window Item) (item : Item) :
    (window.add item).items = window.items ++ [item] := rfl

@[simp] theorem Window.single_first (item : Item) : (Window.single item).first = item := rfl

@[simp] theorem Window.single_rest (item : Item) : (Window.single item).rest = [] := rfl

@[simp] theorem Window.single_items (item : Item) : (Window.single item).items = [item] := rfl

@[simp] theorem Window.add_last (window : Window Item) (item : Item) : (window.add item).last = item := by
  simp [Window.last, Window.add]

@[simp] theorem Window.single_last (item : Item) : (Window.single item).last = item := rfl

variable {beyond : Item → Item → Prop}

/-- Windows that make up a list: no item is beyond the first one of its window, and the first item of the next
window is. -/
structure IsDivision (beyond : Item → Item → Prop) (items : List Item) (windows : List (Window Item)) : Prop where
  all : windows.flatMap Window.items = items
  within : ∀ window ∈ windows, ∀ item ∈ window.rest, ¬ beyond window.first item
  apart : windows.IsChain fun window next => beyond window.first next.first

variable [DecidableRel beyond]

def divideFrom (beyond : Item → Item → Prop) [DecidableRel beyond] (window : Window Item) :
    List Item → List (Window Item)
  | [] => [window]
  | item :: items =>
    if beyond window.first item then window :: divideFrom beyond (.single item) items
    else divideFrom beyond (window.add item) items

def divide (beyond : Item → Item → Prop) [DecidableRel beyond] : List Item → List (Window Item)
  | [] => []
  | item :: items => divideFrom beyond (.single item) items

theorem divideFrom_eq_cons (window : Window Item) (items : List Item) :
    ∃ rest later, divideFrom beyond window items = { first := window.first, rest } :: later := by
  induction items generalizing window with
  | nil => exact ⟨window.rest, [], rfl⟩
  | cons item items inductionHypothesis =>
    rw [divideFrom]
    split
    · exact ⟨window.rest, _, rfl⟩
    · exact inductionHypothesis (window.add item)

theorem isDivision_divideFrom (window : Window Item) (items : List Item)
    (within : ∀ item ∈ window.rest, ¬ beyond window.first item) :
    IsDivision beyond (window.items ++ items) (divideFrom beyond window items) := by
  induction items generalizing window with
  | nil =>
    refine ⟨by simp [divideFrom], ?_, by simp [divideFrom]⟩
    intro other member
    rw [divideFrom, List.mem_singleton] at member
    rw [member]
    exact within
  | cons item items inductionHypothesis =>
    rw [divideFrom]
    split
    · rename_i outside
      have later := inductionHypothesis (.single item) (by simp)
      refine ⟨?_, List.forall_mem_cons.mpr ⟨within, later.within⟩, ?_⟩
      · rw [List.flatMap_cons, later.all]
        simp
      · obtain ⟨rest, others, split⟩ := @divideFrom_eq_cons Item beyond _ (.single item) items
        have chain := later.apart
        rw [split] at chain ⊢
        exact List.isChain_cons_cons.mpr ⟨outside, chain⟩
    · rename_i inside
      have later := inductionHypothesis (window.add item) (by
        simp only [Window.add_rest, Window.add_first, List.mem_append, List.mem_singleton]
        rintro other (member | rfl)
        · exact within other member
        · exact inside)
      rwa [Window.add_items, List.append_assoc] at later

theorem isDivision_divide (items : List Item) : IsDivision beyond items (divide beyond items) := by
  cases items with
  | nil => exact ⟨rfl, by simp [divide], by simp [divide]⟩
  | cons item items => exact isDivision_divideFrom (.single item) items (by simp)

/-- Where the items of two lists are the same and the first list ends at an item that does not lie in the
second, the lists end together. -/
theorem append_eq_append_of_ends {one other later others : List Item} (same : one ++ later = other ++ others)
    (left : ∀ item ∈ later.head?, item ∉ other) (right : ∀ item ∈ others.head?, item ∉ one) :
    one = other ∧ later = others := by
  obtain ⟨middle, front, back⟩ | ⟨middle, front, back⟩ := List.append_eq_append_iff.mp same
  · cases middle with
    | nil => exact ⟨by simpa using front.symm, by simpa using back⟩
    | cons item middle =>
      exfalso
      apply left item (by simp [back])
      simp [front]
  · cases middle with
    | nil => exact ⟨by simpa using front, by simpa using back.symm⟩
    | cons item middle =>
      exfalso
      apply right item (by simp [back])
      simp [front]

/-- A division that begins with the items of the window at hand goes on as the loop does. -/
theorem IsDivision.eq_divideFrom {window : Window Item} {items : List Item} {windows : List (Window Item)}
    (division : IsDivision beyond (window.items ++ items) windows)
    (within : ∀ item ∈ window.rest, ¬ beyond window.first item) :
    windows = divideFrom beyond window items := by
  induction items generalizing window windows with
  | nil =>
    cases windows with
    | nil => exact absurd division.all (by simp [Window.items])
    | cons head later =>
      have all := division.all
      rw [List.flatMap_cons, List.append_nil, Window.items, Window.items, List.cons_append, List.cons.injEq] at all
      obtain ⟨sameFirst, same⟩ := all
      cases later with
      | nil =>
        simp only [List.flatMap_nil, List.append_nil] at same
        rw [divideFrom, List.singleton_inj]
        cases head
        cases window
        simp_all
      | cons next later =>
        -- A second window would begin inside the reach of the first.
        have outside := (List.isChain_cons_cons.mp division.apart).1
        rw [sameFirst] at outside
        refine absurd outside (within next.first ?_)
        rw [← same]
        simp [Window.items]
  | cons item items inductionHypothesis =>
    rw [divideFrom]
    split
    · rename_i outside
      cases windows with
      | nil => exact absurd division.all (by simp [Window.items])
      | cons head later =>
        have all := division.all
        rw [List.flatMap_cons, Window.items, Window.items, List.cons_append, List.cons_append, List.cons.injEq] at all
        obtain ⟨sameFirst, same⟩ := all
        -- Both divisions end the first window at the first item that is beyond it.
        have ends := append_eq_append_of_ends same (by
          intro other begins member
          cases later with
          | nil => simp at begins
          | cons next later =>
            obtain rfl : next.first = other := by simpa [Window.items] using begins
            have beyondNext := (List.isChain_cons_cons.mp division.apart).1
            rw [sameFirst] at beyondNext
            exact within _ member beyondNext) (by
          intro other begins member
          obtain rfl : item = other := by simpa using begins
          have inside := division.within head List.mem_cons_self item member
          rw [sameFirst] at inside
          exact inside outside)
        have rest : IsDivision beyond ((Window.single item).items ++ items) later :=
          ⟨ends.2, fun window member => division.within window (List.mem_cons_of_mem _ member), division.apart.tail⟩
        rw [← inductionHypothesis rest (by simp), List.cons.injEq]
        refine ⟨?_, rfl⟩
        cases head
        cases window
        simp_all
    · rename_i inside
      apply inductionHypothesis
      · rwa [Window.add_items, List.append_assoc]
      · simp only [Window.add_rest, Window.add_first, List.mem_append, List.mem_singleton]
        rintro other (member | rfl)
        · exact within other member
        · exact inside

/-- A list has one division. -/
theorem IsDivision.eq_divide {items : List Item} {windows : List (Window Item)}
    (division : IsDivision beyond items windows) : windows = divide beyond items := by
  cases items with
  | nil =>
    cases windows with
    | nil => rfl
    | cons head later => exact absurd division.all (by simp [Window.items])
  | cons item items => exact @IsDivision.eq_divideFrom Item beyond _ (.single item) items windows division (by simp)

theorem divideFrom_of_within (window : Window Item) {items : List Item}
    (within : ∀ item ∈ items, ¬ beyond window.first item) :
    divideFrom beyond window items = [{ first := window.first, rest := window.rest ++ items }] := by
  induction items generalizing window with
  | nil => simp [divideFrom]
  | cons item items inductionHypothesis =>
    obtain ⟨here, later⟩ := List.forall_mem_cons.mp within
    rw [divideFrom, if_neg here, inductionHypothesis (window.add item) later, Window.add_rest, List.append_assoc]
    rfl

/-- Where every item is beyond all items before it, each one is a window. -/
theorem divideFrom_of_pairwise {item : Item} {items : List Item} (apart : (item :: items).Pairwise beyond) :
    divideFrom beyond (.single item) items = (item :: items).map Window.single := by
  induction items generalizing item with
  | nil => rfl
  | cons next items inductionHypothesis =>
    obtain ⟨first, rest⟩ := List.pairwise_cons.mp apart
    rw [divideFrom, if_pos (show beyond (Window.single item).first next from first next List.mem_cons_self),
      inductionHypothesis rest]
    rfl

/-! ## Loops over windows -/

variable {loop : Loop Item Output State Error} {related : Item → Item → Prop}
  {represents : State → Window Item → Prop} {emit : Window Item → Item → List Output}
  {finish : Window Item → List Output}

/-- A loop whose state represents the window at hand.  Its steps are asked about items that are related to the
first one of the window, as all later items of a list are to an earlier one. -/
structure Collects (beyond related : Item → Item → Prop) (loop : Loop Item Output State Error)
    (represents : State → Window Item → Prop) (emit : Window Item → Item → List Output)
    (finish : Window Item → List Output) : Prop where
  begin_ : ∀ item, ∃ next, loop.turn loop.start item = .ok ([], some next) ∧ represents next (.single item)
  add : ∀ state window item, represents state window → related window.first item → ¬ beyond window.first item →
    ∃ next, loop.turn state item = .ok ([], some next) ∧ represents next (window.add item)
  put : ∀ state window item, represents state window → related window.first item → beyond window.first item →
    ∃ next, loop.turn state item = .ok (emit window item, some next) ∧ represents next (.single item)
  finish : ∀ state window, represents state window → loop.finish state = finish window

def sent (emit : Window Item → Item → List Output) (finish : Window Item → List Output) :
    List (Window Item) → List Output
  | [] => []
  | [window] => finish window
  | window :: next :: later => emit window next.first ++ sent emit finish (next :: later)

theorem Collects.runFrom (collects : Collects beyond related loop represents emit finish) {state : State}
    {window : Window Item} {items : List Item} (represented : represents state window)
    (relates : (window.first :: items).Pairwise related) :
    loop.runFrom true state items =
      .ok { items := sent emit finish (divideFrom beyond window items), closed := true } := by
  induction items generalizing state window with
  | nil => simp [Loop.runFrom, divideFrom, sent, collects.finish state window represented]
  | cons item items inductionHypothesis =>
    obtain ⟨first, rest⟩ := List.pairwise_cons.mp relates
    have here := first item List.mem_cons_self
    rw [divideFrom]
    split
    · rename_i outside
      obtain ⟨next, turn, represented⟩ := collects.put state window item represented here outside
      have later := inductionHypothesis represented rest
      obtain ⟨others, windows, split⟩ := @divideFrom_eq_cons Item beyond _ (.single item) items
      simp only [Loop.runFrom, turn, later]
      rw [split]
      rfl
    · rename_i inside
      obtain ⟨next, turn, represented⟩ := collects.add state window item represented here inside
      have later := inductionHypothesis represented
        (List.pairwise_cons.mpr ⟨fun other member => first other (List.mem_cons_of_mem _ member),
          (List.pairwise_cons.mp rest).2⟩)
      simp only [Loop.runFrom, turn, later, List.nil_append]

/-- The loop sends what it makes of the windows of its input. -/
theorem Collects.run (collects : Collects beyond related loop represents emit finish) {items : List Item}
    (nonempty : items ≠ []) (relates : items.Pairwise related) :
    loop.run { items, closed := true } =
      .ok { items := sent emit finish (divide beyond items), closed := true } := by
  cases items with
  | nil => exact absurd rfl nonempty
  | cons item items =>
    obtain ⟨next, turn, represented⟩ := collects.begin_ item
    have later := @Collects.runFrom _ _ _ _ _ _ _ _ _ _ _ collects next (.single item) items represented relates
    simp only [Loop.run, Loop.runFrom, turn, later, List.nil_append]
    rfl

/-- When a window is put out in the same way at the end as before another one, there is one output for each. -/
theorem sent_eq_map {make : Window Item → Output} {windows : List (Window Item)}
    (emits : ∀ window ∈ windows, ∀ item, emit window item = [make window])
    (finishes : ∀ window ∈ windows, finish window = [make window]) :
    sent emit finish windows = windows.map make := by
  induction windows with
  | nil => rfl
  | cons window later inductionHypothesis =>
    obtain ⟨emitHere, emitLater⟩ := List.forall_mem_cons.mp emits
    obtain ⟨finishHere, finishLater⟩ := List.forall_mem_cons.mp finishes
    cases later with
    | nil => exact finishHere
    | cons next later =>
      rw [sent, emitHere, inductionHypothesis emitLater finishLater]
      rfl

/-- When the last window is not put out, there is one output for each two windows in a row. -/
theorem sent_eq_zipWith {make : Window Item → Item → Output}
    (emits : ∀ window item, emit window item = [make window item])
    (finishes : ∀ window, finish window = []) (windows : List (Window Item)) :
    sent emit finish windows = List.zipWith (fun window next => make window next.first) windows windows.tail := by
  induction windows with
  | nil => rfl
  | cons window later inductionHypothesis =>
    cases later with
    | nil => exact finishes window
    | cons next later =>
      rw [sent, emits, inductionHypothesis]
      rfl

end Windows
