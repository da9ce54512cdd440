import Mathlib.Algebra.BigOperators.Group.List.Basic

/-! # Items at addresses

Items are kept in a list, and an address is a place in it.  A list of addresses stands for the items that are there at
the time, so that changing an item changes it in every place where its address is listed.
-/

namespace Addressed

variable {Item Sum : Type*} [AddCommMonoid Sum] (weight : Item → Sum)

def total (items : List Item) (addresses : List Nat) : Sum :=
  (addresses.map fun address => items[address]?.elim 0 weight).sum

variable {weight} {items : List Item} {addresses : List Nat}

@[simp] theorem total_append (first second : List Nat) :
    total weight items (first ++ second) = total weight items first + total weight items second := by
  rw [total, List.map_append, List.sum_append]
  rfl

@[simp] theorem total_cons (address : Nat) :
    total weight items (address :: addresses) = items[address]?.elim 0 weight + total weight items addresses := by
  rw [total, List.map_cons, List.sum_cons]
  rfl

@[simp] theorem total_nil : total weight items [] = 0 := rfl

theorem total_perm {others : List Nat} (same : addresses.Perm others) :
    total weight items addresses = total weight items others := (same.map _).sum_eq

/-- A new item does not matter where its address is not listed. -/
theorem total_concat (inside : ∀ address ∈ addresses, address < items.length) (item : Item) :
    total weight (items ++ [item]) addresses = total weight items addresses := by
  rw [total, total]
  congr 1
  refine List.map_congr_left fun address member => ?_
  rw [List.getElem?_append_left (inside address member)]

/-- An item that grows counts as often as its address is listed. -/
theorem total_modify {place : Nat} {item : Item} (here : items[place]? = some item) {change : Item → Item}
    {growth : Sum} (grows : weight (change item) = weight item + growth) :
    total weight (items.modify place change) addresses = total weight items addresses +
      addresses.count place • growth := by
  induction addresses with
  | nil => simp
  | cons address addresses inductionHypothesis =>
    rw [total_cons, total_cons, inductionHypothesis, List.getElem?_modify]
    by_cases same : place = address
    · subst same
      have grown : ((fun other => if place = place then change other else other) <$> items[place]?).elim 0 weight =
          weight item + growth := by
        rw [here]
        simpa using grows
      rw [grown, here, Option.elim_some, List.count_cons_self, succ_nsmul', add_assoc, add_assoc, add_left_comm growth]
    · have kept : ((fun other => if place = address then change other else other) <$> items[address]?) =
          items[address]? := by
        simp [same]
      rw [kept, List.count_cons_of_ne (Ne.symm same), add_assoc]

end Addressed
