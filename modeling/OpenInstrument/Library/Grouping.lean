import Mathlib.Data.List.Perm.Basic
import Mathlib.Data.List.Basic

/-! # Grouping the items of a list by a key

A list of groups partitions a list of items by a key when it has every item once, no group is empty, and two
items are in one group exactly when they have the same key.  Items count as often as they are listed.
Collecting, for each key of a list of keys, the items that have it is such a partition if the keys are all
different and every item has one of them.
-/

namespace Grouping

variable {Item Key : Type*} {key : Item → Key} {items : List Item} {groups : List (List Item)}

structure Partition (key : Item → Key) (items : List Item) (groups : List (List Item)) : Prop where
  each : groups.flatten.Perm items
  nonempty : ∀ group ∈ groups, group ≠ []
  alike : ∀ group ∈ groups, ∀ first ∈ group, ∀ second ∈ group, key first = key second
  apart : groups.Pairwise fun one other => ∀ first ∈ one, ∀ second ∈ other, key first ≠ key second

/-- Every item of a partition is in one of its groups. -/
theorem Partition.mem (partition : Partition key items groups) {item : Item} (inside : item ∈ items) :
    ∃ group ∈ groups, item ∈ group :=
  List.mem_flatten.mp (partition.each.mem_iff.mpr inside)

variable [DecidableEq Key]

def collect (key : Item → Key) (items : List Item) (keys : List Key) : List (List Item) :=
  keys.map fun wanted => items.filter fun item => key item = wanted

/-- What is collected is what has one of the keys. -/
theorem collect_perm {keys : List Key} (nodup : keys.Nodup) :
    (collect key items keys).flatten.Perm (items.filter fun item => key item ∈ keys) := by
  induction keys with
  | nil => simp [collect]
  | cons wanted keys inductionHypothesis =>
    obtain ⟨fresh, nodupRest⟩ := List.nodup_cons.mp nodup
    have here : (items.filter fun item => key item ∈ wanted :: keys).filter (fun item => key item = wanted) =
        items.filter fun item => key item = wanted := by
      rw [List.filter_filter]
      congr 1
      funext item
      by_cases same : key item = wanted <;> simp [same]
    have there : (items.filter fun item => key item ∈ wanted :: keys).filter (fun item => ! key item = wanted) =
        items.filter fun item => key item ∈ keys := by
      rw [List.filter_filter]
      congr 1
      funext item
      by_cases same : key item = wanted
      · simp [same, fresh]
      · simp [same]
    have split := List.filter_append_perm (fun item => decide (key item = wanted))
      (items.filter fun item => key item ∈ wanted :: keys)
    rw [here, there] at split
    exact ((inductionHypothesis nodupRest).append_left _).trans split

/-- The groups of all keys, without those that are empty. -/
theorem partition_collect {keys : List Key} (nodup : keys.Nodup) (covers : ∀ item ∈ items, key item ∈ keys) :
    Partition key items ((collect key items keys).filter fun group => !group.isEmpty) := by
  have member : ∀ {group item}, group ∈ (collect key items keys).filter (fun group => !group.isEmpty) →
      item ∈ group → ∃ wanted ∈ keys, group = items.filter (fun item => key item = wanted) ∧ key item = wanted := by
    intro group item listed inside
    obtain ⟨wanted, isKey, rfl⟩ := List.mem_map.mp (List.mem_filter.mp listed).1
    exact ⟨wanted, isKey, rfl, by simpa using (List.mem_filter.mp inside).2⟩
  constructor
  · rw [List.flatten_filter_not_isEmpty]
    have all : (items.filter fun item => key item ∈ keys) = items :=
      List.filter_eq_self.mpr fun item inside => decide_eq_true (covers item inside)
    have collected := @collect_perm Item Key key items _ keys nodup
    rwa [all] at collected
  · intro group listed empty
    simp [empty] at listed
  · intro group listed first one second other
    obtain ⟨wanted, _, split, same⟩ := member listed one
    rw [split] at other
    rw [same, of_decide_eq_true (List.mem_filter.mp other).2]
  · apply List.Pairwise.filter
    rw [collect, List.pairwise_map]
    refine nodup.imp fun different first one second other same => different ?_
    rw [← of_decide_eq_true (List.mem_filter.mp one).2, ← of_decide_eq_true (List.mem_filter.mp other).2, same]

end Grouping
