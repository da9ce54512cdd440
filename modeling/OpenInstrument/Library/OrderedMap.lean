import Mathlib.Algebra.Order.BigOperators.Group.List
import Mathlib.Algebra.Order.Ring.Nat
import Mathlib.Order.Defs.LinearOrder
import Mathlib.Order.Basic

/-! # Maps ordered by key

A map that is iterated in the order of its keys, as a list of entries whose keys increase.  Two such
maps are equal when they hold the same entries.
-/

/-- A map as the list of its entries, in the order of the keys. -/
structure OrderedMap (Key Value : Type) [LinearOrder Key] where
  entries : List (Key × Value)
  sorted : entries.Pairwise fun first second => first.1 < second.1

namespace OrderedMap

variable {Key Value : Type} [LinearOrder Key]

theorem ext {first second : OrderedMap Key Value} (same : first.entries = second.entries) :
    first = second := by
  cases first
  cases second
  cases same
  rfl

theorem ext_iff {first second : OrderedMap Key Value} :
    first = second ↔ first.entries = second.entries :=
  ⟨congrArg entries, ext⟩

instance decidableEqOrderedMap [DecidableEq Value] : DecidableEq (OrderedMap Key Value) :=
  fun _ _ => decidable_of_iff _ ext_iff.symm

def empty : OrderedMap Key Value := ⟨[], .nil⟩

/-- The entries with one more, which replaces an entry of the same key. -/
def insertEntry (key : Key) (value : Value) : List (Key × Value) → List (Key × Value)
  | [] => [(key, value)]
  | entry :: rest =>
    if key < entry.1 then (key, value) :: entry :: rest
    else if key = entry.1 then (key, value) :: rest
    else entry :: insertEntry key value rest

theorem mem_insertEntry {key : Key} {value : Value} {entry : Key × Value} {entries : List (Key × Value)}
    (member : entry ∈ insertEntry key value entries) : entry = (key, value) ∨ entry ∈ entries := by
  induction entries with
  | nil => exact .inl (List.mem_singleton.mp member)
  | cons first rest inductionHypothesis =>
    rw [insertEntry] at member
    split at member
    · exact List.mem_cons.mp member
    · split at member
      · cases List.mem_cons.mp member with
        | inl same => exact .inl same
        | inr later => exact .inr (List.mem_cons_of_mem _ later)
      · cases List.mem_cons.mp member with
        | inl same => exact .inr (same ▸ List.mem_cons_self)
        | inr later => exact (inductionHypothesis later).imp_right (List.mem_cons_of_mem _)

theorem insertEntry_sorted (key : Key) (value : Value) {entries : List (Key × Value)}
    (sorted : entries.Pairwise fun first second => first.1 < second.1) :
    (insertEntry key value entries).Pairwise fun first second => first.1 < second.1 := by
  induction entries with
  | nil => simp [insertEntry]
  | cons first rest inductionHypothesis =>
    obtain ⟨below, sortedRest⟩ := List.pairwise_cons.mp sorted
    rw [insertEntry]
    split
    · rename_i smaller
      refine List.pairwise_cons.mpr ⟨fun entry member => ?_, sorted⟩
      cases List.mem_cons.mp member with
      | inl same => exact same ▸ smaller
      | inr later => exact lt_trans smaller (below entry later)
    · rename_i notSmaller
      split
      · rename_i same
        exact List.pairwise_cons.mpr ⟨fun entry member => same ▸ below entry member, sortedRest⟩
      · rename_i different
        refine List.pairwise_cons.mpr ⟨fun entry member => ?_, inductionHypothesis sortedRest⟩
        cases mem_insertEntry member with
        | inl inserted =>
          subst inserted
          exact lt_of_le_of_ne (not_lt.mp notSmaller) (Ne.symm different)
        | inr later => exact below entry later

/-- `map[key] = value`. -/
def set (map : OrderedMap Key Value) (key : Key) (value : Value) : OrderedMap Key Value :=
  ⟨insertEntry key value map.entries, insertEntry_sorted key value map.sorted⟩

def lookup (map : OrderedMap Key Value) (key : Key) : Option Value :=
  (map.entries.find? fun entry => decide (entry.1 = key)).map Prod.snd

theorem find_insertEntry (key : Key) (value : Value) (entries : List (Key × Value)) :
    ((insertEntry key value entries).find? fun entry => decide (entry.1 = key)) = some (key, value) := by
  induction entries with
  | nil => simp [insertEntry]
  | cons first rest inductionHypothesis =>
    rw [insertEntry]
    split
    · simp
    · split
      · simp
      · rename_i notBelow different
        rw [List.find?_cons_of_neg (by simpa using Ne.symm different)]
        exact inductionHypothesis

theorem lookup_set (map : OrderedMap Key Value) (key : Key) (value : Value) :
    (map.set key value).lookup key = some value := by
  rw [lookup, set, find_insertEntry]
  rfl

theorem find_insertEntry_ne {key inserted : Key} (other : key ≠ inserted) (value : Value)
    (entries : List (Key × Value)) :
    ((insertEntry inserted value entries).find? fun entry => decide (entry.1 = key)) =
      entries.find? fun entry => decide (entry.1 = key) := by
  have skipped : decide (inserted = key) = false := decide_eq_false other.symm
  induction entries with
  | nil => simp [insertEntry, skipped]
  | cons first rest inductionHypothesis =>
    rw [insertEntry]
    split
    · rw [List.find?_cons, skipped]
    · split
      · rename_i same
        rw [List.find?_cons, skipped, List.find?_cons, ← same, skipped]
      · rw [List.find?_cons, inductionHypothesis, List.find?_cons]

theorem lookup_set_ne {key inserted : Key} (other : key ≠ inserted) (map : OrderedMap Key Value) (value : Value) :
    (map.set inserted value).lookup key = map.lookup key := by
  rw [lookup, set, find_insertEntry_ne other, lookup]

/-- The keys increase, so that no other entry of a key is found in front of it. -/
theorem find_of_mem {entries : List (Key × Value)} {key : Key} {value : Value}
    (sorted : entries.Pairwise fun first second => first.1 < second.1) (member : (key, value) ∈ entries) :
    (entries.find? fun entry => decide (entry.1 = key)) = some (key, value) := by
  induction entries with
  | nil => cases member
  | cons first rest inductionHypothesis =>
    obtain ⟨below, sortedRest⟩ := List.pairwise_cons.mp sorted
    cases member with
    | head => exact List.find?_cons_of_pos (decide_eq_true rfl)
    | tail _ behind =>
      have apart : first.1 ≠ key := ne_of_lt (below _ behind)
      rw [List.find?_cons_of_neg (by simpa using apart)]
      exact inductionHypothesis sortedRest behind

theorem mem_entries {map : OrderedMap Key Value} {key : Key} {value : Value} :
    (key, value) ∈ map.entries ↔ map.lookup key = some value := by
  rw [lookup, Option.map_eq_some_iff]
  constructor
  · exact fun member => ⟨_, find_of_mem map.sorted member, rfl⟩
  · rintro ⟨entry, found, rfl⟩
    have here : entry.1 = key := by simpa using List.find?_some found
    rw [← here]
    exact List.mem_of_find?_eq_some found

theorem nodup_of_sorted {entries : List (Key × Value)}
    (sorted : entries.Pairwise fun first second => first.1 < second.1) : entries.Nodup :=
  List.Pairwise.imp (S := (· ≠ ·)) (fun below same => ne_of_lt below (congrArg Prod.fst same)) sorted

/-- Entries in the order of their keys are those of the map that finds them. -/
theorem entries_eq_of_lookup {map : OrderedMap Key Value} {entries : List (Key × Value)}
    (sorted : entries.Pairwise fun first second => first.1 < second.1)
    (found : ∀ key value, (key, value) ∈ entries ↔ map.lookup key = some value) : map.entries = entries := by
  have perm : map.entries.Perm entries :=
    (List.perm_ext_iff_of_nodup (nodup_of_sorted map.sorted) (nodup_of_sorted sorted)).mpr fun entry =>
      mem_entries.trans (found entry.1 entry.2).symm
  exact perm.eq_of_pairwise (fun _ _ _ _ below above => absurd below (lt_asymm above)) map.sorted sorted

/-! ## Building a map -/

/-- A key behind all others is added at the end. -/
theorem insertEntry_last {key : Key} {value : Value} {entries : List (Key × Value)}
    (last : ∀ entry ∈ entries, entry.1 < key) :
    insertEntry key value entries = entries ++ [(key, value)] := by
  induction entries with
  | nil => rfl
  | cons first rest inductionHypothesis =>
    have below := last first List.mem_cons_self
    rw [insertEntry, if_neg (lt_asymm below), if_neg (ne_of_gt below),
      inductionHypothesis fun entry member => last entry (List.mem_cons_of_mem _ member), List.cons_append]

def setAll (map : OrderedMap Key Value) (entries : List (Key × Value)) : OrderedMap Key Value :=
  entries.foldl (fun map entry => map.set entry.1 entry.2) map

theorem setAll_entries {map : OrderedMap Key Value} {entries : List (Key × Value)}
    (sorted : (map.entries ++ entries).Pairwise fun first second => first.1 < second.1) :
    (map.setAll entries).entries = map.entries ++ entries := by
  induction entries generalizing map with
  | nil => simp [setAll]
  | cons entry entries inductionHypothesis =>
    have last : ∀ earlier ∈ map.entries, earlier.1 < entry.1 :=
      fun earlier member => (List.pairwise_append.mp sorted).2.2 earlier member entry List.mem_cons_self
    have here : (map.set entry.1 entry.2).entries = map.entries ++ [entry] := insertEntry_last last
    have rest : ((map.set entry.1 entry.2).setAll entries).entries =
        (map.set entry.1 entry.2).entries ++ entries := by
      apply inductionHypothesis
      rw [here, List.append_assoc]
      exact sorted
    rw [here, List.append_assoc] at rest
    exact rest

/-- Setting the entries of a map in their order builds the map again. -/
theorem setAll_empty (map : OrderedMap Key Value) : empty.setAll map.entries = map :=
  ext (setAll_entries map.sorted : (empty.setAll map.entries).entries = [] ++ map.entries)

/-! ## Sums over the entries -/

def sum (weight : Key × Value → Nat) (map : OrderedMap Key Value) : Nat := (map.entries.map weight).sum

theorem sum_set_le (weight : Key × Value → Nat) (map : OrderedMap Key Value) (key : Key) (value : Value) :
    (map.set key value).sum weight ≤ map.sum weight + weight (key, value) := by
  have bound : ∀ entries : List (Key × Value),
      ((insertEntry key value entries).map weight).sum ≤ (entries.map weight).sum + weight (key, value) := by
    intro entries
    induction entries with
    | nil => simp [insertEntry]
    | cons first rest inductionHypothesis =>
      rw [insertEntry]
      split
      · simp only [List.map_cons, List.sum_cons]
        omega
      · split
        · simp only [List.map_cons, List.sum_cons]
          omega
        · simp only [List.map_cons, List.sum_cons]
          omega
  exact bound map.entries

/-- Where no weight exceeds another and the sums do not differ, neither do the weights. -/
theorem eq_of_sum_le {Item : Type} {small large : Item → Nat} {items : List Item}
    (below : ∀ item ∈ items, small item ≤ large item)
    (sums : (items.map large).sum ≤ (items.map small).sum) : ∀ item ∈ items, small item = large item := by
  induction items with
  | nil => simp
  | cons item items inductionHypothesis =>
    have belowRest : ∀ other ∈ items, small other ≤ large other :=
      fun other member => below other (List.mem_cons_of_mem _ member)
    have here := below item List.mem_cons_self
    have rest := List.sum_le_sum belowRest
    simp only [List.map_cons, List.sum_cons] at sums
    intro other member
    cases List.mem_cons.mp member with
    | inl same =>
      subst same
      omega
    | inr later => exact inductionHypothesis belowRest (by omega) other later

end OrderedMap
