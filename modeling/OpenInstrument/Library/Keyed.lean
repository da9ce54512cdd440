import Mathlib.Data.List.AList
import Mathlib.Algebra.BigOperators.Group.List.Basic
import Mathlib.Tactic.Abel

/-! # Totals over finite maps

A finite map is an `AList`; its entries come in some order, and nothing stated here
depends on which.  `total` adds up a quantity over the entries: the number of
elements a container holds, or the multiset of everything that is stored in it.
The lemmas say what `insert` and `erase` do to a total.
-/

namespace Keyed

variable {Key Value Sum : Type*}

/-- Entry list of a map as ordinary pairs. -/
def pairs (map : AList fun _ : Key => Value) : List (Key × Value) :=
  map.entries.map fun entry => (entry.1, entry.2)

/-- The sum of `weight` over all entries. -/
def total [AddCommMonoid Sum] (weight : Key → Value → Sum) (map : AList fun _ : Key => Value) : Sum :=
  (map.entries.map fun entry => weight entry.1 entry.2).sum

variable [AddCommMonoid Sum] {weight : Key → Value → Sum}

@[simp] theorem total_empty : total weight ∅ = 0 := rfl

theorem total_of_perm {first second : AList fun _ : Key => Value}
    (same : first.entries.Perm second.entries) : total weight first = total weight second :=
  (same.map _).sum_eq

theorem total_eq_pairs (map : AList fun _ : Key => Value) :
    total weight map = ((pairs map).map fun entry => weight entry.1 entry.2).sum := by
  simp [total, pairs, Function.comp_def]

theorem pairs_keys (map : AList fun _ : Key => Value) : (pairs map).map Prod.fst = map.keys := by
  simp [pairs, AList.keys, List.keys, Function.comp_def]

theorem pairs_keys_nodup (map : AList fun _ : Key => Value) : ((pairs map).map Prod.fst).Nodup := by
  rw [pairs_keys]
  exact map.keys_nodup

def mapValues {Other : Type*} (f : Value → Other) (map : AList fun _ : Key => Value) : AList fun _ : Key => Other where
  entries := map.entries.map fun entry => ⟨entry.1, f entry.2⟩
  nodupKeys := by
    have keys : (map.entries.map fun entry => (⟨entry.1, f entry.2⟩ : Sigma fun _ : Key => Other)).keys =
        map.entries.keys := by
      rw [List.keys, List.map_map]
      rfl
    rw [List.NodupKeys, keys]
    exact map.nodupKeys

theorem pairs_mapValues {Other : Type*} (f : Value → Other) (map : AList fun _ : Key => Value) :
    pairs (mapValues f map) = (pairs map).map fun entry => (entry.1, f entry.2) := by
  rw [pairs, mapValues, List.map_map, pairs, List.map_map]
  rfl

variable [DecidableEq Key]

theorem mem_pairs {map : AList fun _ : Key => Value} {key : Key} {value : Value} :
    (key, value) ∈ pairs map ↔ map.lookup key = some value := by
  rw [← Option.mem_def, AList.mem_lookup_iff]
  simp only [pairs, List.mem_map, Prod.mk.injEq]
  constructor
  · rintro ⟨⟨key', value'⟩, member, rfl, rfl⟩
    exact member
  · intro member
    exact ⟨_, member, rfl, rfl⟩

/-- The items of all values, each beside a mark of the value that it comes from. -/
theorem mem_marked {map : AList fun _ : Key => Value} {Mark Item : Type*} {mark : Value → Mark}
    {itemsOf : Value → List Item} {entry : Mark × Item} :
    (entry ∈ ((pairs map).map Prod.snd).flatMap fun value => (itemsOf value).map fun item => (mark value, item)) ↔
      ∃ key value, map.lookup key = some value ∧ entry.1 = mark value ∧ entry.2 ∈ itemsOf value := by
  obtain ⟨marked, item⟩ := entry
  simp only [List.mem_flatMap, List.mem_map, Prod.exists, mem_pairs, Prod.mk.injEq]
  constructor
  · rintro ⟨value, ⟨key, _, found, rfl⟩, _, member, rfl, rfl⟩
    exact ⟨key, _, found, rfl, member⟩
  · rintro ⟨key, value, found, rfl, member⟩
    exact ⟨value, ⟨key, value, found, rfl⟩, item, member, rfl, rfl⟩

/-- A property of every entry, checked on the list of entries. -/
theorem forall_lookup {map : AList fun _ : Key => Value} {holds : Key → Value → Prop}
    (listed : ∀ entry ∈ pairs map, holds entry.1 entry.2) (key : Key) (value : Value)
    (found : map.lookup key = some value) : holds key value :=
  listed (key, value) (mem_pairs.mpr found)

theorem mem_iff_lookup {map : AList fun _ : Key => Value} {key : Key} :
    key ∈ map ↔ ∃ value, map.lookup key = some value := by
  rw [← AList.lookup_isSome, Option.isSome_iff_exists]

/-- An inserted entry displaces whatever its key held. -/
theorem total_insert (map : AList fun _ : Key => Value) (key : Key) (value : Value) :
    total weight (map.insert key value) = weight key value + total weight (map.erase key) := by
  have erased : (map.erase key).entries = map.entries.kerase key := rfl
  simp [total, AList.entries_insert, erased]

theorem erase_of_notMem {map : AList fun _ : Key => Value} {key : Key} (absent : key ∉ map) :
    map.erase key = map := by
  apply AList.ext
  exact List.kerase_of_notMem_keys absent

theorem notMem_erase (map : AList fun _ : Key => Value) (key : Key) : key ∉ map.erase key :=
  AList.lookup_eq_none.mp (AList.lookup_erase key map)

/-- What is found after an erasure was there before, under another key. -/
theorem lookup_erase_eq_some {map : AList fun _ : Key => Value} {erased key : Key} {value : Value} :
    (map.erase erased).lookup key = some value ↔ key ≠ erased ∧ map.lookup key = some value := by
  by_cases same : key = erased
  · subst same
    simp [AList.lookup_erase]
  · simp [AList.lookup_erase_ne same, same]

theorem insert_erase (map : AList fun _ : Key => Value) (key : Key) (value : Value) :
    (map.erase key).insert key value = map.insert key value := by
  apply AList.ext
  rw [AList.entries_insert, AList.entries_insert]
  exact congrArg (List.cons _) (congrArg AList.entries (erase_of_notMem (notMem_erase map key)))

theorem total_insert_of_notMem {map : AList fun _ : Key => Value} {key : Key} (absent : key ∉ map)
    (value : Value) : total weight (map.insert key value) = weight key value + total weight map := by
  rw [total_insert, erase_of_notMem absent]

theorem pairs_insert (map : AList fun _ : Key => Value) (key : Key) (value : Value) :
    pairs (map.insert key value) = (key, value) :: pairs (map.erase key) := by
  have erased : (map.erase key).entries = map.entries.kerase key := rfl
  simp [pairs, AList.entries_insert, erased]

/-- The entry of a key among all entries. -/
theorem pairs_erase {map : AList fun _ : Key => Value} {key : Key} {value : Value}
    (found : map.lookup key = some value) : (pairs map).Perm ((key, value) :: pairs (map.erase key)) := by
  have member : (⟨key, value⟩ : Sigma fun _ : Key => Value) ∈ map.entries :=
    AList.mem_lookup_iff.mp found
  obtain ⟨value', before, after, absent, split, erased⟩ :=
    List.exists_of_kerase (List.mem_keys_of_mem member)
  have same : value' = value := by
    have member' : (⟨key, value'⟩ : Sigma fun _ : Key => Value) ∈ map.entries := by
      rw [split]; simp
    have found' : map.lookup key = some value' := AList.mem_lookup_iff.mpr member'
    rw [found] at found'
    exact (Option.some.inj found').symm
  subst same
  have kept : (map.erase key).entries = map.entries.kerase key := rfl
  rw [pairs, pairs, kept, erased, split, List.map_append, List.map_append, List.map_cons]
  exact List.perm_middle

theorem total_erase {map : AList fun _ : Key => Value} {key : Key} {value : Value}
    (found : map.lookup key = some value) :
    total weight map = weight key value + total weight (map.erase key) := by
  rw [total_eq_pairs, ((pairs_erase found).map _).sum_eq, List.map_cons, List.sum_cons, ← total_eq_pairs]

/-- Replacing the value of a key that is present. -/
theorem total_replace {map : AList fun _ : Key => Value} {key : Key} {old : Value}
    (found : map.lookup key = some old) (value : Value) :
    total weight (map.insert key value) + weight key old = total weight map + weight key value := by
  rw [total_insert, total_erase found]
  abel

/-- An insertion, whether or not the key is present. -/
theorem total_insert_add (map : AList fun _ : Key => Value) (key : Key) (value : Value) :
    total weight (map.insert key value) + (map.lookup key).elim 0 (weight key) =
      total weight map + weight key value := by
  cases found : map.lookup key with
  | none =>
    rw [total_insert_of_notMem (AList.lookup_eq_none.mp found), Option.elim_none, add_zero, add_comm]
  | some old => exact total_replace found value

theorem total_congr {other : Key → Value → Sum} {map : AList fun _ : Key => Value}
    (agree : ∀ key value, map.lookup key = some value → weight key value = other key value) :
    total weight map = total other map := by
  simp only [total]
  congr 1
  apply List.map_congr_left
  rintro ⟨key, value⟩ member
  exact agree key value (AList.mem_lookup_iff.mpr member)

/-! ## Inserting a list of entries -/

/-- Inserts the items one after another; a later item displaces an earlier one of its key. -/
def insertAll (map : AList fun _ : Key => Value) (items : List (Key × Value)) :
    AList fun _ : Key => Value :=
  items.foldl (fun map item => map.insert item.1 item.2) map

theorem lookup_insertAll_of_notMem {items : List (Key × Value)} {key : Key}
    (absent : key ∉ items.map Prod.fst) (map : AList fun _ : Key => Value) :
    (insertAll map items).lookup key = map.lookup key := by
  induction items generalizing map with
  | nil => rfl
  | cons item items inductionHypothesis =>
    simp only [List.map_cons, List.mem_cons, not_or] at absent
    rw [insertAll, List.foldl_cons]
    exact (inductionHypothesis absent.2 _).trans (AList.lookup_insert_ne absent.1)

theorem lookup_insertAll_of_mem {items : List (Key × Value)} {key : Key} {value : Value}
    (distinct : (items.map Prod.fst).Nodup) (member : (key, value) ∈ items)
    (map : AList fun _ : Key => Value) : (insertAll map items).lookup key = some value := by
  induction items generalizing map with
  | nil => cases member
  | cons item items inductionHypothesis =>
    simp only [List.map_cons, List.nodup_cons] at distinct
    rw [insertAll, List.foldl_cons]
    rcases List.mem_cons.mp member with rfl | member
    · exact (lookup_insertAll_of_notMem distinct.1 _).trans (AList.lookup_insert _)
    · exact inductionHypothesis distinct.2 member _

/-- What is found after the insertions was there before or is one of the items. -/
theorem mem_of_lookup_insertAll {items : List (Key × Value)} {key : Key} {value : Value}
    {map : AList fun _ : Key => Value} (found : (insertAll map items).lookup key = some value) :
    map.lookup key = some value ∨ (key, value) ∈ items := by
  induction items generalizing map with
  | nil => exact .inl found
  | cons item items inductionHypothesis =>
    rcases inductionHypothesis found with old | member
    · by_cases same : key = item.1
      · subst same
        rw [AList.lookup_insert, Option.some.injEq] at old
        exact .inr (by simp [← old])
      · rw [AList.lookup_insert_ne same] at old
        exact .inl old
    · exact .inr (List.mem_cons_of_mem _ member)

/-- A displaced item shows in the total: when the total reaches what the items add up to, no
two of them had the same key. -/
theorem total_insertAll (measure : Key → Value → Nat) (positive : ∀ key value, 0 < measure key value)
    (items : List (Key × Value)) (map : AList fun _ : Key => Value) :
    total measure (insertAll map items) ≤
        total measure map + (items.map fun item => measure item.1 item.2).sum ∧
      (total measure (insertAll map items) =
          total measure map + (items.map fun item => measure item.1 item.2).sum →
        (items.map Prod.fst).Nodup ∧ ∀ item ∈ items, item.1 ∉ map) := by
  induction items generalizing map with
  | nil => simp [insertAll]
  | cons item items inductionHypothesis =>
    obtain ⟨bound, exact⟩ := inductionHypothesis (map.insert item.1 item.2)
    -- What the first item displaces is missing from the total, and every entry counts for something.
    have erased : total measure (map.erase item.1) ≤ total measure map := by
      by_cases present : item.1 ∈ map
      · obtain ⟨old, found⟩ := mem_iff_lookup.mp present
        rw [total_erase found]
        omega
      · rw [erase_of_notMem present]
    rw [total_insert] at bound exact
    simp only [insertAll, List.foldl_cons, List.map_cons, List.sum_cons] at bound exact ⊢
    refine ⟨by omega, fun reached => ?_⟩
    obtain ⟨distinct, fresh⟩ := exact (by omega)
    have absent : item.1 ∉ map := by
      intro present
      obtain ⟨old, found⟩ := mem_iff_lookup.mp present
      have positive := positive item.1 old
      have split : total measure map = measure item.1 old + total measure (map.erase item.1) :=
        total_erase found
      omega
    refine ⟨List.nodup_cons.mpr ⟨?_, distinct⟩, ?_⟩
    · intro repeated
      obtain ⟨other, member, same⟩ := List.mem_map.mp repeated
      exact fresh other member (by rw [same]; simp)
    · intro other member
      rcases List.mem_cons.mp member with rfl | member
      · exact absent
      · intro present
        exact fresh other member (by simp [present])

/-- Two maps with the same lookups have the same total. -/
theorem perm_of_lookup_eq {first second : AList fun _ : Key => Value}
    (same : ∀ key, first.lookup key = second.lookup key) : first.entries.Perm second.entries :=
  List.lookup_ext first.nodupKeys second.nodupKeys fun key value => by
    rw [← AList.lookup, ← AList.lookup, same key]

/-! ## Comparing totals of different maps -/

section Tags

variable {Item Other Tag : Type*} (tag : Item → Tag) (otherTag : Other → Tag)

/-- Items and others that have the same tag weigh the same, and what has no counterpart weighs nothing. -/
theorem sum_eq_of_tags {items : List Item} {others : List Other} {weight : Item → Sum} {otherWeight : Other → Sum}
    (distinct : (items.map tag).Nodup) (otherDistinct : (others.map otherTag).Nodup)
    (same : ∀ item ∈ items, ∀ other ∈ others, tag item = otherTag other → weight item = otherWeight other)
    (nothing : ∀ item ∈ items, (∀ other ∈ others, tag item ≠ otherTag other) → weight item = 0)
    (otherNothing : ∀ other ∈ others, (∀ item ∈ items, tag item ≠ otherTag other) → otherWeight other = 0) :
    (items.map weight).sum = (others.map otherWeight).sum := by
  induction items generalizing others with
  | nil =>
    rw [List.map_nil, List.sum_nil]
    refine (List.sum_eq_zero fun weighed member => ?_).symm
    obtain ⟨other, present, rfl⟩ := List.mem_map.mp member
    exact otherNothing other present fun _ absent => absurd absent List.not_mem_nil
  | cons item items inductionHypothesis =>
    rw [List.map_cons, List.nodup_cons] at distinct
    rw [List.map_cons, List.sum_cons]
    by_cases found : ∃ other ∈ others, tag item = otherTag other
    · obtain ⟨other, present, tagged⟩ := found
      obtain ⟨before, after, rfl⟩ := List.append_of_mem present
      have perm : (before ++ other :: after).Perm (other :: (before ++ after)) := List.perm_middle
      have kept : ∀ rest ∈ before ++ after, rest ∈ before ++ other :: after := fun rest member =>
        perm.mem_iff.mpr (List.mem_cons_of_mem _ member)
      rw [(perm.map otherTag).nodup_iff, List.map_cons, List.nodup_cons] at otherDistinct
      rw [(perm.map otherWeight).sum_eq, List.map_cons, List.sum_cons,
        same item List.mem_cons_self other present tagged]
      congr 1
      refine inductionHypothesis distinct.2 otherDistinct.2
        (fun one member rest among => same one (List.mem_cons_of_mem _ member) rest (kept rest among))
        (fun one member alone => ?_) fun rest among alone => ?_
      · refine nothing one (List.mem_cons_of_mem _ member) fun rest among tags => ?_
        rcases List.mem_cons.mp (perm.mem_iff.mp among) with rfl | elsewhere
        · exact distinct.1 ((tagged.trans tags.symm) ▸ List.mem_map_of_mem member)
        · exact alone rest elsewhere tags
      · refine otherNothing rest (kept rest among) fun one member tags => ?_
        rcases List.mem_cons.mp member with rfl | later
        · exact otherDistinct.1 ((tagged.symm.trans tags) ▸ List.mem_map_of_mem among)
        · exact alone one later tags
    · push Not at found
      rw [nothing item List.mem_cons_self found, zero_add]
      refine inductionHypothesis distinct.2 otherDistinct
        (fun one member => same one (List.mem_cons_of_mem _ member))
        (fun one member => nothing one (List.mem_cons_of_mem _ member)) fun rest among alone => ?_
      refine otherNothing rest among fun one member tags => ?_
      rcases List.mem_cons.mp member with rfl | later
      · exact found rest among tags
      · exact alone one later tags

/-- The entries of a map differ in a tag that tells their keys. -/
theorem tags_nodup {map : AList fun _ : Key => Item}
    (distinct : ∀ first item second other, map.lookup first = some item → map.lookup second = some other →
      tag item = tag other → first = second) : ((pairs map).map fun entry => tag entry.2).Nodup := by
  refine List.Nodup.map_on (fun entry member other among tags => ?_) (pairs_keys_nodup map).of_map
  obtain ⟨key, item⟩ := entry
  obtain ⟨otherKey, otherItem⟩ := other
  have found := mem_pairs.mp member
  have otherFound := mem_pairs.mp among
  obtain rfl := distinct key item otherKey otherItem found otherFound tags
  exact Prod.ext rfl (Option.some.inj (found.symm.trans otherFound))

/-- The same for the entries of two maps, whatever keys they have. -/
theorem total_eq_of_tags {first : AList fun _ : Key => Item} {second : AList fun _ : Key => Other}
    {firstWeight : Key → Item → Sum} {secondWeight : Key → Other → Sum}
    (distinct : ((pairs first).map fun entry => tag entry.2).Nodup)
    (otherDistinct : ((pairs second).map fun entry => otherTag entry.2).Nodup)
    (same : ∀ key item otherKey other, first.lookup key = some item → second.lookup otherKey = some other →
      tag item = otherTag other → firstWeight key item = secondWeight otherKey other)
    (nothing : ∀ key item, first.lookup key = some item →
      (∀ otherKey other, second.lookup otherKey = some other → tag item ≠ otherTag other) →
        firstWeight key item = 0)
    (otherNothing : ∀ key other, second.lookup key = some other →
      (∀ otherKey item, first.lookup otherKey = some item → tag item ≠ otherTag other) →
        secondWeight key other = 0) :
    total firstWeight first = total secondWeight second := by
  rw [total_eq_pairs, total_eq_pairs]
  refine sum_eq_of_tags (fun entry : Key × Item => tag entry.2) (fun entry : Key × Other => otherTag entry.2) distinct
    otherDistinct (fun entry member other among => ?_) (fun entry member alone => ?_)
    fun other among alone => ?_
  · exact same entry.1 entry.2 other.1 other.2 (mem_pairs.mp member) (mem_pairs.mp among)
  · exact nothing entry.1 entry.2 (mem_pairs.mp member) fun key other found =>
      alone (key, other) (mem_pairs.mpr found)
  · exact otherNothing other.1 other.2 (mem_pairs.mp among) fun key item found =>
      alone (key, item) (mem_pairs.mpr found)

end Tags

end Keyed
