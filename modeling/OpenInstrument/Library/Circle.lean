import Mathlib.Data.List.Nodup
import OpenInstrument.Library.OrderedMap

/-! # The points of a circle

The keys of a map are points of a circle, and each point answers for the keys from the point before it on.  A point
that is added takes keys for itself and moves no other key.
-/

namespace OrderedMap

variable {Key Value : Type} [LinearOrder Key]

/-- The first entry that is not below a key.  Behind the last entry the first one comes again. -/
def next (map : OrderedMap Key Value) (key : Key) : Option (Key × Value) :=
  (map.entries.find? fun entry => decide (key ≤ entry.1)).or map.entries.head?

/-- An entry that is put in is the first of some keys, or it changes nothing about which one is first.  It may
replace another entry, which has the same key. -/
theorem find_insertEntry_key (wanted : Key → Bool) (key : Key) (value : Value) (entries : List (Key × Value)) :
    ((insertEntry key value entries).find? fun entry => wanted entry.1) = some (key, value) ∨
      ((insertEntry key value entries).find? fun entry => wanted entry.1) =
        entries.find? fun entry => wanted entry.1 := by
  induction entries with
  | nil =>
    cases here : wanted key with
    | true => simp [insertEntry, here]
    | false => simp [insertEntry, here]
  | cons first rest inductionHypothesis =>
    rw [insertEntry]
    split
    · cases here : wanted key with
      | true => simp [here]
      | false => simp [here]
    · split
      · rename_i same
        cases here : wanted key with
        | true => simp [here]
        | false => simp [here, ← same]
      · cases here : wanted first.1 with
        | true => simp [here]
        | false =>
          rw [List.find?_cons_of_neg (by simp [here]), List.find?_cons_of_neg (by simp [here])]
          exact inductionHypothesis

theorem head_insertEntry (key : Key) (value : Value) (entries : List (Key × Value)) :
    (insertEntry key value entries).head? = some (key, value) ∨
      (insertEntry key value entries).head? = entries.head? := by
  have first : ∀ list : List (Key × Value), (list.find? fun _ => true) = list.head? := by
    intro list
    cases list <;> rfl
  rw [← first, ← first]
  exact find_insertEntry_key (fun _ => true) key value entries

theorem next_set (map : OrderedMap Key Value) (inserted : Key) (value : Value) (key : Key) :
    (map.set inserted value).next key = some (inserted, value) ∨
      (map.set inserted value).next key = map.next key := by
  rw [next, next, set]
  cases find_insertEntry_key (fun point => decide (key ≤ point)) inserted value map.entries with
  | inl here => exact .inl (by rw [here, Option.some_or])
  | inr same =>
    rw [same]
    cases found : map.entries.find? fun entry => decide (key ≤ entry.1) with
    | some entry => exact .inr rfl
    -- The key lies behind all points, before and after.
    | none => exact head_insertEntry inserted value map.entries

theorem next_eq_none {map : OrderedMap Key Value} {key : Key} : map.next key = none ↔ map.entries = [] := by
  rw [next, Option.or_eq_none_iff, List.head?_eq_none_iff]
  constructor
  · exact fun nothing => nothing.2
  · intro nothing
    rw [nothing]
    exact ⟨rfl, rfl⟩

/-! ## Neighbouring points -/

/-- A point answers for the keys up to itself that are behind the point before it; the first point also answers for
the keys behind the last one. -/
def Answers (map : OrderedMap Key Value) (point : Key × Value) (key : Key) : Prop :=
  point ∈ map.entries ∧
    ((key ≤ point.1 ∧ ∀ other ∈ map.entries, key ≤ other.1 → point.1 ≤ other.1) ∨
      ((∀ other ∈ map.entries, other.1 < key) ∧ ∀ other ∈ map.entries, point.1 ≤ other.1))

/-- The second point comes right behind the first one, and the first of all comes behind the last. -/
def Follows (map : OrderedMap Key Value) (point other : Key × Value) : Prop :=
  ∃ place, map.entries[place]? = some point ∧ map.entries[(place + 1) % map.entries.length]? = some other

/-- Where the point of a key stands. -/
def place (map : OrderedMap Key Value) (key : Key) : Nat :=
  let first := map.entries.findIdx fun entry => decide (key ≤ entry.1)
  if first = map.entries.length then 0 else first

theorem next_eq_getElem (map : OrderedMap Key Value) (key : Key) : map.next key = map.entries[map.place key]? := by
  have found : ∀ entries : List (Key × Value), (entries.find? fun entry => decide (key ≤ entry.1)) =
      entries[entries.findIdx fun entry => decide (key ≤ entry.1)]? := by
    intro entries
    induction entries with
    | nil => rfl
    | cons entry entries inductionHypothesis =>
      rw [List.findIdx_cons]
      cases here : decide (key ≤ entry.1) with
      | true => simp [here]
      | false => simpa [here] using inductionHypothesis
  rw [next, found, place]
  split
  · rename_i behind
    rw [behind, List.getElem?_eq_none (Nat.le_refl _), Option.none_or, List.head?_eq_getElem?]
  · rename_i before
    have inside := Nat.lt_of_le_of_ne List.findIdx_le_length before
    rw [List.getElem?_eq_getElem inside, Option.some_or]

theorem mem_of_next {map : OrderedMap Key Value} {key : Key} {point : Key × Value} (found : map.next key = some point) :
    point ∈ map.entries := by
  rw [next_eq_getElem] at found
  exact List.mem_of_getElem? found

theorem next_answers {map : OrderedMap Key Value} {key : Key} {point : Key × Value}
    (found : map.next key = some point) : map.Answers point key := by
  have member := mem_of_next found
  have sorted := map.sorted
  rw [next] at found
  cases first : map.entries.find? fun entry => decide (key ≤ entry.1) with
  | some entry =>
    rw [first, Option.some_or] at found
    cases found
    obtain ⟨here, front, behind, split, before⟩ := List.find?_eq_some_iff_append.mp first
    have reached : key ≤ point.1 := by simpa using here
    refine ⟨member, .inl ⟨reached, fun other among above => ?_⟩⟩
    rw [split] at among sorted
    cases List.mem_append.mp among with
    | inl earlier => exact absurd above (by simpa using before other earlier)
    | inr later =>
      cases List.mem_cons.mp later with
      | inl same => exact le_of_eq (congrArg Prod.fst same.symm)
      | inr further =>
        have above := (List.pairwise_cons.mp (List.pairwise_append.mp sorted).2.1).1
        exact le_of_lt (above other further)
  | none =>
    rw [first, Option.none_or] at found
    have below : ∀ other ∈ map.entries, other.1 < key := by simpa using List.find?_eq_none.mp first
    refine ⟨member, .inr ⟨below, fun other among => ?_⟩⟩
    obtain ⟨rest, split⟩ := List.head?_eq_some_iff.mp found
    rw [split] at among sorted
    cases List.mem_cons.mp among with
    | inl same => exact le_of_eq (congrArg Prod.fst same.symm)
    | inr later => exact le_of_lt ((List.pairwise_cons.mp sorted).1 other later)

/-- Entries of one key are one entry. -/
theorem eq_of_key {map : OrderedMap Key Value} {first second : Key × Value} (one : first ∈ map.entries)
    (two : second ∈ map.entries) (same : first.1 = second.1) : first = second := by
  have here : map.lookup first.1 = some first.2 := mem_entries.mp one
  have there : map.lookup second.1 = some second.2 := mem_entries.mp two
  rw [same, there] at here
  exact Prod.ext same (Option.some.inj here).symm

/-- One point answers for each key. -/
theorem next_eq_some_iff {map : OrderedMap Key Value} {key : Key} {point : Key × Value} :
    map.next key = some point ↔ map.Answers point key := by
  constructor
  · exact next_answers
  · intro answers
    obtain ⟨member, where_⟩ := answers
    cases found : map.next key with
    | none =>
      rw [next_eq_none.mp found] at member
      cases member
    | some other =>
      obtain ⟨among, answering⟩ := next_answers found
      refine congrArg some (eq_of_key among member ?_)
      cases where_ with
      | inl up =>
        cases answering with
        | inl upOther => exact le_antisymm (upOther.2 point member up.1) (up.2 other among upOther.1)
        | inr wrapOther => exact absurd up.1 (not_le_of_gt (wrapOther.1 point member))
      | inr wrap =>
        cases answering with
        | inl upOther => exact absurd upOther.1 (not_le_of_gt (wrap.1 other among))
        | inr wrapOther => exact le_antisymm (wrapOther.2 point member) (wrap.2 other among)

/-- Each point answers for its own key. -/
theorem answers_self {map : OrderedMap Key Value} {point : Key × Value} (member : point ∈ map.entries) :
    map.Answers point point.1 :=
  ⟨member, .inl ⟨le_refl _, fun _ _ above => above⟩⟩

theorem getElem_inj {map : OrderedMap Key Value} {first second : Nat} {point : Key × Value}
    (one : map.entries[first]? = some point) (two : map.entries[second]? = some point) : first = second := by
  obtain ⟨inside, here⟩ := List.getElem?_eq_some_iff.mp one
  obtain ⟨insideOther, there⟩ := List.getElem?_eq_some_iff.mp two
  exact (List.Nodup.getElem_inj_iff (nodup_of_sorted map.sorted)).mp (here.trans there.symm)

/-- The point behind the one that answers for a key. -/
theorem follows_of_next {map : OrderedMap Key Value} {key : Key} {point : Key × Value}
    (found : map.next key = some point) (other : Key × Value) :
    map.Follows point other ↔ map.entries[(map.place key + 1) % map.entries.length]? = some other := by
  rw [next_eq_getElem] at found
  constructor
  · intro follows
    obtain ⟨place, here, behind⟩ := follows
    rwa [getElem_inj here found] at behind
  · exact fun behind => ⟨_, found, behind⟩

/-- There is a point behind each one. -/
theorem exists_follows {map : OrderedMap Key Value} {point : Key × Value} (member : point ∈ map.entries) :
    ∃ other, map.Follows point other := by
  obtain ⟨place, here⟩ := List.mem_iff_getElem?.mp member
  have inside : (place + 1) % map.entries.length < map.entries.length :=
    Nat.mod_lt _ (List.length_pos_of_mem member)
  exact ⟨_, place, here, List.getElem?_eq_getElem inside⟩

end OrderedMap
