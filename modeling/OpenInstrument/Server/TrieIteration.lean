import Mathlib.Algebra.Order.BigOperators.Group.List
import Mathlib.Algebra.Order.Ring.Nat
import OpenInstrument.Server.TrieMap

/-! # Iterating over a prefix

An iterator walks down and up the nodes of a trie, with the places in the lists of children above it on a stack.  A
flag says that the value of the node has been visited, so that the walk goes on to the children.  The iterator that
`find_prefix` returns stands at the node of the prefix, and the flag is not set there.
-/

namespace OpenInstrument.Server

variable {Value : Type}

open TrieNodes

def TrieNodes.drop : Nat → TrieNodes Value → TrieNodes Value
  | 0, nodes => nodes
  | _ + 1, nil => nil
  | count + 1, node _ _ _ rest => rest.drop count

/-- `TrieIterator`, which stands at a node.  `index` is where `child_nodes_iterator` is in the list of its children,
and `above` has the nodes above it, each with the entry of `iterators` that points to one of its children. -/
structure TrieIterator (Value : Type) where
  curr : Inside Value
  index : Nat
  above : List (Inside Value × Nat)
  key : Bytes
  returnedValue : Bool

namespace TrieIterator

/-- What a turn of the loop of `operator++` does: it stops at a value, goes on, or comes to the end. -/
inductive Turn (Value : Type) where
  | stopped (next : TrieIterator Value)
  | turned (next : TrieIterator Value)
  | ended

def turn (it : TrieIterator Value) : Turn Value :=
  -- The flag is also unset at a node at which the iterator was placed, and not walked to.
  if it.returnedValue = false ∧ it.index = 0 ∧ it.curr.1.isSome then .stopped { it with returnedValue := true }
  else
    match it.curr.2.drop it.index with
    | nil =>
      -- Back up the tree.
      match it.above with
      | [] => .ended
      | (parent, index) :: above =>
        .turned { it with curr := parent, index := index + 1, above, key := it.key.dropLast }
    | node character value childNodes _ =>
      -- Down to the child node, with its character at the end of the key.
      .turned
        { curr := (value, childNodes)
          index := 0
          above := (it.curr, it.index) :: it.above
          key := it.key ++ [character]
          returnedValue := false }

/-- `operator++`, in a number of turns.  The end is no iterator. -/
def increment : Nat → TrieIterator Value → Option (Option (TrieIterator Value))
  | 0, _ => none
  | turns + 1, it =>
    match it.turn with
    | .stopped next => some (some next)
    | .turned next => increment turns next
    | .ended => some none

/-- The iterator at a node, or at the first value below it. -/
def new (turns : Nat) (curr : UInt8 × Inside Value) (key : Bytes) : Option (Option (TrieIterator Value)) :=
  let it : TrieIterator Value :=
    { curr := curr.2
      index := 0
      above := []
      key := if key ≠ [] then key else if curr.1 ≠ 0 then [curr.1] else []
      returnedValue := false }
  if curr.2.1.isSome then some (some it) else increment turns it

end TrieIterator

open TrieIterator

/-- `find_prefix`. -/
def Trie.findPrefix (turns : Nat) (trie : Trie Value) (pre : Bytes) : Option (Option (TrieIterator Value)) :=
  match walk pre (0, trie.root) with
  | none => some none
  | some curr =>
    if pre.getLast?.map charValue = some (curr.1.toNat : Int) then TrieIterator.new turns curr pre else some none

/-- A loop up to `end()` that notes the key and the value at the iterator. -/
def visitFrom (turns : Nat) : Nat → Option (TrieIterator Value) → Option (List (Bytes × Option Value))
  | _, none => some []
  | 0, some _ => none
  | steps + 1, some it =>
    (increment turns it).bind fun next => (visitFrom turns steps next).map ((it.key, it.curr.1) :: ·)

def Trie.visits (turns : Nat) (trie : Trie Value) (pre : Bytes) : Option (List (Bytes × Option Value)) :=
  (trie.findPrefix turns pre).bind (visitFrom turns turns)

/-- The keys of a map that start with the prefix, in order, with their values. -/
structure VisitsKeys (map : KeyMap Value) (pre : Bytes) (visited : List (Bytes × Option Value)) : Prop where
  increasing : (visited.map Prod.fst).Pairwise (· < ·)
  exact_ : ∀ key value, (key, value) ∈ visited ↔ pre <+: key ∧ map.lookup key = value ∧ value ≠ none

/-- The loop comes to its end, and has then visited the keys with the prefix. -/
def Trie.VisitsPrefix (trie : Trie Value) (map : KeyMap Value) (pre : Bytes) : Prop :=
  ∃ bound, ∀ turns, bound ≤ turns → ∃ visited, trie.visits turns pre = some visited ∧ VisitsKeys map pre visited

/-! ## The values below a node -/

namespace TrieNodes

/-- The values at and below some nodes, with the keys they stand under. -/
def entries (key : Bytes) : TrieNodes Value → List (Bytes × Value)
  | nil => []
  | node character value childNodes rest =>
    (value.map (key ++ [character], ·)).toList ++ childNodes.entries (key ++ [character]) ++ rest.entries key

theorem valueAt_nodes (char : UInt8) (key : Bytes) (value other : Option Value) (nodes : TrieNodes Value) :
    valueAt (char :: key) (value, nodes) = valueAt (char :: key) (other, nodes) := by
  rw [valueAt_cons, valueAt_cons]

/-- A key is below the first node or among the others. -/
theorem valueAt_node (char : UInt8) (key : Bytes) (character : UInt8) (value other : Option Value)
    (childNodes rest : TrieNodes Value) :
    valueAt (char :: key) (other, node character value childNodes rest) =
      if character = char then valueAt key (value, childNodes) else valueAt (char :: key) (other, rest) := by
  rw [valueAt_cons, valueAt_cons, child]
  split <;> rfl

theorem mem_entries {nodes : TrieNodes Value} (increasing : nodes.Increasing) {key found : Bytes} {val : Value} :
    (found, val) ∈ nodes.entries key ↔ ∃ behind, found = key ++ behind ∧ valueAt behind (none, nodes) = some val := by
  induction nodes generalizing key with
  | nil => simp [entries, valueAt_none]
  | node character value childNodes rest children siblings =>
    obtain ⟨above, increasingChildren, increasingRest⟩ := increasing
    rw [entries, List.mem_append, List.mem_append, children increasingChildren, siblings increasingRest]
    constructor
    · intro member
      cases member with
      | inl inner =>
        cases inner with
        | inl here =>
          rw [Option.mem_toList, Option.map_eq_some_iff] at here
          obtain ⟨val', same, equal⟩ := here
          cases equal
          exact ⟨[character], rfl, by rw [valueAt_node, if_pos rfl, same]; rfl⟩
        | inr below =>
          obtain ⟨behind, split, value_⟩ := below
          refine ⟨character :: behind, by rw [split, List.append_assoc]; rfl, ?_⟩
          rw [valueAt_node, if_pos rfl]
          cases behind with
          | nil => cases value_
          | cons char behind => rwa [valueAt_nodes char behind value none]
      | inr later =>
        obtain ⟨behind, split, value_⟩ := later
        refine ⟨behind, split, ?_⟩
        cases behind with
        | nil => cases value_
        | cons char behind =>
          have other : character ≠ char := by
            intro same
            rw [valueAt_cons, child_eq_none fun member => UInt8.lt_irrefl _ (same ▸ above char member),
              Option.getD_none, valueAt_none] at value_
            cases value_
          rwa [valueAt_node, if_neg other]
    · intro there
      obtain ⟨behind, split, value_⟩ := there
      cases behind with
      | nil => cases value_
      | cons char behind =>
        rw [valueAt_node] at value_
        by_cases same : character = char
        · rw [if_pos same] at value_
          subst same
          refine .inl ?_
          cases behind with
          | nil =>
            refine .inl ?_
            have here : value = some val := value_
            rw [here, split]
            exact List.mem_singleton_self _
          | cons next behind =>
            refine .inr ⟨next :: behind, by rw [split, List.append_assoc]; rfl, ?_⟩
            rwa [valueAt_nodes next behind none value]
        · rw [if_neg same] at value_
          exact .inr ⟨char :: behind, split, value_⟩

theorem entries_form {nodes : TrieNodes Value} {key : Bytes} {entry : Bytes × Value}
    (member : entry ∈ nodes.entries key) :
    ∃ char behind, char ∈ nodes.characters ∧ entry.1 = key ++ char :: behind := by
  induction nodes generalizing key with
  | nil => cases member
  | node character value childNodes rest children siblings =>
    rw [entries, List.mem_append, List.mem_append] at member
    cases member with
    | inl inner =>
      cases inner with
      | inl here =>
        rw [Option.mem_toList, Option.map_eq_some_iff] at here
        obtain ⟨val, -, same⟩ := here
        exact ⟨character, [], List.mem_cons_self, by rw [← same]⟩
      | inr below =>
        obtain ⟨char, behind, -, split⟩ := children below
        exact ⟨character, char :: behind, List.mem_cons_self, by rw [split, List.append_assoc]; rfl⟩
    | inr later =>
      obtain ⟨char, behind, member, split⟩ := siblings later
      exact ⟨char, behind, List.mem_cons_of_mem _ member, split⟩

/-- The values come in the order of their keys: a node in front of what is below it, and that in front of what is
below the next one. -/
theorem increasing_entries {nodes : TrieNodes Value} (increasing : nodes.Increasing) (key : Bytes) :
    ((nodes.entries key).map Prod.fst).Pairwise (· < ·) := by
  induction nodes generalizing key with
  | nil => exact .nil
  | node character value childNodes rest children siblings =>
    obtain ⟨above, increasingChildren, increasingRest⟩ := increasing
    rw [entries, List.map_append, List.map_append, List.pairwise_append, List.pairwise_append]
    refine ⟨⟨?_, children increasingChildren _, ?_⟩, siblings increasingRest _, ?_⟩
    · cases value with
      | none => exact .nil
      | some val => exact List.pairwise_singleton _ _
    · intro first here second below
      obtain ⟨entry, member, same⟩ := List.mem_map.mp below
      obtain ⟨char, behind, -, split⟩ := entries_form member
      cases value with
      | none => cases here
      | some val =>
        cases List.mem_singleton.mp here
        rw [← same, split]
        have longer : key ++ [character] ++ [] < key ++ [character] ++ char :: behind :=
          List.append_left_lt (List.nil_lt_cons char behind)
        simpa using longer
    · intro first inner second later
      obtain ⟨entry, member, same⟩ := List.mem_map.mp later
      obtain ⟨char, behind, among, split⟩ := entries_form member
      have here : ∃ front, first = key ++ character :: front := by
        rw [← List.map_append] at inner
        obtain ⟨other, belongs, equal⟩ := List.mem_map.mp inner
        cases List.mem_append.mp belongs with
        | inl own =>
          rw [Option.mem_toList, Option.map_eq_some_iff] at own
          obtain ⟨val, -, at_⟩ := own
          exact ⟨[], by rw [← equal, ← at_]⟩
        | inr below =>
          obtain ⟨next, front, -, form⟩ := entries_form below
          exact ⟨next :: front, by rw [← equal, form, List.append_assoc]; rfl⟩
      obtain ⟨front, first_⟩ := here
      rw [← same, split, first_]
      exact List.append_left_lt (List.cons_lt_cons_iff.mpr (.inl (above char among)))

end TrieNodes

/-! ## One turn -/

namespace TrieNodes

/-- The turns that some nodes take: down, at the value, and up. -/
def turns : TrieNodes Value → Nat
  | nil => 0
  | node _ _ childNodes rest => 3 + childNodes.turns + rest.turns

theorem drop_succ {nodes : TrieNodes Value} {count : Nat} {character : UInt8} {value : Option Value}
    {childNodes rest : TrieNodes Value} (here : nodes.drop count = node character value childNodes rest) :
    nodes.drop (count + 1) = rest := by
  induction count generalizing nodes with
  | zero =>
    cases here
    rfl
  | succ count inductionHypothesis =>
    cases nodes with
    | nil => cases here
    | node _ _ _ others =>
      have further : others.drop count = node character value childNodes rest := here
      exact inductionHypothesis further

end TrieNodes

namespace TrieIterator

def entriesAbove : Bytes → List (Inside Value × Nat) → List (Bytes × Value)
  | _, [] => []
  | key, (parent, index) :: above =>
    (parent.2.drop (index + 1)).entries key.dropLast ++ entriesAbove key.dropLast above

/-- The value of the node itself, as long as it has not been visited. -/
def own (it : TrieIterator Value) : List (Bytes × Value) :=
  if it.returnedValue = false ∧ it.index = 0 then (it.curr.1.map (it.key, ·)).toList else []

def remaining (it : TrieIterator Value) : List (Bytes × Value) :=
  it.own ++ (it.curr.2.drop it.index).entries it.key ++ entriesAbove it.key it.above

def turnsAbove (above : List (Inside Value × Nat)) : Nat :=
  (above.map fun node => (node.1.2.drop (node.2 + 1)).turns + 1).sum

def turnsLeft (it : TrieIterator Value) : Nat :=
  (if it.returnedValue then 0 else 1) + (it.curr.2.drop it.index).turns + turnsAbove it.above + 1

/-- A turn visits the first of what is left, or leaves it as it is, and it ends when nothing is left. -/
def TurnRight (it : TrieIterator Value) : Turn Value → Prop
  | .stopped next => (∃ val, next.curr.1 = some val ∧ it.remaining = (next.key, val) :: next.remaining) ∧
      next.turnsLeft < it.turnsLeft
  | .turned next => it.remaining = next.remaining ∧ next.turnsLeft < it.turnsLeft
  | .ended => it.remaining = []

theorem turn_right (it : TrieIterator Value) : it.TurnRight it.turn := by
  rw [turn]
  by_cases fresh : it.returnedValue = false ∧ it.index = 0 ∧ it.curr.1.isSome
  · rw [if_pos fresh]
    obtain ⟨unvisited, begin, some_⟩ := fresh
    obtain ⟨val, value⟩ := Option.isSome_iff_exists.mp some_
    refine ⟨⟨val, value, ?_⟩, ?_⟩
    · simp [remaining, own, unvisited, begin, value]
    · simp [turnsLeft, unvisited]
  · rw [if_neg fresh]
    -- The value of the node itself has been visited, or there is none.
    have nothing : it.own = [] := by
      rw [own]
      split
      · rename_i unvisited
        cases value : it.curr.1 with
        | none => rfl
        | some val => exact absurd ⟨unvisited.1, unvisited.2, by rw [value]; rfl⟩ fresh
      · rfl
    cases here : it.curr.2.drop it.index with
    | nil =>
      cases up : it.above with
      | nil => simp [TurnRight, remaining, nothing, here, up, entries, entriesAbove]
      | cons frame above =>
        obtain ⟨parent, index⟩ := frame
        constructor
        · rw [remaining, nothing, here, up]
          simp [remaining, entries, entriesAbove, own]
        · simp [turnsLeft, here, up, turns, turnsAbove]
          omega
    | node character value childNodes rest =>
      have behind := drop_succ here
      constructor
      · rw [remaining, nothing, here]
        simp [remaining, entries, entriesAbove, own, behind, TrieNodes.drop]
      · simp only [turnsLeft, here, turnsAbove, behind, turns, TrieNodes.drop, List.map_cons, List.sum_cons]
        split <;> simp <;> omega

/-! ## `operator++` and the loop -/

/-- `operator++` goes to the first of what is left, or to the end when nothing is left. -/
theorem increment_eq {turns : Nat} {it : TrieIterator Value} (enough : it.turnsLeft ≤ turns) :
    (it.remaining = [] ∧ increment turns it = some none) ∨
      ∃ next val, increment turns it = some (some next) ∧ next.curr.1 = some val ∧
        it.remaining = (next.key, val) :: next.remaining ∧ next.turnsLeft < it.turnsLeft := by
  -- By induction on the turns, of which each that does not stop leaves one less.
  induction turns generalizing it with
  | zero => exact absurd enough (by rw [turnsLeft]; omega)
  | succ turns inductionHypothesis =>
    have right := it.turn_right
    rw [increment]
    cases result : it.turn with
    | stopped next =>
      rw [result] at right
      obtain ⟨⟨val, value, left⟩, fewer⟩ := right
      exact .inr ⟨next, val, rfl, value, left, fewer⟩
    | turned next =>
      rw [result] at right
      obtain ⟨same, fewer⟩ := right
      rw [same]
      refine (@inductionHypothesis next (by omega)).imp_right fun further => ?_
      obtain ⟨last, val, incremented, value, left, fewer'⟩ := further
      exact ⟨last, val, incremented, value, left, by omega⟩
    | ended =>
      rw [result] at right
      exact .inl ⟨right, rfl⟩

end TrieIterator

/-- An entry that the loop notes. -/
def noted (entry : Bytes × Value) : Bytes × Option Value := (entry.1, some entry.2)

theorem visitFrom_none (turns steps : Nat) : visitFrom turns steps (none : Option (TrieIterator Value)) = some [] := by
  cases steps <;> rfl

theorem visitFrom_eq {turns steps : Nat} {it : TrieIterator Value} {val : Value} (value : it.curr.1 = some val)
    (enough : it.turnsLeft ≤ turns) (room : it.turnsLeft ≤ steps) :
    visitFrom turns steps (some it) = some (noted (it.key, val) :: it.remaining.map noted) := by
  induction steps generalizing it val with
  | zero => exact absurd room (by rw [turnsLeft]; omega)
  | succ steps inductionHypothesis =>
    rw [visitFrom, value]
    cases increment_eq enough with
    | inl done =>
      obtain ⟨nothing, incremented⟩ := done
      rw [incremented, Option.bind_some, visitFrom_none, nothing]
      rfl
    | inr more =>
      obtain ⟨next, nextVal, incremented, nextValue, left, fewer⟩ := more
      rw [incremented, Option.bind_some, inductionHypothesis nextValue (by omega) (by omega), left]
      rfl

/-! ## From the node of the prefix on -/

/-- The iterator that `find_prefix` starts with. -/
def startAt (inside : Inside Value) (pre : Bytes) : TrieIterator Value :=
  { curr := inside, index := 0, above := [], key := pre, returnedValue := false }

theorem remaining_startAt (inside : Inside Value) (pre : Bytes) :
    (startAt inside pre).remaining = (inside.1.map (pre, ·)).toList ++ inside.2.entries pre := by
  simp [remaining, own, startAt, entriesAbove, TrieNodes.drop]

/-- The value of the prefix itself is noted once more than the values from its node on. -/
theorem visits_eq {trie : Trie Value} (increasing : trie.root.2.Increasing) {pre : Bytes} (nonempty : pre ≠ [])
    (small : SevenBit pre) {inside : Inside Value} (found : insideAt pre trie.root = some inside) {turns : Nat}
    (enough : (startAt inside pre).turnsLeft ≤ turns) :
    trie.visits turns pre =
      some (((inside.1.map (pre, ·)).toList ++ (startAt inside pre).remaining).map noted) := by
  have value := getLast?_charValue nonempty small
  have begun : trie.findPrefix turns pre =
      if inside.1.isSome then some (some (startAt inside pre)) else increment turns (startAt inside pre) := by
    rw [Trie.findPrefix, walk_eq small (0, trie.root) increasing, found]
    simp only [Option.map_some, value, if_true, TrieIterator.new, if_pos nonempty]
    rfl
  rw [Trie.visits, begun]
  cases here : inside.1 with
  | some val =>
    rw [Option.isSome_some, if_pos rfl, Option.bind_some, visitFrom_eq here enough enough]
    rfl
  | none =>
    rw [Option.isSome_none, if_neg Bool.false_ne_true]
    cases increment_eq enough with
    | inl done =>
      obtain ⟨nothing, incremented⟩ := done
      rw [incremented, nothing, Option.bind_some, visitFrom_none]
      rfl
    | inr more =>
      obtain ⟨next, val, incremented, nextValue, left, fewer⟩ := more
      rw [incremented, left, Option.bind_some, visitFrom_eq nextValue (by omega) (by omega)]
      rfl

theorem visits_none {trie : Trie Value} (increasing : trie.root.2.Increasing) {pre : Bytes} (small : SevenBit pre)
    (missing : insideAt pre trie.root = none) (turns : Nat) : trie.visits turns pre = some [] := by
  rw [Trie.visits, Trie.findPrefix, walk_eq small (0, trie.root) increasing, missing]
  exact visitFrom_none turns turns

theorem insideAt_append (pre behind : Bytes) (inside : Inside Value) :
    insideAt (pre ++ behind) inside = (insideAt pre inside).bind (insideAt behind) := by
  induction pre generalizing inside with
  | nil => rfl
  | cons char pre inductionHypothesis =>
    rw [List.cons_append, insideAt, insideAt, Option.bind_assoc]
    exact congrArg _ (funext inductionHypothesis)

/-- What is below the node of a prefix is what is present with it, but for the prefix itself. -/
theorem mem_entries_front {trie : Trie Value} {map : KeyMap Value} (holds : HoldsMap trie map) {pre : Bytes}
    (nonempty : pre ≠ []) {inside : Inside Value} (found : insideAt pre trie.root = some inside)
    (increasing : inside.2.Increasing) {key : Bytes} {val : Value} :
    (key, val) ∈ inside.2.entries pre ↔ pre <+: key ∧ key ≠ pre ∧ map.lookup key = some val := by
  rw [mem_entries increasing]
  constructor
  · intro there
    obtain ⟨behind, split, value⟩ := there
    cases behind with
    | nil => cases value
    | cons char behind =>
      refine ⟨⟨char :: behind, split.symm⟩, by simp [split], ?_⟩
      have some_ : key ≠ [] := by simp [split]
      rw [← holds.values key some_, valueAt, split, insideAt_append, found]
      rwa [valueAt_nodes char behind none inside.1] at value
  · intro there
    obtain ⟨⟨behind, split⟩, other, value⟩ := there
    have some_ : key ≠ [] := by
      intro none_
      rw [none_, List.append_eq_nil_iff] at split
      exact nonempty split.1
    rw [← holds.values key some_, valueAt, ← split, insideAt_append, found] at value
    refine ⟨behind, split.symm, ?_⟩
    cases behind with
    | nil => exact absurd (by rw [← split, List.append_nil]) other
    | cons char behind =>
      rw [valueAt_nodes char behind none inside.1]
      exact value

theorem increasing_insideAt {key : Bytes} {top inside : Inside Value} (increasing : top.2.Increasing)
    (found : insideAt key top = some inside) : inside.2.Increasing := by
  induction key generalizing top with
  | nil => exact Option.some.inj found ▸ increasing
  | cons char key inductionHypothesis =>
    obtain ⟨next, here, further⟩ := Option.bind_eq_some_iff.mp found
    exact inductionHypothesis (increasing_child increasing here) further

theorem visitsKeys_entries {trie : Trie Value} {map : KeyMap Value} (holds : HoldsMap trie map) {pre : Bytes}
    (nonempty : pre ≠ []) {inside : Inside Value} (found : insideAt pre trie.root = some inside)
    (missing : pre ∉ map) : VisitsKeys map pre ((inside.2.entries pre).map noted) := by
  have increasing := increasing_insideAt holds.increasing found
  constructor
  · rw [List.map_map]
    exact increasing_entries increasing pre
  · intro key value
    rw [List.mem_map]
    constructor
    · intro member
      obtain ⟨entry, among, same⟩ := member
      cases same
      obtain ⟨front, -, there⟩ := (mem_entries_front holds nonempty found increasing).mp among
      exact ⟨front, there, Option.some_ne_none _⟩
    · intro there
      obtain ⟨front, value_, some_⟩ := there
      obtain ⟨val, same⟩ := Option.ne_none_iff_exists'.mp some_
      subst same
      have other : key ≠ pre := fun same => missing (AList.lookup_isSome.mp (by rw [← same, value_]; rfl))
      exact ⟨(key, val), (mem_entries_front holds nonempty found increasing).mpr ⟨front, other, value_⟩, rfl⟩

/-- Iterating from a prefix is right when the prefix itself is not a key. -/
theorem visitsPrefix_iff {ops : List (TrieOp Value)} (keyed : ∀ op ∈ ops, op.Keyed)
    (small : ∀ op ∈ ops, op.InsertsSevenBit) {pre : Bytes} (nonempty : pre ≠ []) (smallPre : SevenBit pre) :
    (Trie.run ops).VisitsPrefix (present ops) pre ↔ pre ∉ present ops := by
  have holds := holdsMap_run keyed
  rw [held_eq_present fun op member => small op (List.rtakeWhile_suffix _ _ |>.subset member)] at holds
  have value := holds.values pre nonempty
  rw [valueAt] at value
  cases found : insideAt pre (Trie.run ops).root with
  | none =>
    rw [found] at value
    refine iff_of_true ⟨0, fun turns _ => ⟨[], visits_none holds.increasing smallPre found turns, .nil, ?_⟩⟩
      (AList.lookup_eq_none.mp value.symm)
    intro key value
    refine iff_of_false List.not_mem_nil fun there => ?_
    -- A key with the prefix would be behind the node of the prefix.
    obtain ⟨⟨behind, split⟩, there, some_⟩ := there
    have long : key ≠ [] := fun none_ => nonempty (List.append_eq_nil_iff.mp (split.trans none_)).1
    rw [← holds.values key long, valueAt, ← split, insideAt_append, found] at there
    exact some_ there.symm
  | some inside =>
    rw [found] at value
    have visited {turns : Nat} (enough : (startAt inside pre).turnsLeft ≤ turns) :=
      visits_eq holds.increasing nonempty smallPre found enough
    cases here : inside.1 with
    | none =>
      have missing : pre ∉ present ops := AList.lookup_eq_none.mp (value.symm.trans here)
      refine iff_of_true ⟨_, fun turns enough => ⟨_, visited enough, ?_⟩⟩ missing
      rw [remaining_startAt, here]
      exact visitsKeys_entries holds nonempty found missing
    | some val =>
      have there : pre ∈ present ops := AList.lookup_isSome.mp (by rw [← value.trans rfl, Option.bind_some, here]; rfl)
      -- Its key is visited twice in a row, so that the keys do not increase.
      refine iff_of_false (fun right => ?_) fun missing => missing there
      obtain ⟨bound, all⟩ := right
      obtain ⟨list, visits, right⟩ := all (max bound (startAt inside pre).turnsLeft) (Nat.le_max_left _ _)
      rw [visited (Nat.le_max_right _ _), Option.some.injEq] at visits
      have increasing := right.increasing
      rw [← visits, remaining_startAt, here] at increasing
      exact absurd (List.pairwise_cons.mp increasing |>.1 pre List.mem_cons_self) (List.lt_irrefl pre)

theorem visitsPrefix_iff_two :
    (Trie.run [TrieOp.insert (ascii "ab") 1, .insert (ascii "ac") 2]).VisitsPrefix
        (present [TrieOp.insert (ascii "ab") 1, .insert (ascii "ac") 2]) (ascii "a") ↔
      ascii "a" ∉ present [TrieOp.insert (ascii "ab") 1, .insert (ascii "ac") 2] := by
  apply visitsPrefix_iff
  · simp [TrieOp.Keyed, ascii]
  · simp [TrieOp.InsertsSevenBit, SevenBit, ascii]
    decide
  · decide
  · simp [SevenBit, ascii]
    decide

/-- The key that is the prefix is visited twice. -/
theorem visits_twice :
    (Trie.run [TrieOp.insert (ascii "a") 1]).visits 9 (ascii "a") =
        some [(ascii "a", some 1), (ascii "a", some 1)] ∧
      ¬ (Trie.run [TrieOp.insert (ascii "a") 1]).VisitsPrefix (present [TrieOp.insert (ascii "a") 1]) (ascii "a") := by
  refine ⟨by decide, fun right => ?_⟩
  obtain ⟨bound, all⟩ := right
  obtain ⟨visited, result, keys⟩ := all (max bound 9) (Nat.le_max_left _ _)
  have increasing : (Trie.run [TrieOp.insert (ascii "a") 1]).root.2.Increasing := ⟨nofun, trivial, trivial⟩
  have small : SevenBit (ascii "a") := sevenBit_iff.mpr (by decide)
  have found : insideAt (ascii "a") (Trie.run [TrieOp.insert (ascii "a") 1]).root = some (some 1, .nil) := by
    decide
  have enough : (startAt (some 1, .nil) (ascii "a")).turnsLeft ≤ max bound 9 :=
    Nat.le_trans (by decide) (Nat.le_max_right _ _)
  rw [visits_eq increasing (by decide) small found enough, Option.some.injEq] at result
  have rising := keys.increasing
  rw [← result, remaining_startAt] at rising
  exact absurd (List.pairwise_cons.mp rising |>.1 _ List.mem_cons_self) (List.lt_irrefl _)

end OpenInstrument.Server
