import OpenInstrument.Server.Trie

/-! # Tries as maps

Child nodes that increase have one node for a character, and the early ends of the searches miss nothing.  A byte
that is negative as a plain `char` is found nowhere, so that keys with such bytes are put in and never come out.
-/

namespace OpenInstrument.Server

variable {Value : Type}

namespace TrieNodes

/-! ## One list of child nodes -/

theorem child_eq_none {char : UInt8} {nodes : TrieNodes Value} (missing : char ∉ nodes.characters) :
    nodes.child char = none := by
  induction nodes with
  | nil => rfl
  | node character value childNodes rest _ inductionHypothesis =>
    rw [characters, List.mem_cons, not_or] at missing
    rw [child, if_neg (Ne.symm missing.1)]
    exact inductionHypothesis missing.2

/-- Behind a larger character there is no smaller one. -/
theorem child_rest_eq_none {char character : UInt8} {value : Option Value} {childNodes rest : TrieNodes Value}
    (increasing : (node character value childNodes rest).Increasing) (below : char < character) :
    rest.child char = none := by
  apply child_eq_none
  intro member
  exact absurd (increasing.1 char member) (UInt8.not_lt.mpr (UInt8.le_of_lt below))

theorem increasing_child {char : UInt8} {nodes : TrieNodes Value} (increasing : nodes.Increasing)
    {inside : Inside Value} (found : nodes.child char = some inside) : inside.2.Increasing := by
  induction nodes with
  | nil => cases found
  | node character value childNodes rest _ inductionHypothesis =>
    rw [child] at found
    split at found
    · cases found
      exact increasing.2.1
    · exact inductionHypothesis increasing.2.2 found

theorem charValue_cond (char : UInt8) :
    charValue char = if 2 * char.toNat < 256 then (char.toNat : Int) else char.toNat - 256 :=
  BitVec.toInt_eq_toNat_cond char.toBitVec

theorem charValue_eq {char : UInt8} (small : char < 128) : charValue char = char.toNat := by
  have below : char.toNat < 128 := UInt8.lt_iff_toNat_lt.mp small
  rw [charValue_cond, if_pos (by omega)]

theorem charValue_neg {char : UInt8} (large : ¬ char < 128) : charValue char < 0 := by
  have above : 128 ≤ char.toNat := not_lt.mp fun below => large (UInt8.lt_iff_toNat_lt.mpr below)
  have limit := char.toNat_lt
  rw [charValue_cond, if_neg (by omega)]
  omega

/-! ### Searching -/

theorem cast_lt {first second : UInt8} : (first.toNat : Int) < second.toNat ↔ first < second := by
  rw [Int.ofNat_lt, UInt8.lt_iff_toNat_lt]

theorem cast_inj {first second : UInt8} : (first.toNat : Int) = second.toNat ↔ first = second := by
  rw [Int.ofNat_inj, UInt8.toNat_inj]

theorem findNode_eq {char : UInt8} (small : char < 128) {nodes : TrieNodes Value} (increasing : nodes.Increasing) :
    findNode (charValue char) nodes = (nodes.child char).map fun inside => (char, inside) := by
  rw [charValue_eq small]
  induction nodes with
  | nil => rfl
  | node character value childNodes rest _ inductionHypothesis =>
    rw [findNode, child]
    by_cases before : char < character
    -- The search gives up in front of a larger character, and the nodes behind that have larger ones still.
    · rw [if_pos (cast_lt.mpr before), if_neg ((UInt8.ne_of_lt before).symm), child_rest_eq_none increasing before]
      rfl
    · rw [if_neg (mt cast_lt.mp before)]
      by_cases same : character = char
      · subst same
        rw [if_pos rfl, if_pos rfl]
        rfl
      · rw [if_neg (mt cast_inj.mp same), if_neg same]
        exact inductionHypothesis increasing.2.2

/-- No character is that small. -/
theorem findNode_neg {char : Int} (negative : char < 0) (nodes : TrieNodes Value) : findNode char nodes = none := by
  cases nodes with
  | nil => rfl
  | node character value childNodes rest => rw [findNode, if_pos (by omega)]

theorem child_changeNode {char : UInt8} (small : char < 128) {nodes : TrieNodes Value} (increasing : nodes.Increasing)
    (change : Inside Value → Inside Value) (other : UInt8) :
    (changeNode (charValue char) change nodes).child other =
      if other = char then (nodes.child char).map change else nodes.child other := by
  rw [charValue_eq small]
  induction nodes with
  | nil => simp [changeNode, child]
  | node character value childNodes rest _ inductionHypothesis =>
    rw [changeNode]
    by_cases before : char < character
    · have missing : (node character value childNodes rest).child char = none := by
        rw [child, if_neg ((UInt8.ne_of_lt before).symm), child_rest_eq_none increasing before]
      rw [if_pos (cast_lt.mpr before), missing]
      split
      · rename_i same
        rw [same, missing]
        rfl
      · rfl
    · rw [if_neg (mt cast_lt.mp before)]
      by_cases same : character = char
      · subst same
        rw [if_pos rfl, child, child, child, if_pos rfl]
        by_cases here : other = character
        · simp [here]
        · simp [here, Ne.symm here]
      · rw [if_neg (mt cast_inj.mp same), child, child, child, if_neg same, inductionHypothesis increasing.2.2]
        by_cases here : character = other
        · subst here
          simp [same]
        · rw [if_neg here, if_neg here]

theorem characters_changeNode (char : Int) (change : Inside Value → Inside Value) (nodes : TrieNodes Value) :
    (changeNode char change nodes).characters = nodes.characters := by
  induction nodes with
  | nil => rfl
  | node character value childNodes rest _ inductionHypothesis =>
    rw [changeNode]
    split
    · rfl
    · split
      · rfl
      · rw [characters, characters, inductionHypothesis]

theorem increasing_changeNode {char : Int} {change : Inside Value → Inside Value}
    (kept : ∀ inside : Inside Value, inside.2.Increasing → (change inside).2.Increasing) {nodes : TrieNodes Value}
    (increasing : nodes.Increasing) : (changeNode char change nodes).Increasing := by
  induction nodes with
  | nil => trivial
  | node character value childNodes rest _ inductionHypothesis =>
    rw [changeNode]
    split
    · exact increasing
    · split
      · exact ⟨increasing.1, kept (value, childNodes) increasing.2.1, increasing.2.2⟩
      · refine ⟨?_, increasing.2.1, inductionHypothesis increasing.2.2⟩
        rw [characters_changeNode]
        exact increasing.1

/-! ### Putting in -/

theorem characters_getNode {c : UInt8} {visit : Inside Value → Bool × Inside Value} {nodes : TrieNodes Value}
    {char : UInt8} (member : char ∈ (getNode c visit nodes).2.characters) : char = c ∨ char ∈ nodes.characters := by
  induction nodes with
  | nil => exact .inl (List.mem_singleton.mp member)
  | node character value childNodes rest _ inductionHypothesis =>
    rw [getNode] at member
    split at member
    · exact .inr member
    · split at member
      · exact List.mem_cons.mp member
      · cases List.mem_cons.mp member with
        | inl same => exact .inr (same ▸ List.mem_cons_self)
        | inr later => exact (inductionHypothesis later).imp_right (List.mem_cons_of_mem _)

theorem increasing_getNode {c : UInt8} {visit : Inside Value → Bool × Inside Value}
    (kept : ∀ inside : Inside Value, inside.2.Increasing → (visit inside).2.2.Increasing) {nodes : TrieNodes Value}
    (increasing : nodes.Increasing) : (getNode c visit nodes).2.Increasing := by
  have fresh : (visit (none, nil)).2.2.Increasing := kept (none, nil) trivial
  induction nodes with
  | nil => exact ⟨nofun, fresh, trivial⟩
  | node character value childNodes rest _ inductionHypothesis =>
    rw [getNode]
    split
    · exact ⟨increasing.1, kept (value, childNodes) increasing.2.1, increasing.2.2⟩
    · rename_i different
      split
      · rename_i before
        refine ⟨fun other member => ?_, fresh, increasing⟩
        cases List.mem_cons.mp member with
        | inl same => exact same ▸ before
        | inr later => exact UInt8.lt_trans before (increasing.1 other later)
      · rename_i behind
        refine ⟨fun other member => ?_, increasing.2.1, inductionHypothesis increasing.2.2⟩
        cases characters_getNode member with
        | inl same => exact same ▸ UInt8.lt_of_le_of_ne (UInt8.not_lt.mp behind) different
        | inr there => exact increasing.1 other there

/-- `get_node` gives the node of the character, a new one if there is none. -/
theorem getNode_eq {c : UInt8} (visit : Inside Value → Bool × Inside Value) {nodes : TrieNodes Value}
    (increasing : nodes.Increasing) (char : UInt8) :
    (getNode c visit nodes).1 = (visit ((nodes.child c).getD (none, nil))).1 ∧
      (getNode c visit nodes).2.child char =
        if char = c then some (visit ((nodes.child c).getD (none, nil))).2 else nodes.child char := by
  induction nodes with
  | nil =>
    refine ⟨rfl, ?_⟩
    by_cases here : char = c
    · simp [getNode, child, here]
    · simp [getNode, child, here, Ne.symm here]
  | node character value childNodes rest _ inductionHypothesis =>
    rw [getNode]
    split
    · rename_i same
      subst same
      rw [child, child, child, if_pos rfl]
      by_cases here : char = character
      · simp [here]
      · simp [here, Ne.symm here]
    · rename_i different
      split
      · rename_i before
        have missing : (node character value childNodes rest).child c = none := by
          rw [child, if_neg different, child_rest_eq_none increasing before]
        rw [missing, child]
        by_cases here : char = c
        · simp [here]
        · simp [here, Ne.symm here]
      · obtain ⟨answer, found⟩ := inductionHypothesis increasing.2.2
        rw [child, child, child, if_neg different]
        refine ⟨answer, ?_⟩
        rw [found]
        by_cases here : character = char
        · subst here
          simp [different]
        · rw [if_neg here, if_neg here]

/-! ## Keys -/

theorem valueAt_none (key : Bytes) : valueAt key ((none, nil) : Inside Value) = none := by
  cases key with
  | nil => rfl
  | cons char key => rfl

/-- A child node that is not there holds no more than a new one. -/
theorem valueAt_cons (char : UInt8) (key : Bytes) (inside : Inside Value) :
    valueAt (char :: key) inside = valueAt key ((inside.2.child char).getD (none, nil)) := by
  cases found : inside.2.child char with
  | none =>
    rw [Option.getD_none, valueAt_none, valueAt, insideAt, found]
    rfl
  | some node => simp [valueAt, insideAt, found]

theorem increasing_getD {nodes : TrieNodes Value} (increasing : nodes.Increasing) (char : UInt8) :
    ((nodes.child char).getD (none, nil)).2.Increasing := by
  cases found : nodes.child char with
  | none => trivial
  | some inside => exact increasing_child increasing found

theorem increasing_insertLoop (val : Value) (key : Bytes) (inside : Inside Value) (increasing : inside.2.Increasing) :
    (insertLoop val key inside).2.2.Increasing := by
  induction key generalizing inside with
  | nil => exact increasing
  | cons char key inductionHypothesis => exact increasing_getNode inductionHypothesis increasing

/-- The key gets the value, the other keys keep theirs, and the answer is whether the key had one. -/
theorem insertLoop_eq (val : Value) (key : Bytes) (inside : Inside Value) (increasing : inside.2.Increasing) :
    (insertLoop val key inside).1 = (valueAt key inside).isSome ∧
      ∀ other, valueAt other (insertLoop val key inside).2 =
        if other = key then some val else valueAt other inside := by
  induction key generalizing inside with
  | nil =>
    refine ⟨rfl, fun other => ?_⟩
    cases other with
    | nil => rfl
    | cons char other => rw [if_neg (List.cons_ne_nil _ _), valueAt_cons, valueAt_cons]; rfl
  | cons char key inductionHypothesis =>
    obtain ⟨answer, found⟩ := inductionHypothesis _ (increasing_getD increasing char)
    have here := @getNode_eq _ char (insertLoop val key) _ increasing
    refine ⟨?_, fun other => ?_⟩
    · rw [valueAt_cons, ← answer]
      exact (here char).1
    · cases other with
      | nil => rfl
      | cons first other =>
        rw [valueAt_cons, valueAt_cons]
        change valueAt other (((getNode char (insertLoop val key) inside.2).2.child first).getD (none, nil)) = _
        rw [(here first).2]
        by_cases same : first = char
        · subst same
          rw [if_pos rfl, Option.getD_some, found]
          simp
        · simp [same]

theorem increasing_eraseLoop (key : Bytes) (inside : Inside Value) (increasing : inside.2.Increasing) :
    (eraseLoop key inside).2.Increasing := by
  induction key generalizing inside with
  | nil => exact increasing
  | cons char key inductionHypothesis => exact increasing_changeNode inductionHypothesis increasing

/-- The value of the key is gone, and the other keys keep theirs. -/
theorem eraseLoop_eq {key : Bytes} (small : SevenBit key) (inside : Inside Value) (increasing : inside.2.Increasing)
    (other : Bytes) : valueAt other (eraseLoop key inside) = if other = key then none else valueAt other inside := by
  induction key generalizing inside other with
  | nil =>
    cases other with
    | nil => rfl
    | cons char other => rw [if_neg (List.cons_ne_nil _ _), valueAt_cons, valueAt_cons]; rfl
  | cons char key inductionHypothesis =>
    have smallRest : SevenBit key := fun char member => small char (List.mem_cons_of_mem _ member)
    cases other with
    | nil => rfl
    | cons first other =>
      rw [valueAt_cons, valueAt_cons]
      change valueAt other (((changeNode (charValue char) (eraseLoop key) inside.2).child first).getD (none, nil)) = _
      rw [child_changeNode (small char List.mem_cons_self) increasing]
      by_cases same : first = char
      · subst same
        rw [if_pos rfl]
        have rest := inductionHypothesis smallRest _ (increasing_getD increasing first) other
        cases found : inside.2.child first with
        | none => simp [valueAt_none]
        | some node =>
          rw [found, Option.getD_some] at rest
          simp [rest]
      · simp [same]

/-- The walk goes to the node of the key. -/
theorem walk_eq {key : Bytes} (small : SevenBit key) (curr : UInt8 × Inside Value) (increasing : curr.2.2.Increasing) :
    walk key curr = (insideAt key curr.2).map fun inside => (key.getLastD curr.1, inside) := by
  induction key generalizing curr with
  | nil => rfl
  | cons char key inductionHypothesis =>
    have smallRest : SevenBit key := fun char member => small char (List.mem_cons_of_mem _ member)
    rw [walk, insideAt, findNode_eq (small char List.mem_cons_self) increasing]
    cases found : curr.2.2.child char with
    | none => rfl
    | some inside =>
      rw [List.getLastD_cons]
      exact inductionHypothesis smallRest (char, inside) (increasing_child increasing found)

/-- The last character of a key is the same as an unsigned character and as one with a sign. -/
theorem getLast?_charValue {key : Bytes} (nonempty : key ≠ []) (small : SevenBit key) :
    key.getLast?.map charValue = some ((key.getLastD 0).toNat : Int) := by
  have last : key.getLast? = some (key.getLastD 0) := by
    rw [List.getLastD_eq_getLast?, List.getLast?_eq_some_getLast nonempty]
    rfl
  have member : key.getLastD 0 ∈ key := List.mem_of_getLast? last
  rw [last, Option.map_some, charValue_eq (small _ member)]

/-- A negative character ends the walk. -/
theorem walk_neg {key : Bytes} (large : ¬ SevenBit key) (curr : UInt8 × Inside Value) : walk key curr = none := by
  induction key generalizing curr with
  | nil => exact absurd nofun large
  | cons char key inductionHypothesis =>
    rw [walk]
    by_cases small : char < 128
    · have largeRest : ¬ SevenBit key := fun all => large (List.forall_mem_cons.mpr ⟨small, all⟩)
      cases findNode (charValue char) curr.2.2 with
      | none => rfl
      | some next => exact inductionHypothesis largeRest next
    · rw [findNode_neg (charValue_neg small)]
      rfl

end TrieNodes

open TrieNodes

/-! ## Operations -/

namespace Trie

theorem find_eq {trie : Trie Value} (increasing : trie.root.2.Increasing) {key : Bytes} (nonempty : key ≠ [])
    (small : SevenBit key) : trie.find key = valueAt key trie.root := by
  have value := getLast?_charValue nonempty small
  rw [find, walk_eq small (0, trie.root) increasing, valueAt]
  cases insideAt key trie.root with
  | none => rfl
  | some inside => simp [value]

theorem find_neg (trie : Trie Value) {key : Bytes} (large : ¬ SevenBit key) : trie.find key = none := by
  rw [find, walk_neg large]

end Trie

def TrieOp.Keyed : TrieOp Value → Prop
  | insert key _ => key ≠ []
  | erase key => key ≠ []
  | clear => True

/-- The operation puts in no key with a negative character. -/
def TrieOp.InsertsSevenBit : TrieOp Value → Prop
  | insert key _ => SevenBit key
  | _ => True

def TrieOp.isClear : TrieOp Value → Bool
  | clear => true
  | _ => false

/-- What is held in the nodes: a key with a negative character is not erased. -/
def TrieOp.kept (map : KeyMap Value) : TrieOp Value → KeyMap Value
  | insert key val => map.insert key val
  | erase key => if key.all (· < 128) then map.erase key else map
  | clear => ∅

def held (ops : List (TrieOp Value)) : KeyMap Value := ops.foldl TrieOp.kept ∅

/-- A trie and the map of what its nodes hold. -/
structure HoldsMap (trie : Trie Value) (map : KeyMap Value) : Prop where
  increasing : trie.root.2.Increasing
  values : ∀ key, key ≠ [] → valueAt key trie.root = map.lookup key
  size : trie.size = map.keys.length

theorem sevenBit_iff {key : Bytes} : SevenBit key ↔ key.all (· < 128) = true := by
  simp [SevenBit]

theorem length_keys_erase (map : KeyMap Value) (key : Bytes) :
    (map.erase key).keys.length = if key ∈ map then map.keys.length - 1 else map.keys.length := by
  rw [AList.keys_erase]
  by_cases member : key ∈ map
  · rw [if_pos member]
    exact @List.length_erase_of_mem _ instBEqOfDecidableEq _ _ _ (AList.mem_keys.mp member)
  · rw [if_neg member]
    exact congrArg _ (@List.erase_of_not_mem _ instBEqOfDecidableEq _ _ _ (fun inside => member inside))

theorem length_keys_insert (map : KeyMap Value) (key : Bytes) (val : Value) :
    (map.insert key val).keys.length = if key ∈ map then map.keys.length else map.keys.length + 1 := by
  rw [AList.keys_insert, List.length_cons, ← AList.keys_erase, length_keys_erase]
  split
  · rename_i member
    have positive := List.length_pos_of_mem (AList.mem_keys.mp member)
    omega
  · rfl

theorem holdsMap_insert {trie : Trie Value} {map : KeyMap Value} (holds : HoldsMap trie map) {key : Bytes}
    (nonempty : key ≠ []) (val : Value) : HoldsMap (trie.insert key val) (map.insert key val) := by
  obtain ⟨answer, found⟩ := insertLoop_eq val key trie.root holds.increasing
  rw [holds.values key nonempty] at answer
  rw [Trie.insert, if_neg nonempty]
  refine ⟨increasing_insertLoop val key trie.root holds.increasing, fun other some_ => ?_, ?_⟩
  · rw [found other]
    by_cases same : other = key
    · rw [if_pos same, same, AList.lookup_insert]
    · rw [if_neg same, AList.lookup_insert_ne same, holds.values other some_]
  · rw [length_keys_insert, ← holds.size]
    by_cases member : key ∈ map
    · simp [answer, member, AList.lookup_isSome.mpr member]
    · simp [answer, member, AList.lookup_eq_none.mpr member]

theorem holdsMap_erase {trie : Trie Value} {map : KeyMap Value} (holds : HoldsMap trie map) {key : Bytes}
    (nonempty : key ≠ []) (small : SevenBit key) : HoldsMap (trie.erase key) (map.erase key) := by
  have found := Trie.find_eq holds.increasing nonempty small
  rw [holds.values key nonempty] at found
  rw [Trie.erase, found]
  cases there : map.lookup key with
  | none =>
    refine ⟨holds.increasing, fun other some_ => ?_, ?_⟩
    · rw [holds.values other some_]
      by_cases same : other = key
      · rw [same, there, AList.lookup_erase]
      · rw [AList.lookup_erase_ne same]
    · rw [length_keys_erase, if_neg (AList.lookup_eq_none.mp there)]
      exact holds.size
  | some value =>
    have member : key ∈ map := AList.lookup_isSome.mp (by rw [there]; rfl)
    refine ⟨increasing_eraseLoop key trie.root holds.increasing, fun other some_ => ?_, ?_⟩
    · rw [eraseLoop_eq small trie.root holds.increasing]
      by_cases same : other = key
      · rw [if_pos same, same, AList.lookup_erase]
      · rw [if_neg same, AList.lookup_erase_ne same, holds.values other some_]
    · rw [length_keys_erase, if_pos member, ← holds.size]

/-- One operation. -/
theorem holdsMap_apply {trie : Trie Value} {map : KeyMap Value} (holds : HoldsMap trie map) {op : TrieOp Value}
    (keyed : op.Keyed) : HoldsMap (op.apply trie) (op.kept map) := by
  cases op with
  | insert key val => exact holdsMap_insert holds keyed val
  | erase key =>
    rw [TrieOp.kept, TrieOp.apply]
    by_cases small : SevenBit key
    · rw [if_pos (sevenBit_iff.mp small)]
      exact holdsMap_erase holds keyed small
    · rw [if_neg fun all => small (sevenBit_iff.mpr all), Trie.erase, Trie.find_neg trie small]
      exact holds
  | clear => exact ⟨trivial, fun key _ => valueAt_none key, rfl⟩

/-- Any number of operations. -/
theorem holdsMap_run {ops : List (TrieOp Value)} (keyed : ∀ op ∈ ops, op.Keyed) :
    HoldsMap (Trie.run ops) (held ops) := by
  induction ops using List.reverseRecOn with
  | nil => exact ⟨trivial, fun key _ => valueAt_none key, rfl⟩
  | append_singleton ops op inductionHypothesis =>
    rw [Trie.run, held, List.foldl_append, List.foldl_append]
    exact holdsMap_apply (inductionHypothesis fun op member => keyed op (List.mem_append_left _ member))
      (keyed op (List.mem_append_right _ (List.mem_singleton_self op)))

/-! ## What is held and what is present -/

def sinceClear (ops : List (TrieOp Value)) : List (TrieOp Value) := ops.rtakeWhile fun op => !op.isClear

theorem sinceClear_concat (ops : List (TrieOp Value)) (op : TrieOp Value) :
    sinceClear (ops ++ [op]) = if op.isClear then [] else sinceClear ops ++ [op] := by
  rw [sinceClear, List.rtakeWhile_concat]
  cases op.isClear with
  | true => rfl
  | false => rfl

theorem held_concat (ops : List (TrieOp Value)) (op : TrieOp Value) : held (ops ++ [op]) = op.kept (held ops) := by
  rw [held, List.foldl_append]
  rfl

theorem present_concat (ops : List (TrieOp Value)) (op : TrieOp Value) :
    present (ops ++ [op]) = op.effect (present ops) := by
  rw [present, List.foldl_append]
  rfl

theorem mem_held_of_present {ops : List (TrieOp Value)} {key : Bytes} (there : key ∈ present ops) : key ∈ held ops := by
  induction ops using List.reverseRecOn with
  | nil => exact absurd there (AList.notMem_empty key)
  | append_singleton ops op inductionHypothesis =>
    rw [present_concat] at there
    rw [held_concat]
    cases op with
    | insert other val => exact (AList.mem_insert _).mpr (((AList.mem_insert _).mp there).imp_right inductionHypothesis)
    | erase other =>
      obtain ⟨apart, before⟩ := AList.mem_erase.mp there
      rw [TrieOp.kept]
      split
      · exact AList.mem_erase.mpr ⟨apart, inductionHypothesis before⟩
      · exact inductionHypothesis before
    | clear => exact absurd there (AList.notMem_empty key)

/-- A key that is held was put in since everything was last cleared. -/
theorem inserted_of_held {ops : List (TrieOp Value)} {key : Bytes} (there : key ∈ held ops) :
    ∃ val, .insert key val ∈ sinceClear ops := by
  induction ops using List.reverseRecOn with
  | nil => exact absurd there (AList.notMem_empty key)
  | append_singleton ops op inductionHypothesis =>
    rw [held_concat] at there
    rw [sinceClear_concat]
    have earlier (before : key ∈ held ops) : ∃ val, .insert key val ∈ sinceClear ops ++ [op] := by
      obtain ⟨val, member⟩ := inductionHypothesis before
      exact ⟨val, List.mem_append_left _ member⟩
    cases op with
    | insert other val =>
      cases (AList.mem_insert _).mp there with
      | inl same => exact ⟨val, by simp [TrieOp.isClear, same]⟩
      | inr before => exact earlier before
    | erase other =>
      rw [TrieOp.kept] at there
      split at there
      · exact earlier (AList.mem_erase.mp there).2
      · exact earlier there
    | clear => exact absurd there (AList.notMem_empty key)

/-- A key with a negative character that was put in since then is still held. -/
theorem held_of_inserted {ops : List (TrieOp Value)} {key : Bytes} {val : Value}
    (inserted : .insert key val ∈ sinceClear ops) (large : ¬ SevenBit key) : key ∈ held ops := by
  induction ops using List.reverseRecOn with
  | nil => cases inserted
  | append_singleton ops op inductionHypothesis =>
    rw [sinceClear_concat] at inserted
    rw [held_concat]
    cases op with
    | insert other val' =>
      apply (AList.mem_insert _).mpr
      cases List.mem_append.mp inserted with
      | inl before => exact .inr (inductionHypothesis before)
      | inr last =>
        cases List.mem_singleton.mp last
        exact .inl rfl
    | erase other =>
      -- Only keys without negative characters are erased, which this one is not.
      have before : key ∈ held ops := by
        cases List.mem_append.mp inserted with
        | inl before => exact inductionHypothesis before
        | inr last => cases List.mem_singleton.mp last
      rw [TrieOp.kept]
      split
      · rename_i small
        exact AList.mem_erase.mpr ⟨fun same => large (sevenBit_iff.mpr (same ▸ small)), before⟩
      · exact before
    | clear => cases inserted

theorem erase_eq_self {map : KeyMap Value} {key : Bytes} (missing : key ∉ map) : map.erase key = map :=
  AList.ext (List.kerase_of_notMem_keys missing)

/-- Without negative characters, what is held is what is present. -/
theorem held_eq_present {ops : List (TrieOp Value)} (small : ∀ op ∈ sinceClear ops, op.InsertsSevenBit) :
    held ops = present ops := by
  induction ops using List.reverseRecOn with
  | nil => rfl
  | append_singleton ops op inductionHypothesis =>
    rw [held_concat, present_concat]
    rw [sinceClear_concat] at small
    cases op with
    | clear => rfl
    | insert key val =>
      rw [inductionHypothesis fun op member => small op (List.mem_append_left _ member)]
      rfl
    | erase key =>
      have smallBefore : ∀ op ∈ sinceClear ops, op.InsertsSevenBit :=
        fun op member => small op (List.mem_append_left _ member)
      rw [TrieOp.kept, TrieOp.effect, ← inductionHypothesis smallBefore]
      split
      · rfl
      · rename_i large
        refine (erase_eq_self fun there => large ?_).symm
        obtain ⟨val, inserted⟩ := inserted_of_held there
        exact sevenBit_iff.mp (smallBefore _ inserted)

/-- A trie is a map: every key is found with its value when it is present, the size is the number of keys, and the
child nodes increase. -/
structure IsMap (trie : Trie Value) (map : KeyMap Value) : Prop where
  found : ∀ key, key ≠ [] → trie.find key = map.lookup key
  size : trie.size = map.keys.length
  increasing : trie.root.2.Increasing

/-- A trie is a map when no key with a negative character was put in since everything was last cleared. -/
theorem isMap_iff {ops : List (TrieOp Value)} (keyed : ∀ op ∈ ops, op.Keyed) :
    IsMap (Trie.run ops) (present ops) ↔ ∀ op ∈ sinceClear ops, op.InsertsSevenBit := by
  have holds := holdsMap_run keyed
  constructor
  · intro isMap op member
    cases op with
    | erase key => trivial
    | clear => trivial
    | insert key val =>
      by_contra large
      -- The key is held for good; as the sizes are the same, it would have to be present, and is not found.
      have there : key ∈ held ops := held_of_inserted member large
      have subset : (present ops).keys ⊆ (held ops).keys := fun other inside => mem_held_of_present inside
      have lengths : (held ops).keys.length ≤ (present ops).keys.length := by rw [← holds.size, isMap.size]
      have perm := (List.subperm_of_subset (present ops).keys_nodup subset).perm_of_length_le lengths
      have inPresent : key ∈ present ops := perm.mem_iff.mpr there
      have nonempty : key ≠ [] := keyed _ (List.rtakeWhile_suffix _ _ |>.subset member)
      have found := isMap.found key nonempty
      rw [Trie.find_neg _ large] at found
      exact AList.lookup_eq_none.mp found.symm inPresent
  · intro small
    have same := held_eq_present small
    refine ⟨fun key nonempty => ?_, by rw [holds.size, same], holds.increasing⟩
    by_cases smallKey : SevenBit key
    · rw [Trie.find_eq holds.increasing nonempty smallKey, holds.values key nonempty, same]
    · rw [Trie.find_neg _ smallKey, eq_comm, ← same, AList.lookup_eq_none]
      intro there
      obtain ⟨val, inserted⟩ := inserted_of_held there
      exact smallKey (small _ inserted)

theorem isMap_iff_two :
    IsMap (Trie.run [TrieOp.insert [200] 1, .clear, .insert (ascii "a") 2])
        (present [TrieOp.insert [200] 1, .clear, .insert (ascii "a") 2]) ↔
      ∀ op ∈ sinceClear [TrieOp.insert [200] 1, .clear, .insert (ascii "a") 2], op.InsertsSevenBit := by
  apply isMap_iff
  simp [TrieOp.Keyed, ascii]

/-- The value is not found, and it is not erased either. -/
theorem not_isMap :
    ¬ IsMap (Trie.run [TrieOp.insert [200] 1]) (present [TrieOp.insert [200] 1]) ∧
      ¬ IsMap (Trie.run [TrieOp.insert [200] 1, .erase [200]]) (present [TrieOp.insert [200] 1, .erase [200]]) := by
  constructor
  · intro isMap
    exact absurd (isMap.found [200] (by decide)) (by decide)
  · intro isMap
    exact absurd isMap.size (by decide)

end OpenInstrument.Server
