import OpenInstrument.Datastore.Background

/-! # Splitting until nothing is left to split

A split gives each half of a block at most half of its variables, rounded up.  After as many passes of the second loop
as it takes to halve the largest block down to the limit, no block is to be split any more, whatever the order of the
turns and whether or not a pass comes across the halves that it made.
-/

namespace OpenInstrument

open Fallible (Along)

variable {Double : Type} {rt : Runtime Double} {used : List GoString} {s after : Datastore Double}

/-! ## The variables of a block -/

def DatastoreBlock.variableNames (block : DatastoreBlock Double) : List GoString := block.keys.dedup

theorem length_le_of_splitPoint_lt {number : Nat} (above : splitPoint < UInt32.ofNat number) : 500 < number := by
  rw [UInt32.lt_iff_toNat_lt, UInt32.toNat_ofNat'] at above
  exact Nat.lt_of_lt_of_le above (Nat.mod_le _ _)

/-- A block is split only if it has more variables than the limit. -/
theorem BlockSound.variableNames_of_shouldSplit {view : GoString → Option Bytes} {block : DatastoreBlock Double}
    {file logged : List (Stream Double)} (sound : BlockSound rt view block file logged)
    (due : block.shouldSplit = true) : 500 < block.variableNames.length := by
  -- The index and the logs have each key once, so that neither counts more than there are variables.
  have fits : ∀ {keys : List GoString}, keys.Nodup → (∀ key ∈ keys, key ∈ block.keys) →
      keys.length ≤ block.variableNames.length := fun distinct inside =>
    (distinct.subperm fun key member => List.mem_dedup.mpr (inside key member)).length_le
  rw [DatastoreBlock.shouldSplit, Bool.or_eq_true, decide_eq_true_iff, decide_eq_true_iff] at due
  cases due with
  | inl index =>
    have distinct : (block.blockHeader.index.map StoreFileHeaderIndex.key).Nodup := by
      rw [sound.index_perm.nodup_iff]
      rcases sound.onDisk with ⟨-, -, rfl⟩ | ⟨footer, -, layout⟩
      · exact .nil
      · exact layout.distinct
    have bound := fits distinct fun key member =>
      List.mem_append_left _ (List.mem_append_left _ member)
    rw [List.length_map] at bound
    exact Nat.lt_of_lt_of_le (length_le_of_splitPoint_lt index) bound
  | inr logs =>
    have bound := fits block.logStreams.keys_nodup fun key member =>
      List.mem_append_left _ (List.mem_append_right _ (DatastoreBlock.logs_keys sound.filed ▸ member))
    exact Nat.lt_of_lt_of_le (length_le_of_splitPoint_lt logs) bound

/-- The left block ends in the middle of the variables. -/
theorem DatastoreBlock.leftEndKey_middle {block : DatastoreBlock Double} {leftKey : GoString}
    (chosen : block.leftEndKey = some leftKey) :
    ∃ before after, (before ++ leftKey :: after).Pairwise (· < ·) ∧
      (∀ key, key ∈ before ++ leftKey :: after ↔ key ∈ block.keys) ∧
      before.length + 1 = block.variableNames.length / 2 ∧
      after.length = block.variableNames.length - block.variableNames.length / 2 := by
  have perm := sortStrings_perm block.keys.dedup
  have sorted := sortStrings_sorted block.keys.dedup
  have distinct : (sortStrings block.keys.dedup).Nodup := perm.nodup_iff.mpr (List.nodup_dedup _)
  have length := perm.length_eq
  rw [DatastoreBlock.leftEndKey] at chosen
  rw [DatastoreBlock.variableNames, ← length]
  have members : ∀ key, key ∈ sortStrings block.keys.dedup ↔ key ∈ block.keys := fun key =>
    perm.mem_iff.trans List.mem_dedup
  generalize sortStrings block.keys.dedup = sortedKeys at *
  split at chosen
  · cases chosen
  · rename_i several
    obtain ⟨below, here⟩ := List.getElem?_eq_some_iff.mp chosen
    have parts : sortedKeys.take (sortedKeys.length / 2 - 1) ++ leftKey ::
        sortedKeys.drop (sortedKeys.length / 2 - 1 + 1) = sortedKeys := by
      rw [← here, List.getElem_cons_drop, List.take_append_drop]
    have increasing : sortedKeys.Pairwise (· < ·) :=
      (sorted.and distinct).imp fun both => lt_of_le_of_ne both.1 both.2
    refine ⟨sortedKeys.take (sortedKeys.length / 2 - 1), sortedKeys.drop (sortedKeys.length / 2 - 1 + 1),
      parts.symm ▸ increasing, fun key => by rw [parts, members], ?_, ?_⟩
    · rw [List.length_take]
      omega
    · rw [List.length_drop]
      omega

/-! ## One turn -/

def Datastore.Flushed (s : Datastore Double) : Prop :=
  ∀ key block, s.blocks.lookup key = some block → block.newStreams = []

theorem Datastore.SplitTo.halves {key leftKey : GoString} {block left right : DatastoreBlock Double}
    (split : s.SplitTo rt after key leftKey block left right) (chosen : block.leftEndKey = some leftKey)
    (flushed : block.newStreams = []) :
    left.variableNames.length ≤ (block.variableNames.length + 1) / 2 ∧
      right.variableNames.length ≤ (block.variableNames.length + 1) / 2 := by
  obtain ⟨before, after, increasing, members, lower, upper⟩ := DatastoreBlock.leftEndKey_middle chosen
  -- Without pending streams each half has its variables from the block, on its own side of the key.
  have leftNames : ∀ name ∈ left.variableNames, name ∈ before ++ leftKey :: after ∧ name ≤ leftKey := by
    intro name member
    rw [DatastoreBlock.variableNames, List.mem_dedup, DatastoreBlock.keys, split.leftNew, List.map_nil,
      List.append_nil, split.leftKeys] at member
    exact ⟨(members name).mpr (List.mem_append_left _ member.1), member.2⟩
  have rightNames : ∀ name ∈ right.variableNames, name ∈ before ++ leftKey :: after ∧ leftKey < name := by
    intro name member
    rw [DatastoreBlock.variableNames, List.mem_dedup, DatastoreBlock.keys, split.rightNew, flushed, List.map_nil,
      List.append_nil, split.rightKeys] at member
    exact ⟨(members name).mpr (List.mem_append_left _ member.1), member.2⟩
  have leftBound := Boundaries.length_below increasing (List.nodup_dedup left.keys) leftNames
  have rightBound := Boundaries.length_above increasing (List.nodup_dedup right.keys) rightNames
  rw [← DatastoreBlock.variableNames] at leftBound rightBound
  omega

/-- A block that is to be split after a turn was there before, or it is a half of the block whose turn it was. -/
theorem Datastore.Sound.splitTurn (sound : s.Sound rt used) (flushed : s.Flushed) {turn : SplitTurn}
    (completes : (s.blocks.lookup turn.key).any DatastoreBlock.shouldSplit = true → s.Completes rt turn.operation)
    (fresh : ∀ id ∈ turn.choices.uuid, ValidId id ∧ id ∉ used) (drawn : turn.choices.uuid.isSome = true)
    (ran : s.splitTurn rt turn = .ok after) :
    after.Sound rt (used ++ turn.choices.uuid.toList) ∧ after.Flushed ∧
      ∀ key block, after.blocks.lookup key = some block → block.shouldSplit = true →
        key ≠ turn.key ∧ s.blocks.lookup key = some block ∨
          ∃ whole, s.blocks.lookup turn.key = some whole ∧ whole.shouldSplit = true ∧
            block.variableNames.length ≤ (whole.variableNames.length + 1) / 2 := by
  rw [Datastore.splitTurn] at ran
  split at ran
  · rename_i due
    obtain ⟨afterSound, -, stepped⟩ := sound.stepped_splitBlock (completes due) fresh ran
    cases stepped with
    | split split =>
      cases split with
      | missing absent =>
        rw [absent] at due
        cases due
      | @tooFew block found whole =>
        -- A block that is to be split has so many variables that there is a middle.
        obtain ⟨file, logged, blockSound⟩ := sound.block turn.key block found
        rw [found] at due
        have many := blockSound.variableNames_of_shouldSplit due
        have length := (sortStrings_perm block.keys.dedup).length_eq
        rw [DatastoreBlock.leftEndKey, if_neg (by rw [length, ← DatastoreBlock.variableNames]; omega),
          List.getElem?_eq_none_iff, length, ← DatastoreBlock.variableNames] at whole
        omega
      | compacted found undrawn compaction =>
        rw [undrawn] at drawn
        cases drawn
      | @split block left right after leftKey id found chosen drew halves =>
        rw [found] at due
        obtain ⟨leftBound, rightBound⟩ := halves.halves chosen (flushed turn.key block found)
        refine ⟨afterSound, fun key other standing => ?_, fun key other standing dueStill => ?_⟩
        -- A key of the new store is that of the left block, that of the right one, or an old one.
        · rw [halves.blocks] at standing
          rcases lookup_insert_cases standing with ⟨-, rfl⟩ | ⟨-, standing⟩
          · exact halves.leftNew
          · rcases lookup_insert_cases standing with ⟨-, rfl⟩ | ⟨-, standing⟩
            · exact halves.rightNew.trans (flushed turn.key block found)
            · exact flushed key other standing
        · rw [halves.blocks] at standing
          rcases lookup_insert_cases standing with ⟨-, rfl⟩ | ⟨-, standing⟩
          · exact .inr ⟨block, found, due, leftBound⟩
          · rcases lookup_insert_cases standing with ⟨-, rfl⟩ | ⟨other, standing⟩
            · exact .inr ⟨block, found, due, rightBound⟩
            · exact .inl ⟨other, standing⟩
  · rename_i small
    cases ran
    refine ⟨sound.draw fun id member => (fresh id (by simpa using member)).1, flushed,
      fun key block found due => .inl ⟨?_, found⟩⟩
    rintro rfl
    rw [found] at small
    exact small due

/-! ## A pass -/

def turnIds (turns : List SplitTurn) : List GoString := turns.filterMap fun turn => turn.choices.uuid

/-- Each turn draws an identifier that was not there before. -/
structure FreshTurns (used : List GoString) (turns : List SplitTurn) : Prop where
  drawn : ∀ turn ∈ turns, turn.choices.uuid.isSome = true
  distinct : (turnIds turns).Nodup
  fresh : ∀ id ∈ turnIds turns, ValidId id ∧ id ∉ used

theorem FreshTurns.tail {turn : SplitTurn} {turns : List SplitTurn} (fresh : FreshTurns used (turn :: turns)) :
    (∀ id ∈ turn.choices.uuid, ValidId id ∧ id ∉ used) ∧
      FreshTurns (used ++ turn.choices.uuid.toList) turns := by
  obtain ⟨id, drew⟩ := Option.isSome_iff_exists.mp (fresh.drawn turn List.mem_cons_self)
  have ids : turnIds (turn :: turns) = id :: turnIds turns := by simp [turnIds, drew]
  have distinct := fresh.distinct
  have all := fresh.fresh
  rw [ids, List.nodup_cons] at distinct
  rw [ids, List.forall_mem_cons] at all
  rw [drew]
  refine ⟨fun other same => Option.some.inj same ▸ all.1, fun other member => fresh.drawn other (.tail _ member),
    distinct.2, fun other member => ⟨(all.2 other member).1, fun earlier => ?_⟩⟩
  rcases List.mem_append.mp earlier with before | here
  · exact (all.2 other member).2 before
  · exact distinct.1 (List.mem_singleton.mp here ▸ member)

/-- A pass halves what is still to be split. -/
theorem Datastore.Sound.splitTurns (sound : s.Sound rt used) (flushed : s.Flushed) {turns : List SplitTurn}
    {bound : Nat} (fresh : FreshTurns used turns)
    (along : Along (Datastore.splitTurn rt) (fun _ s turn =>
      (s.blocks.lookup turn.key).any DatastoreBlock.shouldSplit = true → s.Completes rt turn.operation) [] s turns)
    (bounded : ∀ key block, s.blocks.lookup key = some block → block.shouldSplit = true →
      block.variableNames.length ≤ bound ∨
        block.variableNames.length ≤ 2 * bound ∧ key ∈ turns.map SplitTurn.key)
    (ran : s.splitTurns rt turns = .ok after) :
    after.Sound rt (used ++ turnIds turns) ∧ after.Flushed ∧
      ∀ key block, after.blocks.lookup key = some block → block.shouldSplit = true →
        block.variableNames.length ≤ bound := by
  generalize ([] : List SplitTurn) = history at along
  induction turns generalizing s used history with
  | nil =>
    cases ran
    refine ⟨by simpa [turnIds] using sound, flushed, fun key block found due => ?_⟩
    exact (bounded key block found due).resolve_right fun both => nomatch both.2
  | cons turn turns inductionHypothesis =>
    rw [Datastore.splitTurns, List.foldlM_cons] at ran
    obtain ⟨middle, taken, rest⟩ := Fallible.bind_ok ran
    obtain ⟨completes, later⟩ := along
    rw [taken] at later
    obtain ⟨freshHere, freshLater⟩ := fresh.tail
    obtain ⟨middleSound, middleFlushed, halved⟩ :=
      sound.splitTurn flushed completes freshHere (fresh.drawn turn List.mem_cons_self) taken
    -- What is still too large has its turn to come, since a half of the block of this turn is small.
    have middleBounded : ∀ key block, middle.blocks.lookup key = some block → block.shouldSplit = true →
        block.variableNames.length ≤ bound ∨
          block.variableNames.length ≤ 2 * bound ∧ key ∈ turns.map SplitTurn.key := by
      intro key block found due
      rcases halved key block found due with ⟨other, old⟩ | ⟨whole, old, oldDue, half⟩
      · refine (bounded key block old due).imp_right fun both => ⟨both.1, ?_⟩
        exact (List.mem_cons.mp both.2).resolve_left other
      · have large : whole.variableNames.length ≤ 2 * bound := by
          rcases bounded turn.key whole old oldDue with small | ⟨large, -⟩
          · omega
          · exact large
        exact .inl (by omega)
    obtain ⟨afterSound, settled⟩ :=
      inductionHypothesis middleSound middleFlushed freshLater middleBounded rest _ later
    have ids : used ++ turnIds (turn :: turns) = used ++ turn.choices.uuid.toList ++ turnIds turns := by
      rw [List.append_assoc]
      cases drew : turn.choices.uuid <;> simp [turnIds, drew]
    exact ⟨ids ▸ afterSound, settled⟩

/-! ## Passes -/

/-- So many passes of the second loop, one after another.  Each visits every block that is there when it starts, and no
file call of a split fails. -/
inductive SplitPasses (rt : Runtime Double) : List GoString → Datastore Double → Nat → Datastore Double → Prop where
  | done {used : List GoString} {s : Datastore Double} : SplitPasses rt used s 0 s
  | pass {used : List GoString} {s middle after : Datastore Double} {turns : List SplitTurn} {rounds : Nat}
      (visits : ∀ key ∈ s.blocks, key ∈ turns.map SplitTurn.key) (fresh : FreshTurns used turns)
      (along : Along (Datastore.splitTurn rt) (fun _ s turn =>
        (s.blocks.lookup turn.key).any DatastoreBlock.shouldSplit = true → s.Completes rt turn.operation) [] s turns)
      (ran : s.splitTurns rt turns = .ok middle)
      (rest : SplitPasses rt (used ++ turnIds turns) middle rounds after) : SplitPasses rt used s (rounds + 1) after

theorem Datastore.Sound.splitPasses {rounds : Nat} (passes : SplitPasses rt used s rounds after)
    (sound : s.Sound rt used) (flushed : s.Flushed)
    (bounded : ∀ key block, s.blocks.lookup key = some block → block.shouldSplit = true →
      block.variableNames.length ≤ 500 * 2 ^ rounds) :
    ∀ key block, after.blocks.lookup key = some block → block.shouldSplit = false := by
  induction passes with
  | done =>
    -- With no pass to come the bound is the limit itself.
    intro key block found
    obtain ⟨file, logged, blockSound⟩ := sound.block key block found
    by_contra due
    rw [Bool.not_eq_false] at due
    have many := blockSound.variableNames_of_shouldSplit due
    have few := bounded key block found due
    omega
  | @pass used s middle after turns rounds visits fresh along ran rest inductionHypothesis =>
    have halved : ∀ key block, s.blocks.lookup key = some block → block.shouldSplit = true →
        block.variableNames.length ≤ 500 * 2 ^ rounds ∨
          block.variableNames.length ≤ 2 * (500 * 2 ^ rounds) ∧ key ∈ turns.map SplitTurn.key := by
      intro key block found due
      have bound := bounded key block found due
      rw [pow_succ] at bound
      exact .inr ⟨by omega, visits key (Keyed.mem_iff_lookup.mpr ⟨block, found⟩)⟩
    obtain ⟨middleSound, middleFlushed, settled⟩ := sound.splitTurns flushed fresh along halved ran
    exact inductionHypothesis middleSound middleFlushed settled

/-- From a flushed store that was reached, passes that can halve the largest block down to the limit leave no block to
be split. -/
theorem splitPasses_settle (reached : s.Reached rt used) (flushed : s.Flushed) {rounds : Nat}
    (small : ∀ key block, s.blocks.lookup key = some block → block.variableNames.length ≤ 500 * 2 ^ rounds)
    (passes : SplitPasses rt used s rounds after) :
    ∀ key block, after.blocks.lookup key = some block → block.shouldSplit = false :=
  Datastore.Sound.splitPasses passes reached.sound flushed fun key block found _ => small key block found

end OpenInstrument
