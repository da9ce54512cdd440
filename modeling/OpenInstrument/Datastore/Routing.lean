import OpenInstrument.Datastore.Runs
import OpenInstrument.ProtoWire

/-! # Finding the block of a variable

`blockKeys` divides the variables into ranges, and each block holds those of the range that its key
ends.  `Writer`, `Flush` and `compactBlock` keep it so, and so does `splitBlock` unless a pending stream
belongs to the lower half: pending streams stay with the upper half.  `joinBlocks` does not keep it: the
keys of the blocks it removes stay in `blockKeys`, and the key of the joined block is listed twice.
-/

namespace OpenInstrument

open Boundaries (InRange covering)
open Fallible (Ends Along)

variable {Double : Type} {rt : Runtime Double} {used : List GoString} {s : Datastore Double}

structure Datastore.Routed (s : Datastore Double) : Prop where
  increasing : s.blockKeys.Pairwise (· < ·)
  keys : ∀ key, key ∈ s.blockKeys ↔ key ∈ s.blocks
  endKey : ∀ key block, s.blocks.lookup key = some block → block.endKey = key
  /-- A variable of a block is at most its key and above the previous key. -/
  range : ∀ key block, s.blocks.lookup key = some block → ∀ v ∈ block.keys, InRange s.blockKeys key v

/-- `findBlock`, given an identifier for a new block, returns a block, and it is the one that holds the
variable if any does. -/
def Datastore.FindsBlocks (s : Datastore Double) : Prop :=
  ∀ v id, ∃ key block, (s.findBlock (some id) v).2 = some key ∧
    (s.findBlock (some id) v).1.blocks.lookup key = some block ∧
    ∀ other held, s.blocks.lookup other = some held → v.string ∈ held.keys → other = key

theorem Datastore.Routed.findsBlocks (routed : s.Routed) : s.FindsBlocks := by
  intro v id
  have holder : ∀ other held, s.blocks.lookup other = some held → v.string ∈ held.keys →
      covering s.blockKeys v.string = some other := fun other held found member =>
    Boundaries.covering_of_inRange routed.increasing
      ((routed.keys other).mpr (Keyed.mem_iff_lookup.mpr ⟨held, found⟩)) (routed.range other held found _ member)
  rw [Datastore.findBlock.eq_def, ← covering]
  cases covered : covering s.blockKeys v.string with
  | some key =>
    have present := (routed.keys key).mp (Boundaries.mem_of_covering covered)
    obtain ⟨block, found⟩ := Keyed.mem_iff_lookup.mp present
    refine ⟨key, block, if_pos present, found, fun other held lookup member => ?_⟩
    exact Option.some.inj ((holder other held lookup member).symm.trans covered)
  | none =>
    refine ⟨v.string, newBlock v.string id, rfl, AList.lookup_insert _, fun other held lookup member => ?_⟩
    exact absurd ((holder other held lookup member).symm.trans covered) (by simp)

theorem Datastore.routed_empty : (Datastore.empty : Datastore Double).Routed where
  increasing := .nil
  keys key := ⟨fun listed => absurd listed List.not_mem_nil, fun present => absurd present (AList.notMem_empty _)⟩
  endKey _ _ found := by cases found
  range _ _ found := by cases found

/-! ## A key that is added to the list -/

theorem sortStrings_increasing {keys : List GoString} (increasing : keys.Pairwise (· < ·)) {added : GoString}
    (absent : added ∉ keys) : (sortStrings (keys ++ [added])).Pairwise (· < ·) := by
  have distinct : (sortStrings (keys ++ [added])).Nodup := by
    rw [(sortStrings_perm _).nodup_iff, List.nodup_append]
    refine ⟨increasing.imp (fun less => less.ne), List.nodup_singleton _, fun first member second single => ?_⟩
    rw [List.mem_singleton.mp single]
    exact fun same => absent (same ▸ member)
  exact (sortStrings_sorted _).imp₂ (fun _ _ le ne => lt_of_le_of_ne le ne) distinct

theorem mem_sortStrings_append {keys : List GoString} {added key : GoString} :
    key ∈ sortStrings (keys ++ [added]) ↔ key ∈ keys ∨ key = added := by
  rw [(sortStrings_perm _).mem_iff, List.mem_append, List.mem_singleton]

/-! ## The steps -/

/-- Replacing a block by one with the same key and variables of the same range. -/
theorem Datastore.Routed.replace (routed : s.Routed) {after : Datastore Double} {key : GoString}
    {block renewed : DatastoreBlock Double} (found : s.blocks.lookup key = some block)
    (blocks : after.blocks = s.blocks.insert key renewed) (blockKeys : after.blockKeys = s.blockKeys)
    (endKey : renewed.endKey = key) (range : ∀ v ∈ renewed.keys, InRange s.blockKeys key v) :
    after.Routed := by
  refine ⟨blockKeys ▸ routed.increasing, fun other => ?_, fun other kept lookup => ?_,
    fun other kept lookup => ?_⟩
  · rw [blockKeys, routed.keys, blocks, AList.mem_insert]
    refine ⟨.inr, fun member => member.elim (fun same => ?_) id⟩
    exact same ▸ Keyed.mem_iff_lookup.mpr ⟨block, found⟩
  · rw [blocks] at lookup
    rcases lookup_insert_cases lookup with ⟨rfl, rfl⟩ | ⟨-, old⟩
    · exact endKey
    · exact routed.endKey other kept old
  · rw [blocks] at lookup
    rw [blockKeys]
    rcases lookup_insert_cases lookup with ⟨rfl, rfl⟩ | ⟨-, old⟩
    · exact range
    · exact routed.range other kept old

theorem Datastore.Routed.sent (routed : s.Routed) {uuid : Option GoString} {stream : Stream Double}
    {after : Datastore Double} (sent : s.Sent uuid stream after) : after.Routed := by
  cases sent with
  | stale => exact routed
  | unnamed => exact routed
  | @appended key block covered found =>
    have endKey : (block.appended stream).endKey = key := routed.endKey key block found
    refine routed.replace found rfl rfl endKey fun v member => ?_
    rcases DatastoreBlock.mem_keys_appended.mp member with old | rfl
    · exact routed.range key block found v old
    · exact Boundaries.inRange_of_covering routed.increasing covered
  | @opened id beyond drawn =>
    -- The new key is behind all others: no range but its own changes.
    have above := Boundaries.covering_eq_none.mp beyond
    have absent : stream.key ∉ s.blockKeys := fun member => absurd (above _ member) (lt_irrefl _)
    have absentBlock : stream.key ∉ s.blocks := fun member => absent ((routed.keys _).mpr member)
    have blockKeys : (s.insertBlock ((newBlock stream.key id).appended stream)).blockKeys =
        sortStrings (s.blockKeys ++ [stream.key]) := if_neg absentBlock
    refine ⟨?_, fun key => ?_, fun key block lookup => ?_, fun key block lookup v member => ?_⟩
    · rw [blockKeys]
      exact sortStrings_increasing routed.increasing absent
    · rw [blockKeys, mem_sortStrings_append, routed.keys, Datastore.insertBlock, AList.mem_insert, or_comm]
      rfl
    · rcases lookup_insert_cases lookup with ⟨rfl, rfl⟩ | ⟨-, old⟩
      · rfl
      · exact routed.endKey key block old
    · rw [blockKeys]
      rcases lookup_insert_cases lookup with ⟨rfl, rfl⟩ | ⟨-, old⟩
      · have only : v = stream.key := by
          rcases DatastoreBlock.mem_keys_appended.mp member with none | same
          · cases none
          · exact same
        subst only
        refine ⟨le_rfl, fun lower listed below => below⟩
      · refine (routed.range key block old v member).insert
          (fun other listed => mem_sortStrings_append.mp listed) fun below => ?_
        have listed := (routed.keys key).mpr (Keyed.mem_iff_lookup.mpr ⟨block, old⟩)
        exact absurd (above key listed) below.asymm

theorem Datastore.Routed.compactedTo (routed : s.Routed) {after : Datastore Double} {key : GoString}
    {block compacted : DatastoreBlock Double} (afterSound : after.Sound rt used)
    (found : s.blocks.lookup key = some block) (compaction : s.CompactedTo rt after key block compacted) :
    after.Routed := by
  refine routed.replace found compaction.blocks compaction.blockKeys (afterSound.endKey key compacted ?_)
    fun v member => routed.range key block found v (compaction.mem_keys.mp member)
  rw [compaction.blocks, AList.lookup_insert]

/-- A split keeps the ranges when no pending stream belongs to the lower half. -/
theorem Datastore.Routed.splitTo (routed : s.Routed) {after : Datastore Double} {key leftKey : GoString}
    {block left right : DatastoreBlock Double} (afterSound : after.Sound rt used)
    (found : s.blocks.lookup key = some block)
    (chosen : block.leftEndKey = some leftKey) (pending : ∀ stream ∈ block.newStreams, leftKey < stream.key)
    (halves : s.SplitTo rt after key leftKey block left right) : after.Routed := by
  obtain ⟨leftMember, above, aboveMember, leftBelow⟩ := DatastoreBlock.leftEndKey_spec chosen
  have inRange := routed.range key block found
  have below : leftKey < key := leftBelow.trans_le (inRange above aboveMember).1
  have listed : key ∈ s.blockKeys := (routed.keys key).mpr (Keyed.mem_iff_lookup.mpr ⟨block, found⟩)
  have absent : leftKey ∉ s.blockKeys := fun member =>
    absurd ((inRange leftKey leftMember).2 leftKey member below) (lt_irrefl _)
  have blockKeys : after.blockKeys = sortStrings (s.blockKeys ++ [leftKey]) := by
    rw [halves.blockKeys, if_neg fun member => absent ((routed.keys _).mpr member)]
  have members : ∀ other ∈ after.blockKeys, other ∈ s.blockKeys ∨ other = leftKey := fun other member => by
    rwa [blockKeys, mem_sortStrings_append] at member
  have cases_lookup : ∀ {other kept}, after.blocks.lookup other = some kept →
      (other = leftKey ∧ kept = left) ∨ (other = key ∧ kept = right) ∨
        (other ≠ key ∧ s.blocks.lookup other = some kept) := by
    intro other kept lookup
    rw [halves.blocks] at lookup
    rcases lookup_insert_cases lookup with atLeft | ⟨-, rest⟩
    · exact .inl atLeft
    · exact .inr (lookup_insert_cases rest)
  refine ⟨?_, fun other => ?_, afterSound.endKey, fun other kept lookup v member => ?_⟩
  · rw [blockKeys]
    exact sortStrings_increasing routed.increasing absent
  · rw [blockKeys, mem_sortStrings_append, routed.keys, halves.blocks, AList.mem_insert, AList.mem_insert]
    have present : key ∈ s.blocks := (routed.keys key).mp listed
    constructor
    · rintro (old | rfl)
      · exact .inr (.inr old)
      · exact .inl rfl
    · rintro (rfl | rfl | old)
      · exact .inr rfl
      · exact .inl present
      · exact .inl old
  · rcases cases_lookup lookup with ⟨rfl, rfl⟩ | ⟨rfl, rfl⟩ | ⟨different, old⟩
    · rw [DatastoreBlock.keys, halves.leftNew, List.map_nil, List.append_nil, halves.leftKeys] at member
      exact (inRange v (List.mem_append_left _ member.1)).lower members below member.2
    · rw [DatastoreBlock.keys, List.mem_append, halves.rightKeys, halves.rightNew] at member
      have kept : v ∈ block.keys ∧ leftKey < v := by
        rcases member with flushed | waiting
        · exact ⟨List.mem_append_left _ flushed.1, flushed.2⟩
        · obtain ⟨stream, present, rfl⟩ := List.mem_map.mp waiting
          exact ⟨List.mem_append_right _ waiting, pending stream present⟩
      exact (inRange v kept.1).insert members fun _ => kept.2
    · have range := routed.range other kept old v member
      refine range.insert members fun less => ?_
      have otherListed := (routed.keys other).mpr (Keyed.mem_iff_lookup.mpr ⟨kept, old⟩)
      -- the other block ends above the block that is split, so it also starts there
      have beyond : key < other := lt_of_le_of_ne (not_lt.mp fun greater =>
        absurd ((inRange leftKey leftMember).2 other otherListed greater) less.asymm) different.symm
      exact below.trans (range.2 key listed beyond)

/-- What keeps the routing invariant: no join, and no split whose lower half has a pending stream. -/
def Datastore.KeepsRouting (s : Datastore Double) : Operation Double → Prop
  | .splitBlock key choices => choices.uuid = none ∨
      ∀ block ∈ s.blocks.lookup key, ∀ leftKey ∈ block.leftEndKey,
        ∀ stream ∈ block.newStreams, leftKey < stream.key
  | .joinBlocks _ _ => s.joinSelection = []
  | _ => True

instance (s : Datastore Double) : ∀ operation, Decidable (s.KeepsRouting operation)
  | .splitBlock _ _ => inferInstanceAs (Decidable (_ ∨ ∀ block ∈ _, ∀ leftKey ∈ _, ∀ stream ∈ _, _))
  | .joinBlocks _ _ => inferInstanceAs (Decidable (s.joinSelection = []))
  | .send _ _ | .flush _ | .compactBlock _ _ _ => inferInstanceAs (Decidable True)

theorem Datastore.Routed.step (routed : s.Routed) (sound : s.Sound rt used) {operation : Operation Double}
    (completes : s.Completes rt operation) (kept : s.KeepsRouting operation)
    (fresh : ∀ id ∈ operation.uuid, ValidId id ∧ id ∉ used) :
    Ends (fun _ => True) (fun after => after.Sound rt (used ++ operation.uuid.toList) ∧ after.Routed)
      (s.step rt operation) := by
  by_cases join : ∃ orders clog, operation = .joinBlocks orders clog
  · obtain ⟨orders, clog, rfl⟩ := join
    have empty : s.joinSelection = [] := kept
    rw [Datastore.step, if_pos empty]
    exact ⟨by simpa [Operation.uuid] using sound, routed⟩
  push Not at join
  cases taken : s.step rt operation with
  | error panic => trivial
  | ok after =>
    obtain ⟨afterSound, -, stepped⟩ := sound.stepped completes fresh join taken
    refine ⟨afterSound, ?_⟩
    cases stepped with
    | send named sent held => exact routed.sent sent
    | flush held blockKeys lookups =>
      refine ⟨blockKeys ▸ routed.increasing, fun key => ?_, afterSound.endKey, fun key block found v member => ?_⟩
      · rw [blockKeys, routed.keys, Keyed.mem_iff_lookup, Keyed.mem_iff_lookup, lookups]
        simp [Option.map_eq_some_iff]
      · rw [lookups, Option.map_eq_some_iff] at found
        obtain ⟨before, found, rfl⟩ := found
        obtain ⟨file, logged, blockSound⟩ := sound.block key before found
        rw [DatastoreBlock.mem_keys_flushed blockSound.filed blockSound.pending] at member
        exact blockKeys ▸ routed.range key before found v member
    | compactMissing absent => exact routed
    | @compact key _ _ block compacted _ found compaction =>
      exact routed.compactedTo afterSound found compaction
    | @split key choices _ split =>
      cases split with
      | missing => exact routed
      | tooFew => exact routed
      | compacted found undrawn compaction => exact routed.compactedTo afterSound found compaction
      | split found chosen drawn halves =>
        -- A split leaves the pending streams with the right half, whatever their keys are.
        have pending := (kept.resolve_left (by simp [drawn])) _ found _ chosen
        exact routed.splitTo afterSound found chosen pending halves

/-- Every state that is reached by steps that keep the routing invariant is routed. -/
theorem run_routed (rt : Runtime Double) (operations : List (Operation Double)) (ids : FreshIds operations)
    (along : Along (Datastore.step rt) (fun _ s operation => s.Completes rt operation ∧ s.KeepsRouting operation)
      [] Datastore.empty operations) (s : Datastore Double)
    (reached : Datastore.run rt Datastore.empty operations = .ok s) : s.Routed ∧ s.FindsBlocks := by
  have ends := run_ends (fun _ s => s.Routed) ids
    (fun _ _ _ sound routed completes kept fresh _ => routed.step sound completes kept fresh)
    Datastore.routed_empty along
  have routed := (ends.of_ok reached).2
  exact ⟨routed, routed.findsBlocks⟩

/-- Two variables in one block, flushed and split between them. -/
def splitRun : List (Operation UInt64) :=
  [.send (some (ascii "1")) (gauge "b" [5, 3]), .send none (gauge "a" [7]), .flush .listed,
    .splitBlock (ascii "b")
      { uuid := some (ascii "2"), clog := { startTime := 0 }, compaction := .listed, left := .listed,
        right := .listed }]

theorem run_routed_splitRun :
    ∃ s, Datastore.run protoRuntime Datastore.empty splitRun = .ok s ∧ s.Routed ∧ s.FindsBlocks := by
  obtain ⟨s, reached⟩ := Fallible.failure_eq_none.mp
    (by decide +kernel : Fallible.failure (Datastore.run protoRuntime Datastore.empty splitRun) = none)
  exact ⟨s, reached, run_routed protoRuntime splitRun (by decide +kernel) (by decide +kernel) s reached⟩

/-- A split while a variable of the lower half is pending. -/
def pendingSplitRun : List (Operation UInt64) :=
  [.send (some (ascii "1")) (gauge "c" [5]), .send none (gauge "b" [3]), .flush .listed,
    .send none (gauge "a" [7]),
    .splitBlock (ascii "c")
      { uuid := some (ascii "2"), clog := { startTime := 0 }, compaction := .listed, left := .listed,
        right := .listed }]

/-- Joining the two halves of a block again leaves a key without a block, and the other key is listed
twice.  A pending variable of the lower half stays in the upper block, and is looked up elsewhere. -/
theorem run_not_routed :
    (∃ s, Datastore.run protoRuntime Datastore.empty
          (splitRun ++ [.joinBlocks .listed { startTime := 1 }]) = .ok s ∧ ¬ s.Routed ∧ ¬ s.FindsBlocks) ∧
      ∃ s, Datastore.run protoRuntime Datastore.empty pendingSplitRun = .ok s ∧
        ¬ s.Routed ∧ ¬ s.FindsBlocks := by
  constructor
  · obtain ⟨s, reached, keys, lost⟩ := Ends.exists_ok
      (by decide +kernel : Ends (fun _ => False) (fun s : Datastore UInt64 =>
          s.blockKeys = [ascii "a", ascii "b", ascii "b"] ∧
            (s.findBlock (some (ascii "3")) { name := ascii "a", labels := ∅ }).2 = none)
        (Datastore.run protoRuntime Datastore.empty (splitRun ++ [.joinBlocks .listed { startTime := 1 }])))
    refine ⟨s, reached, fun routed => ?_, fun finds => ?_⟩
    · have increasing := routed.increasing
      rw [keys] at increasing
      exact absurd increasing (by decide)
    · obtain ⟨key, block, found, -⟩ := finds { name := ascii "a", labels := ∅ } (ascii "3")
      rw [lost] at found
      cases found
  · obtain ⟨s, reached, keys, ⟨block, found, member⟩, routed⟩ := Ends.exists_ok
      (by decide +kernel : Ends (fun _ => False) (fun s : Datastore UInt64 =>
          s.blockKeys = [ascii "a", ascii "c"] ∧
            (∃ block ∈ s.blocks.lookup (ascii "c"), ascii "a" ∈ block.keys) ∧
              (s.findBlock (some (ascii "3")) { name := ascii "a", labels := ∅ }).2 = some (ascii "a"))
        (Datastore.run protoRuntime Datastore.empty pendingSplitRun))
    refine ⟨s, reached, fun invariant => ?_, fun finds => ?_⟩
    · have inRange := invariant.range _ block found _ member
      rw [keys] at inRange
      exact absurd (inRange.2 (ascii "a") (by simp) (by decide)) (lt_irrefl _)
    · obtain ⟨key, _, chosen, -, only⟩ := finds { name := ascii "a", labels := ∅ } (ascii "3")
      obtain rfl : ascii "a" = key := Option.some.inj (routed.symm.trans chosen)
      exact absurd (only _ block found member) (by decide)

end OpenInstrument
