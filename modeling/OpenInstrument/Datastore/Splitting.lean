import OpenInstrument.Library.Fallible
import OpenInstrument.Datastore.Merging
import OpenInstrument.Datastore.Store

/-! # Where a block is split

`splitBlock` sorts the variables of all three places of a block and divides the block behind the lower
half of them.  Only streams that were flushed are divided: the pending ones stay with the upper half.
-/

namespace OpenInstrument

variable {Double : Type}

/-! ## The split key -/

/-- Nothing that the block holds in memory lacks a variable. -/
structure DatastoreBlock.Named (block : DatastoreBlock Double) : Prop where
  index : ∀ entry ∈ block.blockHeader.index, entry.streamVariable.isSome
  logs : Filed block.logStreams
  pending : ∀ stream ∈ block.newStreams, stream.HasVariable

theorem DatastoreBlock.Named.logs_hasVariable {block : DatastoreBlock Double} (named : block.Named)
    {stream : Stream Double} (member : stream ∈ block.logs) : stream.HasVariable := by
  obtain ⟨key, found⟩ := DatastoreBlock.mem_logs.mp member
  exact (named.logs key stream found).2

theorem variableStrings_eq {ps : List (Option StreamVariable)} (present : ∀ p ∈ ps, p.isSome) :
    ps.mapM variableString = .ok (ps.map variableKey) := by
  refine Fallible.mapM_ok fun p member => ?_
  obtain ⟨p, rfl⟩ := Option.isSome_iff_exists.mp (present _ member)
  rfl

theorem DatastoreBlock.splitKeys_eq {block : DatastoreBlock Double} (named : block.Named) :
    block.splitKeys = .ok (sortStrings block.keys.dedup) := by
  have logs : ∀ p ∈ (Keyed.pairs block.logStreams).map (·.2.streamVariable), p.isSome := by
    intro p member
    obtain ⟨entry, present, rfl⟩ := List.mem_map.mp member
    exact named.logs_hasVariable (List.mem_map_of_mem present)
  rw [DatastoreBlock.splitKeys, variableStrings_eq (by simpa using named.index), variableStrings_eq logs,
    variableStrings_eq (by simpa [ValueStream.HasVariable] using named.pending)]
  simp only [Fallible.ok_bind, DatastoreBlock.keys, DatastoreBlock.flushedKeys, DatastoreBlock.logs,
    List.map_map]
  rfl

/-- The end key of the left block of a split, if the block has two variables. -/
def DatastoreBlock.leftEndKey (block : DatastoreBlock Double) : Option GoString :=
  let sortedKeys := sortStrings block.keys.dedup
  if sortedKeys.length < 2 then none else sortedKeys[sortedKeys.length / 2 - 1]?

/-- The left block ends at a variable of the block, and not at the last one. -/
theorem DatastoreBlock.leftEndKey_spec {block : DatastoreBlock Double} {leftKey : GoString}
    (chosen : block.leftEndKey = some leftKey) :
    leftKey ∈ block.keys ∧ ∃ key ∈ block.keys, leftKey < key := by
  have perm := sortStrings_perm block.keys.dedup
  have sorted := sortStrings_sorted block.keys.dedup
  have distinct : (sortStrings block.keys.dedup).Nodup := perm.nodup_iff.mpr (List.nodup_dedup _)
  rw [DatastoreBlock.leftEndKey] at chosen
  generalize sortStrings block.keys.dedup = sortedKeys at *
  split at chosen
  · cases chosen
  · rename_i several
    have member : ∀ key ∈ sortedKeys, key ∈ block.keys := fun key listed =>
      List.mem_dedup.mp (perm.mem_iff.mp listed)
    obtain ⟨below, rfl⟩ := List.getElem?_eq_some_iff.mp chosen
    refine ⟨member _ (List.getElem_mem below), sortedKeys[sortedKeys.length / 2], member _ (List.getElem_mem _), ?_⟩
    refine lt_of_le_of_ne (List.pairwise_iff_getElem.mp sorted _ _ _ _ (by omega)) fun same => ?_
    have := (distinct.getElem_inj_iff).mp same
    omega

/-! ## Dividing streams -/

/-- What `divideStreams` makes of streams. -/
structure Divided (endKey : GoString) (streams : List (Stream Double)) (left right : StreamMap Double) :
    Prop where
  lower : ∀ key stream, left.lookup key = some stream ↔ stream ∈ streams ∧ stream.key = key ∧ key ≤ endKey
  upper : ∀ key stream, right.lookup key = some stream ↔ stream ∈ streams ∧ stream.key = key ∧ endKey < key
  held : heldIn left + heldIn right = heldBy streams

/-- Filing one more stream under a key that is not taken. -/
theorem lookup_insert_iff {streams : StreamMap Double} {stream : Stream Double}
    (absent : stream.key ∉ streams) (key : GoString) (found : Stream Double) :
    (streams.insert stream.key stream).lookup key = some found ↔
      streams.lookup key = some found ∨ found = stream ∧ found.key = key := by
  by_cases same : key = stream.key
  · subst same
    rw [AList.lookup_insert, AList.lookup_eq_none.mpr absent, Option.some.injEq]
    constructor
    · rintro rfl
      exact .inr ⟨rfl, rfl⟩
    · rintro (impossible | ⟨rfl, -⟩)
      · cases impossible
      · rfl
  · rw [AList.lookup_insert_ne same]
    constructor
    · exact .inl
    · rintro (old | ⟨rfl, rfl⟩)
      · exact old
      · exact absurd rfl same

/-- Streams with different variables are divided at the end key, and none is lost. -/
theorem divideStreams_eq (endKey : GoString) {streams : List (Stream Double)}
    (named : ∀ stream ∈ streams, stream.HasVariable) (distinct : (streams.map ValueStream.key).Nodup) :
    ∃ left right, divideStreams endKey streams = .ok (left, right) ∧ Divided endKey streams left right := by
  induction streams with
  | nil => exact ⟨∅, ∅, rfl, ⟨by simp, by simp, rfl⟩⟩
  | cons stream streams inductionHypothesis =>
    simp only [List.map_cons, List.nodup_cons] at distinct
    obtain ⟨left, right, divided, spec⟩ :=
      inductionHypothesis (fun other member => named other (List.mem_cons_of_mem _ member)) distinct.2
    have fresh : ∀ other ∈ streams, other.key ≠ stream.key := fun other member same =>
      distinct.1 (same ▸ List.mem_map_of_mem member)
    rw [divideStreams, variableString_eq (named stream List.mem_cons_self), Fallible.ok_bind, divided,
      Fallible.ok_bind]
    simp only
    split
    · rename_i below
      -- The rest of the streams have other keys, so the insertion displaces none of them.
      have absent : stream.key ∉ left := fun present => by
        obtain ⟨other, found⟩ := Keyed.mem_iff_lookup.mp present
        obtain ⟨member, key, -⟩ := (spec.lower _ _).mp found
        exact fresh other member key
      refine ⟨_, _, rfl, fun key found => ?_, fun key found => ?_, ?_⟩
      · rw [lookup_insert_iff absent, spec.lower, List.mem_cons]
        grind
      · rw [spec.upper, List.mem_cons]
        grind
      · rw [heldIn, Keyed.total_insert_of_notMem absent, add_assoc, heldBy_cons, ← spec.held]
        rfl
    · rename_i above
      have absent : stream.key ∉ right := fun present => by
        obtain ⟨other, found⟩ := Keyed.mem_iff_lookup.mp present
        obtain ⟨member, key, -⟩ := (spec.upper _ _).mp found
        exact fresh other member key
      refine ⟨_, _, rfl, fun key found => ?_, fun key found => ?_, ?_⟩
      · rw [spec.lower, List.mem_cons]
        grind
      · rw [lookup_insert_iff absent, spec.upper, List.mem_cons]
        grind
      · rw [heldIn, heldIn, Keyed.total_insert_of_notMem absent, add_left_comm, heldBy_cons, ← spec.held]
        rfl

/-- The halves of a map of streams. -/
theorem divideStreams_pairs (endKey : GoString) {streams : StreamMap Double} (filed : Filed streams) :
    ∃ left right, divideStreams endKey ((Keyed.pairs streams).map Prod.snd) = .ok (left, right) ∧
      (∀ key stream, left.lookup key = some stream ↔ streams.lookup key = some stream ∧ key ≤ endKey) ∧
      (∀ key stream, right.lookup key = some stream ↔ streams.lookup key = some stream ∧ endKey < key) ∧
      heldIn left + heldIn right = heldIn streams := by
  have listed : ∀ key stream, stream ∈ (Keyed.pairs streams).map Prod.snd ∧ stream.key = key ↔
      streams.lookup key = some stream := by
    intro key stream
    rw [List.mem_map]
    constructor
    · rintro ⟨⟨⟨other, _⟩, member, rfl⟩, rfl⟩
      have found := Keyed.mem_pairs.mp member
      rwa [(filed _ _ found).1]
    · intro found
      exact ⟨⟨(key, stream), Keyed.mem_pairs.mpr found, rfl⟩, (filed _ _ found).1⟩
  have keys : ((Keyed.pairs streams).map Prod.snd).map ValueStream.key = streams.keys := by
    rw [← Keyed.pairs_keys, List.map_map]
    exact List.map_congr_left fun entry member => (filed _ _ (Keyed.mem_pairs.mp member)).1
  obtain ⟨left, right, divided, spec⟩ := divideStreams_eq endKey
    (fun stream member => (filed _ _ ((listed stream.key stream).mp ⟨member, rfl⟩)).2)
    (keys ▸ streams.keys_nodup)
  refine ⟨left, right, divided, fun key stream => ?_, fun key stream => ?_, ?_⟩
  · rw [spec.lower, ← and_assoc, listed]
  · rw [spec.upper, ← and_assoc, listed]
  · rw [spec.held, heldIn_eq_heldBy]

end OpenInstrument
