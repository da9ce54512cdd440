import OpenInstrument.Datastore.Restart
import OpenInstrument.Datastore.Routing
import OpenInstrument.Datastore.Searching

/-! # A store after a restart

A flushed store comes back with everything it held, as long as every file belongs to a block and no two blocks
come back under one key.  But a block comes back under the greatest variable that its block file tells of.  This
can be below the key it had, and then `Reader` skips it for variables that it holds.
-/

namespace OpenInstrument

open Fallible (Ends Along)

variable {Double : Type} {rt : Runtime Double} {used : List GoString} {s t : Datastore Double}
  {block : DatastoreBlock Double} {v : Variable}

/-- Asks for a variable, whatever the timestamps. -/
def Search.unbounded (v : Variable) : Search := { v, minTimestamp := none, maxTimestamp := none }

/-- The values that `Reader` delivers for a variable, each with the printed variable it belongs to. -/
def Datastore.answers (rt : Runtime Double) (arrival : Iteration) (s : Datastore Double) (v : Variable) :
    Except Panic (Multiset (GoString × Value Double)) :=
  heldBy <$> s.reader rt arrival (.unbounded v) true

/-- `readBlocks` makes a store of the directory that has the same values and answers as before. -/
def Datastore.Recovers (rt : Runtime Double) (order : Iteration) (s : Datastore Double) : Prop :=
  ∃ t, Datastore.readBlocks rt order s.disk = .ok (some t) ∧ t.held rt = s.held rt ∧
    ∀ v arrival later, t.answers rt later v = s.answers rt arrival v

/-- Every stream of the store, with the end key of its block and the key under which the block comes back. -/
def Datastore.returning (rt : Runtime Double) (s : Datastore Double) :
    List ((GoString × GoString) × Stream Double) :=
  ((Keyed.pairs s.blocks).map Prod.snd).flatMap fun block =>
    (block.streams rt s.disk).map fun stream => ((block.endKey, block.restartKey s.disk), stream)

/-- No block that has something for a variable falls below it. -/
structure Datastore.StaysInReach (rt : Runtime Double) (s : Datastore Double) (v : Variable) : Prop where
  matching : ∀ item ∈ s.returning rt, (Search.unbounded v).Selects Value.timestamp item.2 →
    v.string ≤ item.1.1 → v.string ≤ item.1.2
  /-- The pattern `*` panics at any stream that it comes to. -/
  star : v.name = [star] → (∃ item ∈ s.returning rt, v.string ≤ item.1.1) →
    ∃ item ∈ s.returning rt, v.string ≤ item.1.2

/-! ## What comes back -/

theorem Datastore.stored_eq (s : Datastore Double) :
    s.stored rt = (s.returning rt).map fun item => (item.1.1, item.2) := by
  rw [Datastore.stored, Datastore.returning, List.map_flatMap]
  simp [Function.comp_def]

theorem Datastore.mem_returning {item : (GoString × GoString) × Stream Double} :
    item ∈ s.returning rt ↔ ∃ key block, s.blocks.lookup key = some block ∧
      item.1 = (block.endKey, block.restartKey s.disk) ∧ item.2 ∈ block.streams rt s.disk :=
  Keyed.mem_marked

/-- What a store holds is what its streams hold. -/
theorem Datastore.BlocksSound.held (sound : s.BlocksSound rt) :
    s.held rt = heldBy ((s.stored rt).map Prod.snd) := by
  have each : ∀ block ∈ (Keyed.pairs s.blocks).map Prod.snd,
      block.held rt s.disk = heldBy (block.streams rt s.disk) := by
    intro block member
    obtain ⟨file, logged, blockSound⟩ := sound.of_mem_pairs member
    rw [blockSound.held sound.reliable, DatastoreBlock.streams, blockSound.onDisk.fileStreams sound.reliable,
      heldBy_append, heldBy_append, ← blockSound.heldIn_logStreams, heldIn_eq_heldBy, DatastoreBlock.logs]
    abel
  have streams : (s.stored rt).map Prod.snd =
      ((Keyed.pairs s.blocks).map Prod.snd).flatMap fun block => block.streams rt s.disk := by
    rw [Datastore.stored, List.map_flatMap]
    simp [Function.comp_def]
  rw [Datastore.held, Keyed.total_eq_pairs, streams, heldBy_flatMap, ← List.map_congr_left each, List.map_map]
  rfl

/-- The streams of a store, block by block. -/
theorem Datastore.coe_stored (s : Datastore Double) :
    (s.stored rt : Multiset (GoString × Stream Double)) = Keyed.total (fun _ block =>
      (block.streams rt s.disk : Multiset (Stream Double)).map fun stream => (block.endKey, stream)) s.blocks := by
  rw [Datastore.stored, Selection.coe_flatMap, Keyed.total_eq_pairs, List.map_map]
  rfl

theorem Datastore.coe_returning (s : Datastore Double) :
    (((s.returning rt).map fun item => (item.1.2, item.2) : List (GoString × Stream Double)) :
        Multiset (GoString × Stream Double)) = Keyed.total (fun _ block =>
      (block.streams rt s.disk : Multiset (Stream Double)).map fun stream => (block.restartKey s.disk, stream))
        s.blocks := by
  have returned : (s.returning rt).map (fun item => (item.1.2, item.2)) =
      ((Keyed.pairs s.blocks).map Prod.snd).flatMap fun block =>
        (block.streams rt s.disk).map fun stream => (block.restartKey s.disk, stream) := by
    rw [Datastore.returning, List.map_flatMap]
    simp [Function.comp_def]
  rw [returned, Selection.coe_flatMap, Keyed.total_eq_pairs, List.map_map]
  rfl

/-- All streams come back, each under the key of its block. -/
theorem Datastore.Sound.restored (sound : s.Sound rt used) (plain : ∀ id ∈ used, NotLog id) (owned : s.Owned rt)
    (apart : s.ComesBackApart rt) (settled : ∀ key block, s.blocks.lookup key = some block → block.newStreams = [])
    (order : Iteration) :
    ∃ t, Datastore.readBlocks rt order s.disk = .ok (some t) ∧ t.BlocksSound rt ∧
      (t.stored rt).Perm ((s.returning rt).map fun item => (item.1.2, item.2)) := by
  obtain ⟨t, files, logs, run, restoring, whole⟩ := sound.readBlocks plain owned apart order
  refine ⟨t, run, ⟨restoring.disk ▸ sound.reliable, fun key restored found => ?_⟩, ?_⟩
  · obtain ⟨source, block, original, restores, -⟩ := restoring.restored key restored found
    obtain ⟨file, logged, blockSound⟩ := sound.block source block original
    exact ⟨file, logged, restoring.disk ▸ restores.sound blockSound (whole source block original)⟩
  -- The blocks before and after are compared by their identifiers.
  · rw [← Multiset.coe_eq_coe, t.coe_stored, s.coe_returning]
    refine Keyed.total_eq_of_tags DatastoreBlock.id DatastoreBlock.id (restoring.ids_nodup sound)
      (Keyed.tags_nodup DatastoreBlock.id sound.distinct)
      (fun key restored source block found original same => ?_) (fun key restored found alone => ?_)
      fun source block original alone => ?_
    · obtain ⟨otherSource, other, otherOriginal, restores, -⟩ := restoring.restored key restored found
      obtain ⟨file, logged, blockSound⟩ := sound.block otherSource other otherOriginal
      obtain rfl := sound.distinct otherSource other source block otherOriginal original
        (restores.id.symm.trans same)
      obtain rfl := Option.some.inj (otherOriginal.symm.trans original)
      rw [restores.endKey, restoring.disk, restores.streams blockSound sound.reliable (whole _ other original)
        (settled _ other original)]
    · obtain ⟨source, block, original, restores, -⟩ := restoring.restored key restored found
      exact absurd restores.id (alone source block original)
    -- A block of which nothing comes back had no streams.
    · obtain ⟨file, logged, blockSound⟩ := sound.block source block original
      have empty : block.streams rt s.disk = [] := by
        by_contra streams
        have read := blockSound.read_of_streams sound.reliable (whole source block original)
          (settled source block original) streams
        obtain ⟨restored, back, id⟩ := restoring.found source block original streams read
        exact alone _ restored back id
      rw [empty]
      rfl

/-! ## What is answered -/

section Answers

theorem Datastore.BlocksSound.answers (sound : s.BlocksSound rt) (patterned : v.name ≠ [star]) (arrival : Iteration) :
    s.answers rt arrival v = .ok (((s.stored rt).filter fun item =>
      v.string ≤ item.1 ∧ (Search.unbounded v).Selects Value.timestamp item.2).map fun item => item.2.held).sum := by
  obtain ⟨delivered, run, perm⟩ := @Datastore.BlocksSound.reader _ _ _ (.unbounded v) sound arrival patterned
  rw [Datastore.answers, run]
  refine congrArg Except.ok ((heldBy_perm perm).trans ?_)
  rw [heldBy, List.map_map]
  rfl

theorem Datastore.BlocksSound.answers_star (sound : s.BlocksSound rt) (bare : v.name = [star]) (arrival : Iteration) :
    s.answers rt arrival v =
      if ∀ item ∈ s.stored rt, item.1 < v.string then .ok 0 else .error .sliceOutOfRange := by
  rw [Datastore.answers, @Datastore.BlocksSound.reader_star _ _ _ (.unbounded v) sound arrival bare]
  split
  · exact (if_pos ‹_›).symm
  · exact (if_neg ‹_›).symm

theorem Datastore.Sound.returning_le (sound : s.Sound rt used) {item : (GoString × GoString) × Stream Double}
    (member : item ∈ s.returning rt) : item.1.2 ≤ item.1.1 := by
  obtain ⟨key, block, found, keys, -⟩ := Datastore.mem_returning.mp member
  rw [keys, sound.endKey key block found]
  exact sound.restartKey_le found

/-- The values that are in reach of a search, when the end keys are chosen from the two of each block. -/
theorem Datastore.Sound.answers_iff_of_patterned (sound : s.Sound rt used) (back : t.BlocksSound rt)
    (restored : (t.stored rt).Perm ((s.returning rt).map fun item => (item.1.2, item.2)))
    (arrival later : Iteration) (patterned : v.name ≠ [star]) :
    t.answers rt later v = s.answers rt arrival v ↔
      ∀ item ∈ s.returning rt, (Search.unbounded v).Selects Value.timestamp item.2 →
        v.string ≤ item.1.1 → v.string ≤ item.1.2 := by
  have after : (((t.stored rt).filter fun item =>
          v.string ≤ item.1 ∧ (Search.unbounded v).Selects Value.timestamp item.2).map fun item => item.2.held).sum =
      (((s.returning rt).filter fun item => v.string ≤ item.1.2 ∧
          (Search.unbounded v).Selects Value.timestamp item.2).map fun item => item.2.held).sum := by
    rw [((restored.filter _).map _).sum_eq, List.filter_map, List.map_map]
    rfl
  have before : (((s.stored rt).filter fun item =>
          v.string ≤ item.1 ∧ (Search.unbounded v).Selects Value.timestamp item.2).map fun item => item.2.held).sum =
      (((s.returning rt).filter fun item => v.string ≤ item.1.1 ∧
          (Search.unbounded v).Selects Value.timestamp item.2).map fun item => item.2.held).sum := by
    rw [Datastore.stored_eq, List.filter_map, List.map_map]
    rfl
  have within : ∀ item ∈ s.returning rt,
      v.string ≤ item.1.2 ∧ (Search.unbounded v).Selects Value.timestamp item.2 →
        v.string ≤ item.1.1 ∧ (Search.unbounded v).Selects Value.timestamp item.2 :=
    fun item member selected => ⟨selected.1.trans (sound.returning_le member), selected.2⟩
  rw [back.answers patterned, sound.blocksSound.answers patterned, Except.ok.injEq, after, before,
    Selection.sum_selected_eq_iff _ within]
  refine forall₂_congr fun item _ => ?_
  constructor
  · intro nothing selects above
    by_contra below
    exact selects.2.1 (ValueStream.held_eq_zero.mp (nothing ⟨above, selects⟩ fun reached => below reached.1))
  · intro reached relevant missed
    exact absurd ⟨reached relevant.2 relevant.1, relevant.2⟩ missed

/-- The pattern `*` panics before and after, or neither. -/
theorem Datastore.Sound.answers_iff_of_star (sound : s.Sound rt used) (back : t.BlocksSound rt)
    (restored : (t.stored rt).Perm ((s.returning rt).map fun item => (item.1.2, item.2)))
    (arrival later : Iteration) (bare : v.name = [star]) :
    t.answers rt later v = s.answers rt arrival v ↔
      ((∃ item ∈ s.returning rt, v.string ≤ item.1.1) → ∃ item ∈ s.returning rt, v.string ≤ item.1.2) := by
  have after : (∀ item ∈ t.stored rt, item.1 < v.string) ↔ ¬ ∃ item ∈ s.returning rt, v.string ≤ item.1.2 := by
    simp only [restored.mem_iff, List.forall_mem_map, not_exists, not_and, not_le]
  have before : (∀ item ∈ s.stored rt, item.1 < v.string) ↔ ¬ ∃ item ∈ s.returning rt, v.string ≤ item.1.1 := by
    simp only [Datastore.stored_eq, List.forall_mem_map, not_exists, not_and, not_le]
  have within : (∃ item ∈ s.returning rt, v.string ≤ item.1.2) → ∃ item ∈ s.returning rt, v.string ≤ item.1.1 :=
    fun ⟨item, member, reached⟩ => ⟨item, member, reached.trans (sound.returning_le member)⟩
  rw [back.answers_star bare, sound.blocksSound.answers_star bare]
  by_cases reached : ∃ item ∈ s.returning rt, v.string ≤ item.1.2
  · rw [if_neg (after.not.mpr (not_not.mpr reached)), if_neg (before.not.mpr (not_not.mpr (within reached)))]
    exact iff_of_true rfl fun _ => reached
  · rw [if_pos (after.mpr reached)]
    by_cases covered : ∃ item ∈ s.returning rt, v.string ≤ item.1.1
    · rw [if_neg (before.not.mpr (not_not.mpr covered))]
      exact iff_of_false (fun same => by cases same) fun kept => reached (kept covered)
    · rw [if_pos (before.mpr covered)]
      exact iff_of_true rfl fun asked => absurd asked covered

/-- The streams that come back answer as before exactly when none that is asked for falls out of reach. -/
theorem Datastore.Sound.answers_iff (sound : s.Sound rt used) (back : t.BlocksSound rt)
    (restored : (t.stored rt).Perm ((s.returning rt).map fun item => (item.1.2, item.2)))
    (arrival later : Iteration) : t.answers rt later v = s.answers rt arrival v ↔ s.StaysInReach rt v := by
  by_cases bare : v.name = [star]
  · rw [sound.answers_iff_of_star back restored arrival later bare]
    refine ⟨fun kept => ⟨fun item _ selects => ?_, fun _ => kept⟩, fun stays => stays.star bare⟩
    exact absurd selects.1 (Search.not_matches_of_star bare _)
  · rw [sound.answers_iff_of_patterned back restored arrival later bare]
    exact ⟨fun kept => ⟨kept, fun star => absurd star bare⟩, fun stays => stays.matching⟩

end Answers

/-- A flushed store in a directory of its own comes back whole, and it answers as before exactly when no search
loses a block. -/
theorem Datastore.Sound.recovers_iff (sound : s.Sound rt used) (plain : ∀ id ∈ used, NotLog id)
    (settled : ∀ key block, s.blocks.lookup key = some block → block.newStreams = []) (owned : s.Owned rt)
    (apart : s.ComesBackApart rt) (order : Iteration) : s.Recovers rt order ↔ ∀ v, s.StaysInReach rt v := by
  obtain ⟨t, run, back, restored⟩ := sound.restored plain owned apart settled order
  have held : t.held rt = s.held rt := by
    rw [back.held, sound.blocksSound.held, heldBy_perm (restored.map _), Datastore.stored_eq, List.map_map,
      List.map_map]
    rfl
  constructor
  · rintro ⟨other, ran, -, answers⟩ v
    obtain rfl : t = other := Option.some.inj (Except.ok.inj (run.symm.trans ran))
    exact (sound.answers_iff back restored order order).mp (answers v order order)
  · intro stays
    exact ⟨t, run, held, fun v arrival later => (sound.answers_iff back restored arrival later).mpr (stays v)⟩

/-! ## Runs -/

/-- No split puts its left half where another block is. -/
def Datastore.SplitsApart (s : Datastore Double) : Operation Double → Prop
  | .splitBlock key choices => choices.uuid = none ∨
      ∀ block ∈ s.blocks.lookup key, ∀ leftKey ∈ block.leftEndKey, leftKey ∉ s.blocks
  | _ => True

instance (s : Datastore Double) : ∀ operation, Decidable (s.SplitsApart operation)
  | .splitBlock _ _ => inferInstanceAs (Decidable (_ ∨ ∀ block ∈ _, ∀ leftKey ∈ _, _))
  | .send _ _ | .flush _ | .compactBlock _ _ _ | .joinBlocks _ _ => inferInstanceAs (Decidable True)

/-- Replacing a block by one with its identifier keeps all identifiers. -/
theorem Datastore.ids_of_insert {after : Datastore Double} {key : GoString} {renewed : DatastoreBlock Double}
    (found : s.blocks.lookup key = some block) (blocks : after.blocks = s.blocks.insert key renewed)
    (id : renewed.id = block.id) {other : GoString} {kept : DatastoreBlock Double}
    (lookup : s.blocks.lookup other = some kept) :
    ∃ last, after.blocks.lookup other = some last ∧ last.id = kept.id := by
  rw [blocks]
  by_cases same : other = key
  · subst same
    obtain rfl := Option.some.inj (found.symm.trans lookup)
    exact ⟨renewed, AList.lookup_insert _, id⟩
  · exact ⟨kept, (AList.lookup_insert_ne same).trans lookup, rfl⟩

/-- No block goes away. -/
theorem Datastore.Stepped.keeps_ids {operation : Operation Double} {after : Datastore Double}
    (sound : s.Sound rt used) (stepped : s.Stepped rt operation after) (splits : s.SplitsApart operation)
    {key : GoString} (lookup : s.blocks.lookup key = some block) :
    ∃ last, after.blocks.lookup key = some last ∧ last.id = block.id := by
  cases stepped with
  | send named sent held =>
    cases sent with
    | stale routed gone => exact ⟨block, lookup, rfl⟩
    | unnamed beyond undrawn => exact ⟨block, lookup, rfl⟩
    | @appended routedKey target routed found =>
      rename_i stream
      have id : (target.appended stream).id = target.id := rfl
      exact Datastore.ids_of_insert found rfl id lookup
    | @opened id beyond drawn =>
      rename_i stream
      have different : key ≠ stream.key := fun same =>
        absurd (Boundaries.covering_eq_none.mp beyond _ (sound.listed _ (Keyed.mem_iff_lookup.mpr ⟨block, lookup⟩)))
          (same ▸ lt_irrefl _)
      exact ⟨block, (AList.lookup_insert_ne different).trans lookup, rfl⟩
  | flush held blockKeys lookups => exact ⟨block.flushed, by rw [lookups, lookup]; rfl, rfl⟩
  | compactMissing absent => exact ⟨block, lookup, rfl⟩
  | compact found compaction => exact Datastore.ids_of_insert found compaction.blocks compaction.id lookup
  | split split =>
    cases split with
    | missing absent => exact ⟨block, lookup, rfl⟩
    | tooFew found whole => exact ⟨block, lookup, rfl⟩
    | compacted found undrawn compaction => exact Datastore.ids_of_insert found compaction.blocks compaction.id lookup
    | @split halved left right after leftKey id found chosen drawn halves =>
      have free : leftKey ∉ s.blocks := by
        rcases splits with undrawn | apart
        · rw [undrawn] at drawn
          cases drawn
        · exact apart halved found leftKey chosen
      have different : key ≠ leftKey := fun same =>
        free (Keyed.mem_iff_lookup.mpr ⟨block, same ▸ lookup⟩)
      rw [halves.blocks, AList.lookup_insert_ne different]
      exact @Datastore.ids_of_insert _ s halved { s with blocks := s.blocks.insert _ right } _ right found rfl
        halves.rightId _ _ lookup

/-- A step makes files for blocks of the store only. -/
theorem Datastore.Owned.stepped {operation : Operation Double} {after : Datastore Double} (owned : s.Owned rt)
    (sound : s.Sound rt used) (confined : Datastore.Confined rt s after) (stepped : s.Stepped rt operation after)
    (splits : s.SplitsApart operation) : after.Owned rt := by
  intro name member
  by_cases changed : after.disk.view name = s.disk.view name
  · have present : name ∈ s.disk.files := by
      rw [← Disk.view_ne_none, ← changed, Disk.view_ne_none]
      exact AList.mem_keys.mpr member
    obtain ⟨⟨key, block⟩, listed, own⟩ := owned name (AList.mem_keys.mp present)
    obtain ⟨last, lookup, id⟩ := stepped.keeps_ids sound splits (Keyed.mem_pairs.mp listed)
    exact ⟨(key, last), Keyed.mem_pairs.mpr lookup, DatastoreBlock.ownFiles_congr rt id ▸ own⟩
  · obtain ⟨key, block, lookup, own⟩ := confined name changed
    exact ⟨(key, block), Keyed.mem_pairs.mpr lookup, own⟩

/-- A run without joins whose splits meet no other block leaves no file without a block. -/
theorem run_owned {operations : List (Operation Double)} (ids : FreshIds operations)
    (apart : ∀ operation ∈ operations, operation.joins = false)
    (along : Along (Datastore.step rt) (fun _ s operation => s.Completes rt operation ∧ s.SplitsApart operation) []
      Datastore.empty operations) :
    Ends (fun _ => True) (fun s => s.Owned rt) (Datastore.run rt Datastore.empty operations) := by
  have ends := run_stepped (fun _ s => s.Owned rt) ids apart
    (fun _ _ _ _ sound owned splits confined stepped => owned.stepped sound confined stepped splits)
    (fun _ member => absurd member List.not_mem_nil) along
  exact ends.mono fun s both => both.2

/-- Nothing is pending after a flush. -/
theorem run_settled {operations : List (Operation Double)} {last : Iteration}
    (ids : FreshIds (operations ++ [.flush last]))
    (apart : ∀ operation ∈ operations ++ [.flush last], operation.joins = false)
    (along : Along (Datastore.step rt) (fun _ s operation => s.Completes rt operation) [] Datastore.empty
      (operations ++ [.flush last])) :
    Ends (fun _ => True) (fun s => s.Sound rt (drawnIds (operations ++ [.flush last])) ∧
        ∀ key block, s.blocks.lookup key = some block → block.newStreams = [])
      (Datastore.run rt Datastore.empty (operations ++ [.flush last])) := by
  have ends := run_stepped (fun history s => ∀ order, history.getLast? = some (.flush order) →
      ∀ key block, s.blocks.lookup key = some block → block.newStreams = []) ids apart ?_
    (fun _ flushed => by cases flushed) (Along.and (fun _ _ _ _ => trivial) along)
  · exact ends.mono fun s both => ⟨both.1, both.2 last List.getLast?_concat⟩
  · intro history s operation after sound _ _ _ stepped order flushed key block lookup
    obtain rfl : operation = .flush order := Option.some.inj (List.getLast?_concat.symm.trans flushed)
    cases stepped with
    | flush held blockKeys lookups =>
      rw [lookups, Option.map_eq_some_iff] at lookup
      obtain ⟨before, -, rfl⟩ := lookup
      rfl

/-- A restart after a run that ends with a flush.  Where every file has its block and no two blocks come back under
one key, the store comes back as it was exactly when no search loses a block. -/
theorem run_recovers_iff (rt : Runtime Double) (operations : List (Operation Double)) (last : Iteration)
    (ids : FreshIds (operations ++ [.flush last])) (plain : ∀ id ∈ drawnIds operations, NotLog id)
    (apart : ∀ operation ∈ operations, operation.joins = false)
    (along : Along (Datastore.step rt) (fun _ s operation => s.Completes rt operation) [] Datastore.empty
      (operations ++ [.flush last]))
    (s : Datastore Double) (reached : Datastore.run rt Datastore.empty (operations ++ [.flush last]) = .ok s)
    (owned : s.Owned rt) (separate : s.ComesBackApart rt) (order : Iteration) :
    s.Recovers rt order ↔ ∀ v, s.StaysInReach rt v := by
  have noJoin : ∀ operation ∈ operations ++ [.flush last], operation.joins = false := by
    intro operation member
    rcases List.mem_append.mp member with earlier | final
    · exact apart operation earlier
    · rw [List.mem_singleton.mp final]
      rfl
  obtain ⟨sound, settled⟩ := (run_settled ids noJoin along).of_ok reached
  have drawn : drawnIds (operations ++ [.flush last]) = drawnIds operations := by
    rw [drawnIds_append, drawnIds_singleton]
    exact List.append_nil _
  exact sound.recovers_iff (by rwa [drawn]) settled owned separate order

/-- Two blocks that a split has made come back as they were. -/
theorem run_recovers_splitRun :
    ∃ s, Datastore.run protoRuntime Datastore.empty (splitRun ++ [.flush .listed]) = .ok s ∧
      s.Recovers protoRuntime .listed := by
  obtain ⟨s, reached, owned, separate, keys⟩ := Ends.exists_ok
    (by decide +kernel : Ends (fun _ => False)
      (fun s : Datastore UInt64 => s.Owned protoRuntime ∧ s.ComesBackApart protoRuntime ∧
        ∀ item ∈ s.returning protoRuntime, item.1.1 = item.1.2)
      (Datastore.run protoRuntime Datastore.empty (splitRun ++ [.flush .listed])))
  have stays : ∀ v, s.StaysInReach protoRuntime v := fun v =>
    ⟨fun item member _ above => keys item member ▸ above,
      fun _ ⟨item, member, above⟩ => ⟨item, member, keys item member ▸ above⟩⟩
  exact ⟨s, reached, (run_recovers_iff protoRuntime splitRun .listed (by decide) (by decide)
    (by decide +kernel) (by decide +kernel) s reached owned separate .listed).mpr stays⟩

def emptyFileRun : List (Operation UInt64) :=
  [.send (some (ascii "1")) (gauge "m" [5]), .compactBlock (ascii "m") .listed { startTime := 0 }, .flush .listed]

/-- Its block file tells of no variable, so it comes back under the empty key, and its variable is not found. -/
theorem run_not_recovers :
    FreshIds emptyFileRun ∧
      Along (Datastore.step protoRuntime) (fun _ s operation => s.Completes protoRuntime operation) []
        Datastore.empty emptyFileRun ∧
      ∃ s, Datastore.run protoRuntime Datastore.empty emptyFileRun = .ok s ∧ ¬ s.Recovers protoRuntime .listed := by
  refine ⟨by decide, by decide, ?_⟩
  obtain ⟨s, reached, found, lost⟩ := Ends.exists_ok
    (by decide : Ends (fun _ => False)
      (fun s : Datastore UInt64 =>
        Ends (fun _ => False) (fun values => values.card = 1)
          (s.answers protoRuntime .listed { name := ascii "m", labels := ∅ }) ∧
        Ends (fun _ => False) (fun back : Option (Datastore UInt64) => ∀ t ∈ back,
            Ends (fun _ => False) (fun values => values.card = 0)
              (t.answers protoRuntime .listed { name := ascii "m", labels := ∅ }))
          (Datastore.readBlocks protoRuntime .listed s.disk))
      (Datastore.run protoRuntime Datastore.empty emptyFileRun))
  refine ⟨s, reached, ?_⟩
  rintro ⟨t, read, -, answers⟩
  obtain ⟨values, delivered, one⟩ := found.exists_ok
  have none := (lost.of_ok read t rfl).of_ok ((answers _ .listed .listed).trans delivered)
  exact absurd (one.symm.trans none) (by decide)

end OpenInstrument
