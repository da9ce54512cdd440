import OpenInstrument.Datastore.Reader
import OpenInstrument.Datastore.Runs

/-! # What a search finds

`Reader` takes three shortcuts.  The one through the index is right, because the streams of a block file
are sorted.  The one through the end key is wrong for a search that is printed above variables it
matches, such as one that ends in `*`.  The one through the first and last value of a stream in memory
is wrong when the values did not arrive in the order of their timestamps.
-/

namespace OpenInstrument

open Fallible (Ends Along)

variable {Double : Type} {rt : Runtime Double} {used : List GoString} {s : Datastore Double}

/-- Every stream of the store, with the end key of its block. -/
def Datastore.stored (rt : Runtime Double) (s : Datastore Double) : List (GoString × Stream Double) :=
  ((Keyed.pairs s.blocks).map Prod.snd).flatMap fun block =>
    (block.streams rt s.disk).map fun stream => (block.endKey, stream)

def Search.InBounds (search : Search) (timestamp : UInt64) : Prop :=
  (∀ minTimestamp ∈ search.minTimestamp, minTimestamp ≤ timestamp) ∧
    ∀ maxTimestamp ∈ search.maxTimestamp, timestamp ≤ maxTimestamp

instance (search : Search) : DecidablePred search.InBounds := fun timestamp =>
  inferInstanceAs (Decidable ((∀ minTimestamp ∈ search.minTimestamp, minTimestamp ≤ timestamp) ∧
    ∀ maxTimestamp ∈ search.maxTimestamp, timestamp ≤ maxTimestamp))

def Datastore.wanted (rt : Runtime Double) (s : Datastore Double) (search : Search) :
    Multiset (GoString × Value Double) :=
  (heldBy (((s.stored rt).map Prod.snd).filter fun stream => search.Matches stream.streamVariable)).filter
    fun entry => search.InBounds entry.2.timestamp

/-- `Reader` returns, delivers every value that the search asks for, and only streams that match. -/
def Datastore.Finds (rt : Runtime Double) (arrival : Iteration) (s : Datastore Double) (search : Search) :
    Prop :=
  Ends (fun _ => False)
    (fun delivered => s.wanted rt search ≤ heldBy delivered ∧
      ∀ stream ∈ delivered, search.Matches stream.streamVariable)
    (s.reader rt arrival search true)

instance [DecidableEq Double] (rt : Runtime Double) (arrival : Iteration) (s : Datastore Double)
    (search : Search) : Decidable (s.Finds rt arrival search) :=
  inferInstanceAs (Decidable (Ends _ (fun delivered => _ ≤ heldBy delivered ∧ ∀ stream ∈ delivered,
    search.Matches stream.streamVariable) _))

def Search.Wants (search : Search) (stream : Stream Double) : Prop :=
  search.Matches stream.streamVariable ∧ ∃ value ∈ stream.value, search.InBounds value.timestamp

/-- No shortcut of `Reader` goes wrong. -/
structure Datastore.Searchable (rt : Runtime Double) (s : Datastore Double) (search : Search) : Prop where
  /-- The pattern `*`, which panics, is not compared with anything. -/
  star : search.v.name = [star] → ∀ item ∈ s.stored rt, item.1 < search.v.string
  /-- A block with a wanted value does not end below the printed search. -/
  endKey : ∀ item ∈ s.stored rt, search.Wants item.2 → search.v.string ≤ item.1
  /-- A stream in memory with a wanted value has its last value not too old and its first not too new. -/
  inOrder : ∀ key block, s.blocks.lookup key = some block → ∀ stream ∈ block.logs ++ block.newStreams,
    search.Wants stream → search.Overlaps Value.timestamp stream

/-! ## The whole store -/

section Sound

variable {search : Search}

theorem Datastore.mem_stored {item : GoString × Stream Double} :
    item ∈ s.stored rt ↔ ∃ key block, s.blocks.lookup key = some block ∧ item.1 = block.endKey ∧
      item.2 ∈ block.streams rt s.disk :=
  Keyed.mem_marked

/-- All that `Reader` needs of a store. -/
structure Datastore.BlocksSound (rt : Runtime Double) (s : Datastore Double) : Prop where
  reliable : s.disk.Reliable
  block : ∀ key block, s.blocks.lookup key = some block → ∃ file logged, BlockSound rt s.disk.view block file logged

theorem Datastore.Sound.blocksSound (sound : s.Sound rt used) : s.BlocksSound rt := ⟨sound.reliable, sound.block⟩

theorem Datastore.BlocksSound.of_mem_pairs (sound : s.BlocksSound rt) {block : DatastoreBlock Double}
    (member : block ∈ (Keyed.pairs s.blocks).map Prod.snd) :
    ∃ file logged, BlockSound rt s.disk.view block file logged := by
  obtain ⟨⟨key, _⟩, listed, rfl⟩ := List.mem_map.mp member
  exact sound.block key _ (Keyed.mem_pairs.mp listed)

/-- What `Reader` delivers from a store. -/
theorem Datastore.BlocksSound.reader (sound : s.BlocksSound rt) (arrival : Iteration)
    (patterned : search.v.name ≠ [star]) :
    ∃ delivered, s.reader rt arrival search true = .ok delivered ∧
      delivered.Perm (((s.stored rt).filter fun item =>
        search.v.string ≤ item.1 ∧ search.Selects Value.timestamp item.2).map Prod.snd) := by
  obtain ⟨results, run, related⟩ := Fallible.mapM_exists fun block member => by
    obtain ⟨file, logged, blockSound⟩ := sound.of_mem_pairs member
    exact blockSound.reader sound.reliable patterned
  refine ⟨arrival.order results.flatten, by rw [Datastore.reader, run]; rfl, (arrival.perm _).trans ?_⟩
  have each : ((s.stored rt).filter fun item =>
        search.v.string ≤ item.1 ∧ search.Selects Value.timestamp item.2).map Prod.snd =
      (((Keyed.pairs s.blocks).map Prod.snd).map fun block => if search.v.string ≤ block.endKey then
        (block.streams rt s.disk).filter fun stream => search.Selects Value.timestamp stream else []).flatten := by
    rw [Datastore.stored, List.filter_flatMap, List.map_flatMap, ← List.flatMap_def]
    refine List.flatMap_congr fun block _ => ?_
    rw [List.filter_map, List.map_map]
    by_cases below : search.v.string ≤ block.endKey <;> simp [below, Function.comp_def]
  rw [each]
  exact List.Perm.flatten_congr (List.forall₂_map_right_iff.mpr related.flip)

/-- The pattern `*` panics at the first stream of a block that is not skipped by its key. -/
theorem Datastore.BlocksSound.reader_star (sound : s.BlocksSound rt) (arrival : Iteration)
    (bare : search.v.name = [star]) :
    s.reader rt arrival search true =
      if ∀ item ∈ s.stored rt, item.1 < search.v.string then .ok [] else .error .sliceOutOfRange := by
  have blocks : ∀ block ∈ (Keyed.pairs s.blocks).map Prod.snd, block.reader rt s.disk search true =
      if block.endKey < search.v.string ∨ block.streams rt s.disk = [] then .ok []
      else .error .sliceOutOfRange := fun block member => by
    obtain ⟨file, logged, blockSound⟩ := sound.of_mem_pairs member
    exact blockSound.reader_star sound.reliable bare
  rw [Datastore.reader]
  split
  · rename_i above
    have quiet : ∀ block ∈ (Keyed.pairs s.blocks).map Prod.snd, block.reader rt s.disk search true = .ok [] := by
      intro block member
      rw [blocks block member]
      refine if_pos (or_iff_not_imp_right.mpr fun nonempty => ?_)
      obtain ⟨stream, stored⟩ := List.exists_mem_of_ne_nil _ nonempty
      obtain ⟨⟨key, _⟩, listed, rfl⟩ := List.mem_map.mp member
      exact above (_, stream) (Datastore.mem_stored.mpr ⟨key, _, Keyed.mem_pairs.mp listed, rfl, stored⟩)
    have nothing : (((Keyed.pairs s.blocks).map Prod.snd).map fun _ => ([] : List (Stream Double))).flatten = [] := by
      simp
    have arrived := arrival.perm
      (((Keyed.pairs s.blocks).map Prod.snd).map fun _ => ([] : List (Stream Double))).flatten
    rw [Fallible.mapM_ok quiet]
    exact congrArg Except.ok (List.perm_nil.mp (arrived.trans (.of_eq nothing)))
  · rename_i within
    push Not at within
    obtain ⟨item, member, reached⟩ := within
    obtain ⟨key, block, found, endKey, streamMember⟩ := Datastore.mem_stored.mp member
    have listed : block ∈ (Keyed.pairs s.blocks).map Prod.snd :=
      List.mem_map.mpr ⟨(key, block), Keyed.mem_pairs.mpr found, rfl⟩
    have loud : block.reader rt s.disk search true = .error .sliceOutOfRange := by
      rw [blocks block listed, if_neg]
      rintro (skipped | empty)
      · exact absurd (endKey ▸ reached) (not_le.mpr skipped)
      · exact List.ne_nil_of_mem streamMember empty
    have each : ∀ block ∈ (Keyed.pairs s.blocks).map Prod.snd,
        block.reader rt s.disk search true = .error .sliceOutOfRange ∨
          ∃ result, block.reader rt s.disk search true = .ok result := by
      intro block member
      rw [blocks block member]
      split
      · exact .inr ⟨[], rfl⟩
      · exact .inl rfl
    rw [Fallible.mapM_eq_error each ⟨block, listed, loud⟩]
    rfl

/-- The streams of a block file have their values in order. -/
theorem BlockSound.overlaps_of_wants {block : DatastoreBlock Double} {disk : Disk}
    {file logged : List (Stream Double)} (sound : BlockSound rt disk.view block file logged)
    {stream : Stream Double} (member : stream ∈ file) (wants : search.Wants stream) :
    search.Overlaps Value.timestamp stream := by
  obtain ⟨-, value, present, recent, early⟩ := wants
  have sorted := (sound.file_stored member).sorted
  exact ⟨fun minTimestamp bound last found =>
      (recent minTimestamp bound).trans (le_getLast_of_sorted sorted found present),
    fun maxTimestamp bound first found =>
      (head_le_of_sorted sorted found present).trans (early maxTimestamp bound)⟩

theorem Search.not_matches_of_star (bare : search.v.name = [star]) (p : Option StreamVariable) :
    ¬ search.Matches p := by
  intro matching
  cases p with
  | none => cases matching
  | some p =>
    rw [Search.Matches, Search.isMatch_star bare] at matching
    cases matching

theorem Datastore.wanted_eq (s : Datastore Double) (search : Search) : s.wanted rt search =
    (((s.stored rt).filter fun item => search.Matches item.2.streamVariable).map
      fun item : GoString × Stream Double => item.2.held).sum.filter
        fun entry => search.InBounds entry.2.timestamp := by
  rw [Datastore.wanted, heldBy, List.filter_map, List.map_map]
  rfl

/-- What is wanted of a stream. -/
theorem Search.wants_iff {stream : Stream Double} (matching : search.Matches stream.streamVariable) :
    search.Wants stream ↔ ∃ entry ∈ stream.held, search.InBounds entry.2.timestamp := by
  simp [Search.Wants, matching, ValueStream.held]

/-- In a sound store every wanted value is delivered exactly when the streams that have one are selected. -/
theorem Datastore.wanted_le_iff {delivered : List (Stream Double)}
    (perm : delivered.Perm (((s.stored rt).filter fun item =>
      search.v.string ≤ item.1 ∧ search.Selects Value.timestamp item.2).map Prod.snd)) :
    s.wanted rt search ≤ heldBy delivered ↔ ∀ item ∈ s.stored rt, search.Wants item.2 →
      search.v.string ≤ item.1 ∧ search.Overlaps Value.timestamp item.2 := by
  have sent : heldBy delivered = (((s.stored rt).filter fun item =>
      search.v.string ≤ item.1 ∧ search.Selects Value.timestamp item.2).map
        fun item : GoString × Stream Double => item.2.held).sum := by
    rw [heldBy_perm perm, heldBy, List.map_map]
    rfl
  rw [Datastore.wanted_eq, sent, Selection.filter_le_selected_iff _ fun item _ selected => selected.2.1]
  refine forall₂_congr fun item _ => ?_
  constructor
  · intro covered wants
    by_contra missed
    obtain ⟨entry, member, wanted⟩ := (Search.wants_iff wants.1).mp wants
    refine covered wants.1 (fun selected => missed ⟨selected.1, selected.2.2.2⟩) entry member wanted
  · intro selected matching missed entry member wanted
    have wants : search.Wants item.2 := (Search.wants_iff matching).mpr ⟨entry, member, wanted⟩
    obtain ⟨above, overlaps⟩ := selected wants
    obtain ⟨-, value, present, -⟩ := wants
    exact missed ⟨above, matching, List.ne_nil_of_mem present, overlaps⟩

theorem Datastore.Sound.finds_iff (sound : s.Sound rt used) (arrival : Iteration) :
    s.Finds rt arrival search ↔ s.Searchable rt search := by
  -- The name `*` matches nothing, and the reader slices it out of bounds.
  by_cases bare : search.v.name = [star]
  · have none := Search.not_matches_of_star bare
    have wantsNone : ∀ stream : Stream Double, ¬ search.Wants stream := fun stream wants => none _ wants.1
    have nothing : s.wanted rt search = 0 := by
      rw [Datastore.wanted_eq]
      simp [none]
    have quiet : s.Finds rt arrival search ↔
        Ends (fun _ => False) (fun delivered => delivered = []) (s.reader rt arrival search true) := by
      refine ⟨fun finds => finds.mono fun delivered found => ?_, fun ends => ends.mono ?_⟩
      · exact List.eq_nil_iff_forall_not_mem.mpr fun stream member => none _ (found.2 stream member)
      · rintro delivered rfl
        exact ⟨nothing.le, fun _ member => absurd member List.not_mem_nil⟩
    have quietIff : Ends (fun _ => False) (fun delivered => delivered = []) (s.reader rt arrival search true) ↔
        ∀ item ∈ s.stored rt, item.1 < search.v.string := by
      rw [sound.blocksSound.reader_star arrival bare]
      split
      · exact ⟨fun _ => ‹_›, fun _ => rfl⟩
      · exact ⟨fun ends => ends.elim, fun below => absurd below ‹_›⟩
    rw [quiet, quietIff]
    exact ⟨fun below => ⟨fun _ => below, fun item _ wants => absurd wants (wantsNone _),
        fun _ _ _ stream _ wants => absurd wants (wantsNone stream)⟩,
      fun searchable => searchable.star bare⟩
  -- Otherwise the reader delivers the selected streams, and the two sides speak of one selection.
  · obtain ⟨delivered, run, perm⟩ := sound.blocksSound.reader arrival bare
    have onlyMatching : ∀ stream ∈ delivered, search.Matches stream.streamVariable := by
      intro stream member
      obtain ⟨item, selected, rfl⟩ := List.mem_map.mp (perm.mem_iff.mp member)
      exact (of_decide_eq_true (List.mem_filter.mp selected).2).2.1
    have finds : s.Finds rt arrival search ↔ s.wanted rt search ≤ heldBy delivered := by
      rw [Datastore.Finds, run]
      exact and_iff_left onlyMatching
    rw [finds, Datastore.wanted_le_iff perm]
    constructor
    · intro selected
      refine ⟨fun star => absurd star bare, fun item member wants => (selected item member wants).1,
        fun key block found stream member wants => ?_⟩
      have stored : (block.endKey, stream) ∈ s.stored rt :=
        Datastore.mem_stored.mpr ⟨key, block, found, rfl, List.mem_append_left _ member⟩
      exact (selected _ stored wants).2
    · intro searchable item member wants
      refine ⟨searchable.endKey item member wants, ?_⟩
      obtain ⟨key, block, found, -, streamMember⟩ := Datastore.mem_stored.mp member
      obtain ⟨file, logged, blockSound⟩ := sound.block key block found
      rw [DatastoreBlock.streams, blockSound.onDisk.fileStreams sound.reliable] at streamMember
      rcases List.mem_append.mp streamMember with inMemory | inFile
      · exact searchable.inOrder key block found _ inMemory wants
      · exact blockSound.overlaps_of_wants inFile wants

end Sound

/-! ## Runs -/

/-- `Reader` after a run without joins: it finds what a search asks for exactly when none of its shortcuts
goes wrong. -/
theorem run_finds_iff (rt : Runtime Double) (operations : List (Operation Double)) (ids : FreshIds operations)
    (apart : ∀ operation ∈ operations, operation.joins = false)
    (along : Along (Datastore.step rt) (fun _ s operation => s.Completes rt operation) [] Datastore.empty
      operations)
    (s : Datastore Double) (reached : Datastore.run rt Datastore.empty operations = .ok s)
    (arrival : Iteration) (search : Search) :
    s.Finds rt arrival search ↔ s.Searchable rt search :=
  Datastore.Sound.finds_iff ((run_sound ids apart along).of_ok reached) arrival

/-- A stream in the block file, one in the log and one that is pending. -/
def searchRun : List (Operation UInt64) :=
  [.send (some (ascii "1")) (gauge "b" [5, 3]), .flush .listed, .compactBlock (ascii "b") .listed { startTime := 0 },
    .send none (gauge "a" [7]), .flush .listed, .send none (gauge "b" [9])]

/-- The values of `b` from 4 on. -/
def searchB : Search := { v := { name := ascii "b", labels := ∅ }, minTimestamp := some 4, maxTimestamp := none }

theorem run_finds_iff_searchRun :
    ∃ s, Datastore.run protoRuntime Datastore.empty searchRun = .ok s ∧
      (s.Finds protoRuntime .listed searchB ↔ s.Searchable protoRuntime searchB) := by
  obtain ⟨s, reached⟩ := Fallible.failure_eq_none.mp
    (by decide : Fallible.failure (Datastore.run protoRuntime Datastore.empty searchRun) = none)
  exact ⟨s, reached, run_finds_iff protoRuntime searchRun (by decide) (by decide) (by decide) s
    reached .listed searchB⟩

/-- A prefix is not found at the end of a block, a value is not found in front of an older one, and the
pattern `*` panics. -/
theorem run_misses :
    (∃ s, Datastore.run protoRuntime Datastore.empty [.send (some (ascii "1")) (gauge "ab" [5])] = .ok s ∧
      ¬ s.Finds protoRuntime .listed
        { v := { name := ascii "ab*", labels := ∅ }, minTimestamp := none, maxTimestamp := none }) ∧
    (∃ s, Datastore.run protoRuntime Datastore.empty [.send (some (ascii "1")) (gauge "b" [5, 3])] = .ok s ∧
      ¬ s.Finds protoRuntime .listed searchB) ∧
    ∃ s, Datastore.run protoRuntime Datastore.empty [.send (some (ascii "1")) (gauge "b" [5])] = .ok s ∧
      ¬ s.Finds protoRuntime .listed
        { v := { name := ascii "*", labels := ∅ }, minTimestamp := none, maxTimestamp := none } := by
  have missed : ∀ (stream : Stream UInt64) (search : Search),
      Ends (fun _ => False) (fun s : Datastore UInt64 => ¬ s.Finds protoRuntime .listed search)
        (Datastore.run protoRuntime Datastore.empty [.send (some (ascii "1")) stream]) →
      ∃ s, Datastore.run protoRuntime Datastore.empty [.send (some (ascii "1")) stream] = .ok s ∧
        ¬ s.Finds protoRuntime .listed search := fun _ _ ends => ends.exists_ok
  exact ⟨missed _ _ (by decide), missed _ _ (by decide), missed _ _ (by decide)⟩

end OpenInstrument
