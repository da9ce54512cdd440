import OpenInstrument.Datastore.Conservation

/-! # The background loop

Every few seconds the loop of `Open` goes over the blocks three times.  It compacts those that should be compacted,
it splits those that should be split, and it joins some that are small.  What it decides rests on how many streams and
values a block counts.

A loop over the map of the blocks is given as the list of its turns.  A split adds a block to the map, and the loop may
come across that one or not.
-/

namespace OpenInstrument

open Fallible (Ends Along)

variable {Double : Type}

/-! ## Counting -/

/-- The loops that add the lengths of some streams to a count. -/
def countValues (values : UInt32) (streams : List (Stream Double)) : UInt32 :=
  streams.foldl (fun values stream => values + UInt32.ofNat stream.value.length) values

/-- `NumLogValues`. -/
def DatastoreBlock.numLogValues (block : DatastoreBlock Double) : UInt32 := countValues 0 block.logs

def DatastoreBlock.numValues (block : DatastoreBlock Double) : UInt32 :=
  let values := block.blockHeader.index.foldl (fun values entry => values + entry.getNumValues) 0
  countValues (countValues values block.logs) block.newStreams

def Datastore.numValues (s : Datastore Double) : UInt32 :=
  (Keyed.pairs s.blocks).foldl (fun values entry => values + entry.2.numValues) 0

def Datastore.numStreams (s : Datastore Double) : UInt32 :=
  (Keyed.pairs s.blocks).foldl (fun streams entry => streams + entry.2.numStreams) 0

/-! ## Deciding -/

/-- `shouldCompact` at a time in milliseconds. -/
def DatastoreBlock.shouldCompact (now : UInt64) (block : DatastoreBlock Double) : Bool :=
  if 10000 < block.logStreams.keys.length then true
  else if 50000 < block.numLogValues then true
  else
    match block.blockFooter.compactionLog.getLast? with
    | none => false
    | some clog => decide (0 < block.logStreams.keys.length) && decide (60 * 60 * 1000 < now - clog.startTime)

def DatastoreBlock.shouldSplit (block : DatastoreBlock Double) : Bool :=
  decide (splitPoint < UInt32.ofNat block.blockHeader.index.length) ||
    decide (splitPoint < UInt32.ofNat block.logStreams.keys.length)

/-- One turn of the first loop, with the time that `shouldCompact` sees. -/
structure CompactTurn where
  key : GoString
  now : UInt64
  orders : Orders
  clog : CompactionLog

def CompactTurn.operation (turn : CompactTurn) : Operation Double := .compactBlock turn.key turn.orders turn.clog

/-- The blocks are pointers, so that a turn is about the block as it is by then. -/
def Datastore.compactTurn (rt : Runtime Double) (s : Datastore Double) (turn : CompactTurn) :
    Except Panic (Datastore Double) :=
  if (s.blocks.lookup turn.key).any (·.shouldCompact turn.now) then s.step rt turn.operation else .ok s

def Datastore.compactTurns (rt : Runtime Double) (s : Datastore Double) (turns : List CompactTurn) :
    Except Panic (Datastore Double) :=
  turns.foldlM (Datastore.compactTurn rt) s

structure SplitTurn where
  key : GoString
  choices : SplitChoices

def SplitTurn.operation (turn : SplitTurn) : Operation Double := .splitBlock turn.key turn.choices

def Datastore.splitTurn (rt : Runtime Double) (s : Datastore Double) (turn : SplitTurn) :
    Except Panic (Datastore Double) :=
  if (s.blocks.lookup turn.key).any DatastoreBlock.shouldSplit then s.step rt turn.operation else .ok s

def Datastore.splitTurns (rt : Runtime Double) (s : Datastore Double) (turns : List SplitTurn) :
    Except Panic (Datastore Double) :=
  turns.foldlM (Datastore.splitTurn rt) s

/-- What the loop of `Open` does after a tick. -/
def Datastore.tick (rt : Runtime Double) (s : Datastore Double) (compactions : List CompactTurn)
    (splits : List SplitTurn) (orders : Orders) (clog : CompactionLog) : Except Panic (Datastore Double) := do
  let s ← s.compactTurns rt compactions
  let s ← s.splitTurns rt splits
  s.step rt (.joinBlocks orders clog)

/-! ## What the counts say -/

theorem ofNat_add_assoc (values : UInt32) (first second : Nat) :
    values + UInt32.ofNat first + UInt32.ofNat second = values + UInt32.ofNat (first + second) := by
  rw [UInt32.ofNat_add, UInt32.add_assoc]

theorem countValues_eq (values : UInt32) (streams : List (Stream Double)) :
    countValues values streams = values + UInt32.ofNat (heldBy streams).card := by
  induction streams generalizing values with
  | nil => exact (UInt32.add_zero values).symm
  | cons stream streams inductionHypothesis =>
    have here : stream.held.card = stream.value.length := by simp [ValueStream.held]
    rw [countValues, List.foldl_cons, ← countValues, inductionHypothesis, ofNat_add_assoc, heldBy_cons,
      Multiset.card_add, here]

section Sound

variable {rt : Runtime Double} {used : List GoString} {s : Datastore Double}

/-- The index tells how many values its streams have. -/
theorem countIndex_eq {header : StoreFileHeader} {streams entries : List (Stream Double)}
    {index : List StoreFileHeaderIndex} (indexed : List.Forall₂ (IndexedAt rt header streams) entries index)
    (values : UInt32) :
    index.foldl (fun values entry => values + entry.getNumValues) values =
      values + UInt32.ofNat (heldBy entries).card := by
  induction indexed generalizing values with
  | nil => exact (UInt32.add_zero values).symm
  | @cons stream _ _ _ here _ inductionHypothesis =>
    obtain ⟨before, after, -, rfl⟩ := here
    have length : stream.held.card = stream.value.length := by simp [ValueStream.held]
    have counted : (indexEntry (UInt64.ofNat (streamPosition rt header before)) stream).getNumValues =
      UInt32.ofNat stream.value.length := rfl
    rw [List.foldl_cons, inductionHypothesis, counted, ofNat_add_assoc, heldBy_cons, Multiset.card_add, length]

theorem BlockSound.numValues {block : DatastoreBlock Double} {file logged : List (Stream Double)}
    (sound : BlockSound rt s.disk.view block file logged) (reliable : s.disk.Reliable) :
    block.numValues = UInt32.ofNat (block.held rt s.disk).card := by
  have index : block.blockHeader.index.foldl (fun values entry => values + entry.getNumValues) 0 =
      UInt32.ofNat (heldBy file).card := by
    -- Without a file there is no index; with one the index has an entry for each of its streams.
    rcases sound.onDisk with ⟨-, index, none_⟩ | ⟨footer, -, layout⟩
    · rw [index, none_]
      rfl
    · obtain ⟨entries, perm, indexed⟩ := layout.index
      rw [countIndex_eq indexed, heldBy_perm perm, UInt32.zero_add]
  have logs : heldBy block.logs = heldBy logged := by
    rw [DatastoreBlock.logs, ← heldIn_eq_heldBy, sound.heldIn_logStreams]
  rw [DatastoreBlock.numValues, index, countValues_eq, countValues_eq, sound.held reliable, logs,
    ← UInt32.ofNat_add, ← UInt32.ofNat_add, Multiset.card_add, Multiset.card_add]

theorem foldl_numValues {disk : Disk} {entries : List (GoString × DatastoreBlock Double)} (values : UInt32)
    (each : ∀ entry ∈ entries, entry.2.numValues = UInt32.ofNat (entry.2.held rt disk).card) :
    entries.foldl (fun values entry => values + entry.2.numValues) values =
      values + UInt32.ofNat (entries.map fun entry => DatastoreBlock.held rt disk entry.2).sum.card := by
  induction entries generalizing values with
  | nil => exact (UInt32.add_zero values).symm
  | cons entry entries inductionHypothesis =>
    rw [List.foldl_cons, inductionHypothesis _ fun other member => each other (.tail _ member),
      each entry (.head _), ofNat_add_assoc, List.map_cons, List.sum_cons, Multiset.card_add]

/-- The count of a store is the number of values that it holds, in 32 bits. -/
theorem Datastore.Sound.numValues (sound : s.Sound rt used) : s.numValues = UInt32.ofNat (s.held rt).card := by
  have each : ∀ entry ∈ Keyed.pairs s.blocks, entry.2.numValues = UInt32.ofNat (entry.2.held rt s.disk).card := by
    intro entry member
    obtain ⟨file, logged, blockSound⟩ := sound.block entry.1 entry.2 (Keyed.mem_pairs.mp member)
    exact blockSound.numValues sound.reliable
  rw [Datastore.numValues, foldl_numValues 0 each, UInt32.zero_add, Datastore.held, Keyed.total_eq_pairs]

end Sound

/-! ## Runs -/

/-- A state to which operations other than joins have led from an empty directory, without a file call that failed, and
the identifiers that they drew. -/
def Datastore.Reached (rt : Runtime Double) (used : List GoString) (s : Datastore Double) : Prop :=
  ∃ operations, FreshIds operations ∧ (∀ operation ∈ operations, operation.joins = false) ∧
    Along (Datastore.step rt) (fun _ s operation => s.Completes rt operation) [] Datastore.empty operations ∧
    Datastore.run rt Datastore.empty operations = .ok s ∧ drawnIds operations = used

theorem Datastore.Reached.sound {rt : Runtime Double} {used : List GoString} {s : Datastore Double}
    (reached : s.Reached rt used) : s.Sound rt used := by
  obtain ⟨operations, ids, apart, along, ran, rfl⟩ := reached
  exact (run_sound ids apart along).of_ok ran

/-- After a run that loses nothing, with joins or without, the store counts the values that were sent. -/
theorem run_numValues (rt : Runtime Double) (operations : List (Operation Double)) (ids : FreshIds operations)
    (sends : ∀ stream ∈ sentStreams operations, stream.HasVariable ∧ stream.value ≠ [])
    (along : Along (Datastore.step rt) (fun _ s operation => s.Completes rt operation ∧ s.Conserves rt operation) []
      Datastore.empty operations) :
    ∃ s, Datastore.run rt Datastore.empty operations = .ok s ∧
      s.numValues = UInt32.ofNat (heldBy (sentStreams operations)).card := by
  have start : (Datastore.empty : Datastore Double).AllValued := fun key block found => by cases found
  have ends : Ends (fun _ => False) (fun s => s.Sound rt (drawnIds operations) ∧
      (s.AllValued ∧ s.held rt = heldBy (sentStreams operations))) (Datastore.run rt Datastore.empty operations) := by
    refine run_ends (fun history s => s.AllValued ∧ s.held rt = heldBy (sentStreams history)) ids ?_
      ⟨start, rfl⟩ along
    intro history s operation sound ⟨valued, held⟩ completes conserves fresh member
    have sendsNow : ∀ stream ∈ sentStreams [operation], stream.HasVariable ∧ stream.value ≠ [] := by
      intro stream sent
      obtain ⟨before, after, rfl⟩ := List.append_of_mem member
      refine sends stream ?_
      rw [← List.singleton_append, sentStreams_append, sentStreams_append]
      exact List.mem_append_right _ (List.mem_append_left _ sent)
    refine (sound.step_conserves valued completes conserves fresh sendsNow).mono ?_
    rintro after ⟨afterSound, afterValued, afterHeld⟩
    exact ⟨afterSound, afterValued, by rw [afterHeld, held, sentStreams_append, heldBy_append]⟩
  obtain ⟨s, run, sound, -, held⟩ := ends.exists_ok
  exact ⟨s, run, by rw [sound.numValues, held]⟩

theorem run_numValues_joinRun : ∃ s, Datastore.run protoRuntime Datastore.empty joinRun = .ok s ∧
    s.numValues = UInt32.ofNat (heldBy (sentStreams joinRun)).card :=
  run_numValues protoRuntime joinRun (by decide +kernel) (by decide +kernel) (by decide +kernel)

/-! ## Compacting what is due -/

/-- What a turn of the first loop leaves of a block. -/
inductive CompactTurned (now : UInt64) (block : DatastoreBlock Double) : DatastoreBlock Double → Prop where
  | kept (early : block.shouldCompact now = false) : CompactTurned now block block
  | compacted {compacted : DatastoreBlock Double} (due : block.shouldCompact now = true)
      (flushedKeys : ∀ key, key ∈ compacted.flushedKeys ↔ key ∈ block.flushedKeys)
      (logStreams : compacted.logStreams = ∅) (newStreams : compacted.newStreams = block.newStreams) :
      CompactTurned now block compacted

/-- A block without a log is never due. -/
theorem DatastoreBlock.shouldCompact_of_empty {block : DatastoreBlock Double} (empty : block.logStreams = ∅)
    (now : UInt64) : block.shouldCompact now = false := by
  have values : block.numLogValues = 0 := by
    rw [DatastoreBlock.numLogValues, DatastoreBlock.logs, empty]
    rfl
  rw [DatastoreBlock.shouldCompact, values, empty]
  cases block.blockFooter.compactionLog.getLast? <;> rfl

theorem CompactTurned.settled {now : UInt64} {block kept : DatastoreBlock Double}
    (turned : CompactTurned now block kept) : kept.shouldCompact now = false := by
  cases turned with
  | kept early => exact early
  | compacted due flushedKeys logStreams newStreams => exact DatastoreBlock.shouldCompact_of_empty logStreams now

section Compacting

variable {rt : Runtime Double} {used : List GoString} {s after : Datastore Double}

/-- A turn is about one block, and keeps all values. -/
theorem Datastore.Sound.compactTurn (sound : s.Sound rt used) {turn : CompactTurn}
    (completes : Ends (fun _ => True) (fun after => after.disk.incomplete = false) (s.compactTurn rt turn))
    (ran : s.compactTurn rt turn = .ok after) :
    after.Sound rt used ∧ after.held rt = s.held rt ∧ (∀ key, key ∈ after.blocks ↔ key ∈ s.blocks) ∧
      (∀ key ≠ turn.key, after.blocks.lookup key = s.blocks.lookup key) ∧
      ∀ block, s.blocks.lookup turn.key = some block →
        ∃ kept, after.blocks.lookup turn.key = some kept ∧ CompactTurned turn.now block kept := by
  have unbroken := completes.of_ok ran
  rw [Datastore.compactTurn] at ran
  split at ran
  · rename_i due
    obtain ⟨afterSound, -, stepped⟩ := sound.stepped_compactBlock unbroken ran
    cases stepped with
    | compactMissing absent =>
      rw [absent] at due
      cases due
    | @compact key orders clog block compacted after found compaction =>
      refine ⟨afterSound, compaction.held, fun key => ?_, fun key other => ?_, fun other same => ?_⟩
      · rw [compaction.blocks, AList.mem_insert]
        exact or_iff_right_of_imp fun same => same ▸ Keyed.mem_iff_lookup.mpr ⟨block, found⟩
      · rw [compaction.blocks, AList.lookup_insert_ne other]
      · obtain rfl : block = other := Option.some.inj (found.symm.trans same)
        rw [found] at due
        exact ⟨compacted, by rw [compaction.blocks, AList.lookup_insert],
          .compacted due compaction.flushedKeys compaction.logStreams compaction.newStreams⟩
  · rename_i early
    cases ran
    refine ⟨sound, rfl, fun _ => Iff.rfl, fun key _ => rfl, fun block found => ⟨block, found, .kept ?_⟩⟩
    rw [found] at early
    exact (Bool.not_eq_true _).mp early

theorem Datastore.Sound.compactTurns (sound : s.Sound rt used) {turns : List CompactTurn}
    (once : (turns.map CompactTurn.key).Nodup)
    (along : Along (Datastore.compactTurn rt) (fun _ s turn => Ends (fun _ => True)
      (fun after => after.disk.incomplete = false) (s.compactTurn rt turn)) [] s turns)
    (ran : s.compactTurns rt turns = .ok after) :
    after.Sound rt used ∧ after.held rt = s.held rt ∧ (∀ key, key ∈ after.blocks ↔ key ∈ s.blocks) ∧
      (∀ key ∉ turns.map CompactTurn.key, after.blocks.lookup key = s.blocks.lookup key) ∧
      ∀ turn ∈ turns, ∀ block, s.blocks.lookup turn.key = some block →
        ∃ kept, after.blocks.lookup turn.key = some kept ∧ CompactTurned turn.now block kept := by
  generalize ([] : List CompactTurn) = history at along
  induction turns generalizing s history with
  | nil =>
    cases ran
    exact ⟨sound, rfl, fun _ => Iff.rfl, fun _ _ => rfl, nofun⟩
  | cons turn turns inductionHypothesis =>
    rw [Datastore.compactTurns, List.foldlM_cons] at ran
    obtain ⟨middle, taken, rest⟩ := Fallible.bind_ok ran
    obtain ⟨completes, later⟩ := along
    rw [taken] at later
    obtain ⟨absent, onceLater⟩ := List.nodup_cons.mp once
    obtain ⟨middleSound, middleHeld, middleKeys, others, here⟩ := sound.compactTurn completes taken
    obtain ⟨afterSound, afterHeld, afterKeys, untouched, turned⟩ :=
      inductionHypothesis middleSound onceLater rest _ later
    -- Each block has one turn, which the turns before and behind it leave alone.
    refine ⟨afterSound, afterHeld.trans middleHeld, fun key => (afterKeys key).trans (middleKeys key),
      fun key outside => ?_, fun other member block found => ?_⟩
    · rw [List.map_cons, List.mem_cons, not_or] at outside
      exact (untouched key outside.2).trans (others key outside.1)
    · rcases List.mem_cons.mp member with rfl | member
      · obtain ⟨kept, standing, turnedHere⟩ := here block found
        exact ⟨kept, (untouched _ absent).trans standing, turnedHere⟩
      · have apart : other.key ≠ turn.key := fun same =>
          absent (same ▸ List.mem_map_of_mem (f := CompactTurn.key) member)
        exact turned other member block ((others _ apart).trans found)

/-- A pass of the first loop over a store that was reached.  It keeps the values, the count and the variables of each
block, it leaves the blocks alone that are not due, and no block is due any more when its turn has come. -/
theorem compactTurns_settle (reached : s.Reached rt used) {turns : List CompactTurn}
    (once : (turns.map CompactTurn.key).Nodup) (visits : ∀ key ∈ s.blocks, key ∈ turns.map CompactTurn.key)
    (along : Along (Datastore.compactTurn rt) (fun _ s turn => Ends (fun _ => True)
      (fun after => after.disk.incomplete = false) (s.compactTurn rt turn)) [] s turns)
    (ran : s.compactTurns rt turns = .ok after) :
    after.held rt = s.held rt ∧ after.numValues = s.numValues ∧ (∀ key, key ∈ after.blocks ↔ key ∈ s.blocks) ∧
      ∀ key block, s.blocks.lookup key = some block → ∃ turn ∈ turns, turn.key = key ∧
        ∃ kept, after.blocks.lookup key = some kept ∧ CompactTurned turn.now block kept ∧
          kept.shouldCompact turn.now = false := by
  obtain ⟨afterSound, held, keys, -, turned⟩ := reached.sound.compactTurns once along ran
  refine ⟨held, by rw [afterSound.numValues, reached.sound.numValues, held], keys, fun key block found => ?_⟩
  obtain ⟨turn, member, rfl⟩ := List.mem_map.mp (visits key (Keyed.mem_iff_lookup.mpr ⟨block, found⟩))
  obtain ⟨kept, standing, here⟩ := turned turn member block found
  exact ⟨turn, member, rfl, kept, standing, here, here.settled⟩

end Compacting

/-- A block that was compacted at the epoch and then got a log. -/
def agedRun : List (Operation UInt64) :=
  [.send (some (ascii "1")) (gauge "b" [5]), .flush .listed, .compactBlock (ascii "b") .listed { startTime := 0 },
    .send none (gauge "a" [7]), .flush .listed]

def agedTurns : List CompactTurn :=
  [{ key := ascii "b", now := 3600001, orders := .listed, clog := { startTime := 3600001 } }]

theorem compactTurns_settle_agedRun :
    ∃ used s after, Datastore.Reached protoRuntime used s ∧ s.compactTurns protoRuntime agedTurns = .ok after ∧
      after.held protoRuntime = s.held protoRuntime ∧ after.numValues = s.numValues ∧
      (∀ key, key ∈ after.blocks ↔ key ∈ s.blocks) ∧
      ∀ key block, s.blocks.lookup key = some block → ∃ turn ∈ agedTurns, turn.key = key ∧
        ∃ kept, after.blocks.lookup key = some kept ∧ CompactTurned turn.now block kept ∧
          kept.shouldCompact turn.now = false := by
  obtain ⟨s, ran, visits, along, returns⟩ := Ends.exists_ok
    (by decide +kernel : Ends (fun _ => False) (fun s : Datastore UInt64 =>
      (∀ key ∈ s.blocks.keys, key ∈ agedTurns.map CompactTurn.key) ∧
        Along (Datastore.compactTurn protoRuntime) (fun _ s turn => Ends (fun _ => True)
          (fun after => after.disk.incomplete = false) (s.compactTurn protoRuntime turn)) [] s agedTurns ∧
        Fallible.failure (s.compactTurns protoRuntime agedTurns) = none)
      (Datastore.run protoRuntime Datastore.empty agedRun))
  obtain ⟨after, compacted⟩ := Fallible.failure_eq_none.mp returns
  have reached : s.Reached protoRuntime (drawnIds agedRun) :=
    ⟨agedRun, by decide, by decide, by decide +kernel, ran, rfl⟩
  exact ⟨_, s, after, reached, compacted, compactTurns_settle reached (by decide) visits along compacted⟩

end OpenInstrument
