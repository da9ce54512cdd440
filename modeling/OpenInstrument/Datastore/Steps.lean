import OpenInstrument.Library.Boundaries
import OpenInstrument.Datastore.Sound
import OpenInstrument.Datastore.Splitting

/-! # What each operation does to a sound store

One description for each operation other than `joinBlocks`: which blocks of the store change, into
what, and that the store stays sound, unless a file call fails.  What is held is stated along with it.
-/

namespace OpenInstrument

variable {Double : Type} {rt : Runtime Double} {used : List GoString} {s : Datastore Double}

/-- Only files of blocks that the store has afterwards are different. -/
def Datastore.Confined (rt : Runtime Double) (before after : Datastore Double) : Prop :=
  ∀ name, after.disk.view name ≠ before.disk.view name →
    ∃ key block, after.blocks.lookup key = some block ∧ name ∈ block.ownFiles rt

theorem Datastore.Confined.of_touches {before after : Datastore Double} {key : GoString}
    {block : DatastoreBlock Double} (found : after.blocks.lookup key = some block)
    (touches : OnlyTouches (block.ownFiles rt) before.disk.view after.disk.view) :
    Datastore.Confined rt before after := fun name changed =>
  ⟨key, block, found, by_contra fun foreign => changed (touches name foreign)⟩

/-! ## Sending -/

/-- A stream is appended to the pending streams of a block. -/
def DatastoreBlock.appended (block : DatastoreBlock Double) (stream : Stream Double) : DatastoreBlock Double :=
  { block with newStreams := block.newStreams ++ [stream] }

@[simp] theorem DatastoreBlock.mem_keys_appended {block : DatastoreBlock Double} {stream : Stream Double}
    {key : GoString} : key ∈ (block.appended stream).keys ↔ key ∈ block.keys ∨ key = stream.key := by
  simp [DatastoreBlock.appended, DatastoreBlock.keys, DatastoreBlock.flushedKeys, DatastoreBlock.logs,
    or_assoc, or_left_comm]

/-- The key under which `findBlock` looks for the block of a variable. -/
def Datastore.route (s : Datastore Double) (v : GoString) : Option GoString :=
  Boundaries.covering s.blockKeys v

/-- What `Writer` does with one stream: it drops the stream when the block it is routed to is gone or no
block can be made, it appends the stream to a block, or it makes a block for the stream. -/
inductive Datastore.Sent (s : Datastore Double) (uuid : Option GoString) (stream : Stream Double) :
    Datastore Double → Prop where
  | stale {key : GoString} (routed : s.route stream.key = some key) (gone : key ∉ s.blocks) :
      Sent s uuid stream s
  | unnamed (beyond : s.route stream.key = none) (undrawn : uuid = none) : Sent s uuid stream s
  | appended {key : GoString} {block : DatastoreBlock Double} (routed : s.route stream.key = some key)
      (found : s.blocks.lookup key = some block) :
      Sent s uuid stream { s with blocks := s.blocks.insert key (block.appended stream) }
  | opened {id : GoString} (beyond : s.route stream.key = none) (drawn : uuid = some id) :
      Sent s uuid stream (s.insertBlock ((newBlock stream.key id).appended stream))

theorem Datastore.send_sent (endKey : ∀ key block, s.blocks.lookup key = some block → block.endKey = key)
    (uuid : Option GoString) {stream : Stream Double} (named : stream.HasVariable) :
    ∃ after, s.send uuid stream = .ok after ∧ s.Sent uuid stream after := by
  obtain ⟨v, parsed, printed⟩ := named.newFromProto
  rw [Datastore.send, parsed, Fallible.ok_bind, Datastore.findBlock.eq_def, printed, ← Boundaries.covering,
    ← Datastore.route]
  cases routed : s.route stream.key with
  | some key =>
    by_cases present : key ∈ s.blocks
    · obtain ⟨block, found⟩ := Keyed.mem_iff_lookup.mp present
      obtain rfl := endKey key block found
      simp only [present, if_true, Option.bind_some, found]
      exact ⟨_, rfl, .appended routed found⟩
    · simp only [present, if_false, Option.bind_none]
      exact ⟨s, rfl, .stale routed present⟩
  | none =>
    cases uuid with
    | none => exact ⟨s, rfl, .unnamed routed rfl⟩
    | some id =>
      refine ⟨_, ?_, .opened routed rfl⟩
      simp [Datastore.insertBlock, DatastoreBlock.appended, newBlock]
      rfl

theorem BlockSound.appended {view : GoString → Option Bytes} {block : DatastoreBlock Double}
    {file logged : List (Stream Double)} (sound : BlockSound rt view block file logged)
    {stream : Stream Double} (named : stream.HasVariable) :
    BlockSound rt view (block.appended stream) file logged := by
  refine ⟨sound.valid, sound.version, sound.onDisk.congr rfl rfl, sound.log, sound.logStreams,
    sound.loggedStreams, fun other member => ?_, sound.noTemporary⟩
  rcases List.mem_append.mp member with old | new
  · exact sound.pending other old
  · exact List.mem_singleton.mp new ▸ named

/-- A block whose identifier no file name carries. -/
theorem Datastore.Sound.newBlock_sound (sound : s.Sound rt used) {id : GoString} (valid : ValidId id)
    (fresh : id ∉ used) (endKey : GoString) : BlockSound rt s.disk.view (newBlock endKey id) [] [] := by
  have absent : ∀ name ∈ (newBlock endKey id : DatastoreBlock Double).ownFiles rt,
      s.disk.view name = none := fun name member => by
    by_contra present
    have owner : fileOwner name = id := DatastoreBlock.fileOwner_ownFiles valid member
    exact fresh (owner ▸ sound.files name present)
  exact ⟨valid, rfl, .inl ⟨absent _ (by simp [DatastoreBlock.ownFiles]), rfl, rfl⟩,
    absent _ (by simp [DatastoreBlock.ownFiles]), rfl, by simp, by simp [newBlock],
    absent _ (by simp [DatastoreBlock.ownFiles])⟩

/-- Whether `Writer` finds a block for a stream. -/
def Datastore.Delivers (s : Datastore Double) (uuid : Option GoString) (stream : Stream Double) : Prop :=
  match s.route stream.key with
  | some key => key ∈ s.blocks
  | none => uuid.isSome

instance (uuid : Option GoString) (stream : Stream Double) : Decidable (s.Delivers uuid stream) :=
  match h : s.route stream.key with
  | some key => decidable_of_iff (key ∈ s.blocks) (by rw [Datastore.Delivers, h])
  | none => decidable_of_iff (uuid.isSome = true) (by rw [Datastore.Delivers, h])

theorem Datastore.Sound.sent (sound : s.Sound rt used) {uuid : Option GoString} {stream : Stream Double}
    {after : Datastore Double} (named : stream.HasVariable)
    (fresh : ∀ id ∈ uuid, ValidId id ∧ id ∉ used) (sent : s.Sent uuid stream after) :
    after.Sound rt (used ++ uuid.toList) ∧ Datastore.Confined rt s after ∧
      (s.Delivers uuid stream → after.held rt = s.held rt + stream.held) := by
  have drawn : s.Sound rt (used ++ uuid.toList) :=
    sound.draw fun id member => (fresh id (by simpa using member)).1
  have same : ∀ {after : Datastore Double}, after.disk = s.disk → Datastore.Confined rt s after :=
    fun disk name changed => absurd (by rw [disk]) changed
  cases sent with
  | stale routed gone =>
    refine ⟨drawn, same rfl, fun delivers => ?_⟩
    rw [Datastore.Delivers, routed] at delivers
    exact absurd delivers gone
  | unnamed beyond undrawn =>
    refine ⟨drawn, same rfl, fun delivers => ?_⟩
    rw [Datastore.Delivers, beyond, undrawn] at delivers
    cases delivers
  | @appended key block routed found =>
    obtain ⟨file, logged, blockSound⟩ := drawn.block key block found
    have bounded : ∀ other ∈ (block.appended stream).keys, other ≤ key := by
      intro other member
      rcases DatastoreBlock.mem_keys_appended.mp member with old | rfl
      · exact drawn.bounded key block found other old
      · exact Boundaries.le_of_covering routed
    have appendedSound := blockSound.appended named
    have sameKey : (block.appended stream).endKey = block.endKey := rfl
    obtain ⟨afterSound, held⟩ := drawn.replace found sameKey rfl drawn.reliable drawn.complete
      (OnlyTouches.refl _ _) bounded ⟨file, logged, appendedSound⟩
    refine ⟨afterSound, same rfl, fun _ => ?_⟩
    rw [appendedSound.held sound.reliable, blockSound.held sound.reliable, DatastoreBlock.appended,
      heldBy_append, heldBy_cons, heldBy_nil, add_zero] at held
    refine add_right_cancel (held.trans ?_)
    abel
  | @opened id beyond chosen =>
    obtain rfl := chosen
    obtain ⟨valid, unused⟩ := fresh id rfl
    -- All keys are below the variable, so no block has it for its key.
    have absent : stream.key ∉ s.blocks := fun present =>
      absurd (Boundaries.covering_eq_none.mp beyond _ (sound.listed _ present)) (lt_irrefl _)
    have blockSound := (sound.newBlock_sound valid unused stream.key).appended named
    have unowned : ∀ key other, s.blocks.lookup key = some other → other.id ≠ id :=
      fun key other found same => unused (same ▸ sound.drawn key other found)
    have bounded : ∀ key ∈ ((newBlock stream.key id).appended stream).keys, key ≤ stream.key := by
      intro key member
      rcases DatastoreBlock.mem_keys_appended.mp member with old | rfl
      · cases old
      · exact le_rfl
    have listed : ((newBlock stream.key id).appended stream).id ∈ used ++ (some id).toList :=
      List.mem_append_right _ (List.mem_singleton_self id)
    obtain ⟨afterSound, held⟩ := drawn.insertBlock listed unowned bounded ⟨[], [], blockSound⟩
    refine ⟨afterSound, same rfl, fun _ => ?_⟩
    have none : s.blocks.lookup ((newBlock stream.key id).appended stream).endKey = none :=
      AList.lookup_eq_none.mpr absent
    rw [none, Option.elim_none, add_zero, blockSound.held sound.reliable] at held
    simpa [DatastoreBlock.appended, newBlock] using held

/-! ## Flushing -/

@[simp] theorem DatastoreBlock.mem_keys_flushed {block : DatastoreBlock Double}
    (filed : Filed block.logStreams) (pending : ∀ stream ∈ block.newStreams, stream.HasVariable)
    {key : GoString} : key ∈ block.flushed.keys ↔ key ∈ block.keys := by
  have flushedFiled : Filed block.flushed.logStreams := filed.addStreams pending
  simp only [DatastoreBlock.keys, DatastoreBlock.flushedKeys, List.mem_append,
    DatastoreBlock.logs_keys filed, DatastoreBlock.logs_keys flushedFiled, AList.mem_keys.symm]
  simp only [DatastoreBlock.flushed, mem_addStreams, List.map_nil, List.not_mem_nil, or_false, List.mem_map,
    or_assoc]

theorem Datastore.Sound.flushBlocks (sound : s.Sound rt used) (keys : List GoString) :
    ∃ after, s.flushBlocks rt keys = .ok after ∧ (after.disk.incomplete = false →
      after.Sound rt used ∧ Datastore.Confined rt s after ∧ after.held rt = s.held rt ∧
      after.blockKeys = s.blockKeys ∧ ∀ key, after.blocks.lookup key =
        if key ∈ keys then (s.blocks.lookup key).map DatastoreBlock.flushed else s.blocks.lookup key) := by
  induction keys generalizing s with
  | nil => exact ⟨s, rfl, fun _ => ⟨sound, fun name changed => absurd rfl changed, rfl, rfl, by simp⟩⟩
  | cons key keys inductionHypothesis =>
    rw [Datastore.flushBlocks]
    cases found : s.blocks.lookup key with
    | none =>
      obtain ⟨after, run, success⟩ := inductionHypothesis sound
      refine ⟨after, run, fun unbroken => ?_⟩
      obtain ⟨afterSound, confined, held, blockKeys, lookups⟩ := success unbroken
      refine ⟨afterSound, confined, held, blockKeys, fun other => ?_⟩
      rw [lookups]
      by_cases same : other = key
      · subst same
        simp [found]
      · simp [same]
    | some block =>
      obtain ⟨file, logged, blockSound⟩ := sound.block key block found
      obtain ⟨disk, flushed, more, flush, reliable, same, success⟩ := blockSound.flush sound.reliable
      simp only [flush, Fallible.ok_bind]
      cases more with
      | false =>
        exact ⟨_, rfl, fun unbroken => absurd (success unbroken).1 (by simp)⟩
      | true =>
        have complete : disk.incomplete = false := (same rfl).trans sound.complete
        obtain ⟨-, rfl, touches, flushedSound⟩ := success complete
        have sameKey : block.flushed.endKey = block.endKey := rfl
        have bounded : ∀ other ∈ block.flushed.keys, other ≤ key := fun other member =>
          sound.bounded key block found other
            ((DatastoreBlock.mem_keys_flushed blockSound.filed blockSound.pending).mp member)
        obtain ⟨nextSound, held⟩ := sound.replace found sameKey rfl reliable complete touches bounded
          ⟨file, logged ++ block.newStreams, flushedSound⟩
        simp only [if_true]
        obtain ⟨after, run, success⟩ := inductionHypothesis nextSound
        refine ⟨after, run, fun unbroken => ?_⟩
        obtain ⟨afterSound, confined, afterHeld, blockKeys, lookups⟩ := success unbroken
        refine ⟨afterSound, fun name changed => ?_, ?_, blockKeys, fun other => ?_⟩
        -- What has changed was changed here or by the rest of the loop, and both keep the owner.
        · by_cases later : after.disk.view name = disk.view name
          · have own : name ∈ block.ownFiles rt := by_contra fun foreign =>
              changed (later.trans (touches name foreign))
            obtain ⟨last, lookup, sameId⟩ : ∃ last, after.blocks.lookup key = some last ∧
                last.ownFiles rt = block.ownFiles rt := by
              rw [lookups, AList.lookup_insert]
              split
              · exact ⟨_, rfl, rfl⟩
              · exact ⟨_, rfl, rfl⟩
            exact ⟨key, last, lookup, sameId ▸ own⟩
          · exact confined name later
        -- The values have moved from the pending streams to the log.
        · have blockHeld : block.flushed.held rt disk = block.held rt s.disk := by
            rw [flushedSound.held reliable, blockSound.held sound.reliable, heldBy_append]
            simp [DatastoreBlock.flushed, add_assoc]
          rw [blockHeld] at held
          rw [afterHeld]
          exact add_right_cancel held
        · rw [lookups]
          by_cases here : other = key
          · subst here
            simp [found]
          · simp [here]

/-- `Flush` moves the pending streams of every block to its log. -/
theorem Datastore.Sound.flush (sound : s.Sound rt used) (order : Iteration) :
    ∃ after, s.flush rt order = .ok after ∧ (after.disk.incomplete = false →
      after.Sound rt used ∧ Datastore.Confined rt s after ∧ after.held rt = s.held rt ∧
      after.blockKeys = s.blockKeys ∧
      ∀ key, after.blocks.lookup key = (s.blocks.lookup key).map DatastoreBlock.flushed) := by
  obtain ⟨after, run, success⟩ := sound.flushBlocks (order.order s.blocks.keys)
  refine ⟨after, run, fun unbroken => ?_⟩
  obtain ⟨afterSound, confined, held, blockKeys, lookups⟩ := success unbroken
  refine ⟨afterSound, confined, held, blockKeys, fun key => ?_⟩
  rw [lookups]
  split
  · rfl
  · rename_i absent
    rw [(order.perm _).mem_iff] at absent
    rw [AList.lookup_eq_none.mpr absent]
    rfl

/-! ## Compacting -/

/-- A block of the store was compacted: its keys and its values are what they were. -/
structure Datastore.CompactedTo (rt : Runtime Double) (s after : Datastore Double) (key : GoString)
    (block compacted : DatastoreBlock Double) : Prop where
  blocks : after.blocks = s.blocks.insert key compacted
  blockKeys : after.blockKeys = s.blockKeys
  id : compacted.id = block.id
  touches : OnlyTouches (block.ownFiles rt) s.disk.view after.disk.view
  held : after.held rt = s.held rt
  rewritten : ∃ file, Rewritten rt after.disk.view compacted file
  flushedKeys : ∀ other, other ∈ compacted.flushedKeys ↔ other ∈ block.flushedKeys
  logStreams : compacted.logStreams = ∅
  newStreams : compacted.newStreams = block.newStreams

theorem Datastore.CompactedTo.mem_keys {after : Datastore Double} {key : GoString}
    {block compacted : DatastoreBlock Double} (compaction : s.CompactedTo rt after key block compacted)
    {other : GoString} : other ∈ compacted.keys ↔ other ∈ block.keys := by
  rw [DatastoreBlock.keys, DatastoreBlock.keys, List.mem_append, List.mem_append, compaction.flushedKeys,
    compaction.newStreams]

/-- `compactBlock` of a block in which every variable has a value. -/
theorem Datastore.Sound.compactBlock (sound : s.Sound rt used) {key : GoString}
    {block : DatastoreBlock Double} (found : s.blocks.lookup key = some block)
    {file logged : List (Stream Double)} (blockSound : BlockSound rt s.disk.view block file logged)
    {orders : Orders} (clog : CompactionLog)
    (valued : Valued (addStreams ∅ (file ++ orders.logs.order block.logs))) :
    ∃ disk compacted, block.compactBlock rt orders clog s.disk = .ok (disk, compacted, none) ∧
      compacted.endKey = key ∧ (disk.incomplete = false →
        Datastore.Sound rt used { s with disk, blocks := s.blocks.insert key compacted } ∧
        s.CompactedTo rt { s with disk, blocks := s.blocks.insert key compacted } key block compacted) := by
  obtain ⟨disk, header, footer, result, reliable, success⟩ :=
    blockSound.compactBlock sound.reliable clog valued
  refine ⟨disk, block.compacted header footer, result, sound.endKey key block found, fun unbroken => ?_⟩
  obtain ⟨-, touches, written, compacted⟩ := success unbroken
  have sameKey : (block.compacted header footer).endKey = block.endKey := rfl
  have bounded : ∀ other ∈ (block.compacted header footer).keys, other ≤ key := by
    intro other member
    refine sound.bounded key block found other ?_
    rw [DatastoreBlock.keys, List.mem_append, compacted.keys] at member
    exact List.mem_append.mpr member
  obtain ⟨afterSound, held⟩ := sound.replace found sameKey rfl reliable unbroken touches bounded
    ⟨written, [], compacted.rewritten.sound⟩
  refine ⟨afterSound, rfl, rfl, rfl, touches, ?_, ⟨written, compacted.rewritten⟩, compacted.keys, rfl, rfl⟩
  · rw [compacted.rewritten.sound.held reliable, blockSound.held sound.reliable, compacted.held, heldBy_nil,
      add_zero] at held
    exact add_right_cancel held

/-! ## Splitting -/

theorem BlockSound.named {view : GoString → Option Bytes} {block : DatastoreBlock Double}
    {file logged : List (Stream Double)} (sound : BlockSound rt view block file logged) : block.Named := by
  refine ⟨fun entry member => ?_, sound.filed, sound.pending⟩
  rcases sound.onDisk with ⟨-, index, -⟩ | ⟨footer, -, layout⟩
  · rw [index] at member
    cases member
  · obtain ⟨entries, perm, indexed⟩ := layout.index
    obtain ⟨stream, present, before, after, -, rfl⟩ := indexedAt_of_mem indexed member
    exact (layout.stored stream (perm.mem_iff.mp present)).named

/-- A block of the store was split: the streams it had flushed up to `leftKey` went to a new block. -/
structure Datastore.SplitTo (rt : Runtime Double) (s after : Datastore Double) (key leftKey : GoString)
    (block left right : DatastoreBlock Double) : Prop where
  blocks : after.blocks = (s.blocks.insert key right).insert leftKey left
  blockKeys : after.blockKeys =
    if leftKey ∈ s.blocks then s.blockKeys else sortStrings (s.blockKeys ++ [leftKey])
  touches : OnlyTouches (block.ownFiles rt ++ left.ownFiles rt) s.disk.view after.disk.view
  rightId : right.id = block.id
  leftRewritten : ∃ file, Rewritten rt after.disk.view left file
  rightRewritten : ∃ file, Rewritten rt after.disk.view right file
  leftKeys : ∀ other, other ∈ left.flushedKeys ↔ other ∈ block.flushedKeys ∧ other ≤ leftKey
  rightKeys : ∀ other, other ∈ right.flushedKeys ↔ other ∈ block.flushedKeys ∧ leftKey < other
  leftLogs : left.logStreams = ∅
  rightLogs : right.logStreams = ∅
  leftNew : left.newStreams = []
  rightNew : right.newStreams = block.newStreams
  /-- A block that had the key of the left half is lost. -/
  held : after.held rt + (s.blocks.lookup leftKey).elim 0 (fun other => other.held rt s.disk) = s.held rt

theorem DatastoreBlock.ownFiles_congr (rt : Runtime Double) {block other : DatastoreBlock Double}
    (same : other.id = block.id) :
    other.ownFiles rt = block.ownFiles rt := by
  simp only [DatastoreBlock.ownFiles, DatastoreBlock.newFilename, DatastoreBlock.filename,
    DatastoreBlock.logFilename, same]

/-- A compaction and the division of the compacted block, taken together. -/
theorem Datastore.CompactedTo.splitTo (sound : s.Sound rt used) {middle after : Datastore Double}
    (middleReliable : middle.disk.Reliable) {key leftKey : GoString}
    {block compacted left right : DatastoreBlock Double} (found : s.blocks.lookup key = some block)
    (below : leftKey ≠ key) (compaction : s.CompactedTo rt middle key block compacted)
    (halves : middle.SplitTo rt after key leftKey compacted left right) :
    s.SplitTo rt after key leftKey block left right := by
  have lookup : middle.blocks.lookup leftKey = s.blocks.lookup leftKey := by
    rw [compaction.blocks, AList.lookup_insert_ne below]
  refine ⟨?_, ?_, ?_, halves.rightId.trans compaction.id, halves.leftRewritten, halves.rightRewritten,
    fun other => ?_, fun other => ?_, halves.leftLogs, halves.rightLogs, halves.leftNew,
    halves.rightNew.trans compaction.newStreams, ?_⟩
  · rw [halves.blocks, compaction.blocks, AList.insert_insert]
  · rw [halves.blockKeys, compaction.blockKeys]
    simp only [compaction.blocks, AList.mem_insert, below, false_or]
  · intro name foreign
    rw [List.mem_append, not_or] at foreign
    rw [← compaction.touches name foreign.1]
    refine halves.touches name fun member => ?_
    rw [List.mem_append, DatastoreBlock.ownFiles_congr rt compaction.id] at member
    exact member.elim foreign.1 foreign.2
  · rw [halves.leftKeys, compaction.flushedKeys]
  · rw [halves.rightKeys, compaction.flushedKeys]
  · rw [← compaction.held, ← halves.held, lookup]
    congr 1
    cases taken : s.blocks.lookup leftKey with
    | none => rfl
    | some other =>
      have otherValid := sound.valid _ (sound.drawn leftKey other taken)
      exact (compaction.touches.held sound.reliable middleReliable otherValid
        (sound.valid _ (sound.drawn key block found))
        fun same => below (sound.distinct leftKey other key block taken found same)).symm

/-- What `splitBlock` does to the store. -/
inductive Datastore.Split (rt : Runtime Double) (s : Datastore Double) (key : GoString)
    (uuid : Option GoString) : Datastore Double → Prop where
  | missing (absent : s.blocks.lookup key = none) : Split rt s key uuid s
  | tooFew {block : DatastoreBlock Double} (found : s.blocks.lookup key = some block)
      (whole : block.leftEndKey = none) : Split rt s key uuid s
  | compacted {block compacted : DatastoreBlock Double} {after : Datastore Double}
      (found : s.blocks.lookup key = some block) (undrawn : uuid = none)
      (compaction : s.CompactedTo rt after key block compacted) : Split rt s key uuid after
  | split {block left right : DatastoreBlock Double} {after : Datastore Double} {leftKey id : GoString}
      (found : s.blocks.lookup key = some block) (chosen : block.leftEndKey = some leftKey)
      (drawn : uuid = some id) (halves : s.SplitTo rt after key leftKey block left right) :
      Split rt s key uuid after

/-- The two blocks that a division has written: the left one on `middle`, then the right one on `after`. -/
structure Halves (rt : Runtime Double) (before middle after : Disk) (leftKey : GoString)
    (block left right : DatastoreBlock Double) (file leftFile rightFile : List (Stream Double)) : Prop where
  leftTouches : OnlyTouches (left.ownFiles rt) before.view middle.view
  rightTouches : OnlyTouches (block.ownFiles rt) middle.view after.view
  leftRewritten : Rewritten rt middle.view left leftFile
  rightRewritten : Rewritten rt after.view right rightFile
  leftKeys : ∀ key, key ∈ left.flushedKeys ↔ key ∈ block.flushedKeys ∧ key ≤ leftKey
  rightKeys : ∀ key, key ∈ right.flushedKeys ↔ key ∈ block.flushedKeys ∧ leftKey < key
  leftEnd : left.endKey = leftKey
  rightEnd : right.endKey = block.endKey
  rightId : right.id = block.id
  leftNew : left.newStreams = []
  rightNew : right.newStreams = block.newStreams
  held : heldBy leftFile + heldBy rightFile = heldBy file

/-- Putting both halves of a block into the store, the left one under an identifier that is new. -/
theorem Datastore.Sound.putHalves (sound : s.Sound rt used) {key leftKey : GoString}
    {block left right : DatastoreBlock Double} {file leftFile rightFile : List (Stream Double)}
    (found : s.blocks.lookup key = some block) (rewritten : Rewritten rt s.disk.view block file)
    (valid : ValidId left.id) (unused : left.id ∉ used) (below : leftKey ≠ key) {middle after : Disk}
    (middleReliable : middle.Reliable) (middleComplete : middle.incomplete = false)
    (reliable : after.Reliable) (complete : after.incomplete = false)
    (halves : Halves rt s.disk middle after leftKey block left right file leftFile rightFile) :
    (Datastore.insertBlock { s with disk := after, blocks := s.blocks.insert key right } left).Sound rt
        (used ++ [left.id]) ∧
      s.SplitTo rt (Datastore.insertBlock { s with disk := after, blocks := s.blocks.insert key right } left)
        key leftKey block left right := by
  have unowned : ∀ other kept, s.blocks.lookup other = some kept → kept.id ≠ left.id :=
    fun other kept lookup same => unused (same ▸ sound.drawn other kept lookup)
  have different := unowned key block found
  have drawn : left.id ∈ used ++ [left.id] := List.mem_append_right _ (List.mem_singleton_self _)
  -- the left half is written: no block has its identifier
  obtain ⟨touched, heldTouched⟩ :=
    (sound.draw fun other member => List.mem_singleton.mp member ▸ valid).touch drawn unowned
      middleReliable middleComplete halves.leftTouches
  have blockKept : BlockSound rt middle.view block file [] := rewritten.sound.congr fun name member =>
    halves.leftTouches.foreign rewritten.sound.valid valid different member
  -- the right half replaces the block
  have rightBounded : ∀ other ∈ right.keys, other ≤ key := by
    intro other member
    refine sound.bounded key block found other ?_
    rw [DatastoreBlock.keys, List.mem_append, halves.rightKeys, halves.rightNew] at member
    exact List.mem_append.mpr (member.imp_left And.left)
  obtain ⟨replaced, heldReplaced⟩ := touched.replace found halves.rightEnd halves.rightId reliable complete
    halves.rightTouches rightBounded ⟨_, [], halves.rightRewritten.sound⟩
  -- the left half is inserted
  have leftBounded : ∀ other ∈ left.keys, other ≤ left.endKey := by
    intro other member
    rw [DatastoreBlock.keys, List.mem_append, halves.leftKeys, halves.leftNew] at member
    exact halves.leftEnd ▸ member.elim And.right fun pending => by cases pending
  have leftKept : Rewritten rt after.view left leftFile := halves.leftRewritten.congr fun name member =>
    halves.rightTouches.foreign valid rewritten.sound.valid different.symm member
  obtain ⟨inserted, heldInserted⟩ := replaced.insertBlock drawn
    (fun other kept lookup => by
      rcases lookup_insert_cases lookup with ⟨-, rfl⟩ | ⟨-, old⟩
      · exact halves.rightId ▸ different
      · exact unowned other kept old) leftBounded ⟨_, [], leftKept.sound⟩
  refine ⟨inserted, ?_, ?_, ?_, halves.rightId, ⟨_, leftKept⟩, ⟨_, halves.rightRewritten⟩, halves.leftKeys,
    halves.rightKeys, leftKept.sound.logStreams, halves.rightRewritten.sound.logStreams, halves.leftNew,
    halves.rightNew, ?_⟩
  · rw [Datastore.insertBlock, halves.leftEnd]
  · simp only [Datastore.insertBlock, halves.leftEnd, AList.mem_insert, below, false_or]
  · intro name foreign
    rw [List.mem_append, not_or] at foreign
    exact (halves.rightTouches name foreign.1).trans (halves.leftTouches name foreign.2)
  · have lost : (s.blocks.lookup leftKey).elim 0 (fun other => other.held rt after) =
        (s.blocks.lookup leftKey).elim 0 (fun other => other.held rt s.disk) := by
      cases lookup : s.blocks.lookup leftKey with
      | none => rfl
      | some other =>
        have otherValid := sound.valid _ (sound.drawn leftKey other lookup)
        have apart : other.id ≠ block.id := fun same =>
          below (sound.distinct leftKey other key block lookup found same)
        exact (halves.rightTouches.held middleReliable reliable otherValid rewritten.sound.valid apart).trans
          (halves.leftTouches.held sound.reliable middleReliable otherValid valid
            (unowned leftKey other lookup))
    rw [halves.leftEnd, AList.lookup_insert_ne below, lost, leftKept.sound.held reliable,
      halves.leftNew] at heldInserted
    rw [heldTouched, blockKept.held middleReliable, halves.rightRewritten.sound.held reliable, halves.rightNew,
      ← halves.held] at heldReplaced
    simp only [heldBy_nil, add_zero] at heldInserted heldReplaced
    refine heldInserted.trans (add_right_cancel (Eq.trans ?_ heldReplaced))
    rw [add_assoc, add_assoc (heldBy leftFile)]

/-- What a compacted block holds is divided, and each half is written: the lower one to a file of its own, the upper
one in the place of the block's file. -/
theorem Datastore.Sound.writeHalves (sound : s.Sound rt used) {key id : GoString} {block : DatastoreBlock Double}
    {file : List (Stream Double)} (found : s.blocks.lookup key = some block)
    (rewritten : Rewritten rt s.disk.view block file) (valid : ValidId id) (unused : id ∉ used)
    {streams : StreamMap Double} (merged : MergedFrom block streams file []) (valued : Valued streams)
    (leftKey : GoString) (choices : SplitChoices) :
    ∃ lower upper leftDisk rightDisk left right,
      divideStreams leftKey ((Keyed.pairs streams).map Prod.snd) = .ok (lower, upper) ∧
      (newBlock leftKey id).write rt choices.left s.disk lower = .ok (leftDisk, left, none) ∧
      block.write rt choices.right leftDisk upper = .ok (rightDisk, right, none) ∧
      left.id = id ∧ right.endKey = key ∧ leftDisk.Reliable ∧ rightDisk.Reliable ∧
      (rightDisk.incomplete = false → leftDisk.incomplete = false ∧ ∃ leftFile rightFile,
        Halves rt s.disk leftDisk rightDisk leftKey block left right file leftFile rightFile) := by
  obtain ⟨lower, upper, divided, lowerSpec, upperSpec, heldHalves⟩ := divideStreams_pairs leftKey merged.filed
  have lowerFiled : Filed lower := fun other stream lookup =>
    merged.filed other stream ((lowerSpec other stream).mp lookup).1
  have lowerValued : Valued lower := fun other stream lookup =>
    valued other stream ((lowerSpec other stream).mp lookup).1
  have upperFiled : Filed upper := fun other stream lookup =>
    merged.filed other stream ((upperSpec other stream).mp lookup).1
  have upperValued : Valued upper := fun other stream lookup =>
    valued other stream ((upperSpec other stream).mp lookup).1
  obtain ⟨leftDisk, leftHeader, leftResult, leftReliable, leftSuccess⟩ :=
    (newBlock leftKey id).write_rewritten rt choices.left sound.reliable rfl lowerFiled lowerValued
  obtain ⟨rightDisk, rightHeader, rightResult, rightReliable, rightSuccess⟩ :=
    block.write_rewritten rt choices.right leftReliable rewritten.sound.version upperFiled upperValued
  refine ⟨lower, upper, leftDisk, rightDisk, _, _, divided, leftResult, rightResult, rfl, sound.endKey key block found,
    leftReliable, rightReliable, fun rightComplete => ?_⟩
  obtain ⟨leftComplete, rightWritten⟩ := rightSuccess rightComplete
  obtain ⟨-, leftWritten⟩ := leftSuccess leftComplete
  obtain ⟨leftTouches, leftRewritten, leftKeys⟩ := leftWritten [] (sound.newBlock_sound valid unused leftKey)
  have different : block.id ≠ id := fun same => unused (same ▸ sound.drawn key block found)
  have blockKept : BlockSound rt leftDisk.view block file [] := rewritten.sound.congr fun name member =>
    leftTouches.foreign rewritten.sound.valid valid different member
  obtain ⟨rightTouches, rightRewritten, rightKeys⟩ := rightWritten file blockKept
  refine ⟨leftComplete, writtenStreams rt choices.left lower, writtenStreams rt choices.right upper, ?_⟩
  exact {
    leftTouches
    rightTouches
    leftRewritten
    rightRewritten
    leftKeys := fun other => by
      rw [leftKeys, ← merged.keys, Keyed.mem_iff_lookup, Keyed.mem_iff_lookup]
      simp only [lowerSpec, exists_and_right]
    rightKeys := fun other => by
      rw [rightKeys, ← merged.keys, Keyed.mem_iff_lookup, Keyed.mem_iff_lookup]
      simp only [upperSpec, exists_and_right]
    leftEnd := rfl
    rightEnd := rfl
    rightId := rfl
    leftNew := rfl
    rightNew := rfl
    held := by
      rw [heldBy_writtenStreams, heldBy_writtenStreams, heldHalves, merged.held, heldBy_nil, add_zero] }

/-- The division of a block that was just compacted. -/
theorem Datastore.Sound.splitCompacted (sound : s.Sound rt used) {key leftKey : GoString}
    {block : DatastoreBlock Double} {file : List (Stream Double)}
    (found : s.blocks.lookup key = some block) (rewritten : Rewritten rt s.disk.view block file)
    {choices : SplitChoices} (fresh : ∀ id ∈ choices.uuid, ValidId id ∧ id ∉ used)
    {sortedKeys : List GoString} (several : 2 ≤ sortedKeys.length)
    (chosen : sortedKeys[sortedKeys.length / 2 - 1]? = some leftKey) (below : leftKey ≠ key) :
    ∃ after err, s.splitCompacted rt choices block sortedKeys = .ok (after, err) ∧
      (after.disk.incomplete = false → after.Sound rt (used ++ choices.uuid.toList) ∧
        (choices.uuid = none ∧ after = s ∨
          ∃ id left right, choices.uuid = some id ∧ s.SplitTo rt after key leftKey block left right)) := by
  have middle : sortedKeys.length / 2 < sortedKeys.length := by omega
  have logStreams : block.logStreams = ∅ := rewritten.sound.logStreams
  -- The block is read once more, from the file that the compaction has just written.
  have merged := rewritten.sound.merged choices.left.logs
  have read := DatastoreBlock.read_eq choices.left.logs sound.reliable rewritten.sound.onDisk
    rewritten.sound.filed ∅
  obtain ⟨streams, streamsDef⟩ : ∃ streams,
      addStreams ∅ (file ++ choices.left.logs.order block.logs) = streams := ⟨_, rfl⟩
  rw [streamsDef] at merged read
  have valued : Valued streams := merged.valued fun other stream lookup => by
    rw [logStreams] at lookup
    cases lookup
  rw [Datastore.splitCompacted, List.getElem?_eq_getElem middle, chosen]
  simp only [read, Fallible.ok_bind]
  -- Without an identifier the split stops before it writes anything.
  cases drawn : choices.uuid with
  | none =>
    refine ⟨s, _, rfl, fun _ => ⟨?_, .inl ⟨rfl, rfl⟩⟩⟩
    simpa using sound
  | some id =>
    obtain ⟨valid, unused⟩ := fresh id drawn
    obtain ⟨lower, upper, leftDisk, rightDisk, left, right, divided, leftResult, rightResult, leftId, rightEnd,
      leftReliable, rightReliable, written⟩ :=
      sound.writeHalves found rewritten valid unused merged valued leftKey choices
    simp only [divided, leftResult, rightResult, rightEnd, Fallible.ok_bind, Option.isSome_none,
      Bool.false_eq_true, if_false]
    refine ⟨_, _, rfl, fun unbroken => ?_⟩
    have rightComplete : rightDisk.incomplete = false := unbroken
    obtain ⟨leftComplete, leftFile, rightFile, halves⟩ := written rightComplete
    obtain ⟨inserted, splitTo⟩ := sound.putHalves found rewritten (leftId.symm ▸ valid)
      (leftId.symm ▸ unused) below leftReliable leftComplete rightReliable rightComplete halves
    rw [leftId] at inserted
    exact ⟨inserted, .inr ⟨id, left, right, rfl, splitTo⟩⟩

theorem Datastore.Sound.splitBlock (sound : s.Sound rt used) {key : GoString} {choices : SplitChoices}
    (fresh : ∀ id ∈ choices.uuid, ValidId id ∧ id ∉ used)
    (valued : ∀ block file logged, s.blocks.lookup key = some block → block.leftEndKey ≠ none →
      BlockSound rt s.disk.view block file logged →
        Valued (addStreams ∅ (file ++ choices.compaction.logs.order block.logs)))
    (complete : ∀ block, s.blocks.lookup key = some block → ∀ result,
      block.compactBlock rt choices.compaction choices.clog s.disk = .ok result → result.1.incomplete = false) :
    ∃ after err, s.splitBlock rt choices key = .ok (after, err) ∧ (after.disk.incomplete = false →
      after.Sound rt (used ++ choices.uuid.toList) ∧ s.Split rt key choices.uuid after) := by
  have drawn : s.Sound rt (used ++ choices.uuid.toList) :=
    sound.draw fun id member => (fresh id (by simpa using member)).1
  rw [Datastore.splitBlock]
  cases found : s.blocks.lookup key with
  | none => exact ⟨s, none, rfl, fun _ => ⟨drawn, .missing found⟩⟩
  | some block =>
    obtain ⟨file, logged, blockSound⟩ := sound.block key block found
    simp only [DatastoreBlock.splitKeys_eq blockSound.named, Fallible.ok_bind]
    by_cases few : (sortStrings block.keys.dedup).length < 2
    · rw [if_pos few]
      exact ⟨s, _, rfl, fun _ => ⟨drawn, .tooFew found (if_pos few)⟩⟩
    · rw [if_neg few]
      obtain ⟨leftKey, chosen⟩ : ∃ leftKey, block.leftEndKey = some leftKey := by
        rw [DatastoreBlock.leftEndKey, if_neg few]
        exact ⟨_, List.getElem?_eq_getElem (by omega)⟩
      -- The left key is never the last of the keys, so it is not the key of the block.
      obtain ⟨leftMember, above, aboveMember, leftBelow⟩ := DatastoreBlock.leftEndKey_spec chosen
      have below : leftKey ≠ key :=
        (leftBelow.trans_le (sound.bounded key block found above aboveMember)).ne
      -- The block is compacted first, and it is the compacted one that is divided.
      obtain ⟨disk, compacted, result, -, success⟩ := sound.compactBlock found blockSound
        choices.clog (valued block file logged found (by simp [chosen]) blockSound)
      have compactedComplete : disk.incomplete = false := complete block found _ result
      obtain ⟨compactedSound, compaction⟩ := success compactedComplete
      obtain ⟨written, rewritten⟩ := compaction.rewritten
      have index : (sortStrings block.keys.dedup)[(sortStrings block.keys.dedup).length / 2 - 1]? =
          some leftKey := by
        rwa [DatastoreBlock.leftEndKey, if_neg few] at chosen
      obtain ⟨after, err, split, unbroken⟩ := compactedSound.splitCompacted (AList.lookup_insert _) rewritten
        fresh (Nat.le_of_not_lt few) index below
      simp only [result, Fallible.ok_bind]
      refine ⟨after, err, split, fun afterComplete => ?_⟩
      obtain ⟨afterSound, outcome⟩ := unbroken afterComplete
      refine ⟨afterSound, ?_⟩
      rcases outcome with ⟨undrawn, rfl⟩ | ⟨id, left, right, drawn, halves⟩
      · exact .compacted found undrawn compaction
      · exact .split found chosen drawn
          (compaction.splitTo sound compactedSound.reliable found below halves)

end OpenInstrument
