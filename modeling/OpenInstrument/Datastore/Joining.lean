import OpenInstrument.Datastore.Steps

/-! # Joining blocks

`joinBlocks` reads all selected blocks into one file under the name of the last, and drops the others.
It reads no pending streams, and it reads the new file back under the key that the header tells.  When no
selected block has pending streams and the last one has flushed the variable that its key names, what
is left is the store without the selected blocks and with the joined one.
-/

namespace OpenInstrument

variable {Double : Type} {rt : Runtime Double} {used : List GoString} {s : Datastore Double}

/-! ## The selection -/

/-- Blocks of the store in the order of their keys. -/
structure Datastore.Selected (s : Datastore Double) (blocks : List (DatastoreBlock Double)) : Prop where
  found : ∀ block ∈ blocks, s.blocks.lookup block.endKey = some block
  increasing : blocks.Pairwise fun first second => first.endKey < second.endKey

theorem Datastore.Selected.sublist {blocks taken : List (DatastoreBlock Double)} (selected : s.Selected blocks)
    (sublist : taken.Sublist blocks) : s.Selected taken :=
  ⟨fun block member => selected.found block (sublist.subset member), selected.increasing.sublist sublist⟩

theorem selectBlock_sublist (blocks : List (DatastoreBlock Double))
    (state : UInt32 × List (DatastoreBlock Double)) :
    ∃ taken, (blocks.foldl selectBlock state).2 = state.2 ++ taken ∧ taken.Sublist blocks := by
  induction blocks generalizing state with
  | nil => exact ⟨[], by simp, .slnil⟩
  | cons block blocks inductionHypothesis =>
    obtain ⟨taken, result, sublist⟩ := inductionHypothesis (selectBlock state block)
    rw [List.foldl_cons, result, selectBlock]
    split
    · exact ⟨taken, rfl, sublist.cons block⟩
    · exact ⟨block :: taken, by simp, sublist.cons_cons block⟩

theorem Datastore.Sound.sortedBlocks_selected (sound : s.Sound rt used) : s.Selected s.sortedBlocks := by
  have perm : s.sortedBlocks.Perm ((Keyed.pairs s.blocks).map Prod.snd) := List.perm_insertionSort _ _
  have keyed : ∀ entry ∈ Keyed.pairs s.blocks, entry.2.endKey = entry.1 := fun entry member =>
    sound.endKey entry.1 entry.2 (Keyed.mem_pairs.mp member)
  have keys : ((Keyed.pairs s.blocks).map Prod.snd).map DatastoreBlock.endKey = s.blocks.keys := by
    rw [← Keyed.pairs_keys, List.map_map]
    exact List.map_congr_left keyed
  have distinct : (s.sortedBlocks.map DatastoreBlock.endKey).Nodup := by
    rw [(perm.map _).nodup_iff, keys]
    exact s.blocks.keys_nodup
  have sorted : s.sortedBlocks.Pairwise fun first second => first.endKey ≤ second.endKey :=
    List.pairwise_insertionSort _ _
  refine ⟨fun block member => ?_, ?_⟩
  · obtain ⟨⟨key, _⟩, listed, rfl⟩ := List.mem_map.mp (perm.mem_iff.mp member)
    rw [keyed _ listed]
    exact Keyed.mem_pairs.mp listed
  · exact sorted.imp₂ (fun _ _ le ne => lt_of_le_of_ne le ne) (List.pairwise_map.mp distinct)

theorem Datastore.Sound.joinSelection_selected (sound : s.Sound rt used) : s.Selected s.joinSelection := by
  obtain ⟨taken, result, sublist⟩ := selectBlock_sublist s.sortedBlocks (0, [])
  rw [List.nil_append] at result
  rw [Datastore.joinSelection]
  simp only [result]
  split
  · exact sound.sortedBlocks_selected.sublist sublist
  · exact ⟨fun block member => absurd member List.not_mem_nil, .nil⟩

/-! ## Reading the selected blocks -/

/-- Everything that some blocks without pending streams hold. -/
structure AllOf (rt : Runtime Double) (disk : Disk) (blocks : List (DatastoreBlock Double))
    (added : List (Stream Double)) : Prop where
  named : ∀ stream ∈ added, stream.HasVariable
  held : heldBy added = (blocks.map fun block => block.held rt disk).sum
  keys : ∀ key, (∃ stream ∈ added, stream.key = key) ↔ ∃ block ∈ blocks, key ∈ block.flushedKeys
  valued : (∀ block ∈ blocks, Valued block.logStreams) → ∀ stream ∈ added, stream.value ≠ []

theorem readAll_eq {disk : Disk} (reliable : disk.Reliable) {blocks : List (DatastoreBlock Double)}
    (sound : ∀ block ∈ blocks, ∃ file logged, BlockSound rt disk.view block file logged)
    (settled : ∀ block ∈ blocks, block.newStreams = []) (order : Iteration) (streams : StreamMap Double) :
    ∃ added, readAll rt order disk blocks streams = .ok (.ok (addStreams streams added)) ∧
      AllOf rt disk blocks added := by
  induction blocks generalizing streams with
  | nil => exact ⟨[], rfl, by simp, rfl, by simp, by simp⟩
  | cons block blocks inductionHypothesis =>
    obtain ⟨file, logged, blockSound⟩ := sound block List.mem_cons_self
    have perm := order.perm block.logs
    obtain ⟨added, read, all⟩ := inductionHypothesis
      (fun other member => sound other (List.mem_cons_of_mem _ member))
      (fun other member => settled other (List.mem_cons_of_mem _ member))
      (addStreams streams (file ++ order.order block.logs))
    refine ⟨file ++ order.order block.logs ++ added, ?_, ?_, ?_, fun key => ?_, fun valued => ?_⟩
    · rw [readAll, DatastoreBlock.read_eq order reliable blockSound.onDisk blockSound.filed streams,
        Fallible.ok_bind, addStreams_append streams (file ++ order.order block.logs)]
      exact read
    · intro stream member
      rcases List.mem_append.mp member with here | later
      · rcases List.mem_append.mp here with inFile | inLog
        · exact (blockSound.file_stored inFile).named
        · exact blockSound.logs_named (perm.mem_iff.mp inLog)
      · exact all.named stream later
    · rw [List.map_cons, List.sum_cons, ← all.held, blockSound.held reliable,
        settled block List.mem_cons_self, heldBy_nil, add_zero, ← blockSound.heldIn_logStreams,
        heldBy_append, heldBy_append, heldBy_perm perm, heldIn_eq_heldBy]
      rfl
    · rw [List.exists_mem_cons_iff, ← all.keys, blockSound.mem_flushedKeys_read order]
      simp only [List.mem_append, or_and_right, exists_or]
    · intro stream member
      rcases List.mem_append.mp member with here | later
      · rcases List.mem_append.mp here with inFile | inLog
        · exact (blockSound.file_stored inFile).valued
        · obtain ⟨key, found⟩ := DatastoreBlock.mem_logs.mp (perm.mem_iff.mp inLog)
          exact valued block List.mem_cons_self key stream found
      · exact all.valued (fun other present => valued other (List.mem_cons_of_mem _ present)) stream later

/-! ## Dropping the joined blocks -/

/-- What the last loop of `joinBlocks` does with a block that does not give the joined one its key. -/
theorem Datastore.dropJoined_other {newblock block : DatastoreBlock Double} (s : Datastore Double)
    (different : block.endKey ≠ newblock.endKey) :
    s.dropJoined rt newblock block =
      { s with
        disk := (s.disk.remove block.logFilename).remove block.filename
        blocks := s.blocks.erase block.endKey } := by
  rw [Datastore.dropJoined, if_neg different]

/-- The loop over these blocks works on the map without any other key just the same. -/
theorem dropJoined_erase {newblock : DatastoreBlock Double} {blocks : List (DatastoreBlock Double)}
    (different : ∀ block ∈ blocks, block.endKey ≠ newblock.endKey) (s : Datastore Double) (key : GoString) :
    blocks.foldl (Datastore.dropJoined rt newblock) { s with blocks := s.blocks.erase key } =
      { blocks.foldl (Datastore.dropJoined rt newblock) s with
        blocks := (blocks.foldl (Datastore.dropJoined rt newblock) s).blocks.erase key } := by
  induction blocks generalizing s with
  | nil => rfl
  | cons block blocks inductionHypothesis =>
    have here := different block List.mem_cons_self
    rw [List.foldl_cons, List.foldl_cons, Datastore.dropJoined_other _ here, Datastore.dropJoined_other _ here,
      AList.erase_erase]
    exact inductionHypothesis (fun other member => different other (List.mem_cons_of_mem _ member))
      { s with
        disk := (s.disk.remove block.logFilename).remove block.filename
        blocks := s.blocks.erase block.endKey }

/-- A store without some of its blocks. -/
structure Datastore.Dropped (rt : Runtime Double) (used : List GoString) (s after : Datastore Double)
    (blocks : List (DatastoreBlock Double)) : Prop where
  sound : after.Sound rt used
  held : after.held rt + (blocks.map fun block => block.held rt s.disk).sum = s.held rt
  blockKeys : after.blockKeys = s.blockKeys
  lookups : ∀ key block, after.blocks.lookup key = some block ↔
    s.blocks.lookup key = some block ∧ ∀ dropped ∈ blocks, key ≠ dropped.endKey
  touches : ∀ name, (∀ block ∈ blocks, name ∉ block.ownFiles rt) → after.disk.view name = s.disk.view name

/-- Writing the files of one block leaves what blocks with other keys hold. -/
theorem Datastore.Sound.held_others (sound : s.Sound rt used) {blocks : List (DatastoreBlock Double)}
    {written : DatastoreBlock Double} (found : ∀ block ∈ blocks, s.blocks.lookup block.endKey = some block)
    (foundWritten : s.blocks.lookup written.endKey = some written)
    (different : ∀ block ∈ blocks, block.endKey ≠ written.endKey) {after : Disk} (reliable : after.Reliable)
    (touches : OnlyTouches (written.ownFiles rt) s.disk.view after.view) :
    (blocks.map fun block => block.held rt after) = blocks.map fun block => block.held rt s.disk := by
  refine List.map_congr_left fun block member => ?_
  exact touches.held sound.reliable reliable (sound.valid _ (sound.drawn _ block (found block member)))
    (sound.valid _ (sound.drawn _ written foundWritten))
    fun same => different block member (sound.distinct _ block _ written (found block member) foundWritten same)

theorem Datastore.Sound.dropJoined_others (sound : s.Sound rt used) {newblock : DatastoreBlock Double}
    {blocks : List (DatastoreBlock Double)} (selected : s.Selected blocks)
    (different : ∀ block ∈ blocks, block.endKey ≠ newblock.endKey) :
    s.Dropped rt used (blocks.foldl (Datastore.dropJoined rt newblock) s) blocks := by
  induction blocks generalizing s with
  | nil => exact ⟨sound, by simp, rfl, by simp, fun _ _ => rfl⟩
  | cons block blocks inductionHypothesis =>
    have found := selected.found block List.mem_cons_self
    have increasing := List.pairwise_cons.mp selected.increasing
    have reliable := (sound.reliable.remove block.logFilename).remove block.filename
    have view : ((s.disk.remove block.logFilename).remove block.filename).view =
        Function.update (Function.update s.disk.view block.logFilename none) block.filename none := by
      rw [(sound.reliable.remove _).view_remove, sound.reliable.view_remove]
    have touches : OnlyTouches (block.ownFiles rt) s.disk.view
        ((s.disk.remove block.logFilename).remove block.filename).view := by
      rw [view]
      exact (OnlyTouches.update (by simp [DatastoreBlock.ownFiles]) _ _).trans
        (OnlyTouches.update (by simp [DatastoreBlock.ownFiles]) _ _)
    -- One turn takes the block from the map and its two files from the disk.
    obtain ⟨droppedSound, held⟩ := sound.drop found reliable (by simpa using sound.complete) touches
    rw [List.foldl_cons, Datastore.dropJoined_other _ (different block List.mem_cons_self)]
    obtain ⟨dropped, droppedDef⟩ : ∃ dropped : Datastore Double, dropped =
      { s with
        disk := (s.disk.remove block.logFilename).remove block.filename
        blocks := s.blocks.erase block.endKey } := ⟨_, rfl⟩
    rw [← droppedDef] at droppedSound held ⊢
    -- The blocks that follow have other keys, so they are still selected and hold what they held.
    have stillSelected : dropped.Selected blocks := by
      refine ⟨fun other member => ?_, increasing.2⟩
      rw [droppedDef, AList.lookup_erase_ne (increasing.1 other member).ne']
      exact selected.found other (List.mem_cons_of_mem _ member)
    have rest := inductionHypothesis droppedSound stillSelected
      fun other member => different other (List.mem_cons_of_mem _ member)
    have sameHeld : (blocks.map fun other => other.held rt dropped.disk) =
        blocks.map fun other => other.held rt s.disk :=
      sound.held_others (fun other member => selected.found other (List.mem_cons_of_mem _ member)) found
        (fun other member => (increasing.1 other member).ne') droppedSound.reliable (by rw [droppedDef]; exact touches)
    refine ⟨rest.sound, ?_, rest.blockKeys.trans (by rw [droppedDef]), fun key kept => ?_, fun name foreign => ?_⟩
    · rw [List.map_cons, List.sum_cons, ← held, ← rest.held, sameHeld]
      abel
    · rw [rest.lookups, droppedDef, Keyed.lookup_erase_eq_some, List.forall_mem_cons]
      tauto
    · rw [rest.touches name fun other member => foreign other (List.mem_cons_of_mem _ member), droppedDef]
      exact touches name (foreign block List.mem_cons_self)

/-! ## The whole join -/

/-- No selected block has pending streams, and the last has flushed the variable that its key names. -/
def JoinSafe (blocks : List (DatastoreBlock Double)) : Prop :=
  (∀ block ∈ blocks, block.newStreams = []) ∧ ∀ last ∈ blocks.getLast?, last.endKey ∈ last.flushedKeys

instance (blocks : List (DatastoreBlock Double)) : Decidable (JoinSafe blocks) :=
  inferInstanceAs (Decidable ((∀ block ∈ blocks, _ = []) ∧ ∀ last ∈ _, _))

/-- A join that meets the condition: the selected blocks are gone, and one block holds what they held. -/
structure Datastore.Joined (rt : Runtime Double) (used : List GoString) (s after : Datastore Double)
    (blocks : List (DatastoreBlock Double)) (joined : DatastoreBlock Double) : Prop where
  sound : after.Sound rt used
  held : after.held rt = s.held rt
  lookups : ∀ key block, after.blocks.lookup key = some block →
    block = joined ∨ s.blocks.lookup key = some block
  logStreams : joined.logStreams = ∅
  newStreams : joined.newStreams = []

theorem Datastore.readBlock_disk (s : Datastore Double) (name : GoString) :
    (s.readBlock rt name).disk = s.disk := by
  unfold Datastore.readBlock
  dsimp only
  split
  · split
    · split <;> rfl
    · rfl
  · rfl

theorem dropJoined_incomplete (rt : Runtime Double) (newblock : DatastoreBlock Double)
    (blocks : List (DatastoreBlock Double)) (s : Datastore Double) :
    (blocks.foldl (Datastore.dropJoined rt newblock) s).disk.incomplete = s.disk.incomplete := by
  induction blocks generalizing s with
  | nil => rfl
  | cons block blocks inductionHypothesis =>
    rw [List.foldl_cons, inductionHypothesis, Datastore.dropJoined]
    split
    · rw [Datastore.readBlock_disk, Disk.remove_incomplete]
    · simp only [Disk.remove_incomplete]

/-- The loop over all joined blocks: the last of them is read back from the new file. -/
theorem dropJoined_all {newblock last : DatastoreBlock Double} {others : List (DatastoreBlock Double)}
    (different : ∀ block ∈ others, block.endKey ≠ newblock.endKey) (same : last.endKey = newblock.endKey)
    (s : Datastore Double) {dropped : Datastore Double}
    (result : others.foldl (Datastore.dropJoined rt newblock) { s with blocks := s.blocks.erase last.endKey } =
      dropped) :
    (others ++ [last]).foldl (Datastore.dropJoined rt newblock) s =
      { dropped with disk := dropped.disk.remove last.logFilename }.readBlock rt newblock.filename := by
  rw [dropJoined_erase different] at result
  rw [List.foldl_append, List.foldl_cons, List.foldl_nil, Datastore.dropJoined, if_pos same, ← result]

/-- The greatest variable of the joined streams is the key of the last block. -/
theorem greatestKey_joined {added : List (Stream Double)} {disk : Disk}
    {blocks : List (DatastoreBlock Double)} {last : DatastoreBlock Double} (all : AllOf rt disk blocks added)
    (bounded : ∀ block ∈ blocks, ∀ key ∈ block.flushedKeys, key ≤ last.endKey) (member : last ∈ blocks)
    (flushed : last.endKey ∈ last.flushedKeys) :
    greatestKey (addStreams ∅ added).keys = last.endKey := by
  have keys : ∀ key, key ∈ (addStreams ∅ added).keys ↔ ∃ block ∈ blocks, key ∈ block.flushedKeys := by
    intro key
    rw [AList.mem_keys.symm, mem_addStreams, all.keys]
    simp
  have here : last.endKey ∈ (addStreams ∅ added).keys := (keys _).mpr ⟨last, member, flushed⟩
  obtain ⟨block, present, greatest⟩ := (keys _).mp (greatestKey_mem (List.ne_nil_of_mem here))
  exact le_antisymm (bounded block present _ greatest) (le_greatestKey here)

/-- A sound store as the last loop of `joinBlocks` leaves it before it reads the joined block back: the file
of the last block has been rewritten, and the blocks and all their other files are gone. -/
structure Datastore.Cleared (rt : Runtime Double) (used : List GoString) (s cleared : Datastore Double)
    (disk : Disk) (blocks : List (DatastoreBlock Double)) (last : DatastoreBlock Double) : Prop where
  sound : cleared.Sound rt used
  held : cleared.held rt + (blocks.map fun block => block.held rt s.disk).sum = s.held rt
  lookups : ∀ key block, cleared.blocks.lookup key = some block →
    key ≠ last.endKey ∧ s.blocks.lookup key = some block
  unowned : ∀ key block, cleared.blocks.lookup key = some block → block.id ≠ last.id
  kept : ∀ name ∈ last.ownFiles rt, name ≠ last.logFilename → cleared.disk.view name = disk.view name
  noLog : cleared.disk.view last.logFilename = none

theorem Datastore.Sound.clear (sound : s.Sound rt used) {others : List (DatastoreBlock Double)}
    {last newblock : DatastoreBlock Double} (selected : s.Selected (others ++ [last]))
    (sameKey : newblock.endKey = last.endKey) {disk : Disk} (reliable : disk.Reliable)
    (complete : disk.incomplete = false)
    (touches : OnlyTouches (last.ownFiles rt) s.disk.view disk.view) :
    ∃ cleared, s.Cleared rt used cleared disk (others ++ [last]) last ∧
      (others ++ [last]).foldl (Datastore.dropJoined rt newblock) { s with disk } =
        cleared.readBlock rt newblock.filename := by
  have lastFound := selected.found last (List.mem_append_right _ (List.mem_singleton_self _))
  have lastValid := sound.valid _ (sound.drawn _ last lastFound)
  have below : ∀ block ∈ others, block.endKey < last.endKey := fun block member =>
    (List.pairwise_append.mp selected.increasing).2.2 block member last (List.mem_singleton_self _)
  have foundOthers : ∀ block ∈ others, s.blocks.lookup block.endKey = some block := fun block member =>
    selected.found block (List.mem_append_left _ member)
  -- without the last block, whose file was rewritten
  obtain ⟨erasedSound, heldErased⟩ := sound.drop lastFound reliable complete touches
  have othersSelected : Datastore.Selected { s with disk, blocks := s.blocks.erase last.endKey } others := by
    refine ⟨fun block member => ?_, (selected.sublist (List.sublist_append_left _ _)).increasing⟩
    rw [AList.lookup_erase_ne (below block member).ne]
    exact foundOthers block member
  -- without the others
  have different : ∀ block ∈ others, block.endKey ≠ newblock.endKey := fun block member =>
    sameKey ▸ (below block member).ne
  obtain ⟨dropped, droppedDef⟩ : ∃ dropped, others.foldl (Datastore.dropJoined rt newblock)
      { s with disk, blocks := s.blocks.erase last.endKey } = dropped := ⟨_, rfl⟩
  have droppedSpec := erasedSound.dropJoined_others othersSelected different
  rw [droppedDef] at droppedSpec
  have old : ∀ key block, dropped.blocks.lookup key = some block →
      key ≠ last.endKey ∧ s.blocks.lookup key = some block := fun key block lookup =>
    Keyed.lookup_erase_eq_some.mp ((droppedSpec.lookups key block).mp lookup).1
  have unowned : ∀ key block, dropped.blocks.lookup key = some block → block.id ≠ last.id :=
    fun key block lookup same =>
      (old key block lookup).1 (sound.distinct key block _ last (old key block lookup).2 lastFound same)
  -- without the log of the last
  have view := droppedSpec.sound.reliable.view_remove last.logFilename
  have logTouches : OnlyTouches (last.ownFiles rt) dropped.disk.view
      (dropped.disk.remove last.logFilename).view := by
    rw [view]
    exact OnlyTouches.update (by simp [DatastoreBlock.ownFiles]) _ _
  obtain ⟨clearedSound, heldCleared⟩ := droppedSpec.sound.touch (sound.drawn _ last lastFound) unowned
    (droppedSpec.sound.reliable.remove _) (by simpa using droppedSpec.sound.complete) logTouches
  refine ⟨{ dropped with disk := dropped.disk.remove last.logFilename }, ⟨clearedSound, ?_, old, unowned, ?_, ?_⟩,
    dropJoined_all different sameKey.symm { s with disk } droppedDef⟩
  · have othersHeld : (others.map fun block => block.held rt disk) =
        others.map fun block => block.held rt s.disk :=
      sound.held_others foundOthers lastFound (fun block member => (below block member).ne) reliable touches
    rw [heldCleared, ← heldErased, ← droppedSpec.held, othersHeld, List.map_append, List.sum_append,
      List.map_singleton, List.sum_singleton, add_assoc]
  · intro name own notLog
    rw [view, Function.update_of_ne notLog]
    refine droppedSpec.touches name fun block member owned => ?_
    have blockFound := foundOthers block member
    have ids : block.id = last.id := by
      rw [← DatastoreBlock.fileOwner_ownFiles (sound.valid _ (sound.drawn _ block blockFound)) owned,
        DatastoreBlock.fileOwner_ownFiles lastValid own]
    exact (below block member).ne (sound.distinct _ block _ last blockFound lastFound ids)
  · rw [view, Function.update_self]

/-- No flushed key of the blocks is above the key of the last one. -/
theorem Datastore.Sound.flushedKeys_le (sound : s.Sound rt used) {others : List (DatastoreBlock Double)}
    {last : DatastoreBlock Double} (selected : s.Selected (others ++ [last])) :
    ∀ block ∈ others ++ [last], ∀ key ∈ block.flushedKeys, key ≤ last.endKey := by
  intro block member key flushed
  have bound := sound.bounded _ block (selected.found block member) key (List.mem_append_left _ flushed)
  rcases List.mem_append.mp member with other | single
  · exact bound.trans ((List.pairwise_append.mp selected.increasing).2.2 block other last (by simp)).le
  · exact List.mem_singleton.mp single ▸ bound

/-- The file of a joined block, written in the place of the last one's. -/
structure JoinedFile (rt : Runtime Double) (orders : Orders) (before after : Disk) (streams : StreamMap Double)
    (last joined : DatastoreBlock Double) : Prop where
  endKey : joined.endKey = last.endKey
  id : joined.id = last.id
  logStreams : joined.logStreams = ∅
  newStreams : joined.newStreams = []
  version : joined.blockHeader.version = some 2
  headerKey : joined.blockHeader.endKey = some (greatestKey streams.keys)
  onDisk : joined.OnDisk rt after.view (writtenStreams rt orders streams)
  present : after.view joined.filename ≠ none
  touches : OnlyTouches [joined.filename] before.view after.view
  noTemporary : before.view (joined.newFilename rt) = none

/-- In the store without the joined blocks, the joined block is sound, and its file is read back. -/
theorem Datastore.Cleared.joinedFile {cleared : Datastore Double} {orders : Orders} {disk : Disk}
    {streams : StreamMap Double} {blocks : List (DatastoreBlock Double)} {last joined : DatastoreBlock Double}
    (spec : s.Cleared rt used cleared disk blocks last) (written : JoinedFile rt orders s.disk disk streams last joined)
    (filed : Filed streams) (valid : ValidId last.id) :
    Rewritten rt cleared.disk.view joined (writtenStreams rt orders streams) ∧
      (∀ key, key ∈ joined.flushedKeys ↔ key ∈ streams) ∧
      ∃ blockFooter, cleared.readBlock rt joined.filename =
        cleared.insertBlock { newBlock joined.blockHeader.getEndKey joined.id with
          blockHeader := joined.blockHeader
          blockFooter } := by
  have joinedFiles : joined.ownFiles rt = last.ownFiles rt := DatastoreBlock.ownFiles_congr rt written.id
  have logName : joined.logFilename = last.logFilename := by simp only [DatastoreBlock.logFilename, written.id]
  have kept : ∀ name ∈ joined.ownFiles rt, name ≠ joined.logFilename →
      cleared.disk.view name = disk.view name := fun name own notLog =>
    spec.kept name (joinedFiles ▸ own) (logName ▸ notLog)
  have fileKept := kept joined.filename (by simp [DatastoreBlock.ownFiles]) joined.filename_ne_logFilename
  have onDisk : joined.OnDisk rt cleared.disk.view (writtenStreams rt orders streams) :=
    written.onDisk.congr rfl fileKept
  have noTemporary : cleared.disk.view (joined.newFilename rt) = none := by
    rw [kept _ (by simp [DatastoreBlock.ownFiles]) (joined.newFilename_ne_logFilename rt)]
    refine (written.touches _ fun member => ?_).trans written.noTemporary
    exact newFilename_ne rt joined (List.mem_singleton.mp member)
  obtain ⟨rewritten, keys⟩ := onDisk.rewritten filed (written.id ▸ valid) written.version written.headerKey
    (fileKept ▸ written.present) (logName ▸ spec.noLog) written.logStreams (by simp [written.newStreams]) noTemporary
  exact ⟨rewritten, keys, onDisk.readBlock spec.sound.reliable (written.id ▸ valid) (fileKept ▸ written.present)⟩

/-- The joined block is put in the place of the blocks. -/
theorem Datastore.Cleared.insertBlock {cleared : Datastore Double} {disk : Disk}
    {blocks : List (DatastoreBlock Double)} {last joined : DatastoreBlock Double}
    (spec : s.Cleared rt used cleared disk blocks last) (drawn : last.id ∈ used)
    (joinedKey : joined.endKey = last.endKey) (joinedId : joined.id = last.id)
    (bounded : ∀ key ∈ joined.keys, key ≤ joined.endKey)
    (blockSound : ∃ file logged, BlockSound rt cleared.disk.view joined file logged)
    (joinedHeld : joined.held rt cleared.disk = (blocks.map fun block => block.held rt s.disk).sum)
    (logStreams : joined.logStreams = ∅) (newStreams : joined.newStreams = []) :
    s.Joined rt used (cleared.insertBlock joined) blocks joined := by
  have absent : cleared.blocks.lookup joined.endKey = none := by
    rw [joinedKey, Option.eq_none_iff_forall_ne_some]
    exact fun block lookup => (spec.lookups _ block lookup).1 rfl
  obtain ⟨finalSound, heldFinal⟩ := spec.sound.insertBlock (joinedId ▸ drawn) (joinedId ▸ spec.unowned) bounded
    blockSound
  refine ⟨finalSound, ?_, fun key block lookup => ?_, logStreams, newStreams⟩
  · rw [absent, Option.elim_none, add_zero] at heldFinal
    rw [heldFinal, joinedHeld, spec.held]
  · rcases lookup_insert_cases lookup with ⟨-, rfl⟩ | ⟨-, old⟩
    · exact .inl rfl
    · exact .inr (spec.lookups _ _ old).2

theorem Datastore.Sound.joinBlocks (sound : s.Sound rt used) {blocks : List (DatastoreBlock Double)}
    (selected : s.Selected blocks) (nonempty : blocks ≠ []) (safe : JoinSafe blocks)
    (valued : ∀ block ∈ blocks, Valued block.logStreams) (orders : Orders) (clog : CompactionLog) :
    ∃ after, s.joinBlocks rt orders clog blocks = .ok after ∧ (after.disk.incomplete = false →
      ∃ joined, s.Joined rt used after blocks joined) := by
  obtain ⟨others, last, rfl⟩ := List.eq_nil_or_concat' blocks |>.resolve_left nonempty
  obtain ⟨settled, flushedLast⟩ := safe
  have lastMember : last ∈ others ++ [last] := List.mem_append_right _ (List.mem_singleton_self _)
  have lastFound := selected.found last lastMember
  obtain ⟨lastFile, lastLogged, lastSound⟩ := sound.block _ last lastFound
  -- the streams of all blocks, and the file they are written to
  obtain ⟨added, read, all⟩ := readAll_eq sound.reliable
    (fun block member => sound.block _ block (selected.found block member)) settled orders.logs ∅
  have filed : Filed (addStreams ∅ added) := Filed.empty.addStreams all.named
  have addedValued : Valued (addStreams ∅ added) :=
    valued_addStreams.mpr fun stream member => ⟨stream, member, rfl, all.valued valued stream member⟩
  obtain ⟨newblock, newblockDef⟩ : ∃ newblock : DatastoreBlock Double, newblock =
    { newBlock last.endKey last.id with
      blockFooter := { compactionLog := last.blockFooter.compactionLog ++ [clog] } } := ⟨_, rfl⟩
  obtain ⟨disk, header, result, reliable, success⟩ := newblock.write_onDisk rt orders sound.reliable
    (by rw [newblockDef]; rfl) filed addedValued
  obtain ⟨joined, joinedDef⟩ : ∃ joined : DatastoreBlock Double,
      joined = { newblock with blockHeader := header } := ⟨_, rfl⟩
  have names : newblock.newFilename rt = joined.newFilename rt ∧ newblock.filename = joined.filename := by
    rw [joinedDef]
    exact ⟨rfl, rfl⟩
  rw [← joinedDef, names.1, names.2] at success
  rw [← joinedDef] at result
  have joinedKey : joined.endKey = last.endKey := by rw [joinedDef, newblockDef]; rfl
  have joinedId : joined.id = last.id := by rw [joinedDef, newblockDef]; rfl
  have logStreams : joined.logStreams = ∅ := by rw [joinedDef, newblockDef]; rfl
  have newStreams : joined.newStreams = [] := by rw [joinedDef, newblockDef]; rfl
  obtain ⟨looped, loopedDef⟩ : ∃ looped,
      (others ++ [last]).foldl (Datastore.dropJoined rt joined) { s with disk } = looped := ⟨_, rfl⟩
  refine ⟨{ looped with blocks := looped.blocks.insert joined.endKey joined }, ?_,
    fun unbroken => ⟨joined, ?_⟩⟩
  · rw [Datastore.joinBlocks, List.getLast?_concat]
    simp only [read, Fallible.ok_bind, ← newblockDef, result, Option.isSome_none, Bool.false_eq_true, if_false,
      loopedDef]
    rfl
  · have complete : disk.incomplete = false := by
      have same := dropJoined_incomplete rt joined (others ++ [last]) { s with disk }
      rw [loopedDef] at same
      exact same.symm.trans unbroken
    have joinedFiles : joined.ownFiles rt = last.ownFiles rt := DatastoreBlock.ownFiles_congr rt joinedId
    have newName : joined.newFilename rt = last.newFilename rt := by
      simp only [DatastoreBlock.newFilename, DatastoreBlock.filename, joinedId]
    have noTemporary : s.disk.view (joined.newFilename rt) = none := newName ▸ lastSound.noTemporary
    obtain ⟨version, endKey, onDisk, present, touches⟩ := (success complete).2 noTemporary
    have written : JoinedFile rt orders s.disk disk (addStreams ∅ added) last joined :=
      { endKey := joinedKey, id := joinedId, logStreams, newStreams, version := by rw [joinedDef]; exact version
        headerKey := by rw [joinedDef]; exact endKey
        onDisk, present, touches, noTemporary }
    have greatest := greatestKey_joined all (sound.flushedKeys_le selected) lastMember (flushedLast last (by simp))
    -- the store without the joined blocks
    have lastTouches : OnlyTouches (last.ownFiles rt) s.disk.view disk.view := fun name foreign =>
      touches name fun member => foreign (joinedFiles ▸ List.mem_singleton.mp member ▸ List.mem_cons_self)
    obtain ⟨cleared, spec, loop⟩ := sound.clear selected joinedKey reliable complete lastTouches
    rw [loopedDef] at loop
    -- the joined block is read back under its own key, and replaces what was read
    obtain ⟨rewritten, keys, blockFooter, readBack⟩ := spec.joinedFile written filed lastSound.valid
    have getEndKey : joined.blockHeader.getEndKey = last.endKey := by
      rw [StoreFileHeader.getEndKey, written.headerKey, greatest]
      rfl
    rw [getEndKey] at readBack
    have final : ({ looped with blocks := looped.blocks.insert joined.endKey joined } : Datastore Double) =
        cleared.insertBlock joined := by
      rw [loop, readBack]
      simp only [Datastore.insertBlock, joinedKey, newBlock, AList.insert_insert]
      congr
    rw [final]
    have bounded : ∀ key ∈ joined.keys, key ≤ joined.endKey := by
      intro key member
      rw [DatastoreBlock.keys, newStreams, List.map_nil, List.append_nil, keys, AList.mem_keys] at member
      rw [joinedKey, ← greatest]
      exact le_greatestKey member
    have joinedHeld : joined.held rt cleared.disk =
        ((others ++ [last]).map fun block => block.held rt s.disk).sum := by
      rw [rewritten.sound.held spec.sound.reliable, heldBy_writtenStreams,
        heldIn_addStreams Filed.empty all.named, all.held, newStreams, heldBy_nil, add_zero, add_zero]
      exact zero_add _
    exact spec.insertBlock (sound.drawn _ last lastFound) joinedKey joinedId bounded ⟨_, [], rewritten.sound⟩
      joinedHeld logStreams newStreams

end OpenInstrument
