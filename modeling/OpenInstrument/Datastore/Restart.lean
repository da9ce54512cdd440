import OpenInstrument.Datastore.FlushRetry
import OpenInstrument.Datastore.Reader

/-! # What a restart makes of a directory

`readBlocks` goes through the block files first: each gives a block under the end key of its header, and takes the
place of an earlier one with this key.  Then it goes through the logs, in any order.  The streams of a log go to the
block with its identifier; a log without such a block becomes one under the greatest of its variables.

`Restores` says what comes back of one block, and `Restoring` what the store is like between two files.
-/

namespace OpenInstrument

variable {Double : Type} {rt : Runtime Double} {used : List GoString} {s t : Datastore Double}
  {block : DatastoreBlock Double}

/-! ## File names -/

/-- An identifier that does not make a block file look like a log. -/
def NotLog (id : GoString) : Prop := id ≠ ascii "log"

instance : DecidablePred NotLog := fun id => inferInstanceAs (Decidable (id ≠ ascii "log"))

theorem not_suffix_filename (valid : ValidId block.id) (plain : NotLog block.id) :
    ¬ ascii ".log" <:+ block.filename := by
  rintro ⟨front, split⟩
  rcases List.append_eq_append_iff.mp split with ⟨middle, stem, id⟩ | ⟨middle, -, id⟩
  · -- The dot of `.log` is the one behind `block`, so that the rest is the identifier.
    cases middle with
    | nil => exact valid.no_dot (by rw [← List.nil_append block.id, ← id]; decide)
    | cons byte middle =>
      cases middle with
      | nil => exact plain (List.cons.inj id).2.symm
      | cons second middle =>
        have last : (second :: middle).getLast? = some dot := by
          have ends := congrArg List.getLast? stem
          rw [List.getLast?_append_of_ne_nil _ (List.cons_ne_nil _ _), List.getLast?_cons_cons] at ends
          exact ends.symm
        have rest : ascii "log" = second :: middle ++ block.id := (List.cons.inj id).2
        have inside : dot ∈ ascii "log" := rest ▸ List.mem_append_left _ (List.mem_of_getLast? last)
        exact absurd inside (by decide)
  · exact valid.no_dot (by rw [id]; exact List.mem_append_right _ (by decide))

theorem isLogOrNewName_filename (valid : ValidId block.id) (plain : NotLog block.id) :
    isLogOrNewName block.filename = false := by
  have dots : block.filename.count dot = 1 := by
    rw [DatastoreBlock.filename, List.count_append, List.count_eq_zero.mpr valid.no_dot]
    decide
  rw [isLogOrNewName, Bool.or_eq_false_iff]
  constructor
  · rw [← Bool.not_eq_true, List.isSuffixOf_iff_suffix]
    exact not_suffix_filename valid plain
  · rw [Bool.and_eq_false_iff]
    refine .inr ?_
    rw [← Bool.not_eq_true, List.isSuffixOf_iff_suffix]
    intro suffix
    have few := (suffix.sublist.trans (List.take_sublist _ _)).count_le dot
    rw [dots] at few
    exact absurd few (by decide)

theorem isBlockName_filename (valid : ValidId block.id) : isBlockName block.filename = true := by
  have stem : block.filename.drop 6 = block.id := List.drop_left' rfl
  have longer : 6 < block.filename.length := by
    have positive := List.length_pos_iff.mpr valid.nonempty
    rw [DatastoreBlock.filename, List.length_append]
    exact Nat.lt_add_of_pos_right positive
  have start : (ascii "block.").isPrefixOf block.filename = true :=
    List.isPrefixOf_iff_prefix.mpr (List.prefix_append _ _)
  have plain : block.id.contains newline = false := by
    rw [← Bool.not_eq_true, List.contains_iff_mem]
    exact valid.no_newline
  rw [isBlockName, start, stem, plain, decide_eq_true longer]
  rfl

theorem isBlockLogName_filename (valid : ValidId block.id) (plain : NotLog block.id) :
    isBlockLogName block.filename = false := by
  rw [isBlockLogName, Bool.and_eq_false_iff]
  refine .inr ?_
  rw [← Bool.not_eq_true, List.isSuffixOf_iff_suffix]
  exact not_suffix_filename valid plain

theorem logFilename_suffix (block : DatastoreBlock Double) :
    (ascii ".log").isSuffixOf block.logFilename = true :=
  List.isSuffixOf_iff_suffix.mpr (List.suffix_append _ _)

theorem isLogOrNewName_logFilename (block : DatastoreBlock Double) : isLogOrNewName block.logFilename = true := by
  rw [isLogOrNewName, logFilename_suffix, Bool.true_or]

theorem isBlockLogName_logFilename (valid : ValidId block.id) : isBlockLogName block.logFilename = true := by
  have stem : block.logFilename.drop 6 = block.id ++ ascii ".log" := by
    rw [DatastoreBlock.logFilename, List.append_assoc]
    exact List.drop_left' rfl
  have longer : 10 < block.logFilename.length := by
    have positive := List.length_pos_iff.mpr valid.nonempty
    have length : block.logFilename.length = 6 + block.id.length + 4 := by
      rw [DatastoreBlock.logFilename, List.length_append, List.length_append]
      rfl
    omega
  have start : (ascii "block.").isPrefixOf block.logFilename = true := by
    rw [List.isPrefixOf_iff_prefix, DatastoreBlock.logFilename, List.append_assoc]
    exact List.prefix_append _ _
  have plain : (block.id ++ ascii ".log").contains newline = false := by
    rw [← Bool.not_eq_true, List.contains_iff_mem, List.mem_append]
    rintro (inside | inside)
    · exact valid.no_newline inside
    · exact absurd inside (by decide)
  rw [isBlockLogName, start, stem, plain, decide_eq_true longer, logFilename_suffix]
  rfl

/-! ## The key of a block that comes back -/

/-- The end key in the header of the block file or, without a block file, the greatest variable of the log. -/
def DatastoreBlock.restartKey (disk : Disk) (block : DatastoreBlock Double) : GoString :=
  if block.filename ∈ disk.files then block.blockHeader.getEndKey else greatestKey block.logStreams.keys

theorem Disk.view_eq_none {disk : Disk} {name : GoString} : disk.view name = none ↔ name ∉ disk.files :=
  AList.lookup_eq_none

theorem Disk.view_ne_none {disk : Disk} {name : GoString} : disk.view name ≠ none ↔ name ∈ disk.files :=
  Disk.view_eq_none.not.trans not_not

theorem BlockSound.file_eq_nil {view : GoString → Option Bytes} {file logged : List (Stream Double)}
    (sound : BlockSound rt view block file logged) (missing : view block.filename = none) : file = [] := by
  rcases sound.onDisk with ⟨-, -, none⟩ | ⟨footer, present, -⟩
  · exact none
  · rw [missing] at present
    cases present

theorem BlockSound.logged_eq_nil {view : GoString → Option Bytes} {file logged : List (Stream Double)}
    (sound : BlockSound rt view block file logged) (missing : view block.logFilename = none) : logged = [] := by
  by_contra some
  have present := sound.log
  rw [missing, if_neg some] at present
  cases present

theorem BlockSound.restartKey_eq {disk : Disk} {file logged : List (Stream Double)}
    (sound : BlockSound rt disk.view block file logged) : block.restartKey disk =
      greatestKey ((if block.filename ∈ disk.files then file else logged).map ValueStream.key) := by
  rw [DatastoreBlock.restartKey]
  split
  · rename_i present
    rcases sound.onDisk with ⟨missing, -, -⟩ | ⟨footer, -, layout⟩
    · exact absurd present (Disk.view_eq_none.mp missing)
    · rw [StoreFileHeader.getEndKey, layout.endKey]
      rfl
  · refine greatestKey_congr fun key => ?_
    rw [← AList.mem_keys, sound.logStreams, mem_addStreams, List.mem_map]
    simp

/-- A block never comes back under a greater key. -/
theorem Datastore.Sound.restartKey_le (sound : s.Sound rt used) {key : GoString}
    (found : s.blocks.lookup key = some block) : block.restartKey s.disk ≤ key := by
  obtain ⟨file, logged, blockSound⟩ := sound.block key block found
  rw [blockSound.restartKey_eq]
  refine greatestKey_le fun other member => ?_
  obtain ⟨stream, present, rfl⟩ := List.mem_map.mp member
  refine sound.bounded key block found _ (List.mem_append_left _ (blockSound.mem_flushedKeys.mpr ⟨stream, ?_, rfl⟩))
  split at present
  · exact List.mem_append_left _ present
  · exact List.mem_append_right _ present

/-- No two blocks come back under one key, unless neither holds a stream. -/
def Datastore.ComesBackApart (rt : Runtime Double) (s : Datastore Double) : Prop :=
  ∀ first ∈ Keyed.pairs s.blocks, ∀ second ∈ Keyed.pairs s.blocks,
    first.2.restartKey s.disk = second.2.restartKey s.disk →
      first.1 = second.1 ∨ first.2.streams rt s.disk = [] ∧ second.2.streams rt s.disk = []

instance (rt : Runtime Double) (s : Datastore Double) : Decidable (s.ComesBackApart rt) :=
  inferInstanceAs (Decidable (∀ first ∈ Keyed.pairs s.blocks, ∀ second ∈ Keyed.pairs s.blocks, _ → _))

/-- Every file of the directory belongs to a block of the store. -/
def Datastore.Owned (rt : Runtime Double) (s : Datastore Double) : Prop :=
  ∀ name ∈ s.disk.files.keys, ∃ entry ∈ Keyed.pairs s.blocks, name ∈ entry.2.ownFiles rt

instance (rt : Runtime Double) (s : Datastore Double) : Decidable (s.Owned rt) :=
  inferInstanceAs (Decidable (∀ name ∈ s.disk.files.keys, ∃ entry ∈ Keyed.pairs s.blocks, _))

/-! ## Between two files -/

/-- What has come back of a block when the block files `files` and the logs `logs` have been read. -/
structure Restores (disk : Disk) (files logs : List GoString) (block restored : DatastoreBlock Double) :
    Prop where
  read : block.filename ∈ files ∨ block.logFilename ∈ logs
  id : restored.id = block.id
  endKey : restored.endKey = block.restartKey disk
  header : restored.blockHeader =
    if block.filename ∈ files then block.blockHeader else (newBlock [] [] : DatastoreBlock Double).blockHeader
  logStreams : restored.logStreams = if block.logFilename ∈ logs then block.logStreams else ∅
  newStreams : restored.newStreams = []

theorem Restores.congr {disk : Disk} {files logs moreFiles moreLogs : List GoString}
    {restored : DatastoreBlock Double} (restores : Restores disk files logs block restored)
    (sameFiles : block.filename ∈ moreFiles ↔ block.filename ∈ files)
    (sameLogs : block.logFilename ∈ moreLogs ↔ block.logFilename ∈ logs) :
    Restores disk moreFiles moreLogs block restored := by
  obtain ⟨read, id, endKey, header, logStreams, newStreams⟩ := restores
  refine ⟨?_, id, endKey, ?_, ?_, newStreams⟩
  · rwa [sameFiles, sameLogs]
  · simpa only [sameFiles] using header
  · simpa only [sameLogs] using logStreams

/-- Everything that the directory has of a block has been read. -/
structure ReadWhole (disk : Disk) (files logs : List GoString) (block : DatastoreBlock Double) : Prop where
  file : block.filename ∈ files ↔ block.filename ∈ disk.files
  log : block.logFilename ∈ logs ↔ block.logFilename ∈ disk.files

/-- The store while `readBlocks` goes through the directory of `s`. -/
structure Restoring (rt : Runtime Double) (s : Datastore Double) (files logs : List GoString)
    (t : Datastore Double) : Prop where
  disk : t.disk = s.disk
  restored : ∀ key restored, t.blocks.lookup key = some restored → ∃ source block,
    s.blocks.lookup source = some block ∧ Restores s.disk files logs block restored ∧
      key = block.restartKey s.disk
  found : ∀ source block, s.blocks.lookup source = some block → block.streams rt s.disk ≠ [] →
    block.filename ∈ files ∨ block.logFilename ∈ logs →
      ∃ restored, t.blocks.lookup (block.restartKey s.disk) = some restored ∧ restored.id = block.id

/-- A block that comes back displaces no other one that holds a stream. -/
theorem Restoring.insert {files logs moreFiles moreLogs : List GoString} (restoring : Restoring rt s files logs t)
    (sound : s.Sound rt used) (apart : s.ComesBackApart rt) {source : GoString}
    (found : s.blocks.lookup source = some block) {restored : DatastoreBlock Double}
    (restores : Restores s.disk moreFiles moreLogs block restored)
    (others : ∀ other : DatastoreBlock Double, other.id ≠ block.id →
      (other.filename ∈ moreFiles ↔ other.filename ∈ files) ∧
        (other.logFilename ∈ moreLogs ↔ other.logFilename ∈ logs))
    {after : Datastore Double} (disk : after.disk = s.disk)
    (blocks : after.blocks = t.blocks.insert (block.restartKey s.disk) restored) :
    Restoring rt s moreFiles moreLogs after := by
  have same : ∀ {key other}, s.blocks.lookup key = some other → other.id = block.id → key = source ∧ other = block := by
    intro key other lookup id
    obtain rfl := sound.distinct key other source block lookup found id
    exact ⟨rfl, Option.some.inj (lookup.symm.trans found)⟩
  refine ⟨disk, fun key kept lookup => ?_, fun key other lookup streams read => ?_⟩
  · rw [blocks] at lookup
    rcases lookup_insert_cases lookup with ⟨rfl, rfl⟩ | ⟨different, old⟩
    · exact ⟨source, block, found, restores, rfl⟩
    · obtain ⟨otherSource, other, otherFound, otherRestores, rfl⟩ := restoring.restored key kept old
      have apartIds : other.id ≠ block.id := fun id => different ((same otherFound id).2 ▸ rfl)
      exact ⟨otherSource, other, otherFound,
        otherRestores.congr (others other apartIds).1 (others other apartIds).2, rfl⟩
  · rw [blocks]
    by_cases id : other.id = block.id
    · obtain ⟨-, rfl⟩ := same lookup id
      exact ⟨restored, AList.lookup_insert _, restores.id⟩
    · rw [(others other id).1, (others other id).2] at read
      obtain ⟨kept, old, keptId⟩ := restoring.found key other lookup streams read
      have different : other.restartKey s.disk ≠ block.restartKey s.disk := by
        intro keys
        rcases apart (key, other) (Keyed.mem_pairs.mpr lookup) (source, block) (Keyed.mem_pairs.mpr found) keys with
          rfl | ⟨none, -⟩
        · exact id (congrArg DatastoreBlock.id (Option.some.inj (lookup.symm.trans found)))
        · exact streams none
      exact ⟨kept, (AList.lookup_insert_ne different).trans old, keptId⟩

theorem Restoring.ids_nodup {files logs : List GoString} (restoring : Restoring rt s files logs t)
    (sound : s.Sound rt used) : ((Keyed.pairs t.blocks).map fun entry => entry.2.id).Nodup := by
  refine Keyed.tags_nodup DatastoreBlock.id fun first one second other foundOne foundOther same => ?_
  obtain ⟨source, block, original, restores, rfl⟩ := restoring.restored first one foundOne
  obtain ⟨otherSource, otherBlock, otherOriginal, otherRestores, rfl⟩ := restoring.restored second other foundOther
  obtain rfl := sound.distinct source block otherSource otherBlock original otherOriginal
    (restores.id.symm.trans (same.trans otherRestores.id))
  rw [Option.some.inj (original.symm.trans otherOriginal)]

/-! ## The block files -/

theorem Restoring.readBlock {files : List GoString} (restoring : Restoring rt s files [] t)
    (sound : s.Sound rt used) (apart : s.ComesBackApart rt) {source : GoString}
    (found : s.blocks.lookup source = some block) (present : block.filename ∈ s.disk.files) :
    Restoring rt s (files ++ [block.filename]) [] (t.readBlock rt block.filename) := by
  obtain ⟨file, logged, blockSound⟩ := sound.block source block found
  have onDisk : block.OnDisk rt t.disk.view file := restoring.disk ▸ blockSound.onDisk
  obtain ⟨blockFooter, read⟩ := onDisk.readBlock (restoring.disk ▸ sound.reliable) blockSound.valid
    (by rw [restoring.disk, Disk.view_ne_none]; exact present)
  have key : block.restartKey s.disk = block.blockHeader.getEndKey := if_pos present
  have here : block.filename ∈ files ++ [block.filename] := List.mem_append_right _ (List.mem_singleton_self _)
  have restores : Restores s.disk (files ++ [block.filename]) [] block
      { (newBlock block.blockHeader.getEndKey block.id : DatastoreBlock Double) with
        blockHeader := block.blockHeader, blockFooter } :=
    ⟨.inl here, rfl, key.symm, (if_pos here).symm, rfl, rfl⟩
  rw [read]
  refine restoring.insert sound apart found restores (fun other different => ⟨?_, Iff.rfl⟩)
    restoring.disk (by rw [key]; rfl)
  rw [List.mem_append, List.mem_singleton, or_iff_left]
  exact fun same => different (List.append_cancel_left same)

theorem Restoring.readFiles (sound : s.Sound rt used) (apart : s.ComesBackApart rt) {names : List GoString}
    (each : ∀ name ∈ names, ∃ source block, s.blocks.lookup source = some block ∧
      name = block.filename ∧ name ∈ s.disk.files) {files : List GoString} (restoring : Restoring rt s files [] t) :
    Restoring rt s (files ++ names) [] (names.foldl (fun t name => t.readBlock rt name) t) := by
  induction names generalizing files t with
  | nil => rwa [List.append_nil]
  | cons name names inductionHypothesis =>
    obtain ⟨source, block, found, rfl, present⟩ := each _ List.mem_cons_self
    rw [List.append_cons]
    exact inductionHypothesis (fun other member => each other (List.mem_cons_of_mem _ member))
      (restoring.readBlock sound apart found present)

/-! ## The logs -/

theorem BlockSound.logged_ne_nil {disk : Disk} {file logged : List (Stream Double)}
    (sound : BlockSound rt disk.view block file logged) (present : block.logFilename ∈ disk.files) :
    logged ≠ [] := by
  intro none
  have absent := sound.log
  rw [if_pos none] at absent
  exact Disk.view_eq_none.mp absent present

theorem BlockSound.streams_ne_nil {disk : Disk} {file logged : List (Stream Double)}
    (sound : BlockSound rt disk.view block file logged) (present : block.logFilename ∈ disk.files) :
    block.streams rt disk ≠ [] := by
  obtain ⟨stream, rest, first⟩ := List.exists_cons_of_ne_nil (sound.logged_ne_nil present)
  have filed : stream.key ∈ block.logStreams := by
    rw [sound.logStreams, mem_addStreams]
    exact .inr ⟨stream, first ▸ List.mem_cons_self, rfl⟩
  obtain ⟨kept, lookup⟩ := Keyed.mem_iff_lookup.mp filed
  have inLogs : kept ∈ block.logs := DatastoreBlock.mem_logs.mpr ⟨_, lookup⟩
  exact List.ne_nil_of_mem (List.mem_append_left _ (List.mem_append_left _ inLogs))

/-- `readBlockLog` finds the block that has come back under the identifier of the log. -/
theorem Restoring.find_id {files logs : List GoString} (restoring : Restoring rt s files logs t)
    (sound : s.Sound rt used) {source : GoString} (found : s.blocks.lookup source = some block)
    {restored : DatastoreBlock Double} (back : t.blocks.lookup (block.restartKey s.disk) = some restored)
    (id : restored.id = block.id) :
    (Keyed.pairs t.blocks).find? (fun entry => entry.2.id == block.id) =
      some (block.restartKey s.disk, restored) := by
  cases search : (Keyed.pairs t.blocks).find? fun entry => entry.2.id == block.id with
  | none => exact absurd (beq_iff_eq.mpr id) (List.find?_eq_none.mp search _ (Keyed.mem_pairs.mpr back))
  | some entry =>
    obtain ⟨key, other⟩ := entry
    have sameId := List.find?_some search
    have otherId : other.id = block.id := beq_iff_eq.mp sameId
    have lookup := Keyed.mem_pairs.mp (List.mem_of_find?_eq_some search)
    obtain ⟨otherSource, original, originalFound, restores, rfl⟩ := restoring.restored key other lookup
    obtain rfl := sound.distinct otherSource original source block originalFound found
      (restores.id.symm.trans otherId)
    obtain rfl := Option.some.inj (originalFound.symm.trans found)
    rw [back] at lookup
    rw [Option.some.inj lookup]

/-- `readBlockLog`, for a log whose block has come back. -/
theorem Datastore.readBlockLog_attached {name key : GoString} {content : Bytes} {endKey : GoString}
    {logStreams : StreamMap Double} {existing : DatastoreBlock Double}
    (opened : s.disk.readProtoFile (newBlock [] (blockIdFromFilename name) : DatastoreBlock Double).logFilename =
      .opened content)
    (search : (Keyed.pairs s.blocks).find? (fun entry => entry.2.id == blockIdFromFilename name) =
      some (key, existing))
    (replayed : replay rt content = .ok (endKey, logStreams)) :
    s.readBlockLog rt name = .ok { s with blocks := s.blocks.insert key { existing with logStreams } } := by
  rw [replay] at replayed
  have same : (newBlock [] (blockIdFromFilename name) : DatastoreBlock Double).id = blockIdFromFilename name := rfl
  simp only [Datastore.readBlockLog, opened, replayed, same, search, Fallible.ok_bind]
  rfl

theorem Restoring.readBlockLog {files logs : List GoString} (restoring : Restoring rt s files logs t)
    (sound : s.Sound rt used) (apart : s.ComesBackApart rt) {source : GoString}
    (found : s.blocks.lookup source = some block)
    (complete : block.filename ∈ files ↔ block.filename ∈ s.disk.files)
    (present : block.logFilename ∈ s.disk.files) (unread : block.logFilename ∉ logs) :
    ∃ after, t.readBlockLog rt block.logFilename = .ok after ∧
      Restoring rt s files (logs ++ [block.logFilename]) after := by
  obtain ⟨file, logged, blockSound⟩ := sound.block source block found
  have here : block.logFilename ∈ logs ++ [block.logFilename] :=
    List.mem_append_right _ (List.mem_singleton_self _)
  have others : ∀ other : DatastoreBlock Double, other.id ≠ block.id →
      (other.filename ∈ files ↔ other.filename ∈ files) ∧
        (other.logFilename ∈ logs ++ [block.logFilename] ↔ other.logFilename ∈ logs) := by
    intro other different
    rw [List.mem_append, List.mem_singleton, or_iff_left]
    · exact ⟨Iff.rfl, Iff.rfl⟩
    · exact fun same => different (List.append_cancel_left (List.append_cancel_right same))
  have name : blockIdFromFilename block.logFilename = block.id :=
    blockIdFromFilename_eq blockSound.valid fun _ first => (Option.some.inj first).symm
  have opened : t.disk.readProtoFile
      (newBlock [] (blockIdFromFilename block.logFilename) : DatastoreBlock Double).logFilename =
        .opened (frames rt.stream logged) := by
    have sameName : (newBlock [] (blockIdFromFilename block.logFilename) : DatastoreBlock Double).logFilename =
        block.logFilename := by rw [name]; rfl
    rw [sameName, restoring.disk, sound.reliable.readProtoFile, blockSound.log,
      if_neg (blockSound.logged_ne_nil present)]
  have replayed : replay rt (frames rt.stream logged) =
      .ok (greatestKey (logged.map ValueStream.key), block.logStreams) := by
    rw [blockSound.logStreams]
    exact replay_frames blockSound.loggedStreams
  by_cases file : block.filename ∈ files
  · obtain ⟨restored, back, id⟩ :=
      restoring.found source block found (blockSound.streams_ne_nil present) (.inl file)
    have search := restoring.find_id sound found back id
    obtain ⟨otherSource, other, otherFound, restores, -⟩ := restoring.restored _ restored back
    obtain rfl := sound.distinct otherSource other source block otherFound found (restores.id.symm.trans id)
    obtain rfl := Option.some.inj (found.symm.trans otherFound)
    have attached : Restores s.disk files (logs ++ [block.logFilename]) block
        { restored with logStreams := block.logStreams } :=
      ⟨.inr here, restores.id, restores.endKey, restores.header, (if_pos here).symm, restores.newStreams⟩
    exact ⟨_, Datastore.readBlockLog_attached opened (by rw [name]; exact search) replayed,
      restoring.insert sound apart found attached others restoring.disk rfl⟩
  · have search : (Keyed.pairs t.blocks).find? (fun entry => entry.2.id == block.id) = none := by
      refine List.find?_eq_none.mpr fun entry member same => ?_
      obtain ⟨otherSource, other, otherFound, restores, -⟩ :=
        restoring.restored entry.1 entry.2 (Keyed.mem_pairs.mp member)
      obtain rfl := sound.distinct otherSource other source block otherFound found
        (restores.id.symm.trans (beq_iff_eq.mp same))
      obtain rfl := Option.some.inj (otherFound.symm.trans found)
      exact restores.read.elim file unread
    have key : block.restartKey s.disk = greatestKey (logged.map ValueStream.key) := by
      rw [blockSound.restartKey_eq, if_neg (mt complete.mpr file)]
    have alone : Restores s.disk files (logs ++ [block.logFilename]) block
        { (newBlock [] block.id : DatastoreBlock Double) with
          endKey := greatestKey (logged.map ValueStream.key), logStreams := block.logStreams } :=
      ⟨.inr here, rfl, key.symm, (if_neg file).symm, (if_pos here).symm, rfl⟩
    refine ⟨_, Datastore.readBlockLog_replay opened (by rw [name]; exact search) replayed, ?_⟩
    rw [name]
    exact restoring.insert sound apart found alone others restoring.disk (by rw [key]; rfl)

theorem Restoring.readLogs (sound : s.Sound rt used) (apart : s.ComesBackApart rt) {names files logs : List GoString}
    (each : ∀ name ∈ names, ∃ source block, s.blocks.lookup source = some block ∧
      name = block.logFilename ∧ name ∈ s.disk.files)
    (complete : ∀ source block, s.blocks.lookup source = some block →
      (block.filename ∈ files ↔ block.filename ∈ s.disk.files))
    (distinct : (logs ++ names).Nodup) (restoring : Restoring rt s files logs t) :
    ∃ after, names.foldlM (fun t name => t.readBlockLog rt name) t = .ok after ∧
      Restoring rt s files (logs ++ names) after := by
  induction names generalizing logs t with
  | nil => exact ⟨t, rfl, by rwa [List.append_nil]⟩
  | cons name names inductionHypothesis =>
    obtain ⟨source, block, found, rfl, present⟩ := each _ List.mem_cons_self
    have unread : block.logFilename ∉ logs := fun member =>
      (List.nodup_append.mp distinct).2.2 _ member _ List.mem_cons_self rfl
    obtain ⟨next, first, between⟩ :=
      restoring.readBlockLog sound apart found (complete source block found) present unread
    rw [List.append_cons] at distinct ⊢
    obtain ⟨after, rest, restored⟩ := inductionHypothesis
      (fun other member => each other (List.mem_cons_of_mem _ member)) distinct between
    exact ⟨after, by rw [List.foldlM_cons, first]; exact rest, restored⟩

/-! ## The directory -/

theorem mem_sortedNames {disk : Disk} {name : GoString} : name ∈ sortStrings disk.files.keys ↔ name ∈ disk.files :=
  (sortStrings_perm _).mem_iff

/-- The file of a block that is taken for a block file. -/
theorem DatastoreBlock.eq_filename {name : GoString} (own : name ∈ block.ownFiles rt)
    (present : s.disk.view name ≠ none) (noTemporary : s.disk.view (block.newFilename rt) = none)
    (unlogged : isLogOrNewName name = false) : name = block.filename := by
  simp only [DatastoreBlock.ownFiles, List.mem_cons, List.not_mem_nil, or_false] at own
  rcases own with rfl | rfl | rfl
  · rfl
  · exact absurd unlogged (by simp [isLogOrNewName_logFilename])
  · exact absurd noTemporary present

/-- The file of a block that is taken for a log. -/
theorem DatastoreBlock.eq_logFilename {name : GoString} (own : name ∈ block.ownFiles rt)
    (valid : ValidId block.id) (plain : NotLog block.id) (present : s.disk.view name ≠ none)
    (noTemporary : s.disk.view (block.newFilename rt) = none) (isLog : isBlockLogName name = true) :
    name = block.logFilename := by
  simp only [DatastoreBlock.ownFiles, List.mem_cons, List.not_mem_nil, or_false] at own
  rcases own with rfl | rfl | rfl
  · exact absurd isLog (by simp [isBlockLogName_filename valid plain])
  · rfl
  · exact absurd noTemporary present

/-- `readBlocks` gets through a directory in which every file belongs to a block. -/
theorem Datastore.Sound.readBlocks (sound : s.Sound rt used) (plain : ∀ id ∈ used, NotLog id)
    (owned : s.Owned rt) (apart : s.ComesBackApart rt) (order : Iteration) :
    ∃ t files logs, Datastore.readBlocks rt order s.disk = .ok (some t) ∧ Restoring rt s files logs t ∧
      ∀ key block, s.blocks.lookup key = some block → ReadWhole s.disk files logs block := by
  have owner : ∀ name ∈ s.disk.files, ∃ key block file logged, s.blocks.lookup key = some block ∧
      name ∈ block.ownFiles rt ∧ NotLog block.id ∧ BlockSound rt s.disk.view block file logged := by
    intro name present
    obtain ⟨⟨key, block⟩, listed, own⟩ := owned name (AList.mem_keys.mp present)
    have found := Keyed.mem_pairs.mp listed
    obtain ⟨file, logged, blockSound⟩ := sound.block key block found
    exact ⟨key, block, file, logged, found, own, plain _ (sound.drawn key block found), blockSound⟩
  obtain ⟨files, filesDef⟩ : ∃ files, (sortStrings s.disk.files.keys).filter
      (fun name => isBlockName name && !isLogOrNewName name) = files := ⟨_, rfl⟩
  obtain ⟨logs, logsDef⟩ : ∃ logs,
      order.order ((sortStrings s.disk.files.keys).filter isBlockLogName) = logs := ⟨_, rfl⟩
  have mem_files : ∀ name, name ∈ files ↔ name ∈ s.disk.files ∧ isBlockName name ∧ isLogOrNewName name = false := by
    intro name
    rw [← filesDef, List.mem_filter, mem_sortedNames]
    simp
  have mem_logs : ∀ name, name ∈ logs ↔ name ∈ s.disk.files ∧ isBlockLogName name := by
    intro name
    rw [← logsDef, (order.perm _).mem_iff, List.mem_filter, mem_sortedNames]
  have whole : ∀ key block, s.blocks.lookup key = some block → ReadWhole s.disk files logs block := by
    intro key block found
    have drawn := sound.drawn key block found
    have valid := sound.valid _ drawn
    exact ⟨(mem_files _).trans
        (and_iff_left ⟨isBlockName_filename valid, isLogOrNewName_filename valid (plain _ drawn)⟩),
      (mem_logs _).trans (and_iff_left (isBlockLogName_logFilename valid))⟩
  have eachFile : ∀ name ∈ files, ∃ key block, s.blocks.lookup key = some block ∧ name = block.filename ∧
      name ∈ s.disk.files := by
    intro name member
    obtain ⟨present, -, unlogged⟩ := (mem_files name).mp member
    obtain ⟨key, block, file, logged, found, own, -, blockSound⟩ := owner name present
    exact ⟨key, block, found, DatastoreBlock.eq_filename own (Disk.view_ne_none.mpr present)
      blockSound.noTemporary unlogged, present⟩
  have eachLog : ∀ name ∈ logs, ∃ key block, s.blocks.lookup key = some block ∧ name = block.logFilename ∧
      name ∈ s.disk.files := by
    intro name member
    obtain ⟨present, isLog⟩ := (mem_logs name).mp member
    obtain ⟨key, block, file, logged, found, own, unlike, blockSound⟩ := owner name present
    exact ⟨key, block, found, DatastoreBlock.eq_logFilename own blockSound.valid unlike
      (Disk.view_ne_none.mpr present) blockSound.noTemporary isLog, present⟩
  have distinct : logs.Nodup := by
    rw [← logsDef, (order.perm _).nodup_iff]
    exact ((sortStrings_perm _).nodup_iff.mpr s.disk.files.keys_nodup).filter _
  have empty : Restoring rt s [] [] { disk := s.disk, blocks := ∅, blockKeys := [] } :=
    ⟨rfl, fun _ _ found => (by cases found), fun _ _ _ _ read => (by simp at read)⟩
  have filesRead := empty.readFiles sound apart eachFile
  rw [List.nil_append] at filesRead
  obtain ⟨t, run, restoring⟩ := filesRead.readLogs sound apart eachLog
    (fun key block found => (whole key block found).file) (by rwa [List.nil_append])
  rw [List.nil_append] at restoring
  refine ⟨t, files, logs, ?_, restoring, whole⟩
  simp only [Datastore.readBlocks, sound.reliable .readDirectory, filesDef, logsDef, run, Fallible.ok_bind]
  rfl

/-! ## A block that has come back -/

section Restored

variable {files logs : List GoString} {restored : DatastoreBlock Double} {file logged : List (Stream Double)}

theorem Restores.logStreams_eq (restores : Restores s.disk files logs block restored)
    (blockSound : BlockSound rt s.disk.view block file logged) (whole : ReadWhole s.disk files logs block) :
    restored.logStreams = block.logStreams := by
  rw [restores.logStreams]
  split
  · rfl
  · rename_i unread
    rw [blockSound.logStreams, blockSound.logged_eq_nil (Disk.view_eq_none.mpr (mt whole.log.mpr unread))]
    rfl

theorem Restores.onDisk (restores : Restores s.disk files logs block restored)
    (blockSound : BlockSound rt s.disk.view block file logged) (whole : ReadWhole s.disk files logs block) :
    restored.OnDisk rt s.disk.view file := by
  have name : restored.filename = block.filename := congrArg (ascii "block." ++ ·) restores.id
  by_cases read : block.filename ∈ files
  · have header : restored.blockHeader = block.blockHeader := restores.header.trans (if_pos read)
    exact blockSound.onDisk.congr header (by rw [name])
  · have header := restores.header.trans (if_neg read)
    have absent : s.disk.view block.filename = none := Disk.view_eq_none.mpr (mt whole.file.mpr read)
    exact .inl ⟨name ▸ absent, by rw [header]; rfl, blockSound.file_eq_nil absent⟩

theorem Restores.sound (restores : Restores s.disk files logs block restored)
    (blockSound : BlockSound rt s.disk.view block file logged) (whole : ReadWhole s.disk files logs block) :
    BlockSound rt s.disk.view restored file logged := by
  have logName : restored.logFilename = block.logFilename := by
    rw [DatastoreBlock.logFilename, DatastoreBlock.logFilename, restores.id]
  have newName : restored.newFilename rt = block.newFilename rt := by
    simp only [DatastoreBlock.newFilename, DatastoreBlock.filename, restores.id]
  have version : restored.blockHeader.version = some 2 := by
    rw [restores.header]
    split
    · exact blockSound.version
    · rfl
  exact ⟨restores.id ▸ blockSound.valid, version, restores.onDisk blockSound whole, logName ▸ blockSound.log,
    (restores.logStreams_eq blockSound whole).trans blockSound.logStreams, blockSound.loggedStreams,
    fun _ pending => absurd (restores.newStreams ▸ pending) List.not_mem_nil, newName ▸ blockSound.noTemporary⟩

/-- After a flush nothing of a block is missing. -/
theorem Restores.streams (restores : Restores s.disk files logs block restored)
    (blockSound : BlockSound rt s.disk.view block file logged) (reliable : s.disk.Reliable)
    (whole : ReadWhole s.disk files logs block) (settled : block.newStreams = []) :
    restored.streams rt s.disk = block.streams rt s.disk := by
  simp only [DatastoreBlock.streams, DatastoreBlock.logs, restores.logStreams_eq blockSound whole,
    restores.newStreams, settled, (restores.onDisk blockSound whole).fileStreams reliable,
    blockSound.onDisk.fileStreams reliable]

end Restored

/-- A block with streams has a file that tells of it. -/
theorem BlockSound.read_of_streams {files logs : List GoString} {file logged : List (Stream Double)}
    (sound : BlockSound rt s.disk.view block file logged) (reliable : s.disk.Reliable)
    (whole : ReadWhole s.disk files logs block) (settled : block.newStreams = [])
    (streams : block.streams rt s.disk ≠ []) : block.filename ∈ files ∨ block.logFilename ∈ logs := by
  rw [whole.file, whole.log]
  by_contra absent
  obtain ⟨noFile, noLog⟩ := not_or.mp absent
  refine streams ?_
  rw [DatastoreBlock.streams, DatastoreBlock.logs, sound.logStreams, sound.onDisk.fileStreams reliable, settled,
    sound.file_eq_nil (Disk.view_eq_none.mpr noFile), sound.logged_eq_nil (Disk.view_eq_none.mpr noLog)]
  rfl

end OpenInstrument
