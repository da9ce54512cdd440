import OpenInstrument.Datastore.BlockFile
import OpenInstrument.Datastore.Store

/-! # What the memory and the directory of a store have to do with each other

`BlockSound` ties one block to its two files: the block file holds the streams its header describes,
and the log holds the streams that were flushed since.  A block owns the files whose names carry its
identifier, so an operation that touches the files of one block leaves every other block sound.
`Datastore.Sound` says this of all blocks of a store; `used` lists the identifiers drawn so far.
-/

namespace OpenInstrument

variable {Double : Type}

/-! ## File names -/

/-- An identifier as the UUID generator prints it. -/
structure ValidId (id : GoString) : Prop where
  nonempty : id ≠ []
  no_dot : dot ∉ id
  no_newline : newline ∉ id

instance (id : GoString) : Decidable (ValidId id) :=
  decidable_of_iff (id ≠ [] ∧ dot ∉ id ∧ newline ∉ id)
    ⟨fun ⟨nonempty, noDot, noNewline⟩ => ⟨nonempty, noDot, noNewline⟩,
      fun valid => ⟨valid.nonempty, valid.no_dot, valid.no_newline⟩⟩

/-- The identifier in a file name: what stands between `block.` and the next dot. -/
def fileOwner (name : GoString) : GoString := (name.drop 6).takeWhile (· != dot)

/-- A change of the directory that is confined to some files. -/
def OnlyTouches (files : List GoString) (before after : GoString → Option Bytes) : Prop :=
  ∀ name ∉ files, after name = before name

def DatastoreBlock.ownFiles (rt : Runtime Double) (block : DatastoreBlock Double) : List GoString :=
  [block.filename, block.logFilename, block.newFilename rt]

theorem fileOwner_of_suffix {id suffix : GoString} (valid : ValidId id)
    (delimited : ∀ byte ∈ suffix.head?, byte = dot) : fileOwner (ascii "block." ++ id ++ suffix) = id := by
  have stem : (ascii "block." ++ id ++ suffix).drop 6 = id ++ suffix := by
    rw [List.append_assoc]
    exact List.drop_left' rfl
  have kept : ∀ byte ∈ id, (byte != dot) = true := fun byte member => by
    simp only [bne_iff_ne, ne_eq]
    exact fun same => valid.no_dot (same ▸ member)
  rw [fileOwner, stem, List.takeWhile_append_of_pos kept]
  cases suffix with
  | nil => simp
  | cons byte rest => simp [delimited byte rfl]

theorem DatastoreBlock.fileOwner_filename {block : DatastoreBlock Double} (valid : ValidId block.id) :
    fileOwner block.filename = block.id := by
  have owner : fileOwner (ascii "block." ++ block.id ++ []) = block.id :=
    fileOwner_of_suffix valid (by simp)
  rwa [List.append_nil] at owner

/-- `BlockIdFromFilename` finds the identifier in the names of a block's files. -/
theorem blockIdFromFilename_eq {id suffix : GoString} (valid : ValidId id)
    (delimited : ∀ byte ∈ suffix.head?, byte = dot) :
    blockIdFromFilename (ascii "block." ++ id ++ suffix) = id := by
  have stem : (ascii "block.").isPrefixOf (ascii "block." ++ id ++ suffix) = true := by
    rw [List.isPrefixOf_iff_prefix, List.append_assoc]
    exact List.prefix_append _ _
  have owner : ((ascii "block." ++ id ++ suffix).drop 6).takeWhile (· != dot) = id :=
    fileOwner_of_suffix valid delimited
  simp only [blockIdFromFilename, stem, owner, valid.nonempty, if_true, if_false]

theorem DatastoreBlock.blockIdFromFilename_filename {block : DatastoreBlock Double}
    (valid : ValidId block.id) : blockIdFromFilename block.filename = block.id := by
  have id : blockIdFromFilename (ascii "block." ++ block.id ++ []) = block.id :=
    blockIdFromFilename_eq valid (by simp)
  rwa [List.append_nil] at id

theorem DatastoreBlock.fileOwner_logFilename {block : DatastoreBlock Double} (valid : ValidId block.id) :
    fileOwner block.logFilename = block.id :=
  fileOwner_of_suffix valid fun _ first => (Option.some.inj first).symm

theorem DatastoreBlock.fileOwner_newFilename {rt : Runtime Double} {block : DatastoreBlock Double}
    (valid : ValidId block.id) : fileOwner (block.newFilename rt) = block.id := by
  have name : block.newFilename rt = ascii "block." ++ block.id ++ (ascii ".new." ++ rt.pid) := by
    simp [DatastoreBlock.newFilename, DatastoreBlock.filename]
  rw [name]
  exact fileOwner_of_suffix valid (fun byte first => (Option.some.inj first).symm)

theorem DatastoreBlock.fileOwner_ownFiles {rt : Runtime Double} {block : DatastoreBlock Double}
    (valid : ValidId block.id) {name : GoString} (member : name ∈ block.ownFiles rt) :
    fileOwner name = block.id := by
  simp only [DatastoreBlock.ownFiles, List.mem_cons, List.not_mem_nil, or_false] at member
  rcases member with rfl | rfl | rfl
  · exact DatastoreBlock.fileOwner_filename valid
  · exact DatastoreBlock.fileOwner_logFilename valid
  · exact DatastoreBlock.fileOwner_newFilename valid

theorem DatastoreBlock.filename_ne_logFilename (block : DatastoreBlock Double) :
    block.filename ≠ block.logFilename := by
  intro same
  have lengths := congrArg List.length same
  simp [DatastoreBlock.filename, DatastoreBlock.logFilename, ascii] at lengths

theorem DatastoreBlock.newFilename_ne_logFilename (rt : Runtime Double) (block : DatastoreBlock Double) :
    block.newFilename rt ≠ block.logFilename := by
  intro same
  have suffixes : ascii ".new." ++ rt.pid = ascii ".log" := by
    rw [DatastoreBlock.newFilename, DatastoreBlock.logFilename, List.append_assoc] at same
    exact List.append_cancel_left same
  have second := congrArg (fun name => name[1]?) suffixes
  simp [ascii] at second
  exact absurd second (by decide)

theorem OnlyTouches.refl (files : List GoString) (view : GoString → Option Bytes) :
    OnlyTouches files view view :=
  fun _ _ => rfl

theorem OnlyTouches.trans {files : List GoString} {first second third : GoString → Option Bytes}
    (left : OnlyTouches files first second) (right : OnlyTouches files second third) :
    OnlyTouches files first third :=
  fun name foreign => (right name foreign).trans (left name foreign)

theorem OnlyTouches.update {files : List GoString} {name : GoString} (owned : name ∈ files)
    (view : GoString → Option Bytes) (content : Option Bytes) :
    OnlyTouches files view (Function.update view name content) :=
  fun other foreign => Function.update_of_ne (fun same => foreign (by rwa [same])) _ _

/-! ## One block -/

/-- A stream that was written to a log. -/
structure LoggedStream (rt : Runtime Double) (stream : Stream Double) : Prop where
  named : stream.HasVariable
  small : (rt.stream.encode stream).length < 2 ^ 31

/-- The files of a block hold the streams `file` and, since the last compaction, `logged`. -/
structure BlockSound (rt : Runtime Double) (view : GoString → Option Bytes)
    (block : DatastoreBlock Double) (file logged : List (Stream Double)) : Prop where
  valid : ValidId block.id
  version : block.blockHeader.version = some 2
  onDisk : block.OnDisk rt view file
  log : view block.logFilename = if logged = [] then none else some (frames rt.stream logged)
  logStreams : block.logStreams = addStreams ∅ logged
  loggedStreams : ∀ stream ∈ logged, LoggedStream rt stream
  pending : ∀ stream ∈ block.newStreams, stream.HasVariable
  noTemporary : view (block.newFilename rt) = none

/-- The files of one block are not those of another. -/
theorem OnlyTouches.foreign {rt : Runtime Double} {before after : GoString → Option Bytes}
    {block other : DatastoreBlock Double} (touches : OnlyTouches (other.ownFiles rt) before after)
    (valid : ValidId block.id) (otherValid : ValidId other.id) (different : block.id ≠ other.id)
    {name : GoString} (member : name ∈ block.ownFiles rt) : after name = before name :=
  touches name fun foreign => different <|
    (DatastoreBlock.fileOwner_ownFiles valid member).symm.trans
      (DatastoreBlock.fileOwner_ownFiles otherValid foreign)

/-- A block whose own files have not changed is as sound as it was. -/
theorem BlockSound.congr {rt : Runtime Double} {before after : GoString → Option Bytes}
    {block : DatastoreBlock Double} {file logged : List (Stream Double)}
    (sound : BlockSound rt before block file logged)
    (unchanged : ∀ name ∈ block.ownFiles rt, after name = before name) :
    BlockSound rt after block file logged := by
  refine ⟨sound.valid, sound.version, ?_, ?_, sound.logStreams, sound.loggedStreams, sound.pending, ?_⟩
  · exact sound.onDisk.congr rfl (unchanged _ (by simp [DatastoreBlock.ownFiles]))
  · rw [unchanged _ (by simp [DatastoreBlock.ownFiles])]
    exact sound.log
  · rw [unchanged _ (by simp [DatastoreBlock.ownFiles])]
    exact sound.noTemporary

section Sound

variable {rt : Runtime Double} {view : GoString → Option Bytes} {block : DatastoreBlock Double}
  {file logged : List (Stream Double)}

theorem BlockSound.filed (sound : BlockSound rt view block file logged) : Filed block.logStreams := by
  rw [sound.logStreams]
  exact Filed.empty.addStreams fun stream member => (sound.loggedStreams stream member).named

theorem BlockSound.logs_named (sound : BlockSound rt view block file logged) {stream : Stream Double}
    (member : stream ∈ block.logs) : stream.HasVariable := by
  obtain ⟨key, found⟩ := DatastoreBlock.mem_logs.mp member
  exact (sound.filed key stream found).2

theorem BlockSound.file_stored (sound : BlockSound rt view block file logged) {stream : Stream Double}
    (member : stream ∈ file) : StoredStream rt stream :=
  sound.onDisk.stored member

theorem BlockSound.index_perm (sound : BlockSound rt view block file logged) :
    (block.blockHeader.index.map StoreFileHeaderIndex.key).Perm (file.map ValueStream.key) := by
  rcases sound.onDisk with ⟨-, index, rfl⟩ | ⟨footer, -, layout⟩
  · rw [index]
    exact .nil
  · obtain ⟨entries, perm, indexed⟩ := layout.index
    rw [indexedAt_keys indexed]
    exact perm.map _

/-- The log streams hold the values that were logged. -/
theorem BlockSound.heldIn_logStreams (sound : BlockSound rt view block file logged) :
    heldIn block.logStreams = heldBy logged := by
  rw [sound.logStreams, heldIn_addStreams Filed.empty
    fun stream member => (sound.loggedStreams stream member).named]
  exact zero_add _

/-- The keys that memory knows of are those of the streams in the files. -/
theorem BlockSound.mem_flushedKeys (sound : BlockSound rt view block file logged) {key : GoString} :
    key ∈ block.flushedKeys ↔ ∃ stream ∈ file ++ logged, stream.key = key := by
  rw [DatastoreBlock.flushedKeys, List.mem_append, sound.index_perm.mem_iff,
    DatastoreBlock.logs_keys sound.filed, ← AList.mem_keys, sound.logStreams, mem_addStreams, List.mem_map]
  simp only [AList.notMem_empty, false_or, List.mem_append, or_and_right, exists_or]

/-- They are also those of the streams that `Read` finds. -/
theorem BlockSound.mem_flushedKeys_read (sound : BlockSound rt view block file logged) (order : Iteration)
    {key : GoString} :
    key ∈ block.flushedKeys ↔ ∃ stream ∈ file ++ order.order block.logs, stream.key = key := by
  rw [DatastoreBlock.flushedKeys, List.mem_append, sound.index_perm.mem_iff]
  simp only [List.mem_append, or_and_right, exists_or, (order.perm block.logs).mem_iff, List.mem_map]

end Sound

/-! ## Flushing a block -/

/-- The first loop of `Flush` appends the frames of all pending streams to the log, or records an
error. -/
theorem flushStreams_eq (rt : Runtime Double) (streams : List (Stream Double)) (file : ProtoFileWriter)
    {disk : Disk} (reliable : disk.Reliable) :
    (flushStreams rt file disk streams).1.Reliable ∧
      ((flushStreams rt file disk streams).2 = true →
        (flushStreams rt file disk streams).1.incomplete = disk.incomplete) ∧
      ((flushStreams rt file disk streams).1.incomplete = false → disk.incomplete = false ∧
        ∀ content, StreamWriter.AtEnd { newfile := file, disk, indexPos := ∅ } content →
          (flushStreams rt file disk streams).2 = true ∧
          (flushStreams rt file disk streams).1.view =
            Function.update disk.view file.filename (some (content ++ frames rt.stream streams)) ∧
          ∀ stream ∈ streams, (rt.stream.encode stream).length < 2 ^ 31) := by
  induction streams generalizing file disk with
  | nil =>
    refine ⟨reliable, fun _ => rfl, fun success => ⟨success, fun content atEnd => ⟨rfl, ?_, by simp⟩⟩⟩
    have here : disk.view file.filename = some content := atEnd.written
    rw [frames_nil, List.append_nil, ← here, Function.update_eq_self]
    rfl
  | cons stream streams inductionHypothesis =>
    obtain ⟨moved, written, complete, result⟩ : ∃ moved written complete,
        file.write rt.stream disk stream = (moved, written, complete) := ⟨_, _, _, rfl⟩
    obtain ⟨stillReliable, success⟩ := ProtoFileWriter.write_eq reliable result
    rw [flushStreams, result]
    cases complete with
    -- A write that is cut short ends the loop, and the disk tells of it.
    | false => exact ⟨stillReliable, fun all => absurd all Bool.false_ne_true,
        fun unbroken => absurd (success unbroken).2.1 (by simp)⟩
    | true =>
      obtain ⟨finalReliable, same, rest⟩ := inductionHypothesis moved stillReliable
      refine ⟨finalReliable, fun all => (same all).trans (ProtoFileWriter.write_incomplete result),
        fun finalSuccess => ?_⟩
      obtain ⟨between, rest⟩ := rest finalSuccess
      refine ⟨(success between).1, fun content atEnd => ?_⟩
      obtain ⟨filename, small, -, nextAtEnd, view⟩ := write_atEnd atEnd reliable result between ∅
      obtain ⟨all, finalView, smalls⟩ := rest _ nextAtEnd
      refine ⟨all, ?_, fun other member => ?_⟩
      · rw [finalView, view, filename, Function.update_idem, frames_cons, List.append_assoc]
      · exact (List.mem_cons.mp member).elim (fun same => same ▸ small) (smalls other)

/-- A block with its pending streams moved to its log. -/
def DatastoreBlock.flushed (block : DatastoreBlock Double) : DatastoreBlock Double :=
  { block with logStreams := addStreams block.logStreams block.newStreams, newStreams := [] }

theorem DatastoreBlock.flushed_of_empty {block : DatastoreBlock Double} (empty : block.newStreams = []) :
    block.flushed = block := by
  rw [DatastoreBlock.flushed, empty, addStreams_nil, ← empty]

@[simp] theorem DatastoreBlock.flushed_flushed (block : DatastoreBlock Double) :
    block.flushed.flushed = block.flushed :=
  DatastoreBlock.flushed_of_empty rfl

/-- A turn of `Flush` moves the pending streams of a block to its log. -/
theorem BlockSound.flush {rt : Runtime Double} {disk : Disk} {block : DatastoreBlock Double}
    {file logged : List (Stream Double)} (sound : BlockSound rt disk.view block file logged)
    (reliable : disk.Reliable) :
    ∃ after flushed more, block.flush rt disk = .ok (after, flushed, more) ∧ after.Reliable ∧
      (more = true → after.incomplete = disk.incomplete) ∧
      (after.incomplete = false → more = true ∧ flushed = block.flushed ∧
        OnlyTouches (block.ownFiles rt) disk.view after.view ∧
        BlockSound rt after.view block.flushed file (logged ++ block.newStreams)) := by
  by_cases empty : block.newStreams = []
  · refine ⟨disk, block, true, if_pos empty, reliable, fun _ => rfl, fun _ =>
      ⟨rfl, (DatastoreBlock.flushed_of_empty empty).symm, OnlyTouches.refl _ _, ?_⟩⟩
    rw [DatastoreBlock.flushed_of_empty empty, empty, List.append_nil]
    exact sound
  -- The log is opened behind the frames of the streams logged so far.
  · have content : disk.content block.logFilename = frames rt.stream logged := by
      rw [Disk.content_eq, sound.log]
      split
      · rename_i none
        simp [none]
      · rfl
    have opened := reliable.writeProtoFile block.logFilename
    rw [content] at opened
    have openReliable := reliable.store block.logFilename (frames rt.stream logged)
    obtain ⟨afterReliable, same, success⟩ := flushStreams_eq rt block.newStreams
      { filename := block.logFilename, position := (frames rt.stream logged).length } openReliable
    have atEnd : StreamWriter.AtEnd
        { newfile := { filename := block.logFilename, position := (frames rt.stream logged).length }
          disk := disk.store block.logFilename (frames rt.stream logged)
          indexPos := ∅ } (frames rt.stream logged) :=
      ⟨by simp [Disk.view_store], rfl⟩
    obtain ⟨after, all, result⟩ : ∃ after all, flushStreams rt
        { filename := block.logFilename, position := (frames rt.stream logged).length }
        (disk.store block.logFilename (frames rt.stream logged)) block.newStreams = (after, all) :=
      ⟨_, _, rfl⟩
    rw [result] at afterReliable same success
    simp only [DatastoreBlock.flush, if_neg empty, opened, result]
    cases all with
    | false => exact ⟨after, block, false, rfl, afterReliable, fun all => absurd all Bool.false_ne_true,
        fun unbroken => absurd ((success unbroken).2 _ atEnd).1 (by simp)⟩
    | true =>
      rw [foldlM_appendStream sound.pending]
      refine ⟨after, _, true, rfl, afterReliable, same, fun unbroken => ?_⟩
      obtain ⟨-, written⟩ := success unbroken
      obtain ⟨-, view, smalls⟩ := written _ atEnd
      rw [Disk.view_store, Function.update_idem, ← frames_append] at view
      have touches : OnlyTouches (block.ownFiles rt) disk.view after.view :=
        view ▸ OnlyTouches.update (by simp [DatastoreBlock.ownFiles]) _ _
      -- The pending streams stand behind the others in the log now, and no other file has changed.
      refine ⟨rfl, rfl, touches, sound.valid, sound.version, ?_, ?_, ?_, ?_,
        fun _ member => absurd member List.not_mem_nil, ?_⟩
      · refine sound.onDisk.congr rfl ?_
        rw [view]
        exact Function.update_of_ne block.filename_ne_logFilename _ _
      · rw [view, if_neg (by simp [empty])]
        exact Function.update_self _ _ _
      · rw [DatastoreBlock.flushed, sound.logStreams, ← addStreams_append]
      · intro stream member
        rcases List.mem_append.mp member with old | new
        · exact sound.loggedStreams stream old
        · exact ⟨sound.pending stream new, smalls stream new⟩
      · rw [view]
        exact (Function.update_of_ne (block.newFilename_ne_logFilename rt) _ _).trans sound.noTemporary

/-! ## Reading a block file of the directory -/

/-- `readBlock` inserts a block under the key that the header of the file tells. -/
theorem Datastore.readBlock_eq {rt : Runtime Double} {s : Datastore Double} (reliable : s.disk.Reliable)
    {block : DatastoreBlock Double} (valid : ValidId block.id) {header : StoreFileHeader}
    {streams : List (Stream Double)} {footer : StoreFileFooter}
    (present : s.disk.view block.filename = some (blockLayout rt header streams footer))
    (file : BlockFile rt header streams) :
    ∃ blockFooter, s.readBlock rt block.filename = s.insertBlock
      { newBlock header.getEndKey block.id with blockHeader := header, blockFooter } := by
  have name : (newBlock [] block.id : DatastoreBlock Double).filename = block.filename := rfl
  rw [Datastore.readBlock, DatastoreBlock.blockIdFromFilename_filename valid]
  simp only [name, reliable.readProtoFile, present, protoRead_header file.small, file.getVersion, if_true]
  exact ⟨_, rfl⟩

theorem DatastoreBlock.OnDisk.readBlock {rt : Runtime Double} {s : Datastore Double} {block : DatastoreBlock Double}
    {file : List (Stream Double)} (onDisk : block.OnDisk rt s.disk.view file) (reliable : s.disk.Reliable)
    (valid : ValidId block.id) (present : s.disk.view block.filename ≠ none) :
    ∃ blockFooter, s.readBlock rt block.filename =
      s.insertBlock { newBlock block.blockHeader.getEndKey block.id with
        blockHeader := block.blockHeader
        blockFooter } := by
  rcases onDisk with ⟨missing, -, -⟩ | ⟨footer, content, layout⟩
  · exact absurd missing present
  · exact Datastore.readBlock_eq reliable valid content layout

/-! ## Rewriting a block file -/

/-- Reading a block and writing it again keeps every value. -/
theorem heldBy_writtenStreams (rt : Runtime Double) (orders : Orders) (streams : StreamMap Double) :
    heldBy (writtenStreams rt orders streams) = heldIn streams := by
  have sorted : ((sortedEntries rt streams).map Prod.snd).map ValueStream.held =
      ((Keyed.pairs streams).map Prod.snd).map ValueStream.held := by
    simp only [sortedEntries, List.map_map]
    exact List.map_congr_left fun entry _ => rt.held_sortStream entry.2
  rw [writtenStreams, heldBy_perm ((orders.streams.perm _).map _), heldIn_eq_heldBy, heldBy, sorted]
  rfl

/-- A map of everything that a block has flushed. -/
structure MergedFrom (block : DatastoreBlock Double) (streams : StreamMap Double)
    (file logged : List (Stream Double)) : Prop where
  filed : Filed streams
  held : heldIn streams = heldBy file + heldBy logged
  keys : ∀ key, key ∈ streams ↔ key ∈ block.flushedKeys
  valued : Valued block.logStreams → Valued streams

theorem BlockSound.merged {rt : Runtime Double} {view : GoString → Option Bytes}
    {block : DatastoreBlock Double} {file logged : List (Stream Double)}
    (sound : BlockSound rt view block file logged) (order : Iteration) :
    MergedFrom block (addStreams ∅ (file ++ order.order block.logs)) file logged := by
  have perm := order.perm block.logs
  have named : ∀ stream ∈ file ++ order.order block.logs, stream.HasVariable := by
    intro stream member
    rcases List.mem_append.mp member with inFile | inLog
    · exact (sound.file_stored inFile).named
    · exact sound.logs_named (perm.mem_iff.mp inLog)
  refine ⟨Filed.empty.addStreams named, ?_, fun key => ?_, fun logsValued => ?_⟩
  · rw [heldIn_addStreams Filed.empty named, heldBy_append, heldBy_perm perm, ← sound.heldIn_logStreams,
      heldIn_eq_heldBy block.logStreams]
    exact zero_add _
  · rw [mem_addStreams, sound.mem_flushedKeys_read order]
    simp only [AList.notMem_empty, false_or]
  · rw [valued_addStreams]
    intro stream member
    rcases List.mem_append.mp member with inFile | inLog
    · exact ⟨stream, member, rfl, (sound.file_stored inFile).valued⟩
    · obtain ⟨key, found⟩ := DatastoreBlock.mem_logs.mp (perm.mem_iff.mp inLog)
      exact ⟨stream, member, rfl, logsValued key stream found⟩

/-- `Write` of some streams under the name of a block. -/
theorem DatastoreBlock.write_onDisk (rt : Runtime Double) (orders : Orders) {disk : Disk}
    (block : DatastoreBlock Double) {streams : StreamMap Double} (reliable : disk.Reliable)
    (version : block.blockHeader.version = some 2) (filed : Filed streams) (valued : Valued streams) :
    ∃ after header, block.write rt orders disk streams =
        .ok (after, { block with blockHeader := header }, none) ∧ after.Reliable ∧
      (after.incomplete = false → disk.incomplete = false ∧ (disk.view (block.newFilename rt) = none →
        header.version = some 2 ∧ header.endKey = some (greatestKey streams.keys) ∧
        DatastoreBlock.OnDisk rt after.view { block with blockHeader := header }
          (writtenStreams rt orders streams) ∧
        after.view block.filename ≠ none ∧ OnlyTouches [block.filename] disk.view after.view)) := by
  obtain ⟨after, header, result, afterReliable, -, success⟩ :=
    block.write_eq rt orders reliable version filed valued
  refine ⟨after, header, result, afterReliable, fun unbroken => ?_⟩
  obtain ⟨earlier, written⟩ := success unbroken
  refine ⟨earlier, fun fresh => ?_⟩
  obtain ⟨file, view⟩ := written fresh
  refine ⟨file.version, ?_, .inr ⟨block.blockFooter, ?_, file⟩, ?_, ?_⟩
  · rw [file.endKey, greatestKey_perm (writtenStreams_keys rt orders filed)]
  · rw [view]
    exact Function.update_self _ _ _
  · rw [view, Function.update_self]
    exact Option.some_ne_none _
  · exact view ▸ OnlyTouches.update (List.mem_singleton_self _) _ _

/-- A block whose streams are all in its file, behind a header that tells the greatest variable. -/
structure Rewritten (rt : Runtime Double) (view : GoString → Option Bytes) (block : DatastoreBlock Double)
    (file : List (Stream Double)) : Prop where
  sound : BlockSound rt view block file []
  endKey : block.blockHeader.endKey = some (greatestKey block.flushedKeys)
  present : view block.filename ≠ none

/-- A block file that was just written, for a block without a log. -/
theorem DatastoreBlock.OnDisk.rewritten {rt : Runtime Double} {view : GoString → Option Bytes}
    {block : DatastoreBlock Double} {orders : Orders} {streams : StreamMap Double}
    (onDisk : block.OnDisk rt view (writtenStreams rt orders streams)) (filed : Filed streams)
    (valid : ValidId block.id) (version : block.blockHeader.version = some 2)
    (endKey : block.blockHeader.endKey = some (greatestKey streams.keys))
    (present : view block.filename ≠ none) (noLog : view block.logFilename = none)
    (logStreams : block.logStreams = ∅) (pending : ∀ stream ∈ block.newStreams, stream.HasVariable)
    (noTemporary : view (block.newFilename rt) = none) :
    Rewritten rt view block (writtenStreams rt orders streams) ∧
      ∀ key, key ∈ block.flushedKeys ↔ key ∈ streams := by
  have sound : BlockSound rt view block (writtenStreams rt orders streams) [] :=
    ⟨valid, version, onDisk, noLog, logStreams, by simp, pending, noTemporary⟩
  have flushed : block.flushedKeys.Perm streams.keys := by
    rw [DatastoreBlock.flushedKeys, DatastoreBlock.logs_keys sound.filed, logStreams, AList.keys_empty,
      List.append_nil]
    exact sound.index_perm.trans (writtenStreams_keys rt orders filed)
  exact ⟨⟨sound, by rw [endKey, greatestKey_perm flushed], present⟩, fun key => flushed.mem_iff⟩

theorem Rewritten.congr {rt : Runtime Double} {before after : GoString → Option Bytes}
    {block : DatastoreBlock Double} {file : List (Stream Double)} (rewritten : Rewritten rt before block file)
    (unchanged : ∀ name ∈ block.ownFiles rt, after name = before name) : Rewritten rt after block file := by
  refine ⟨rewritten.sound.congr unchanged, rewritten.endKey, ?_⟩
  rw [unchanged _ (by simp [DatastoreBlock.ownFiles])]
  exact rewritten.present

/-- `Write` for a block that has no log. -/
theorem DatastoreBlock.write_rewritten (rt : Runtime Double) (orders : Orders) {disk : Disk}
    (block : DatastoreBlock Double) {streams : StreamMap Double} (reliable : disk.Reliable)
    (version : block.blockHeader.version = some 2) (filed : Filed streams) (valued : Valued streams) :
    ∃ after header, block.write rt orders disk streams =
        .ok (after, { block with blockHeader := header }, none) ∧ after.Reliable ∧
      (after.incomplete = false → disk.incomplete = false ∧
        ∀ file, BlockSound rt disk.view block file [] →
          OnlyTouches (block.ownFiles rt) disk.view after.view ∧
          Rewritten rt after.view { block with blockHeader := header } (writtenStreams rt orders streams) ∧
          ∀ key, key ∈ DatastoreBlock.flushedKeys { block with blockHeader := header } ↔ key ∈ streams) := by
  obtain ⟨after, header, result, afterReliable, success⟩ :=
    block.write_onDisk rt orders reliable version filed valued
  refine ⟨after, header, result, afterReliable, fun unbroken => ?_⟩
  obtain ⟨earlier, replaced⟩ := success unbroken
  refine ⟨earlier, fun file sound => ?_⟩
  obtain ⟨version, endKey, onDisk, present, touches⟩ := replaced sound.noTemporary
  have noLog : after.view block.logFilename = none := by
    refine (touches _ fun member => ?_).trans sound.log
    exact block.filename_ne_logFilename (List.mem_singleton.mp member).symm
  have noTemporary : after.view (block.newFilename rt) = none := by
    refine (touches _ fun member => ?_).trans sound.noTemporary
    exact newFilename_ne rt block (List.mem_singleton.mp member)
  refine ⟨fun name foreign => touches name fun member => foreign ?_, ?_⟩
  · rw [List.mem_singleton.mp member]
    exact List.mem_cons_self
  · exact onDisk.rewritten filed sound.valid version endKey present noLog sound.logStreams sound.pending
      noTemporary

/-- A block whose file has been rewritten and whose log is gone. -/
def DatastoreBlock.compacted (block : DatastoreBlock Double) (header : StoreFileHeader)
    (footer : StoreFileFooter) : DatastoreBlock Double :=
  { block with blockHeader := header, blockFooter := footer, logStreams := ∅ }

/-- What a compaction makes of a block: its file has everything that was flushed. -/
structure Compacted (rt : Runtime Double) (view : GoString → Option Bytes)
    (block compacted : DatastoreBlock Double) (file logged written : List (Stream Double)) : Prop where
  rewritten : Rewritten rt view compacted written
  held : heldBy written = heldBy file + heldBy logged
  keys : ∀ key, key ∈ compacted.flushedKeys ↔ key ∈ block.flushedKeys

theorem BlockSound.compactBlock {rt : Runtime Double} {disk : Disk} {block : DatastoreBlock Double}
    {file logged : List (Stream Double)} (sound : BlockSound rt disk.view block file logged)
    (reliable : disk.Reliable) {orders : Orders} (clog : CompactionLog)
    (valued : Valued (addStreams ∅ (file ++ orders.logs.order block.logs))) :
    ∃ after header footer, block.compactBlock rt orders clog disk =
        .ok (after, block.compacted header footer, none) ∧
      after.Reliable ∧ (after.incomplete = false → disk.incomplete = false ∧
        OnlyTouches (block.ownFiles rt) disk.view after.view ∧ ∃ written,
          Compacted rt after.view block (block.compacted header footer) file logged written) := by
  -- The new entry of the compaction log is there before anything is read or written.
  obtain ⟨renewed, renewedDef⟩ : ∃ renewed, renewed =
    { block with blockFooter := { compactionLog := block.blockFooter.compactionLog ++ [clog] } } := ⟨_, rfl⟩
  have renewedSound : BlockSound rt disk.view renewed file logged := by
    subst renewedDef
    exact ⟨sound.valid, sound.version, sound.onDisk.congr rfl rfl, sound.log, sound.logStreams,
      sound.loggedStreams, sound.pending, sound.noTemporary⟩
  have merged := sound.merged orders.logs
  have sameLogs : renewed.logs = block.logs := by rw [renewedDef]; rfl
  have read := DatastoreBlock.read_eq orders.logs reliable renewedSound.onDisk renewedSound.filed ∅
  have readFile := DatastoreBlock.readFile_eq reliable renewedSound.onDisk ∅
  rw [sameLogs] at read
  obtain ⟨streams, streamsDef⟩ : ∃ streams, addStreams ∅ (file ++ orders.logs.order block.logs) = streams :=
    ⟨_, rfl⟩
  rw [streamsDef] at merged read valued
  obtain ⟨written, header, result, writtenReliable, success⟩ := renewed.write_onDisk rt orders reliable
    renewedSound.version merged.filed valued
  refine ⟨written.remove renewed.logFilename, header, renewed.blockFooter, ?_,
    writtenReliable.remove _, fun unbroken => ?_⟩
  · rw [DatastoreBlock.compactBlock]
    subst renewedDef
    simp only [readFile, read, result, Fallible.ok_bind]
    rfl
  · rw [Disk.remove_incomplete] at unbroken
    obtain ⟨earlier, replaced⟩ := success unbroken
    obtain ⟨version, endKey, onDisk, present, touches⟩ := replaced renewedSound.noTemporary
    -- The new file is in place, and the log goes after it.
    have view := writtenReliable.view_remove renewed.logFilename
    have fileKept : (written.remove renewed.logFilename).view renewed.filename =
        written.view renewed.filename := by
      rw [view, Function.update_of_ne renewed.filename_ne_logFilename]
    have noTemporary : (written.remove renewed.logFilename).view (renewed.newFilename rt) = none := by
      rw [view, Function.update_of_ne (renewed.newFilename_ne_logFilename rt)]
      refine (touches _ fun member => ?_).trans renewedSound.noTemporary
      exact newFilename_ne rt renewed (List.mem_singleton.mp member)
    have noLog : (written.remove renewed.logFilename).view renewed.logFilename = none := by
      rw [view, Function.update_self]
    refine ⟨earlier, ?_, writtenStreams rt orders streams, ?_⟩
    · subst renewedDef
      refine OnlyTouches.trans (fun name foreign => touches name fun member => foreign ?_)
        (view ▸ OnlyTouches.update (by simp [DatastoreBlock.ownFiles, DatastoreBlock.logFilename]) _ _)
      rw [List.mem_singleton.mp member]
      exact List.mem_cons_self
    · subst renewedDef
      have compactedOnDisk : (block.compacted header
          { compactionLog := block.blockFooter.compactionLog ++ [clog] }).OnDisk rt _
            (writtenStreams rt orders streams) := onDisk.congr rfl fileKept
      obtain ⟨rewritten, keys⟩ := compactedOnDisk.rewritten merged.filed sound.valid version endKey
        (fileKept ▸ present) noLog rfl sound.pending noTemporary
      exact ⟨rewritten, by rw [heldBy_writtenStreams, merged.held],
        fun key => (keys key).trans (merged.keys key)⟩

/-- A compaction does not panic only if every variable that was flushed has a value. -/
theorem BlockSound.valued_of_compactBlock {rt : Runtime Double} {disk : Disk} {block : DatastoreBlock Double}
    {file logged : List (Stream Double)} (sound : BlockSound rt disk.view block file logged)
    (reliable : disk.Reliable) {orders : Orders} {clog : CompactionLog}
    {result : Disk × DatastoreBlock Double × Option StoreError}
    (success : block.compactBlock rt orders clog disk = .ok result) :
    Valued (addStreams ∅ (file ++ orders.logs.order block.logs)) := by
  obtain ⟨renewed, renewedDef⟩ : ∃ renewed, renewed =
    { block with blockFooter := { compactionLog := block.blockFooter.compactionLog ++ [clog] } } := ⟨_, rfl⟩
  have onDisk : renewed.OnDisk rt disk.view file := renewedDef ▸ sound.onDisk.congr rfl rfl
  have filed : Filed renewed.logStreams := renewedDef ▸ sound.filed
  rw [DatastoreBlock.compactBlock, ← renewedDef] at success
  simp only [DatastoreBlock.readFile_eq reliable onDisk,
    DatastoreBlock.read_eq orders.logs reliable onDisk filed, Fallible.ok_bind] at success
  obtain ⟨written, wrote, -⟩ := Fallible.bind_ok success
  have valued := DatastoreBlock.valued_of_write wrote
  rwa [renewedDef] at valued

end OpenInstrument
