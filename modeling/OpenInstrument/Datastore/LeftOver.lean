import OpenInstrument.Datastore.BlockRoundTrip
import OpenInstrument.Datastore.FlushRetry

/-! # Left-over files

`Write` opens its temporary file without truncating it.  What an earlier attempt has left in a file of that name
stays there, behind the new header, and `Read` comes to it before it comes to the new streams.
-/

namespace OpenInstrument

variable {Double Message : Type} {codec : Codec Message}

/-- The messages of some frames are read first, whatever stands behind them. -/
theorem readMessages_frames_append {content after : Bytes} {maxPosition : Nat} {messages : List Message}
    {fuel position : Nat} (written : content.drop position = frames codec messages ++ after)
    (small : ∀ message ∈ messages, (codec.encode message).length < 2 ^ 32)
    (inside : position + (frames codec messages).length ≤ maxPosition) (enough : messages.length ≤ fuel) :
    ∃ more, readMessages codec content (some maxPosition) fuel position = messages ++ more := by
  induction messages generalizing fuel position with
  | nil => exact ⟨_, rfl⟩
  | cons message messages inductionHypothesis =>
    obtain ⟨fuel, rfl⟩ : ∃ previous, fuel = previous + 1 := ⟨fuel - 1, by simp at enough; omega⟩
    obtain ⟨here, next⟩ := drop_frames_cons written
    rw [frames_cons, List.length_append] at inside
    have goes : position < maxPosition := by
      have size := frame_length (codec.encode message)
      omega
    obtain ⟨more, rest⟩ := inductionHypothesis next
      (fun other member => small other (List.mem_cons_of_mem _ member)) (by omega) (Nat.succ_le_succ_iff.mp enough)
    refine ⟨more, ?_⟩
    rw [readMessages, protoRead_frame here (small message List.mem_cons_self)]
    simp only [Option.all_some, goes, decide_true, if_true, rest, List.cons_append]

variable {rt : Runtime Double} {disk : Disk} {block : DatastoreBlock Double} {streams : StreamMap Double}

/-- What `Read` makes of a block without log streams is what it finds in the block file. -/
theorem DatastoreBlock.read_logless {order : Iteration} {file : List (Stream Double)} {rebuilt : StreamMap Double}
    (noLogs : block.logStreams = ∅) (stored : block.fileStreams rt disk = .ok file)
    (read : block.read rt order disk ∅ = .ok (.ok rebuilt)) :
    (∀ stream ∈ file, stream.HasVariable) ∧ rebuilt = addStreams ∅ file := by
  have none : order.order ((Keyed.pairs block.logStreams).map Prod.snd) = [] := by
    rw [noLogs]
    exact List.perm_nil.mp (order.perm _)
  simp only [DatastoreBlock.read, DatastoreBlock.readFile_eq_fileStreams, stored, none] at read
  cases collected : file.foldlM appendStream (∅ : StreamMap Double) with
  | error panic =>
    rw [collected] at read
    cases read
  | ok found =>
    have named := hasVariable_of_foldlM collected
    rw [collected] at read
    rw [foldlM_appendStream named, Except.ok.injEq] at collected
    exact ⟨named, collected ▸ (Except.ok.inj (Except.ok.inj read)).symm⟩

/-- When the file of a block holds a stream, a map that `Read` rebuilds from it has its variable and its values. -/
theorem Rebuilds.holds {file : List (Stream Double)} (rebuilds : Rebuilds rt disk block streams)
    (stored : block.fileStreams rt disk = .ok file) {stream : Stream Double} (member : stream ∈ file) :
    ∃ given, streams.lookup stream.key = some given ∧ ∀ value ∈ stream.value, value ∈ given.value := by
  obtain ⟨rebuilt, read, same⟩ := rebuilds .listed
  have logless : ({ block with logStreams := ∅ } : DatastoreBlock Double).fileStreams rt disk = .ok file := stored
  obtain ⟨-, rfl⟩ := DatastoreBlock.read_logless rfl logless read
  have filed : stream.key ∈ addStreams ∅ file := mem_addStreams.mpr (.inr ⟨stream, member, rfl⟩)
  obtain ⟨found, lookup⟩ := Keyed.mem_iff_lookup.mp filed
  have here := same stream.key
  rw [lookup] at here
  obtain ⟨given, there, sorted⟩ := Option.map_eq_some_iff.mp here.symm
  refine ⟨given, there, fun value present => ?_⟩
  have held : value ∈ valuesAt (addStreams ∅ file) stream.key := by
    rw [valuesAt_replayed]
    exact List.mem_flatMap.mpr ⟨stream, member, by rwa [if_pos rfl]⟩
  rw [valuesAt, lookup, ← sorted] at held
  exact (rt.sort_perm given.value).mem_iff.mp held

/-- Frames that stand right behind the header of a block file are read first. -/
theorem DatastoreBlock.fileStreams_append {header : StoreFileHeader} {found : List (Stream Double)} {after : Bytes}
    (reliable : disk.Reliable)
    (content : disk.view block.filename =
      some (frame (rt.header.encode header) ++ (frames rt.stream found ++ after)))
    (small : (rt.header.encode header).length < 2 ^ 31) (version : header.getVersion = 2)
    (smalls : ∀ stream ∈ found, (rt.stream.encode stream).length < 2 ^ 31)
    (inside : (frame (rt.header.encode header) ++ frames rt.stream found).length ≤ header.getFooterPosition.toNat) :
    ∃ more, block.fileStreams rt disk = .ok (found ++ more) := by
  have first : protoRead rt.header (frame (rt.header.encode header) ++ (frames rt.stream found ++ after)) 0 =
      .message header (0 + (frame (rt.header.encode header)).length) := protoRead_frame rfl (by omega)
  rw [Nat.zero_add] at first
  have few := frames_length_ge rt.stream found
  rw [List.length_append] at inside
  obtain ⟨more, read⟩ := @readMessages_frames_append (Stream Double) rt.stream
    (frame (rt.header.encode header) ++ (frames rt.stream found ++ after)) after header.getFooterPosition.toNat found
    ((frame (rt.header.encode header) ++ (frames rt.stream found ++ after)).length + 1)
    (frame (rt.header.encode header)).length List.drop_left
    (fun stream member => by have fits := smalls stream member; omega) inside
    (by simp only [List.length_append]; omega)
  refine ⟨more, ?_⟩
  rw [DatastoreBlock.fileStreams, reliable.readProtoFile, content]
  simp only [first, version, if_true, valueStreamReaderUntil, read]

/-- With nothing left over, `Write` leaves a file from which `Read` rebuilds the streams.  Streams left over where the
new header ends are read as well, so they must be among those given. -/
theorem write_rebuilds (rt : Runtime Double) (orders : Orders) (disk : Disk) (block : DatastoreBlock Double)
    (streams : StreamMap Double) (reliable : disk.Reliable) (version : block.blockHeader.version = some 2)
    (printed : ∀ key stream, streams.lookup key = some stream → variableString stream.streamVariable = .ok key)
    (valued : ∀ key stream, streams.lookup key = some stream → stream.value ≠ []) :
    ∃ after written, block.write rt orders disk streams = .ok (after, written, none) ∧ (after.incomplete = false →
      (disk.content (block.newFilename rt) = [] → Rebuilds rt after written streams) ∧
      ∀ front stale rest, disk.content (block.newFilename rt) = front ++ (frames rt.stream stale ++ rest) →
        front.length = (frame (rt.header.encode written.blockHeader)).length →
        (∀ stream ∈ stale, (rt.stream.encode stream).length < 2 ^ 31) →
        Rebuilds rt after written streams →
        ∀ stream ∈ stale, ∃ given, streams.lookup stream.key = some given ∧
          ∀ value ∈ stream.value, value ∈ given.value) := by
  have filed : Filed streams := fun key stream found => key_of_variableString (printed key stream found)
  obtain ⟨after, first, header, result, stillReliable, -, -, success⟩ :=
    block.write_over rt orders reliable version filed valued
  refine ⟨after, _, result, fun unbroken => ?_⟩
  obtain ⟨-, file, sameLength, view⟩ := success unbroken
  have content : after.view block.filename = some (overwrite (disk.content (block.newFilename rt) ++
      blockLayout rt first (writtenStreams rt orders streams) block.blockFooter)
      0 (frame (rt.header.encode header))) := by
    rw [view]
    exact Function.update_self _ _ _
  have frameLength : (frame (rt.header.encode header)).length = (frame (rt.header.encode first)).length := by
    simp [sameLength]
  constructor
  · intro empty
    rw [empty] at file content
    have onDisk : ({ block with blockHeader := header } : DatastoreBlock Double).OnDisk rt after.view
        (writtenStreams rt orders streams) := by
      refine .inr ⟨block.blockFooter, content.trans ?_, file.blockFile⟩
      rw [List.nil_append, blockLayout, List.append_assoc, overwrite_start frameLength, blockLayout, List.append_assoc]
    exact onDisk.rebuilds stillReliable filed
  · intro front stale rest leftOver width small rebuilds stream member
    -- The limit lies behind all of what is left over.
    have limit : header.getFooterPosition.toNat = (disk.content (block.newFilename rt)).length +
        streamPosition rt header (writtenStreams rt orders streams) := by
      rw [StoreFileHeader.getFooterPosition, file.footerPosition, Option.getD_some, UInt64.toNat_ofNat_of_le file.fits]
    rw [leftOver, List.append_assoc, List.append_assoc, overwrite_start width.symm] at content
    have versioned : header.getVersion = 2 := by
      rw [StoreFileHeader.getVersion, file.version]
      rfl
    obtain ⟨more, stored⟩ := @DatastoreBlock.fileStreams_append Double rt after { block with blockHeader := header }
      header stale _ stillReliable content file.small versioned small (by
        rw [limit, leftOver]
        simp only [List.length_append] at width ⊢
        omega)
    exact rebuilds.holds stored (List.mem_append_left _ member)

theorem write_rebuilds_twoStreams :
    ∃ after written, (newBlock (ascii "b") (ascii "1")).write protoRuntime Orders.listed Disk.empty
        twoStreams = .ok (after, written, none) ∧ after.incomplete = false ∧
      Rebuilds protoRuntime after written twoStreams := by
  obtain ⟨after, written, result, holds⟩ := write_rebuilds protoRuntime Orders.listed Disk.empty
    (newBlock (ascii "b") (ascii "1")) twoStreams (fun _ => rfl) rfl
    (Keyed.forall_lookup (show ∀ entry ∈ Keyed.pairs twoStreams,
      variableString entry.2.streamVariable = .ok entry.1 by decide))
    (Keyed.forall_lookup (show ∀ entry ∈ Keyed.pairs twoStreams, entry.2.value ≠ [] by decide))
  have whole : ((newBlock (ascii "b") (ascii "1")).write protoRuntime Orders.listed Disk.empty twoStreams).map
      (fun result => result.1.incomplete) = .ok false := by decide +kernel
  rw [result] at whole
  have unbroken : after.incomplete = false := Except.ok.inj whole
  exact ⟨after, written, result, unbroken, (holds unbroken).1 rfl⟩

def renameFails : FileCall → Option Nat
  | .rename _ _ => some 0
  | _ => none

def oneStream : StreamMap UInt64 := (∅ : StreamMap UInt64).insert (ascii "a") (gauge "a" [7])

/-- A `Write` that cannot rename the new file, and another one of two streams: the errors, whether a write was cut
short, and how many streams `Read` rebuilds. -/
def rewritten : Except Panic (Option StoreError × Option StoreError × Bool × Option Nat) := do
  let (left, block, failed) ← (newBlock (ascii "b") (ascii "1")).write protoRuntime .listed
    { Disk.empty with fault := renameFails } oneStream
  let (after, block, done) ← block.write protoRuntime .listed { left with fault := fun _ => none } twoStreams
  let streams ← { block with logStreams := ∅ }.read protoRuntime .listed after ∅
  return (failed, done, after.incomplete, streams.toOption.map fun streams => streams.keys.length)

/-- `Read` rebuilds none of the two streams. -/
theorem write_loses_streams :
    ∃ left after block written,
      (newBlock (ascii "b") (ascii "1")).write protoRuntime .listed { Disk.empty with fault := renameFails } oneStream =
          .ok (left, block, some .rename) ∧
        block.write protoRuntime .listed { left with fault := fun _ => none } twoStreams = .ok (after, written, none) ∧
        after.incomplete = false ∧ ¬Rebuilds protoRuntime after written twoStreams := by
  have run : rewritten = .ok (some .rename, none, false, some 0) := by decide +kernel
  obtain ⟨⟨left, block, failed⟩, first, second⟩ := Fallible.bind_ok run
  obtain ⟨⟨after, written, done⟩, wrote, third⟩ := Fallible.bind_ok second
  obtain ⟨streams, read, returned⟩ := Fallible.bind_ok third
  obtain ⟨rfl, rfl, complete, keys⟩ : failed = some .rename ∧ done = none ∧ after.incomplete = false ∧
      (streams.toOption.map fun streams => streams.keys.length) = some 0 := by
    simpa only [Prod.mk.injEq] using Except.ok.inj returned
  refine ⟨left, after, block, written, first, wrote, complete, fun rebuilds => ?_⟩
  obtain ⟨rebuilt, again, lookup⟩ := rebuilds .listed
  rw [read] at again
  obtain rfl := Except.ok.inj again
  have empty : rebuilt.keys = [] := List.length_eq_zero_iff.mp (Option.some.inj keys)
  have absent : rebuilt.lookup (ascii "a") = none := by
    rw [AList.lookup_eq_none, AList.mem_keys, empty]
    exact List.not_mem_nil
  rw [lookup] at absent
  cases absent

end OpenInstrument
