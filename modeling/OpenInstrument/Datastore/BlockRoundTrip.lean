import OpenInstrument.Datastore.BlockFile
import OpenInstrument.ProtoWire

/-! # A block file reads back as it was written

`Write` followed by `Read`, for any map of streams with values and any order of the two loops of
`Write`, and the reading of one stream through its index entry.
-/

namespace OpenInstrument

variable {Double : Type}

/-- An index entry tells the range of the timestamps of its stream and the number of its values. -/
structure EntryDescribes (entry : StoreFileHeaderIndex) (stream : Stream Double) : Prop where
  streamVariable : entry.streamVariable = stream.streamVariable
  minTimestamp : ∃ first ∈ stream.value, entry.minTimestamp = some first.timestamp ∧
    ∀ value ∈ stream.value, first.timestamp ≤ value.timestamp
  maxTimestamp : ∃ last ∈ stream.value, entry.maxTimestamp = some last.timestamp ∧
    ∀ value ∈ stream.value, value.timestamp ≤ last.timestamp
  numValues : ∃ count, entry.numValues = some count ∧ count.toNat = stream.value.length

theorem head_le_of_sorted {stream : Stream Double} {first : Value Double}
    (sorted : stream.value.Pairwise fun one other => one.timestamp ≤ other.timestamp)
    (found : stream.value.head? = some first) {value : Value Double} (member : value ∈ stream.value) :
    first.timestamp ≤ value.timestamp := by
  cases values : stream.value with
  | nil => simp [values] at member
  | cons head tail =>
    rw [values] at sorted found member
    obtain rfl := Option.some.inj found
    rcases List.mem_cons.mp member with rfl | later
    · exact le_rfl
    · exact (List.pairwise_cons.mp sorted).1 value later

theorem le_getLast_of_sorted {stream : Stream Double} {last : Value Double}
    (sorted : stream.value.Pairwise fun one other => one.timestamp ≤ other.timestamp)
    (found : stream.value.getLast? = some last) {value : Value Double} (member : value ∈ stream.value) :
    value.timestamp ≤ last.timestamp := by
  obtain ⟨front, split⟩ := List.getLast?_eq_some_iff.mp found
  rw [split] at sorted member
  rcases List.mem_append.mp member with earlier | here
  · exact (List.pairwise_append.mp sorted).2.2 value earlier last (List.mem_singleton_self last)
  · rw [List.mem_singleton.mp here]

/-- The values of a stored stream can be counted in 32 bits: each takes a byte of its encoding. -/
theorem StoredStream.count {rt : Runtime Double} {stream : Stream Double} (stored : StoredStream rt stream) :
    (UInt32.ofNat stream.value.length).toNat = stream.value.length := by
  have bytes := rt.stream_values stream
  have small := stored.small
  rw [UInt32.toNat_ofNat']
  exact Nat.mod_eq_of_lt (by omega)

theorem StoredStream.entryDescribes {rt : Runtime Double} {stream : Stream Double}
    (stored : StoredStream rt stream) (offset : UInt64) : EntryDescribes (indexEntry offset stream) stream := by
  obtain ⟨first, foundFirst⟩ := Option.isSome_iff_exists.mp (List.isSome_head?.mpr stored.valued)
  obtain ⟨last, foundLast⟩ := Option.isSome_iff_exists.mp (List.getLast?_isSome.mpr stored.valued)
  refine ⟨rfl, ⟨first, List.mem_of_head? foundFirst, by simp [indexEntry, foundFirst], ?_⟩,
    ⟨last, List.mem_of_getLast? foundLast, by simp [indexEntry, foundLast], ?_⟩,
    ⟨_, rfl, stored.count⟩⟩
  · exact fun value member => head_le_of_sorted stored.sorted foundFirst member
  · exact fun value member => le_getLast_of_sorted stored.sorted foundLast member

/-- `Read` without log streams rebuilds a map of streams, each of them sorted. -/
def Rebuilds (rt : Runtime Double) (disk : Disk) (block : DatastoreBlock Double) (streams : StreamMap Double) : Prop :=
  ∀ logOrder, ∃ rebuilt, { block with logStreams := ∅ }.read rt logOrder disk ∅ = .ok (.ok rebuilt) ∧
    ∀ key, rebuilt.lookup key = (streams.lookup key).map rt.sortStream

/-- The block file of `block` is a faithful copy of a map of streams. -/
structure FaithfulFile (rt : Runtime Double) (disk : Disk) (block : DatastoreBlock Double)
    (streams : StreamMap Double) : Prop where
  /-- `Read` without log streams rebuilds the map, each stream sorted. -/
  read : ∀ logOrder, ∃ rebuilt,
    { block with logStreams := ∅ }.read rt logOrder disk ∅ = .ok (.ok rebuilt) ∧
      ∀ key, rebuilt.lookup key = (streams.lookup key).map rt.sortStream
  /-- Every stream has an index entry. -/
  indexed : ∀ key ∈ streams, ∃ entry ∈ block.blockHeader.index,
    variableString entry.streamVariable = .ok key
  /-- Every index entry leads to the stream it describes. -/
  located : ∀ entry ∈ block.blockHeader.index, ∃ key stream, streams.lookup key = some stream ∧
    block.getStreams rt disk entry = .ok [rt.sortStream stream] ∧
      EntryDescribes entry (rt.sortStream stream)
  /-- The header that was written last ends where the first stream begins. -/
  layout : ∃ body : List (Stream Double),
    body.Perm (((Keyed.pairs streams).map Prod.snd).map rt.sortStream) ∧
      disk.files.lookup block.filename = some (frame (rt.header.encode block.blockHeader) ++
        body.flatMap (fun stream => frame (rt.stream.encode stream)) ++
          frame (rt.footer.encode block.blockFooter))

theorem key_of_variableString {stream : Stream Double} {key : GoString}
    (printed : variableString stream.streamVariable = .ok key) : stream.key = key ∧ stream.HasVariable := by
  cases found : stream.streamVariable with
  | none => simp [found, variableString, newFromProto] at printed
  | some p =>
    have named : stream.HasVariable := by simp [ValueStream.HasVariable, found]
    rw [variableString_eq named, Except.ok.injEq] at printed
    exact ⟨printed, named⟩

theorem BlockFile.exists_entry {rt : Runtime Double} {header : StoreFileHeader}
    {streams : List (Stream Double)} (file : BlockFile rt header streams) {stream : Stream Double}
    (member : stream ∈ streams) :
    ∃ entry ∈ header.index, IndexedAt rt header streams stream entry := by
  obtain ⟨entries, perm, forall₂⟩ := file.index
  obtain ⟨position, bound, rfl⟩ := List.mem_iff_getElem.mp (perm.mem_iff.mpr member)
  have bound' : position < header.index.length := forall₂.length_eq ▸ bound
  exact ⟨header.index[position], List.getElem_mem bound', forall₂.get bound bound'⟩

theorem BlockFile.exists_stream {rt : Runtime Double} {header : StoreFileHeader}
    {streams : List (Stream Double)} (file : BlockFile rt header streams) {entry : StoreFileHeaderIndex}
    (member : entry ∈ header.index) : ∃ stream ∈ streams, IndexedAt rt header streams stream entry := by
  obtain ⟨entries, perm, forall₂⟩ := file.index
  obtain ⟨position, bound', rfl⟩ := List.mem_iff_getElem.mp member
  have bound : position < entries.length := forall₂.length_eq ▸ bound'
  exact ⟨entries[position], perm.mem_iff.mp (List.getElem_mem bound), forall₂.get bound bound'⟩

/-- The streams that `Write` has put into the block file are those of the map. -/
theorem DatastoreBlock.OnDisk.rebuilds {rt : Runtime Double} {orders : Orders} {disk : Disk}
    {block : DatastoreBlock Double} {streams : StreamMap Double}
    (onDisk : block.OnDisk rt disk.view (writtenStreams rt orders streams)) (reliable : disk.Reliable)
    (filed : Filed streams) : Rebuilds rt disk block streams := by
  intro logOrder
  have keys := writtenStreams_keys rt orders filed
  have logless : ({ block with logStreams := ∅ } : DatastoreBlock Double).OnDisk rt disk.view
      (writtenStreams rt orders streams) := onDisk
  refine ⟨addStreams ∅ (writtenStreams rt orders streams), ?_, fun key => ?_⟩
  · have read := DatastoreBlock.read_eq logOrder reliable logless Filed.empty ∅
    have noLogs : logOrder.order (DatastoreBlock.logs ({ block with logStreams := ∅ } : DatastoreBlock Double)) = [] :=
      List.perm_nil.mp (logOrder.perm _)
    rw [noLogs, List.append_nil] at read
    exact read
  · cases found : streams.lookup key with
    | none =>
      rw [lookup_addStreams_of_notMem]
      · rfl
      · rw [keys.mem_iff]
        exact AList.lookup_eq_none.mp found
    | some stream =>
      have member : rt.sortStream stream ∈ writtenStreams rt orders streams :=
        mem_writtenStreams.mpr ⟨key, stream, found, rfl⟩
      have distinct : ((writtenStreams rt orders streams).map ValueStream.key).Nodup :=
        keys.nodup_iff.mpr streams.keys_nodup
      have placed := lookup_addStreams_of_mem distinct member ∅ (by simp)
      rwa [Runtime.key_sortStream, (filed key stream found).1] at placed

/-- `Write`, given streams that have values and stand under their own keys, leaves a faithful copy of them in the block
file, for every order of its loops, when no file call fails and what it writes can be marshalled and fits into a file. -/
theorem write_round_trip (rt : Runtime Double) (orders : Orders) (disk : Disk)
    (block : DatastoreBlock Double) (streams : StreamMap Double) (reliable : disk.Reliable)
    (complete : disk.incomplete = false) (version : block.blockHeader.version = some 2)
    (printed : ∀ key stream, streams.lookup key = some stream →
      variableString stream.streamVariable = .ok key)
    (valued : ∀ key stream, streams.lookup key = some stream → stream.value ≠ [])
    (leftOver : block.newFilename rt ∉ disk.files)
    (fits : ∀ header, block.firstHeader rt orders streams = .ok header →
      Fits rt 0 header (writtenStreams rt orders streams) block.blockFooter) :
    ∃ after written, block.write rt orders disk streams = .ok (after, written, none) ∧
      after.incomplete = false ∧ FaithfulFile rt after written streams := by
  have filed : Filed streams := fun key stream found => key_of_variableString (printed key stream found)
  have fresh : disk.view (block.newFilename rt) = none := AList.lookup_eq_none.mpr leftOver
  obtain ⟨after, header, result, stillReliable, whole, success⟩ := block.write_eq rt orders reliable version
    filed valued
  have unbroken : after.incomplete = false := (whole fresh fits).trans complete
  obtain ⟨file, view⟩ := (success unbroken).2 fresh
  refine ⟨after, _, result, unbroken, ?_⟩
  have onDisk : ({ block with blockHeader := header } : DatastoreBlock Double).OnDisk rt after.view
      (writtenStreams rt orders streams) :=
    .inr ⟨block.blockFooter, by rw [view]; exact Function.update_self _ _ _, file⟩
  refine ⟨onDisk.rebuilds stillReliable filed, fun key member => ?_, fun entry member => ?_, ?_⟩
  · obtain ⟨stream, found⟩ := Keyed.mem_iff_lookup.mp member
    obtain ⟨entry, present, indexed⟩ :=
      file.exists_entry (mem_writtenStreams.mpr ⟨key, stream, found, rfl⟩)
    refine ⟨entry, present, ?_⟩
    obtain ⟨before, behind, -, rfl⟩ := indexed
    exact printed key stream found
  · obtain ⟨stream, present, indexed⟩ := file.exists_stream member
    obtain ⟨key, original, found, rfl⟩ := mem_writtenStreams.mp present
    refine ⟨key, original, found, DatastoreBlock.getStreams_eq stillReliable onDisk indexed, ?_⟩
    obtain ⟨before, behind, -, rfl⟩ := indexed
    exact (file.stored _ present).entryDescribes _
  · refine ⟨writtenStreams rt orders streams, ?_, by rw [← Disk.view, view]; exact Function.update_self _ _ _⟩
    rw [writtenStreams, List.map_map]
    refine ((orders.streams.perm _).map _).trans ?_
    rw [sortedEntries, List.map_map]
    rfl

/-- Two streams, the first with its values out of order. -/
def twoStreams : StreamMap UInt64 :=
  ((∅ : StreamMap UInt64).insert (ascii "b") (gauge "b" [5, 3])).insert (ascii "a") (gauge "a" [7])

/-- The bounds of `Fits`, for streams in the order in which the two loops of `Write` visit them. -/
def fitsIn (block : DatastoreBlock UInt64) (streams : StreamMap UInt64) : Except Panic Bool := do
  let header ← block.firstHeader protoRuntime .listed streams
  let written := writtenStreams protoRuntime .listed streams
  return (protoRuntime.header.encode header).length < 2 ^ 31 ∧
    (∀ stream ∈ written, (protoRuntime.stream.encode stream).length < 2 ^ 31) ∧
    (protoRuntime.footer.encode block.blockFooter).length < 2 ^ 31 ∧
    (blockLayout protoRuntime header written block.blockFooter).length ≤ maxFileSize

theorem fits_of_fitsIn {block : DatastoreBlock UInt64} {streams : StreamMap UInt64}
    (checked : fitsIn block streams = .ok true) {header : StoreFileHeader}
    (first : block.firstHeader protoRuntime .listed streams = .ok header) :
    Fits protoRuntime 0 header (writtenStreams protoRuntime .listed streams) block.blockFooter := by
  rw [fitsIn, first] at checked
  obtain ⟨headerSmall, smalls, footerSmall, size⟩ := of_decide_eq_true (Except.ok.inj checked)
  exact ⟨headerSmall, smalls, footerSmall, by rwa [Nat.zero_add]⟩

theorem write_round_trip_twoStreams :
    ∃ after written, (newBlock (ascii "b") (ascii "1")).write protoRuntime Orders.listed Disk.empty
        twoStreams = .ok (after, written, none) ∧
      after.incomplete = false ∧ FaithfulFile protoRuntime after written twoStreams :=
  write_round_trip protoRuntime Orders.listed Disk.empty _ twoStreams (fun _ => rfl) rfl rfl
    (Keyed.forall_lookup (show ∀ entry ∈ Keyed.pairs twoStreams,
      variableString entry.2.streamVariable = .ok entry.1 by decide))
    (Keyed.forall_lookup (show ∀ entry ∈ Keyed.pairs twoStreams, entry.2.value ≠ [] by decide))
    (by decide) (fun _ first => fits_of_fitsIn (by decide +kernel) first)

end OpenInstrument
