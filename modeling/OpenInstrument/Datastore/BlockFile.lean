import Mathlib.Data.List.Induction
import OpenInstrument.Library.Fallible
import OpenInstrument.Datastore.Merging
import OpenInstrument.ProtoFileRoundTrip

/-! # The block file

`Write` lays a block file out as the frame of its header, the frames of its streams and the frame of
its footer.  The index of the header gives the position of each stream; it is written twice, at the
same length.  `BlockFile` says what the header of a finished file tells about the streams behind it.
`Read` and `GetStreams` return those streams.
-/

namespace OpenInstrument

variable {Double : Type}

/-- The index entry of a stream at a position of the file. -/
def indexEntry (offset : UInt64) (stream : Stream Double) : StoreFileHeaderIndex :=
  { streamVariable := stream.streamVariable
    offset
    numValues := some (UInt32.ofNat stream.value.length)
    minTimestamp := stream.value.head?.map (·.timestamp)
    maxTimestamp := stream.value.getLast?.map (·.timestamp) }

def blockLayout (rt : Runtime Double) (header : StoreFileHeader) (streams : List (Stream Double))
    (footer : StoreFileFooter) : Bytes :=
  frame (rt.header.encode header) ++ frames rt.stream streams ++ frame (rt.footer.encode footer)

/-- What is written behind `start` bytes of a file can be marshalled and fits into the file. -/
structure Fits (rt : Runtime Double) (start : Nat) (header : StoreFileHeader) (streams : List (Stream Double))
    (footer : StoreFileFooter) : Prop where
  headerSmall : (rt.header.encode header).length < 2 ^ 31
  streamsSmall : ∀ stream ∈ streams, (rt.stream.encode stream).length < 2 ^ 31
  footerSmall : (rt.footer.encode footer).length < 2 ^ 31
  size : start + (blockLayout rt header streams footer).length ≤ maxFileSize

/-- The position behind the header and the streams `before`. -/
def streamPosition (rt : Runtime Double) (header : StoreFileHeader) (before : List (Stream Double)) : Nat :=
  (frame (rt.header.encode header) ++ frames rt.stream before).length

/-- The `end_key` that the first loop of `Write` computes. -/
def greatestKey (keys : List GoString) : GoString := keys.foldl max []

def IndexedAt (rt : Runtime Double) (header : StoreFileHeader) (streams : List (Stream Double))
    (stream : Stream Double) (entry : StoreFileHeaderIndex) : Prop :=
  ∃ before after, streams = before ++ stream :: after ∧
    entry = indexEntry (UInt64.ofNat (streamPosition rt header before)) stream

/-- A stream as `Write` leaves it in a block file. -/
structure StoredStream (rt : Runtime Double) (stream : Stream Double) : Prop where
  named : stream.HasVariable
  valued : stream.value ≠ []
  sorted : stream.value.Pairwise fun first second => first.timestamp ≤ second.timestamp
  small : (rt.stream.encode stream).length < 2 ^ 31

/-- The header of a finished block file describes the streams behind it. -/
structure BlockFile (rt : Runtime Double) (header : StoreFileHeader) (streams : List (Stream Double)) :
    Prop where
  version : header.version = some 2
  endKey : header.endKey = some (greatestKey (streams.map ValueStream.key))
  footerPosition : header.footerPosition = some (UInt64.ofNat (streamPosition rt header streams))
  fits : streamPosition rt header streams ≤ maxFileSize
  small : (rt.header.encode header).length < 2 ^ 31
  stored : ∀ stream ∈ streams, StoredStream rt stream
  distinct : (streams.map ValueStream.key).Nodup
  index : ∃ entries, entries.Perm streams ∧ List.Forall₂ (IndexedAt rt header streams) entries header.index

/-- The same for a file in which `start` bytes lie between the header and the streams. -/
structure BlockFileBehind (rt : Runtime Double) (start : Nat) (header : StoreFileHeader)
    (streams : List (Stream Double)) : Prop where
  version : header.version = some 2
  endKey : header.endKey = some (greatestKey (streams.map ValueStream.key))
  footerPosition : header.footerPosition = some (UInt64.ofNat (start + streamPosition rt header streams))
  fits : start + streamPosition rt header streams ≤ maxFileSize
  small : (rt.header.encode header).length < 2 ^ 31
  stored : ∀ stream ∈ streams, StoredStream rt stream
  distinct : (streams.map ValueStream.key).Nodup
  index : ∃ entries, entries.Perm streams ∧
    List.Forall₂ (fun stream entry => ∃ before after, streams = before ++ stream :: after ∧
      entry = indexEntry (UInt64.ofNat (start + streamPosition rt header before)) stream) entries header.index

theorem BlockFileBehind.blockFile {rt : Runtime Double} {header : StoreFileHeader} {streams : List (Stream Double)}
    (file : BlockFileBehind rt 0 header streams) : BlockFile rt header streams := by
  obtain ⟨version, endKey, footerPosition, fits, small, stored, distinct, index⟩ := file
  simp only [Nat.zero_add] at footerPosition fits index
  exact ⟨version, endKey, footerPosition, fits, small, stored, distinct, index⟩

theorem indexedAt_keys {rt : Runtime Double} {header : StoreFileHeader} {streams entries : List (Stream Double)}
    {index : List StoreFileHeaderIndex} (indexed : List.Forall₂ (IndexedAt rt header streams) entries index) :
    index.map StoreFileHeaderIndex.key = entries.map ValueStream.key := by
  induction indexed with
  | nil => rfl
  | cons here _ inductionHypothesis =>
    obtain ⟨before, after, -, rfl⟩ := here
    rw [List.map_cons, List.map_cons, inductionHypothesis]
    rfl

theorem indexedAt_of_mem {rt : Runtime Double} {header : StoreFileHeader}
    {streams entries : List (Stream Double)} {index : List StoreFileHeaderIndex}
    (indexed : List.Forall₂ (IndexedAt rt header streams) entries index) {entry : StoreFileHeaderIndex}
    (member : entry ∈ index) : ∃ stream ∈ entries, IndexedAt rt header streams stream entry := by
  induction indexed with
  | nil => cases member
  | @cons first _ _ _ here _ inductionHypothesis =>
    rcases List.mem_cons.mp member with rfl | later
    · exact ⟨first, List.mem_cons_self, here⟩
    · obtain ⟨stream, present, indexed⟩ := inductionHypothesis later
      exact ⟨stream, List.mem_cons_of_mem _ present, indexed⟩

theorem greatestKey_append (keys : List GoString) (key : GoString) :
    greatestKey (keys ++ [key]) = max (greatestKey keys) key := by
  simp [greatestKey]

theorem le_greatestKey {keys : List GoString} {key : GoString} (member : key ∈ keys) :
    key ≤ greatestKey keys := by
  induction keys using List.reverseRecOn with
  | nil => cases member
  | append_singleton keys last inductionHypothesis =>
    rw [greatestKey_append]
    rcases List.mem_append.mp member with earlier | here
    · exact (inductionHypothesis earlier).trans (le_max_left _ _)
    · rw [List.mem_singleton.mp here]
      exact le_max_right _ _

theorem greatestKey_mem {keys : List GoString} (nonempty : keys ≠ []) : greatestKey keys ∈ keys := by
  induction keys using List.reverseRecOn with
  | nil => exact absurd rfl nonempty
  | append_singleton keys last inductionHypothesis =>
    rw [greatestKey_append]
    rcases le_total (greatestKey keys) last with below | above
    · simp [max_eq_right below]
    · rw [max_eq_left above]
      by_cases empty : keys = []
      · subst empty
        have first : last = [] := le_antisymm above (nil_le last)
        simp [greatestKey, first]
      · exact List.mem_append_left _ (inductionHypothesis empty)

theorem greatestKey_congr {first second : List GoString} (same : ∀ key, key ∈ first ↔ key ∈ second) :
    greatestKey first = greatestKey second := by
  by_cases empty : first = []
  · have none : second = [] := List.eq_nil_iff_forall_not_mem.mpr fun key member => by
      have absent := (same key).mpr member
      rw [empty] at absent
      cases absent
    rw [empty, none]
  · obtain ⟨key, member⟩ := List.exists_mem_of_ne_nil first empty
    have other : second ≠ [] := List.ne_nil_of_mem ((same key).mp member)
    exact le_antisymm (le_greatestKey ((same _).mp (greatestKey_mem empty)))
      (le_greatestKey ((same _).mpr (greatestKey_mem other)))

theorem greatestKey_perm {first second : List GoString} (same : first.Perm second) :
    greatestKey first = greatestKey second :=
  greatestKey_congr fun _ => same.mem_iff

theorem greatestKey_le {keys : List GoString} {bound : GoString} (below : ∀ key ∈ keys, key ≤ bound) :
    greatestKey keys ≤ bound := by
  by_cases empty : keys = []
  · subst empty
    exact nil_le bound
  · exact below _ (greatestKey_mem empty)

/-! ## The first loop of `Write` -/

theorem summarizeStream_eq {entry : GoString × Stream Double} (valued : entry.2.value ≠ [])
    (summary : WriteSummary) :
    ∃ next, summarizeStream summary entry = .ok next ∧
      next.index = summary.index ++ [indexEntry 0 entry.2] ∧
      next.endKey = max summary.endKey entry.1 := by
  obtain ⟨v, stream⟩ := entry
  obtain ⟨first, found⟩ := Option.isSome_iff_exists.mp (List.isSome_head?.mpr valued)
  obtain ⟨last, foundLast⟩ := Option.isSome_iff_exists.mp (List.getLast?_isSome.mpr valued)
  simp only [summarizeStream, found, foundLast]
  refine ⟨_, rfl, by simp [indexEntry, found, foundLast], ?_⟩
  by_cases above : summary.endKey < v
  · simp [above, max_eq_right above.le]
  · simp [above, max_eq_left (not_lt.mp above)]

theorem summarizeStream_panics {summary : WriteSummary} {entry : GoString × Stream Double}
    (empty : entry.2.value = []) : summarizeStream summary entry = .error .indexOutOfRange := by
  simp [summarizeStream, empty]

/-- The first loop of `Write`, when every stream has a value. -/
theorem summarizeStreams_eq {entries : List (GoString × Stream Double)}
    (valued : ∀ entry ∈ entries, entry.2.value ≠ []) (summary : WriteSummary) :
    ∃ final, entries.foldlM summarizeStream summary = .ok final ∧
      final.index = summary.index ++ entries.map (fun entry => indexEntry 0 entry.2) ∧
      final.endKey = (entries.map Prod.fst).foldl max summary.endKey := by
  induction entries generalizing summary with
  | nil => exact ⟨summary, rfl, by simp, rfl⟩
  | cons entry entries inductionHypothesis =>
    obtain ⟨next, step, index, endKey⟩ := summarizeStream_eq (valued entry List.mem_cons_self) summary
    obtain ⟨final, run, finalIndex, finalKey⟩ :=
      inductionHypothesis (fun other member => valued other (List.mem_cons_of_mem _ member)) next
    refine ⟨final, ?_, ?_, ?_⟩
    · rw [List.foldlM_cons, step]
      exact run
    · rw [finalIndex, index, List.map_cons, List.append_assoc, List.singleton_append]
    · rw [finalKey, endKey, List.map_cons, List.foldl_cons]

/-- The first loop of `Write` panics when it meets a stream without values. -/
theorem summarizeStreams_panics {entries : List (GoString × Stream Double)}
    (empty : ∃ entry ∈ entries, entry.2.value = []) (summary : WriteSummary) :
    entries.foldlM summarizeStream summary = .error .indexOutOfRange := by
  induction entries generalizing summary with
  | nil => obtain ⟨entry, member, -⟩ := empty; cases member
  | cons entry entries inductionHypothesis =>
    rw [List.foldlM_cons]
    by_cases here : entry.2.value = []
    · rw [summarizeStream_panics here]
      rfl
    · obtain ⟨next, step, -, -⟩ := summarizeStream_eq here summary
      rw [step]
      refine inductionHypothesis ?_ next
      obtain ⟨other, member, none⟩ := empty
      rcases List.mem_cons.mp member with rfl | later
      · exact absurd none here
      · exact ⟨other, later, none⟩

/-! ## The second loop of `Write` -/

/-- The file being written holds `content`, and the writer stands at its end. -/
structure StreamWriter.AtEnd (state : StreamWriter) (content : Bytes) : Prop where
  written : state.disk.view state.newfile.filename = some content
  position : state.newfile.position = content.length

/-- One more frame at the end of the file. -/
theorem write_atEnd {Message : Type} {codec : Codec Message} {state : StreamWriter} {content : Bytes}
    (atEnd : state.AtEnd content) {message : Message} {newfile : ProtoFileWriter} {after : Disk}
    {complete : Bool} (reliable : state.disk.Reliable)
    (written : state.newfile.write codec state.disk message = (newfile, after, complete))
    (success : after.incomplete = false) (indexPos : AList fun _ : GoString => UInt64) :
    newfile.filename = state.newfile.filename ∧ (codec.encode message).length < 2 ^ 31 ∧
      (content ++ frame (codec.encode message)).length ≤ maxFileSize ∧
      StreamWriter.AtEnd { newfile, disk := after, indexPos } (content ++ frame (codec.encode message)) ∧
      after.view = Function.update state.disk.view state.newfile.filename
        (some (content ++ frame (codec.encode message))) := by
  obtain ⟨-, -, small, rfl, fits, view⟩ := (ProtoFileWriter.write_eq reliable written).2 success
  rw [Disk.content_eq, atEnd.written, Option.getD_some, atEnd.position, overwrite_end] at view
  simp only [atEnd.position] at fits
  refine ⟨rfl, small, by simpa using fits, ⟨?_, ?_⟩, view⟩
  · simp [view]
  · simp [atEnd.position]

theorem writeStream_eq (rt : Runtime Double) {stream : Stream Double} (named : stream.HasVariable)
    (state : StreamWriter) :
    writeStream rt state stream =
      .ok
        { newfile := (state.newfile.write rt.stream state.disk stream).1
          disk := (state.newfile.write rt.stream state.disk stream).2.1
          indexPos := state.indexPos.insert stream.key (UInt64.ofNat state.newfile.position) } := by
  rw [writeStream, variableString_eq named]
  rfl

/-- The second loop of `Write` appends the frames of all streams, and `index_pos` holds the position
of each. -/
theorem writeStreams_eq (rt : Runtime Double) {streams : List (Stream Double)}
    (named : ∀ stream ∈ streams, stream.HasVariable) (state : StreamWriter)
    (reliable : state.disk.Reliable) :
    ∃ final, streams.foldlM (writeStream rt) state = .ok final ∧ final.disk.Reliable ∧
      (final.disk.incomplete = false → state.disk.incomplete = false ∧
        ∀ content, state.AtEnd content →
          final.newfile.filename = state.newfile.filename ∧
          final.AtEnd (content ++ frames rt.stream streams) ∧
          (content.length ≤ maxFileSize → (content ++ frames rt.stream streams).length ≤ maxFileSize) ∧
          final.disk.view = Function.update state.disk.view state.newfile.filename
            (some (content ++ frames rt.stream streams)) ∧
          (∀ stream ∈ streams, (rt.stream.encode stream).length < 2 ^ 31) ∧
          (∀ key ∉ streams.map ValueStream.key, final.indexPos.lookup key = state.indexPos.lookup key) ∧
          ((streams.map ValueStream.key).Nodup → ∀ before stream after,
            streams = before ++ stream :: after →
              final.indexPos.lookup stream.key =
                some (UInt64.ofNat (content ++ frames rt.stream before).length))) := by
  induction streams generalizing state with
  | nil =>
    refine ⟨state, rfl, reliable, fun success => ⟨success, fun content atEnd => ?_⟩⟩
    rw [frames_nil, List.append_nil]
    exact ⟨rfl, atEnd, id, by rw [← atEnd.written, Function.update_eq_self], by simp, by simp, by simp⟩
  | cons stream streams inductionHypothesis =>
    -- One frame goes behind the content, and the loop on the rest starts from there.
    have first := writeStream_eq rt (named stream List.mem_cons_self) state
    obtain ⟨stillReliable, write⟩ := ProtoFileWriter.write_eq reliable
      (Prod.mk.eta (p := state.newfile.write rt.stream state.disk stream)).symm
    obtain ⟨final, run, finalReliable, rest⟩ := inductionHypothesis
      (fun other member => named other (List.mem_cons_of_mem _ member))
      { newfile := (state.newfile.write rt.stream state.disk stream).1
        disk := (state.newfile.write rt.stream state.disk stream).2.1
        indexPos := state.indexPos.insert stream.key (UInt64.ofNat state.newfile.position) }
      stillReliable
    refine ⟨final, by rw [List.foldlM_cons, first]; exact run, finalReliable, fun success => ?_⟩
    obtain ⟨between, rest⟩ := rest success
    refine ⟨(write between).1, fun content atEnd => ?_⟩
    obtain ⟨filename, small, fits, nextAtEnd, view⟩ := write_atEnd atEnd reliable
      (Prod.mk.eta (p := state.newfile.write rt.stream state.disk stream)).symm between
      (state.indexPos.insert stream.key (UInt64.ofNat state.newfile.position))
    obtain ⟨finalName, finalAtEnd, finalFits, finalView, smalls, untouched, positions⟩ := rest _ nextAtEnd
    simp only [filename] at finalName finalView
    simp only [frames_cons, List.append_assoc] at finalAtEnd finalFits finalView positions ⊢
    refine ⟨finalName, finalAtEnd, fun _ => finalFits fits, ?_, ?_, ?_, ?_⟩
    · rw [finalView, view, Function.update_idem]
    · exact fun other member => (List.mem_cons.mp member).elim (fun same => same ▸ small) (smalls other)
    · intro key absent
      simp only [List.map_cons, List.mem_cons, not_or] at absent
      rw [untouched key absent.2, AList.lookup_insert_ne absent.1]
    · intro distinct before other after split
      simp only [List.map_cons, List.nodup_cons] at distinct
      cases before with
      | nil =>
        -- No later stream has the key of this one, so its position stays in the map.
        obtain ⟨rfl, rfl⟩ := List.cons.inj split
        rw [untouched _ distinct.1, AList.lookup_insert, atEnd.position, frames_nil, List.append_nil]
      | cons head before =>
        obtain ⟨rfl, rfl⟩ := List.cons.inj split
        rw [positions distinct.2 before other after rfl, frames_cons]

/-- On a disk whose calls do not fail, the second loop of `Write` writes all streams that can be marshalled and fit. -/
theorem writeStreams_complete {rt : Runtime Double} {streams : List (Stream Double)} {state final : StreamWriter}
    (reliable : state.disk.Reliable) (written : streams.foldlM (writeStream rt) state = .ok final)
    (small : ∀ stream ∈ streams, (rt.stream.encode stream).length < 2 ^ 31)
    (fits : state.newfile.position + (frames rt.stream streams).length ≤ maxFileSize) :
    final.disk.incomplete = state.disk.incomplete ∧
      final.newfile.position = state.newfile.position + (frames rt.stream streams).length := by
  induction streams generalizing state with
  | nil =>
    obtain rfl := Except.ok.inj written
    exact ⟨rfl, by simp⟩
  | cons stream streams inductionHypothesis =>
    rw [List.foldlM_cons] at written
    rw [frames_cons, List.length_append] at fits
    obtain ⟨next, first, rest⟩ := Fallible.bind_ok written
    obtain ⟨v, -, returned⟩ := Fallible.bind_ok first
    have nextFile : next.newfile = (state.newfile.write rt.stream state.disk stream).1 :=
      (congrArg StreamWriter.newfile (Except.ok.inj returned)).symm
    have nextDisk : next.disk = (state.newfile.write rt.stream state.disk stream).2.1 :=
      (congrArg StreamWriter.disk (Except.ok.inj returned)).symm
    have wrote := (Prod.mk.eta (p := state.newfile.write rt.stream state.disk stream)).symm
    obtain ⟨complete, moved⟩ :=
      ProtoFileWriter.write_complete reliable wrote (small stream List.mem_cons_self) (by omega)
    obtain ⟨finalComplete, finalMoved⟩ := inductionHypothesis
      (nextDisk ▸ (ProtoFileWriter.write_eq reliable wrote).1) rest
      (fun other member => small other (List.mem_cons_of_mem _ member)) (by rw [nextFile, moved]; omega)
    rw [nextDisk] at finalComplete
    refine ⟨finalComplete.trans complete, ?_⟩
    rw [finalMoved, nextFile, moved, frames_cons, List.length_append, Nat.add_assoc]

/-! ## `Write` -/

/-- The streams `Write` is given, as it sorts them. -/
def sortedEntries (rt : Runtime Double) (streams : StreamMap Double) : List (GoString × Stream Double) :=
  (Keyed.pairs streams).map fun entry => (entry.1, rt.sortStream entry.2)

/-- The header that `Write` writes first, before it knows where the streams will stand. -/
def DatastoreBlock.firstHeader (rt : Runtime Double) (orders : Orders) (block : DatastoreBlock Double)
    (streams : StreamMap Double) : Except Panic StoreFileHeader := do
  let summary ← (orders.index.order (sortedEntries rt streams)).foldlM summarizeStream
    { minTimestamp := 0, maxTimestamp := 0, endKey := [], index := [] }
  return { block.blockHeader with
    index := summary.index
    startTimestamp := some summary.minTimestamp
    endTimestamp := some summary.maxTimestamp
    endKey := some summary.endKey
    footerPosition := some 0 }

theorem setOffset_eq {stream : Stream Double} (named : stream.HasVariable)
    (indexPos : AList fun _ : GoString => UInt64) (offset : UInt64) :
    setOffset indexPos (indexEntry offset stream) =
      .ok (indexEntry ((indexPos.lookup stream.key).getD 0) stream) := by
  rw [setOffset, indexEntry, variableString_eq named]
  rfl

theorem mem_sortedEntries {rt : Runtime Double} {streams : StreamMap Double}
    {entry : GoString × Stream Double} :
    entry ∈ sortedEntries rt streams ↔
      ∃ stream, streams.lookup entry.1 = some stream ∧ entry.2 = rt.sortStream stream := by
  obtain ⟨key, stream⟩ := entry
  simp only [sortedEntries, List.mem_map, Prod.mk.injEq, Prod.exists, Keyed.mem_pairs]
  constructor
  · rintro ⟨key, found, lookup, rfl, rfl⟩
    exact ⟨found, lookup, rfl⟩
  · rintro ⟨found, lookup, rfl⟩
    exact ⟨key, found, lookup, rfl, rfl⟩

theorem sortedEntries_key {rt : Runtime Double} {streams : StreamMap Double} (filed : Filed streams)
    {entry : GoString × Stream Double} (member : entry ∈ sortedEntries rt streams) :
    entry.2.key = entry.1 ∧ entry.2.HasVariable := by
  obtain ⟨stream, found, same⟩ := mem_sortedEntries.mp member
  rw [same]
  exact filed entry.1 stream found

theorem sortedEntries_fst (rt : Runtime Double) (streams : StreamMap Double) :
    (sortedEntries rt streams).map Prod.fst = streams.keys := by
  rw [← Keyed.pairs_keys, sortedEntries, List.map_map]
  rfl

/-- The keys of the streams, in any order the loops may take, are the keys of the map. -/
theorem keys_of_perm {rt : Runtime Double} {streams : StreamMap Double} (filed : Filed streams)
    {entries : List (GoString × Stream Double)} (same : entries.Perm (sortedEntries rt streams)) :
    (entries.map Prod.snd).map ValueStream.key = entries.map Prod.fst ∧
      (entries.map Prod.fst).Perm streams.keys := by
  constructor
  · rw [List.map_map]
    exact List.map_congr_left fun entry member => (sortedEntries_key filed (same.mem_iff.mp member)).1
  · rw [← sortedEntries_fst rt]
    exact same.map _

/-- The two headers that one `Write` writes have the same length. -/
theorem rewritten_length (rt : Runtime Double) (header : StoreFileHeader) (entries : List (Stream Double))
    (position : Stream Double → UInt64) (footerPosition : UInt64)
    (index : header.index = entries.map (indexEntry 0)) (present : header.footerPosition = some 0) :
    (rt.header.encode
        { header with
          index := entries.map fun stream => indexEntry (position stream) stream
          footerPosition := some footerPosition }).length =
      (rt.header.encode header).length := by
  rw [← rt.header_fixed, ← rt.header_fixed header]
  congr 2
  simp [StoreFileHeader.zeroFixed, index, present, indexEntry, Function.comp_def]

theorem newFilename_ne (rt : Runtime Double) (block : DatastoreBlock Double) :
    block.newFilename rt ≠ block.filename := by
  intro same
  have := congrArg List.length same
  simp [DatastoreBlock.newFilename, ascii] at this

/-- The writes of one `Write`, behind whatever the file holds: a header, the streams, the footer, and a second
header of the same length at the beginning of the file. -/
theorem writeFile_eq (rt : Runtime Double) {disk : Disk} (filename : GoString)
    {streams : List (Stream Double)} (reliable : disk.Reliable)
    (named : ∀ stream ∈ streams, stream.HasVariable) (first : StoreFileHeader) (footer : StoreFileFooter) :
    ∃ opened file newfile started state,
      writeProtoFile disk filename = (opened, some file) ∧
      ProtoFileWriter.write rt.header file opened first = (newfile, started) ∧
      streams.foldlM (writeStream rt) { newfile, disk := started.1, indexPos := ∅ } = .ok state ∧
      ∀ last, (rt.header.encode last).length = (rt.header.encode first).length →
        ∀ closing footed closed finished,
          state.newfile.write rt.footer state.disk footer = (closing, footed) →
          closing.writeAt rt.header footed.1 0 last = (closed, finished) →
          finished.1.Reliable ∧
            (Fits rt (disk.content filename).length first streams footer →
              finished.1.incomplete = disk.incomplete) ∧
            (finished.1.incomplete = false → disk.incomplete = false ∧
              finished.1.view = Function.update disk.view filename (some
                (overwrite (disk.content filename ++ blockLayout rt first streams footer) 0
                  (frame (rt.header.encode last)))) ∧
              (rt.header.encode last).length < 2 ^ 31 ∧
              (∀ stream ∈ streams, (rt.stream.encode stream).length < 2 ^ 31) ∧
              state.newfile.position = (disk.content filename).length + streamPosition rt last streams ∧
              state.newfile.position ≤ maxFileSize ∧
              ((streams.map ValueStream.key).Nodup → ∀ before stream after,
                streams = before ++ stream :: after → state.indexPos.lookup stream.key =
                  some (UInt64.ofNat ((disk.content filename).length + streamPosition rt last before)))) := by
  obtain ⟨content, contentDef⟩ : ∃ content, disk.content filename = content := ⟨_, rfl⟩
  have opened := reliable.writeProtoFile filename
  rw [contentDef] at opened
  obtain ⟨newfile, started, wroteHeader⟩ : ∃ newfile started,
      ProtoFileWriter.write rt.header { filename, position := content.length }
        (disk.store filename content) first = (newfile, started) := ⟨_, _, rfl⟩
  obtain ⟨startedReliable, startedEarlier⟩ :=
    ProtoFileWriter.write_eq (reliable.store filename content) wroteHeader
  obtain ⟨state, streamsRun, stateReliable, streamsWritten⟩ :=
    writeStreams_eq rt named { newfile, disk := started.1, indexPos := ∅ } startedReliable
  refine ⟨disk.store filename content, _, newfile, started, state, opened, wroteHeader, streamsRun, ?_⟩
  intro last sameLength closing footed closed finished wroteFooter wroteLast
  obtain ⟨footedReliable, footedEarlier⟩ := ProtoFileWriter.write_eq stateReliable wroteFooter
  obtain ⟨finishedReliable, finishedEarlier⟩ := ProtoFileWriter.write_eq footedReliable wroteLast
  refine ⟨finishedReliable, fun fits => ?_, fun success => ?_⟩
  · rw [contentDef] at fits
    have size := fits.size
    simp only [blockLayout, List.length_append] at size
    obtain ⟨startedComplete, startedPosition⟩ := ProtoFileWriter.write_complete (reliable.store filename content)
      wroteHeader fits.headerSmall (by simp only; omega)
    simp only at startedPosition
    obtain ⟨stateComplete, statePosition⟩ := writeStreams_complete startedReliable streamsRun fits.streamsSmall
      (by simp only; omega)
    simp only at stateComplete statePosition
    obtain ⟨footedComplete, -⟩ := ProtoFileWriter.write_complete stateReliable wroteFooter fits.footerSmall (by omega)
    obtain ⟨finishedComplete, -⟩ := ProtoFileWriter.write_complete footedReliable wroteLast
      (sameLength ▸ fits.headerSmall) (by simp only [frame_length, sameLength] at size ⊢; omega)
    exact finishedComplete.trans (footedComplete.trans (stateComplete.trans startedComplete))
  obtain ⟨footedComplete, -, lastSmall, -, -, finalView⟩ := finishedEarlier success
  have stateComplete := (footedEarlier footedComplete).1
  obtain ⟨startedComplete, streamsWritten⟩ := streamsWritten stateComplete
  -- each write appends one frame, and the last one goes to the beginning
  have startAtEnd : StreamWriter.AtEnd
      { newfile := { filename, position := content.length }, disk := disk.store filename content, indexPos := ∅ }
      content :=
    ⟨by simp [Disk.view_store], rfl⟩
  obtain ⟨newName, -, headerFits, headerAtEnd, headerView⟩ :=
    write_atEnd startAtEnd reliable wroteHeader startedComplete ∅
  obtain ⟨stateName, streamsAtEnd, streamsFit, streamsView, streamsSmall, -, positions⟩ :=
    streamsWritten _ headerAtEnd
  obtain ⟨closingName, -, -, footerAtEnd, footerView⟩ :=
    write_atEnd streamsAtEnd stateReliable wroteFooter footedComplete ∅
  simp only at newName closingName headerView
  rw [newName] at stateName streamsView
  rw [stateName] at closingName footerView
  have frameLength : (frame (rt.header.encode last)).length = (frame (rt.header.encode first)).length := by
    simp [sameLength]
  have before : footed.1.content closing.filename = content ++ blockLayout rt first streams footer := by
    rw [Disk.content_eq, closingName, footerView]
    simp [blockLayout]
  have position : ∀ before : List (Stream Double), content.length + streamPosition rt last before =
      (content ++ frame (rt.header.encode first) ++ frames rt.stream before).length := by
    intro before
    simp only [streamPosition, List.length_append, frameLength, Nat.add_assoc]
  rw [contentDef]
  refine ⟨(startedEarlier startedComplete).1, ?_, lastSmall, streamsSmall, ?_, ?_, ?_⟩
  · rw [finalView, before, footerView, streamsView, headerView, Disk.view_store]
    simp only [closingName, Function.update_idem]
  · rw [streamsAtEnd.position, position]
  · rw [streamsAtEnd.position]
    exact streamsFit headerFits
  · intro distinct before stream after split
    rw [positions distinct before stream after split, position]

/-- The streams that `Write` puts into the block file, in the order of its second loop. -/
def writtenStreams (rt : Runtime Double) (orders : Orders) (streams : StreamMap Double) :
    List (Stream Double) :=
  (orders.streams.order (sortedEntries rt streams)).map Prod.snd

theorem mem_writtenStreams {rt : Runtime Double} {orders : Orders} {streams : StreamMap Double}
    {stream : Stream Double} :
    stream ∈ writtenStreams rt orders streams ↔
      ∃ key original, streams.lookup key = some original ∧ stream = rt.sortStream original := by
  simp only [writtenStreams, List.mem_map, (orders.streams.perm _).mem_iff, mem_sortedEntries,
    Prod.exists]
  constructor
  · rintro ⟨key, _, ⟨original, found, rfl⟩, rfl⟩
    exact ⟨key, original, found, rfl⟩
  · rintro ⟨key, original, found, rfl⟩
    exact ⟨key, _, ⟨original, found, rfl⟩, rfl⟩

theorem writtenStreams_keys (rt : Runtime Double) (orders : Orders) {streams : StreamMap Double}
    (filed : Filed streams) :
    ((writtenStreams rt orders streams).map ValueStream.key).Perm streams.keys := by
  obtain ⟨same, perm⟩ := keys_of_perm filed (orders.streams.perm (sortedEntries rt streams))
  rw [writtenStreams, same]
  exact perm

theorem writtenStreams_stored {rt : Runtime Double} {orders : Orders} {streams : StreamMap Double}
    (filed : Filed streams) (valued : Valued streams) {stream : Stream Double}
    (member : stream ∈ writtenStreams rt orders streams) : stream.HasVariable ∧ stream.value ≠ [] ∧
      stream.value.Pairwise fun first second => first.timestamp ≤ second.timestamp := by
  obtain ⟨key, original, found, rfl⟩ := mem_writtenStreams.mp member
  refine ⟨(filed key original found).2, ?_, rt.sort_sorted original.value⟩
  rw [Ne, rt.sortStream_value_eq_nil]
  exact valued key original found

/-- The first loop of `Write` makes an entry for each of the streams that the second loop writes, and finds their
greatest key. -/
theorem summarize_written {rt : Runtime Double} (orders : Orders) {streams : StreamMap Double}
    (filed : Filed streams) (valued : Valued streams) :
    ∃ (indexed : List (Stream Double)) (summary : WriteSummary),
      indexed.Perm (writtenStreams rt orders streams) ∧
      (orders.index.order (sortedEntries rt streams)).foldlM summarizeStream
        { minTimestamp := 0, maxTimestamp := 0, endKey := [], index := [] } = .ok summary ∧
      summary.index = indexed.map (indexEntry 0) ∧
      summary.endKey = greatestKey ((writtenStreams rt orders streams).map ValueStream.key) := by
  have indexPerm := orders.index.perm (sortedEntries rt streams)
  have perm : ((orders.index.order (sortedEntries rt streams)).map Prod.snd).Perm
      (writtenStreams rt orders streams) :=
    (indexPerm.trans (orders.streams.perm (sortedEntries rt streams)).symm).map _
  have indexedValued : ∀ entry ∈ orders.index.order (sortedEntries rt streams), entry.2.value ≠ [] :=
    fun entry member =>
      (writtenStreams_stored filed valued (perm.mem_iff.mp (List.mem_map_of_mem member))).2.1
  obtain ⟨summary, summarized, index, endKey⟩ := summarizeStreams_eq indexedValued
    { minTimestamp := 0, maxTimestamp := 0, endKey := [], index := [] }
  refine ⟨_, summary, perm, summarized, ?_, ?_⟩
  · rw [List.map_map]
    exact index
  · rw [greatestKey_perm (writtenStreams_keys rt orders filed),
      ← greatestKey_perm (keys_of_perm filed indexPerm).2, greatestKey, ← endKey]

/-- `Write`, when the streams have variables and values.  Unless a file call fails or a message is too large, the block
file holds the streams behind what a file of the temporary name held, and the header that describes them at the
beginning. -/
theorem DatastoreBlock.write_over (rt : Runtime Double) (orders : Orders) {disk : Disk}
    (block : DatastoreBlock Double) {streams : StreamMap Double} (reliable : disk.Reliable)
    (version : block.blockHeader.version = some 2) (filed : Filed streams) (valued : Valued streams) :
    ∃ after first header, block.write rt orders disk streams =
        .ok (after, { block with blockHeader := header }, none) ∧ after.Reliable ∧
      block.firstHeader rt orders streams = .ok first ∧
      (Fits rt (disk.content (block.newFilename rt)).length first (writtenStreams rt orders streams)
        block.blockFooter → after.incomplete = disk.incomplete) ∧
      (after.incomplete = false → disk.incomplete = false ∧
        BlockFileBehind rt (disk.content (block.newFilename rt)).length header (writtenStreams rt orders streams) ∧
        (rt.header.encode header).length = (rt.header.encode first).length ∧
        after.view = Function.update (Function.update disk.view (block.newFilename rt) none) block.filename (some
          (overwrite (disk.content (block.newFilename rt) ++
            blockLayout rt first (writtenStreams rt orders streams) block.blockFooter) 0
              (frame (rt.header.encode header))))) := by
  have stored : ∀ stream ∈ writtenStreams rt orders streams, _ := fun stream member =>
    writtenStreams_stored filed valued member
  -- the first loop
  obtain ⟨indexed, summary, indexedPerm, summarized, index, endKey⟩ := summarize_written orders filed valued
  obtain ⟨first, firstHeader⟩ : ∃ first : StoreFileHeader, first =
    { block.blockHeader with
      index := summary.index
      startTimestamp := some summary.minTimestamp
      endTimestamp := some summary.maxTimestamp
      endKey := some summary.endKey
      footerPosition := some 0 } := ⟨_, rfl⟩
  have firstIndex : first.index = indexed.map (indexEntry 0) := by rw [firstHeader, index]
  have firstKey : first.endKey =
      some (greatestKey ((writtenStreams rt orders streams).map ValueStream.key)) := by rw [firstHeader, endKey]
  -- the writes
  obtain ⟨opened, file, newfile, started, state, open_, wroteHeader, streamsRun, rest⟩ :=
    writeFile_eq rt (block.newFilename rt) reliable (fun stream member => (stored stream member).1) first
      block.blockFooter
  have offsets : first.index.mapM (setOffset state.indexPos) = .ok (indexed.map
      fun stream => indexEntry ((state.indexPos.lookup stream.key).getD 0) stream) := by
    rw [firstIndex, List.mapM_map]
    exact Fallible.mapM_ok fun stream member =>
      setOffset_eq (stored stream (indexedPerm.mem_iff.mp member)).1 _ _
  obtain ⟨last, lastHeader⟩ : ∃ last : StoreFileHeader, last =
    { first with
      index := indexed.map
        fun stream => indexEntry ((state.indexPos.lookup stream.key).getD 0) stream
      footerPosition := some (UInt64.ofNat state.newfile.position) } := ⟨_, rfl⟩
  have sameLength : (rt.header.encode last).length = (rt.header.encode first).length := by
    rw [lastHeader]
    exact rewritten_length rt first _ _ _ firstIndex (by rw [firstHeader])
  obtain ⟨closing, footed, wroteFooter⟩ : ∃ closing footed,
      state.newfile.write rt.footer state.disk block.blockFooter = (closing, footed) := ⟨_, _, rfl⟩
  obtain ⟨closed, finished, wroteLast⟩ : ∃ closed finished,
      closing.writeAt rt.header footed.1 0 last = (closed, finished) := ⟨_, _, rfl⟩
  obtain ⟨finishedReliable, complete, rest⟩ := rest last sameLength _ _ _ _ wroteFooter wroteLast
  obtain ⟨after, renamed, afterReliable, afterIncomplete, view⟩ :=
    finishedReliable.rename (block.newFilename rt) block.filename
  refine ⟨after, first, last, ?_, afterReliable, ?_, fun fits => afterIncomplete.trans (complete fits),
    fun success => ?_⟩
  · have summaryRun : (orders.index.order ((Keyed.pairs streams).map fun entry =>
        (entry.1, rt.sortStream entry.2))).foldlM summarizeStream
          { minTimestamp := 0, maxTimestamp := 0, endKey := [], index := [] } = .ok summary := summarized
    rw [writtenStreams, sortedEntries] at streamsRun
    subst lastHeader firstHeader
    dsimp only at wroteHeader wroteLast offsets
    simp only [DatastoreBlock.write, summaryRun, Fallible.ok_bind, open_, wroteHeader, streamsRun, offsets,
      wroteFooter, wroteLast]
    simp only [DatastoreBlock.newFilename, DatastoreBlock.filename] at renamed ⊢
    rw [renamed]
    rfl
  · rw [DatastoreBlock.firstHeader, summarized, firstHeader]
    rfl
  · rw [afterIncomplete] at success
    obtain ⟨complete, written, small, smalls, position, fits, positions⟩ := rest success
    have lastIndex : last.index = indexed.map
        fun stream => indexEntry ((state.indexPos.lookup stream.key).getD 0) stream := by rw [lastHeader]
    have distinct : ((writtenStreams rt orders streams).map ValueStream.key).Nodup :=
      (writtenStreams_keys rt orders filed).nodup_iff.mpr streams.keys_nodup
    refine ⟨complete, ⟨?_, ?_, ?_, ?_, small, ?_, distinct, indexed, indexedPerm, ?_⟩, sameLength, ?_⟩
    · rw [lastHeader, firstHeader]
      exact version
    · rw [lastHeader]
      exact firstKey
    · rw [← position]
      simp [lastHeader]
    · exact position ▸ fits
    · exact fun stream member => ⟨(stored stream member).1, (stored stream member).2.1,
        (stored stream member).2.2, smalls stream member⟩
    · rw [lastIndex, List.forall₂_map_right_iff, List.forall₂_same]
      intro stream member
      obtain ⟨before, after, split⟩ := List.append_of_mem (indexedPerm.mem_iff.mp member)
      exact ⟨before, after, split, by rw [positions distinct before stream after split, Option.getD_some]⟩
    · rw [view, written, Disk.content_eq finished.1, written, Function.update_self, Option.getD_some,
        Function.update_idem]

/-- With no new file of that name left over, the streams stand right behind the header. -/
theorem DatastoreBlock.write_eq (rt : Runtime Double) (orders : Orders) {disk : Disk}
    (block : DatastoreBlock Double) {streams : StreamMap Double} (reliable : disk.Reliable)
    (version : block.blockHeader.version = some 2) (filed : Filed streams) (valued : Valued streams) :
    ∃ after header, block.write rt orders disk streams =
        .ok (after, { block with blockHeader := header }, none) ∧ after.Reliable ∧
      (disk.view (block.newFilename rt) = none →
        (∀ first, block.firstHeader rt orders streams = .ok first →
          Fits rt 0 first (writtenStreams rt orders streams) block.blockFooter) →
        after.incomplete = disk.incomplete) ∧
      (after.incomplete = false → disk.incomplete = false ∧ (disk.view (block.newFilename rt) = none →
        BlockFile rt header (writtenStreams rt orders streams) ∧
        after.view = Function.update disk.view block.filename (some
          (blockLayout rt header (writtenStreams rt orders streams) block.blockFooter)))) := by
  obtain ⟨after, first, header, result, afterReliable, wroteFirst, fits, success⟩ :=
    block.write_over rt orders reliable version filed valued
  refine ⟨after, header, result, afterReliable, fun fresh whole => fits ?_, fun unbroken => ?_⟩
  · rw [Disk.content_eq, fresh]
    exact whole first wroteFirst
  obtain ⟨complete, file, sameLength, view⟩ := success unbroken
  refine ⟨complete, fun fresh => ?_⟩
  have empty : disk.content (block.newFilename rt) = [] := by rw [Disk.content_eq, fresh]; rfl
  have frameLength : (frame (rt.header.encode header)).length = (frame (rt.header.encode first)).length := by
    simp [sameLength]
  rw [empty] at file view
  refine ⟨file.blockFile, ?_⟩
  rw [view, ← fresh, Function.update_eq_self, List.nil_append, blockLayout, List.append_assoc,
    overwrite_start frameLength, blockLayout, List.append_assoc]

/-- `Write` gets past its first loop only if every stream has a value. -/
theorem DatastoreBlock.valued_of_write {rt : Runtime Double} {orders : Orders} {disk : Disk}
    {block : DatastoreBlock Double} {streams : StreamMap Double}
    {result : Disk × DatastoreBlock Double × Option StoreError}
    (success : block.write rt orders disk streams = .ok result) : Valued streams := by
  by_contra unvalued
  simp only [Valued, not_forall, not_not] at unvalued
  obtain ⟨key, stream, found, empty⟩ := unvalued
  have panics : (orders.index.order (sortedEntries rt streams)).foldlM summarizeStream
      { minTimestamp := 0, maxTimestamp := 0, endKey := [], index := [] } = .error .indexOutOfRange := by
    refine summarizeStreams_panics ⟨(key, rt.sortStream stream), ?_, ?_⟩ _
    · exact (orders.index.perm _).mem_iff.mpr (mem_sortedEntries.mpr ⟨stream, found, rfl⟩)
    · exact (rt.sortStream_value_eq_nil stream).mpr empty
  rw [DatastoreBlock.write, ← sortedEntries, panics] at success
  cases success

/-! ## Reading the file back -/

/-- The streams in the block file of a block, which has none before its first compaction. -/
def DatastoreBlock.OnDisk (rt : Runtime Double) (view : GoString → Option Bytes)
    (block : DatastoreBlock Double) (streams : List (Stream Double)) : Prop :=
  view block.filename = none ∧ block.blockHeader.index = [] ∧ streams = [] ∨
    ∃ footer, view block.filename = some (blockLayout rt block.blockHeader streams footer) ∧
      BlockFile rt block.blockHeader streams

theorem DatastoreBlock.OnDisk.congr {rt : Runtime Double} {before after : GoString → Option Bytes}
    {block other : DatastoreBlock Double} {streams : List (Stream Double)}
    (onDisk : block.OnDisk rt before streams) (header : other.blockHeader = block.blockHeader)
    (content : after other.filename = before block.filename) : other.OnDisk rt after streams := by
  rw [DatastoreBlock.OnDisk, header, content]
  exact onDisk

theorem UInt64.toNat_ofNat_of_le {number : Nat} (bound : number ≤ maxFileSize) :
    (UInt64.ofNat number).toNat = number := by
  rw [UInt64.toNat_ofNat']
  exact Nat.mod_eq_of_lt (by simp only [maxFileSize] at bound; omega)

theorem streamPosition_le {rt : Runtime Double} {header : StoreFileHeader}
    (before after : List (Stream Double)) :
    streamPosition rt header before ≤ streamPosition rt header (before ++ after) := by
  simp [streamPosition]

theorem protoRead_header {rt : Runtime Double} {header : StoreFileHeader} {streams : List (Stream Double)}
    {footer : StoreFileFooter} (small : (rt.header.encode header).length < 2 ^ 31) :
    protoRead rt.header (blockLayout rt header streams footer) 0 =
      .message header (streamPosition rt header []) := by
  have first : (blockLayout rt header streams footer).drop 0 = frame (rt.header.encode header) ++
      (frames rt.stream streams ++ frame (rt.footer.encode footer)) := by
    simp [blockLayout]
  rw [protoRead_frame first (by omega)]
  simp [streamPosition]

theorem BlockFile.readStreams {rt : Runtime Double} {header : StoreFileHeader}
    {streams : List (Stream Double)} {footer : StoreFileFooter} (file : BlockFile rt header streams) :
    valueStreamReaderUntil rt (blockLayout rt header streams footer) (streamPosition rt header [])
      header.getFooterPosition.toNat = streams := by
  have limit : header.getFooterPosition.toNat =
      streamPosition rt header [] + (frames rt.stream streams).length := by
    rw [StoreFileHeader.getFooterPosition, file.footerPosition, Option.getD_some,
      UInt64.toNat_ofNat_of_le file.fits]
    simp [streamPosition]
  have length : (blockLayout rt header streams footer).length = streamPosition rt header [] +
      ((frames rt.stream streams).length + ((rt.footer.encode footer).length + 8)) := by
    simp only [blockLayout, streamPosition, List.length_append, frames_nil, List.length_nil, frame_length]
    omega
  rw [valueStreamReaderUntil, limit]
  have body : (blockLayout rt header streams footer).drop (streamPosition rt header []) =
      frames rt.stream streams ++ frame (rt.footer.encode footer) := by
    simp [blockLayout, streamPosition]
  refine readMessages_frames body
    (fun stream member => by have := (file.stored stream member).small; omega) (.inl rfl) ?_ ?_
  · rw [length]
    omega
  · have := frames_length_ge rt.stream streams
    rw [length]
    omega

theorem BlockFile.getVersion {rt : Runtime Double} {header : StoreFileHeader}
    {streams : List (Stream Double)} (file : BlockFile rt header streams) : header.getVersion = 2 := by
  rw [StoreFileHeader.getVersion, file.version]
  rfl

theorem DatastoreBlock.OnDisk.stored {rt : Runtime Double} {view : GoString → Option Bytes}
    {block : DatastoreBlock Double} {file : List (Stream Double)} (onDisk : block.OnDisk rt view file)
    {stream : Stream Double} (member : stream ∈ file) : StoredStream rt stream := by
  rcases onDisk with ⟨-, -, rfl⟩ | ⟨footer, -, layout⟩
  · cases member
  · exact layout.stored stream member

theorem DatastoreBlock.OnDisk.fileStreams {rt : Runtime Double} {disk : Disk}
    {block : DatastoreBlock Double} {file : List (Stream Double)} (onDisk : block.OnDisk rt disk.view file)
    (reliable : disk.Reliable) : block.fileStreams rt disk = .ok file := by
  rw [DatastoreBlock.fileStreams, reliable.readProtoFile]
  rcases onDisk with ⟨missing, -, rfl⟩ | ⟨footer, present, layout⟩
  · rw [missing]
  · rw [present]
    simp only [protoRead_header layout.small, layout.getVersion, if_true, layout.readStreams]

theorem DatastoreBlock.readFile_eq {rt : Runtime Double} {disk : Disk} {block : DatastoreBlock Double}
    {file : List (Stream Double)} (reliable : disk.Reliable) (onDisk : block.OnDisk rt disk.view file)
    (streams : StreamMap Double) :
    block.readFile rt disk streams = .ok (.ok (addStreams streams file)) := by
  rw [DatastoreBlock.readFile_eq_fileStreams, onDisk.fileStreams reliable]
  simp only [foldlM_appendStream fun stream member => (onDisk.stored member).named]
  rfl

/-- `Read` files the streams of the block file and then those of the log. -/
theorem DatastoreBlock.read_eq {rt : Runtime Double} {disk : Disk} {block : DatastoreBlock Double}
    {file : List (Stream Double)} (order : Iteration) (reliable : disk.Reliable)
    (onDisk : block.OnDisk rt disk.view file) (filed : Filed block.logStreams)
    (streams : StreamMap Double) :
    block.read rt order disk streams =
      .ok (.ok (addStreams streams (file ++ order.order block.logs))) := by
  have named : ∀ stream ∈ order.order block.logs, stream.HasVariable := by
    intro stream member
    obtain ⟨key, found⟩ := DatastoreBlock.mem_logs.mp ((order.perm _).mem_iff.mp member)
    exact (filed key stream found).2
  rw [DatastoreBlock.read, DatastoreBlock.readFile_eq reliable onDisk]
  simp only [Fallible.ok_bind, ← DatastoreBlock.logs.eq_1, foldlM_appendStream named, addStreams_append]
  rfl

/-- `GetStreams` returns the stream that an index entry was written for. -/
theorem DatastoreBlock.getStreams_eq {rt : Runtime Double} {disk : Disk} {block : DatastoreBlock Double}
    {file : List (Stream Double)} {stream : Stream Double} {entry : StoreFileHeaderIndex}
    (reliable : disk.Reliable) (onDisk : block.OnDisk rt disk.view file)
    (indexed : IndexedAt rt block.blockHeader file stream entry) :
    block.getStreams rt disk entry = .ok [stream] := by
  obtain ⟨before, after, rfl, rfl⟩ := indexed
  rcases onDisk with ⟨-, -, none⟩ | ⟨footer, present, layout⟩
  · simp at none
  · have bound : streamPosition rt block.blockHeader before ≤ maxFileSize :=
      (streamPosition_le before _).trans layout.fits
    have position : seek 0 (UInt64.ofNat (streamPosition rt block.blockHeader before)) =
        streamPosition rt block.blockHeader before := by
      simp only [seek, UInt64.toNat_ofNat_of_le bound]
      exact if_pos (by simp only [maxFileSize] at bound; omega)
    have small := (layout.stored stream (by simp)).small
    rw [DatastoreBlock.getStreams, reliable.readProtoFile, present]
    simp only [indexEntry, position]
    have here : (blockLayout rt block.blockHeader (before ++ stream :: after) footer).drop
        (streamPosition rt block.blockHeader before) =
          frame (rt.stream.encode stream) ++
            (frames rt.stream after ++ frame (rt.footer.encode footer)) := by
      simp only [blockLayout, frames_append, frames_cons, List.append_assoc]
      rw [← List.append_assoc, streamPosition, List.drop_left]
    rw [protoRead_frame here (by omega)]

end OpenInstrument
