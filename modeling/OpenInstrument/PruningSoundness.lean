import OpenInstrument.StoreManager
import OpenInstrument.VariableRoundTrip
import OpenInstrument.Datastore.BlockFile
import OpenInstrument.ProtoWire

/-! # Pruning by time range

The header of an indexed file has the least timestamp in both of its bounds.  A search that starts later
passes the file over, so that the streams with values in range are found exactly when no value is later,
or earlier, than that.

Besides, a stream is found under the variable that is read back from its printed one, and a goroutine that panics for
something else of the store ends the process.
-/

namespace OpenInstrument

variable {Double : Type}

/-! ## The property -/

/-- Some stream matches a search and has a value within its bounds. -/
structure Demands (streams : StreamMap Double) (search : Variable) (minTimestamp maxTimestamp : Option UInt64)
    (stream : Stream Double) : Prop where
  present : ∃ key, streams.lookup key = some stream
  isMatch : stream.isMatch search = .ok true
  inRange : ∃ value ∈ stream.value, (∀ bound ∈ minTimestamp, bound ≤ value.timestamp) ∧
    ∀ bound ∈ maxTimestamp, value.timestamp ≤ bound

/-- `GetValueStreams` returns a stream of a file: it asks the file, no goroutine of the call panics, which would end the
process, and the one for the file sends the stream. -/
structure Returns (rt : Runtime Double) (bloom : BloomFilter) (order : Iteration) (disk : Disk)
    (manager : StoreManager Double) (file : IndexedStoreFile) (search : Variable)
    (minTimestamp maxTimestamp : Option UInt64) (stream : Stream Double) : Prop where
  asked : file ∈ manager.storeFiles
  alive : ∀ result ∈ manager.getValueStreams rt bloom order disk search minTimestamp maxTimestamp,
    ∃ sent, result = .ok sent
  sent : ∃ sent, StoreManager.fileStreams rt bloom order disk search minTimestamp maxTimestamp file = .ok sent ∧
    stream ∈ sent

/-- A store that knows the file returns the streams that match and have a value in range. -/
def PruningSound (rt : Runtime Double) (bloom : BloomFilter) (order : Iteration) (disk : Disk)
    (manager : StoreManager Double) (file : IndexedStoreFile) (streams : StreamMap Double) : Prop :=
  ∀ search minTimestamp maxTimestamp stream, Demands streams search minTimestamp maxTimestamp stream →
    Returns rt bloom order disk manager file search minTimestamp maxTimestamp stream

/-- A file is passed over, or it can be asked, and what it finds has variables. -/
def IndexedStoreFile.Answers (rt : Runtime Double) (bloom : BloomFilter) (order : Iteration) (disk : Disk)
    (file : IndexedStoreFile) (search : Variable) (minTimestamp maxTimestamp : Option UInt64) : Prop :=
  minTimestamp.any (fun bound => file.maxTimestamp < bound) = true ∨
    maxTimestamp.any (fun bound => bound < file.minTimestamp) = true ∨
    ∃ found, file.getStreams rt bloom order disk search = .ok found ∧ ∀ stream ∈ found, stream.HasVariable

/-- Nothing else of the store disturbs a search: the printed variables of the streams in memory can be read back, and
the other files answer. -/
structure Undisturbed (rt : Runtime Double) (bloom : BloomFilter) (order : Iteration) (disk : Disk)
    (manager : StoreManager Double) (file : IndexedStoreFile) (search : Variable)
    (minTimestamp maxTimestamp : Option UInt64) : Prop where
  memory : ∀ key ∈ manager.streams, ∃ v, newFromString key = .ok (some v)
  files : ∀ other ∈ manager.storeFiles, other ≠ file →
    other.Answers rt bloom order disk search minTimestamp maxTimestamp

/-- No value has another timestamp. -/
def OneTimestamp (streams : StreamMap Double) (timestamp : UInt64) : Prop :=
  ∀ key stream, streams.lookup key = some stream → ∀ value ∈ stream.value, value.timestamp = timestamp

/-- What the file is searched by: the variables that are read back from the printed ones.  Each printed
variable is among them when they are printed again, and it matches what the stream matches. -/
structure Searchable (streams : StreamMap Double) : Prop where
  listed : ∀ key ∈ streams, ∃ other ∈ streams, ∃ v, newFromString other = .ok (some v) ∧ v.string = key
  found : ∀ key stream, streams.lookup key = some stream → ∀ search, stream.isMatch search = .ok true →
    IndexedStoreFile.keyMatches search key = .ok true

/-! ## Variables in messages -/

theorem lookup_parsed_asProto (v : Variable) (key : GoString) :
    v.asProto.parsed.labels.lookup key = v.labels.lookup key := by
  have inserted : v.asProto.parsed.labels = Keyed.insertAll ∅ (Keyed.pairs v.labels) := by
    rw [StreamVariable.parsed, Variable.asProto, List.foldl_map]
    rfl
  rw [inserted]
  cases found : v.labels.lookup key with
  | none =>
    rw [Keyed.lookup_insertAll_of_notMem]
    · rfl
    · rw [Keyed.pairs_keys]
      exact AList.lookup_eq_none.mp found
  | some value =>
    exact Keyed.lookup_insertAll_of_mem (Keyed.pairs_keys_nodup _) (Keyed.mem_pairs.mpr found) ∅

theorem string_parsed_asProto (v : Variable) : v.asProto.parsed.string = v.string :=
  Variable.string_congr rfl (lookup_parsed_asProto v)

/-- The search that finds everything: a star behind any character stands for the empty beginning. -/
def searchAll : Variable := { name := [star, star], labels := ∅ }

theorem isMatch_searchAll (v : Variable) : v.isMatch searchAll = .ok true := by
  have none_ : Keyed.pairs searchAll.labels = [] := rfl
  rw [Variable.isMatch, none_]
  rfl

/-- Only the search decides whether a match panics. -/
theorem isMatch_total {v : Variable} {search : Variable} {matched : Bool} (ok : v.isMatch search = .ok matched)
    (other : Variable) : ∃ matched, other.isMatch search = .ok matched := by
  unfold Variable.isMatch at ok ⊢
  split
  · rename_i wild
    rw [if_pos wild] at ok
    split
    · rename_i short
      rw [if_pos short] at ok
      cases ok
    · exact ⟨_, rfl⟩
  · exact ⟨_, rfl⟩

theorem name_of_isMatch {v search : Variable} (matched : v.isMatch search = .ok true)
    (exact_ : search.name.getLast? ≠ some star) : v.name = search.name := by
  rw [Variable.isMatch, if_neg exact_, Except.ok.injEq, Bool.and_eq_true, beq_iff_eq] at matched
  exact matched.1.symm

/-! ## Offsets -/

/-- The entries with the first one of a name at an offset. -/
def placeFirst (varname : GoString) (offset : UInt64) : List StoreFileHeaderIndex → List StoreFileHeaderIndex
  | [] => []
  | index :: rest =>
    if index.key = varname then { index with offset } :: rest else index :: placeFirst varname offset rest

theorem setFirstOffset_eq (varname : GoString) (offset : UInt64) {index : List StoreFileHeaderIndex}
    (named : ∀ entry ∈ index, entry.streamVariable.isSome) :
    setFirstOffset varname offset index = .ok (placeFirst varname offset index) := by
  induction index with
  | nil => rfl
  | cons entry rest inductionHypothesis =>
    obtain ⟨p, variable_⟩ := Option.isSome_iff_exists.mp (named entry (List.mem_cons_self ..))
    have printed : variableString entry.streamVariable = .ok entry.key := by
      rw [StoreFileHeaderIndex.key, variable_]
      rfl
    rw [setFirstOffset, printed, Fallible.ok_bind,
      inductionHypothesis fun other member => named other (.tail _ member), placeFirst]
    split <;> rfl

/-- An entry as it is before its offset is known. -/
def StoreFileHeaderIndex.unplaced (entry : StoreFileHeaderIndex) : StoreFileHeaderIndex := { entry with offset := 0 }

theorem placeFirst_unplaced (varname : GoString) (offset : UInt64) (index : List StoreFileHeaderIndex) :
    (placeFirst varname offset index).map StoreFileHeaderIndex.unplaced =
      index.map StoreFileHeaderIndex.unplaced := by
  induction index with
  | nil => rfl
  | cons entry rest inductionHypothesis =>
    rw [placeFirst]
    split
    · rfl
    · rw [List.map_cons, List.map_cons, inductionHypothesis]

theorem mem_placeFirst {varname : GoString} {offset : UInt64} {index : List StoreFileHeaderIndex}
    {entry : StoreFileHeaderIndex} (member : entry ∈ placeFirst varname offset index) :
    entry ∈ index ∨ (entry.key = varname ∧ entry.offset = offset) := by
  induction index with
  | nil => cases member
  | cons first rest inductionHypothesis =>
    rw [placeFirst] at member
    split at member
    · rename_i here
      cases member with
      | head => exact .inr ⟨here, rfl⟩
      | tail _ behind => exact .inl (.tail _ behind)
    · cases member with
      | head => exact .inl (List.mem_cons_self ..)
      | tail _ behind => exact (inductionHypothesis behind).imp_left (.tail _)

theorem mem_placeFirst_of_ne {varname : GoString} (offset : UInt64) {index : List StoreFileHeaderIndex}
    {entry : StoreFileHeaderIndex} (member : entry ∈ index) (other : entry.key ≠ varname) :
    entry ∈ placeFirst varname offset index := by
  induction index with
  | nil => cases member
  | cons first rest inductionHypothesis =>
    rw [placeFirst]
    cases member with
    | head =>
      rw [if_neg other]
      exact List.mem_cons_self ..
    | tail _ behind =>
      split
      · exact .tail _ behind
      · exact .tail _ (inductionHypothesis behind)

theorem exists_placeFirst {varname : GoString} (offset : UInt64) {index : List StoreFileHeaderIndex}
    (listed : varname ∈ index.map StoreFileHeaderIndex.key) :
    ∃ entry ∈ placeFirst varname offset index, entry.key = varname ∧ entry.offset = offset := by
  induction index with
  | nil => cases listed
  | cons first rest inductionHypothesis =>
    rw [placeFirst]
    split
    · rename_i here
      exact ⟨_, List.mem_cons_self .., here, rfl⟩
    · rename_i elsewhere
      cases listed with
      | head => exact absurd rfl elsewhere
      | tail _ behind =>
        obtain ⟨entry, member, here⟩ := inductionHypothesis behind
        exact ⟨entry, .tail _ member, here⟩

/-! ## The streams behind the header -/

/-- The file being written holds `content`, and the writer stands at its end. -/
def IndexWriter.AtEnd (state : IndexWriter) (content : Bytes) : Prop :=
  StreamWriter.AtEnd { newfile := state.file, disk := state.disk, indexPos := ∅ } content

/-- The entry tells where the stream behind `before` begins. -/
def TellsPosition (rt : Runtime Double) (content : Bytes) (before : List (Stream Double)) (stream : Stream Double)
    (entry : StoreFileHeaderIndex) : Prop :=
  entry.key = stream.key ∧ entry.offset = .ofNat (content ++ frames rt.stream before).length

theorem TellsPosition.here {rt : Runtime Double} {content : Bytes} {stream : Stream Double}
    {entry : StoreFileHeaderIndex} (key : entry.key = stream.key) (offset : entry.offset = .ofNat content.length) :
    TellsPosition rt content [] stream entry := by
  refine ⟨key, ?_⟩
  rw [offset, frames_nil, List.append_nil]

/-- What the writer of the later streams tells, with the first stream counted in. -/
theorem TellsPosition.cons {rt : Runtime Double} {content : Bytes} {first stream : Stream Double}
    {before : List (Stream Double)} {entry : StoreFileHeaderIndex}
    (tells : TellsPosition rt (content ++ frame (rt.stream.encode first)) before stream entry) :
    TellsPosition rt content (first :: before) stream entry := by
  obtain ⟨key, offset⟩ := tells
  refine ⟨key, ?_⟩
  rw [offset, frames_cons, List.append_assoc]

theorem key_of_printed {stream : Stream Double} {varname : GoString}
    (printed : variableString stream.streamVariable = .ok varname) : varname = stream.key := by
  cases variable_ : stream.streamVariable with
  | none =>
    rw [variable_] at printed
    cases printed
  | some p =>
    rw [variable_] at printed
    cases printed
    rw [ValueStream.key, variable_]
    rfl

theorem writeStream_ok {rt : Runtime Double} {state next : IndexWriter} {stream : Stream Double}
    (named : ∀ entry ∈ state.index, entry.streamVariable.isSome)
    (run : state.writeStream rt stream = .ok next) :
    next =
      { file := (state.file.write rt.stream state.disk stream).1
        disk := (state.file.write rt.stream state.disk stream).2.1
        index := placeFirst stream.key (.ofNat state.file.position) state.index } := by
  obtain ⟨varname, printed, later⟩ := Fallible.bind_ok run
  obtain rfl := key_of_printed printed
  obtain ⟨index, placed, same⟩ := Fallible.bind_ok later
  rw [setFirstOffset_eq _ _ named] at placed
  cases placed
  cases same
  rfl

theorem variables_of_unplaced {first second : List StoreFileHeaderIndex}
    (same : first.map StoreFileHeaderIndex.unplaced = second.map StoreFileHeaderIndex.unplaced) :
    first.map (·.streamVariable) = second.map (·.streamVariable) := by
  have variables_ := congrArg (List.map StoreFileHeaderIndex.streamVariable) same
  rwa [List.map_map, List.map_map] at variables_

theorem keys_of_unplaced {first second : List StoreFileHeaderIndex}
    (same : first.map StoreFileHeaderIndex.unplaced = second.map StoreFileHeaderIndex.unplaced) :
    first.map StoreFileHeaderIndex.key = second.map StoreFileHeaderIndex.key := by
  have keys := congrArg (List.map StoreFileHeaderIndex.key) same
  rwa [List.map_map, List.map_map] at keys

theorem named_of_unplaced {first second : List StoreFileHeaderIndex}
    (same : first.map StoreFileHeaderIndex.unplaced = second.map StoreFileHeaderIndex.unplaced)
    (named : ∀ entry ∈ second, entry.streamVariable.isSome) : ∀ entry ∈ first, entry.streamVariable.isSome := by
  intro entry member
  have inside : entry.streamVariable ∈ second.map (·.streamVariable) :=
    variables_of_unplaced same ▸ List.mem_map_of_mem member
  obtain ⟨other, otherMember, variable_⟩ := List.mem_map.mp inside
  rw [← variable_]
  exact named other otherMember

/-- The loop of `writeIndexedFile` appends the frames of the streams and enters where they begin. -/
theorem writeStreams_ok (rt : Runtime Double) {streams : List (Stream Double)} {state final : IndexWriter}
    (reliable : state.disk.Reliable) (named : ∀ entry ∈ state.index, entry.streamVariable.isSome)
    (run : streams.foldlM (IndexWriter.writeStream rt) state = .ok final) :
    final.disk.Reliable ∧ (final.disk.incomplete = false → state.disk.incomplete = false ∧
      final.index.map StoreFileHeaderIndex.unplaced = state.index.map StoreFileHeaderIndex.unplaced ∧
      (∀ entry ∈ state.index, entry.key ∉ streams.map ValueStream.key → entry ∈ final.index) ∧
      ∀ content, state.AtEnd content →
        final.file.filename = state.file.filename ∧
        final.AtEnd (content ++ frames rt.stream streams) ∧
        (content.length ≤ maxFileSize → (content ++ frames rt.stream streams).length ≤ maxFileSize) ∧
        (∀ stream ∈ streams, (rt.stream.encode stream).length < 2 ^ 31) ∧
        (∀ entry ∈ final.index, entry ∈ state.index ∨ ∃ before stream after,
          streams = before ++ stream :: after ∧ TellsPosition rt content before stream entry) ∧
        ((streams.map ValueStream.key).Nodup → ∀ before stream after, streams = before ++ stream :: after →
          stream.key ∈ state.index.map StoreFileHeaderIndex.key →
            ∃ entry ∈ final.index, TellsPosition rt content before stream entry)) := by
  induction streams generalizing state with
  | nil =>
    cases run
    refine ⟨reliable, fun success => ⟨success, rfl, fun _ member _ => member, fun content atEnd =>
      ⟨rfl, ?_, ?_, by simp, fun entry => .inl, by simp⟩⟩⟩
    · rwa [frames_nil, List.append_nil]
    · rw [frames_nil, List.append_nil]
      exact id
  | cons stream streams inductionHypothesis =>
    rw [List.foldlM_cons] at run
    obtain ⟨next, step, rest⟩ := Fallible.bind_ok run
    obtain rfl := writeStream_ok named step
    have written := (Prod.mk.eta (p := state.file.write rt.stream state.disk stream)).symm
    obtain ⟨stillReliable, write⟩ := ProtoFileWriter.write_eq reliable written
    have same := placeFirst_unplaced stream.key (.ofNat state.file.position) state.index
    have named' := named_of_unplaced same named
    obtain ⟨finalReliable, later⟩ := inductionHypothesis stillReliable named' rest
    refine ⟨finalReliable, fun success => ?_⟩
    obtain ⟨between, finalSame, kept, positions⟩ := later success
    refine ⟨(write between).1, finalSame.trans same, ?_, fun content atEnd => ?_⟩
    · intro entry member other
      rw [List.map_cons, List.mem_cons, not_or] at other
      exact kept entry (mem_placeFirst_of_ne _ member other.1) other.2
    obtain ⟨filename, small, fits, nextAtEnd, _⟩ := write_atEnd atEnd reliable written between ∅
    obtain ⟨finalName, finalAtEnd, finalFits, smalls, entries, placed⟩ := positions _ nextAtEnd
    rw [frames_cons, ← List.append_assoc]
    have position : (UInt64.ofNat state.file.position) = .ofNat content.length := congrArg UInt64.ofNat atEnd.position
    refine ⟨finalName.trans filename, finalAtEnd, fun _ => finalFits fits, ?_, ?_, ?_⟩
    · intro other member
      cases member with
      | head => exact small
      | tail _ behind => exact smalls other behind
    · intro entry member
      cases entries entry member with
      | inl placedHere =>
        cases mem_placeFirst placedHere with
        | inl old => exact .inl old
        | inr here => exact .inr ⟨[], stream, streams, rfl, .here here.1 (here.2.trans position)⟩
      | inr later =>
        obtain ⟨before, other, after, split, tells⟩ := later
        exact .inr ⟨stream :: before, other, after, by rw [split]; rfl, tells.cons⟩
    · intro distinct before other after split listed
      rw [List.map_cons, List.nodup_cons] at distinct
      cases before with
      | nil =>
        obtain ⟨rfl, rfl⟩ := List.cons.inj split
        obtain ⟨entry, member, key, offset⟩ := exists_placeFirst (.ofNat state.file.position) listed
        -- No stream behind this one has its key, so that the entry stays as it is.
        exact ⟨entry, kept entry member (by rw [key]; exact distinct.1), .here key (offset.trans position)⟩
      | cons head before =>
        obtain ⟨rfl, rfl⟩ := List.cons.inj split
        have stillListed : other.key ∈
            (placeFirst stream.key (.ofNat state.file.position) state.index).map StoreFileHeaderIndex.key := by
          rw [keys_of_unplaced same]
          exact listed
        obtain ⟨entry, member, tells⟩ := placed distinct.2 before other after rfl stillListed
        exact ⟨entry, member, tells.cons⟩

/-! ## The file -/

/-- The entries of an index are the variables that are read back from the printed ones. -/
structure ReadBack (streams : StreamMap Double) (index : List StoreFileHeaderIndex) : Prop where
  length : index.length = streams.keys.length
  source : ∀ entry ∈ index, ∃ key ∈ streams, ∃ v, newFromString key = .ok (some v) ∧
    entry.streamVariable = some v.asProto
  target : ∀ key ∈ streams, ∃ entry ∈ index, ∃ v, newFromString key = .ok (some v) ∧
    entry.streamVariable = some v.asProto

def readVariable (entry : StoreFileHeaderIndex) : Variable :=
  (entry.streamVariable.map StreamVariable.parsed).getD { name := [], labels := ∅ }

/-- What an opened file tells about the streams that it was written for. -/
structure TellsStreams (rt : Runtime Double) (file : IndexedStoreFile) (streams : StreamMap Double)
    (timestamp : UInt64) (content : Bytes) (index : List StoreFileHeaderIndex) : Prop where
  opened : file.file = some content
  bounds : file.minTimestamp = timestamp ∧ file.maxTimestamp = timestamp
  offsets : file.offsets = Keyed.insertAll ∅ (index.map fun entry => (entry.key, entry.offset))
  names : file.bloomfilter = some (index.map fun entry => (readVariable entry).name)
  /-- The entries are the variables that are read back from the printed ones. -/
  parsed : ReadBack streams index
  points : ∀ entry ∈ index, entry.offset = 0 ∨ ∃ stream, streams.lookup entry.key = some stream ∧
    IndexedStoreFile.readAt rt content entry.offset = stream
  placed : ∀ key stream, streams.lookup key = some stream → key ∈ index.map StoreFileHeaderIndex.key →
    ∃ entry ∈ index, entry.key = key ∧ IndexedStoreFile.readAt rt content entry.offset = stream
  unplaced : IndexedStoreFile.readAt rt content 0 = { streamVariable := none, value := [] }

theorem indexStream_filed {eq : Double → Double → Bool} {zero : Double} {log next : LogIndex Double}
    {message : Stream Double} (filed : Filed log.streams) (run : indexStream eq zero log message = .ok next) :
    Filed next.streams := by
  obtain ⟨v, parsed, same⟩ := Fallible.bind_ok run
  cases same
  intro key stream found
  by_cases here : key = v.string
  · subst here
    rw [AList.lookup_insert, Option.some.injEq] at found
    subst found
    cases old : log.streams.lookup v.string with
    | none => exact ⟨string_parsed_asProto v, rfl⟩
    | some stream => exact filed _ stream old
  · rw [AList.lookup_insert_ne here] at found
    exact filed key stream found

theorem indexRecordLog_filed {eq : Double → Double → Bool} {zero : Double} {messages : List (Stream Double)}
    {log : LogIndex Double} (run : indexRecordLog eq zero messages = .ok log) : Filed log.streams := by
  have ends : Fallible.Ends (fun _ => True) (fun log => Filed log.streams) (indexRecordLog eq zero messages) := by
    apply Fallible.Ends.foldlM
    · intro log message _ filed
      cases step : indexStream eq zero log message with
      | error err => trivial
      | ok next => exact indexStream_filed filed step
    · exact Filed.empty
  exact ends.of_ok run

theorem indexHeader_length (rt : Runtime Double) (timestamp : UInt64) {first second : List StoreFileHeaderIndex}
    (same : first.map StoreFileHeaderIndex.unplaced = second.map StoreFileHeaderIndex.unplaced) :
    (frame (rt.header.encode (indexHeader timestamp first))).length =
      (frame (rt.header.encode (indexHeader timestamp second))).length := by
  have zeros : (indexHeader timestamp first).zeroFixed = (indexHeader timestamp second).zeroFixed := by
    have mapped := congrArg (List.map fun entry : StoreFileHeaderIndex =>
      { entry with
        minTimestamp := entry.minTimestamp.map fun _ => 0
        maxTimestamp := entry.maxTimestamp.map fun _ => 0 }) same
    rw [List.map_map, List.map_map] at mapped
    simp only [StoreFileHeader.zeroFixed, indexHeader]
    rw [StoreFileHeader.mk.injEq]
    exact ⟨rfl, rfl, rfl, mapped, rfl, rfl⟩
  rw [frame_length, frame_length, ← rt.header_fixed, zeros, rt.header_fixed]

theorem newIndex_ok {varname : GoString} {entry : StoreFileHeaderIndex} (run : newIndex varname = .ok entry) :
    ∃ v, newFromString varname = .ok (some v) ∧ entry.streamVariable = some v.asProto ∧ entry.offset = 0 := by
  obtain ⟨found, parsed, rest⟩ := Fallible.bind_ok run
  cases found with
  | none => cases rest
  | some v =>
    cases rest
    exact ⟨v, parsed, rfl, rfl⟩

theorem readBack_of_mapM {streams : StreamMap Double} {index : List StoreFileHeaderIndex}
    (listed : (sortStrings streams.keys).mapM newIndex = .ok index) : ReadBack streams index := by
  have perm := sortStrings_perm streams.keys
  obtain ⟨sources, targets⟩ := Fallible.mem_of_mapM_ok listed
  constructor
  · rw [← perm.length_eq]
    exact (Fallible.forall₂_of_mapM_ok listed).length_eq.symm
  · intro entry member
    obtain ⟨key, inside, made⟩ := sources entry member
    obtain ⟨v, parsed, variable_, _⟩ := newIndex_ok made
    exact ⟨key, perm.mem_iff.mp inside, v, parsed, variable_⟩
  · intro key member
    obtain ⟨entry, inside, made⟩ := targets key (perm.mem_iff.mpr member)
    obtain ⟨v, parsed, variable_, _⟩ := newIndex_ok made
    exact ⟨entry, inside, v, parsed, variable_⟩

/-- Offsets do not change what the entries are read back from. -/
theorem ReadBack.of_unplaced {streams : StreamMap Double} {first second : List StoreFileHeaderIndex}
    (parsed : ReadBack streams second)
    (same : first.map StoreFileHeaderIndex.unplaced = second.map StoreFileHeaderIndex.unplaced) :
    ReadBack streams first := by
  have variables_ := variables_of_unplaced same
  constructor
  · rw [← parsed.length, ← List.length_map (f := (·.streamVariable)), variables_, List.length_map]
  · intro entry member
    have inside : entry.streamVariable ∈ second.map (·.streamVariable) := variables_ ▸ List.mem_map_of_mem member
    obtain ⟨other, otherMember, variable_⟩ := List.mem_map.mp inside
    rw [← variable_]
    exact parsed.source other otherMember
  · intro key member
    obtain ⟨entry, entryMember, v, ran, variable_⟩ := parsed.target key member
    have inside : entry.streamVariable ∈ first.map (·.streamVariable) :=
      variables_ ▸ List.mem_map_of_mem entryMember
    obtain ⟨other, otherMember, same⟩ := List.mem_map.mp inside
    exact ⟨other, otherMember, v, ran, same.trans variable_⟩

/-- Where a stream begins behind the header, it is read. -/
theorem readAt_frame {rt : Runtime Double} {content after : Bytes} {position : Nat} {stream : Stream Double}
    (here : content.drop position = frame (rt.stream.encode stream) ++ after) (fits : position ≤ maxFileSize)
    (small : (rt.stream.encode stream).length < 2 ^ 31) :
    IndexedStoreFile.readAt rt content (.ofNat position) = stream := by
  have position_ : (UInt64.ofNat position).toNat = position := by
    apply UInt64.toNat_ofNat_of_lt'
    rw [maxFileSize] at fits
    show position < 2 ^ 64
    omega
  rw [IndexedStoreFile.readAt, position_, protoRead_frame here (by omega)]

/-- The header is not a stream. -/
theorem readAt_header {rt : Runtime Double} {content after : Bytes} {header : StoreFileHeader}
    (here : content = frame (rt.header.encode header) ++ after)
    (small : (rt.header.encode header).length < 2 ^ 31)
    (foreign : rt.stream.decode (rt.header.encode header) = none) :
    IndexedStoreFile.readAt rt content 0 = { streamVariable := none, value := [] } := by
  have layout : content.drop 0 = LittleEndian.encode 2 protoMagic ++
      (LittleEndian.encode 4 (rt.header.encode header).length ++ (rt.header.encode header ++
        (LittleEndian.encode 2 0 ++ after))) := by
    rw [here]
    simp [frame]
  have failed := readFrame_layout rt.stream layout (LittleEndian.encode_length 2 0) (by omega)
  rw [foreign, Option.elim_none] at failed
  have start : (0 : UInt64).toNat = 0 := rfl
  rw [IndexedStoreFile.readAt, start, protoRead, readFrom, failed]

/-- The content of the new file, and the index in its header. -/
structure Written (rt : Runtime Double) (log : LogIndex Double) (content : Bytes)
    (index : List StoreFileHeaderIndex) : Prop where
  header : ∃ rest, content = frame (rt.header.encode (indexHeader log.minTimestamp index)) ++ rest
  small : (rt.header.encode (indexHeader log.minTimestamp index)).length < 2 ^ 31
  parsed : ReadBack log.streams index
  points : ∀ entry ∈ index, entry.offset = 0 ∨ ∃ stream, log.streams.lookup entry.key = some stream ∧
    IndexedStoreFile.readAt rt content entry.offset = stream
  placed : ∀ key stream, log.streams.lookup key = some stream → key ∈ index.map StoreFileHeaderIndex.key →
    ∃ entry ∈ index, entry.key = key ∧ IndexedStoreFile.readAt rt content entry.offset = stream

theorem drop_overwrite {content data : Bytes} {position : Nat} (behind : data.length ≤ position) :
    (overwrite content 0 data).drop position = content.drop position := by
  rw [overwrite, List.take_zero, List.nil_append, Nat.zero_add, List.drop_append,
    List.drop_eq_nil_of_le behind, List.nil_append, List.drop_drop]
  congr 1
  omega

/-- A second header written over the start of the file leaves the streams where they were, when it is no longer than
what the streams stand behind. -/
theorem readAt_overwrite {rt : Runtime Double} {content data : Bytes} {before after : List (Stream Double)}
    {stream : Stream Double} (behind : data.length ≤ content.length)
    (fits : (content ++ frames rt.stream (before ++ stream :: after)).length ≤ maxFileSize)
    (small : (rt.stream.encode stream).length < 2 ^ 31) :
    IndexedStoreFile.readAt rt (overwrite (content ++ frames rt.stream (before ++ stream :: after)) 0 data)
      (.ofNat (content ++ frames rt.stream before).length) = stream := by
  have parts : content ++ frames rt.stream (before ++ stream :: after) = (content ++ frames rt.stream before) ++
      (frame (rt.stream.encode stream) ++ frames rt.stream after) := by
    rw [frames_append, frames_cons, List.append_assoc]
  have start : data.length ≤ (content ++ frames rt.stream before).length := by
    rw [List.length_append]
    omega
  rw [parts] at fits ⊢
  have inside : (content ++ frames rt.stream before).length ≤ maxFileSize := by
    rw [List.length_append] at fits
    omega
  have there : (overwrite (content ++ frames rt.stream before ++ (frame (rt.stream.encode stream) ++
      frames rt.stream after)) 0 data).drop (content ++ frames rt.stream before).length =
        frame (rt.stream.encode stream) ++ frames rt.stream after := by
    rw [drop_overwrite start, List.drop_left]
  exact readAt_frame there inside small

theorem streams_nodup {order : Iteration} {streams : StreamMap Double} (filed : Filed streams) :
    ((order.order ((Keyed.pairs streams).map Prod.snd)).map ValueStream.key).Nodup := by
  have keys : ((Keyed.pairs streams).map Prod.snd).map ValueStream.key = (Keyed.pairs streams).map Prod.fst := by
    rw [List.map_map]
    apply List.map_congr_left
    intro entry member
    exact (filed entry.1 entry.2 (Keyed.mem_pairs.mp member)).1
  apply ((order.perm _).map ValueStream.key).nodup_iff.mpr
  rw [keys]
  exact Keyed.pairs_keys_nodup streams

theorem mem_streams {order : Iteration} {streams : StreamMap Double} (filed : Filed streams)
    {stream : Stream Double} :
    stream ∈ order.order ((Keyed.pairs streams).map Prod.snd) ↔ streams.lookup stream.key = some stream := by
  rw [(order.perm _).mem_iff, List.mem_map]
  constructor
  · rintro ⟨⟨key, other⟩, member, rfl⟩
    have found := Keyed.mem_pairs.mp member
    rwa [(filed key other found).1]
  · intro found
    exact ⟨(stream.key, stream), Keyed.mem_pairs.mpr found, rfl⟩

/-- The header, the streams and the header again, behind whatever was in the file. -/
theorem writeIndexed_ok {rt : Runtime Double} {order : Iteration} {log : LogIndex Double}
    {index : List StoreFileHeaderIndex} {disk after : Disk} {filename : GoString} {old : Bytes}
    (reliable : disk.Reliable) (filed : Filed log.streams)
    (listed : (sortStrings log.streams.keys).mapM newIndex = .ok index)
    (before : disk.view filename = some old)
    (run : writeIndexed rt order log index disk { filename, position := old.length } = .ok after)
    (complete : after.incomplete = false) :
    after.Reliable ∧ ∃ content index', after.view filename = some content ∧ Written rt log content index' := by
  obtain ⟨final, loop, same⟩ := Fallible.bind_ok run
  cases same
  have named : ∀ entry ∈ index, entry.streamVariable.isSome ∧ entry.offset = 0 := by
    intro entry member
    obtain ⟨key, _, made⟩ := (Fallible.mem_of_mapM_ok listed).1 entry member
    obtain ⟨v, _, variable_, offset⟩ := newIndex_ok made
    exact ⟨by rw [variable_]; rfl, offset⟩
  -- The first header, the streams, and the second header.
  have startWritten := (Prod.mk.eta
    (p := ProtoFileWriter.write rt.header { filename, position := old.length } disk
      (indexHeader log.minTimestamp index))).symm
  obtain ⟨startReliable, start⟩ := ProtoFileWriter.write_eq reliable startWritten
  obtain ⟨finalReliable, streams⟩ := writeStreams_ok rt startReliable (fun entry member => (named entry member).1) loop
  have endWritten := (Prod.mk.eta
    (p := ProtoFileWriter.write rt.header { final.file with position := 0 } final.disk
      (indexHeader log.minTimestamp final.index))).symm
  obtain ⟨endReliable, finish⟩ := ProtoFileWriter.write_eq finalReliable endWritten
  obtain ⟨streamsComplete, _, headerSmall, _, _, endView⟩ := finish complete
  obtain ⟨startComplete, unplaced, _, positions⟩ := streams streamsComplete
  have atStart : StreamWriter.AtEnd
      { newfile := { filename, position := old.length }, disk, indexPos := ∅ } old := ⟨before, rfl⟩
  obtain ⟨startName, _, startFits, startAtEnd, _⟩ := write_atEnd atStart reliable startWritten startComplete ∅
  obtain ⟨finalName, finalAtEnd, fits, smalls, entries, placed⟩ := positions _ startAtEnd
  have target : final.file.filename = filename := finalName.trans startName
  have present := finalAtEnd.written
  rw [target] at present
  rw [target, Disk.content_eq, present, Option.getD_some] at endView
  -- The second header covers the first one, or less than was in front of that.
  have behind : (frame (rt.header.encode (indexHeader log.minTimestamp final.index))).length ≤
      (old ++ frame (rt.header.encode (indexHeader log.minTimestamp index))).length := by
    rw [indexHeader_length rt log.minTimestamp unplaced, List.length_append]
    exact Nat.le_add_left _ _
  have within := fits startFits
  have readsAt : ∀ before stream after,
      order.order ((Keyed.pairs log.streams).map Prod.snd) = before ++ stream :: after →
        IndexedStoreFile.readAt rt
          (overwrite (old ++ frame (rt.header.encode (indexHeader log.minTimestamp index)) ++
            frames rt.stream (order.order ((Keyed.pairs log.streams).map Prod.snd))) 0
            (frame (rt.header.encode (indexHeader log.minTimestamp final.index))))
          (.ofNat (old ++ frame (rt.header.encode (indexHeader log.minTimestamp index)) ++
            frames rt.stream before).length) = stream := by
    intro earlier stream later split
    rw [split] at within ⊢
    exact readAt_overwrite behind within (smalls stream (by rw [split]; simp))
  refine ⟨endReliable, _, final.index, (congrFun endView filename).trans (Function.update_self ..),
    ⟨_, rfl⟩, headerSmall, (readBack_of_mapM listed).of_unplaced unplaced, ?_, ?_⟩
  · intro entry member
    cases entries entry member with
    | inl inside => exact .inl (named entry inside).2
    | inr position =>
      obtain ⟨earlier, stream, later, split, key, offset⟩ := position
      refine .inr ⟨stream, ?_, ?_⟩
      · rw [key]
        exact (mem_streams filed).mp (by rw [split]; simp)
      · rw [offset]
        exact readsAt earlier stream later split
  · intro key stream found entered
    obtain ⟨same, _⟩ := filed key stream found
    subst same
    obtain ⟨earlier, later, split⟩ := List.append_of_mem ((@mem_streams _ order _ filed _).mpr found)
    rw [keys_of_unplaced unplaced] at entered
    obtain ⟨entry, member, same, offset⟩ :=
      placed (streams_nodup filed) earlier stream later split entered
    refine ⟨entry, member, same, ?_⟩
    rw [offset]
    exact readsAt earlier stream later split

theorem rename_eq_some {disk after : Disk} {source target : GoString}
    (renamed : disk.rename source target = some after) :
    after.incomplete = disk.incomplete ∧ (disk.Reliable → after.Reliable) ∧
      after.view target = some (disk.content source) := by
  unfold Disk.rename at renamed
  split at renamed
  · cases renamed
    exact ⟨rfl, id, AList.lookup_insert _⟩
  · cases renamed

theorem writeTo_ok {rt : Runtime Double} {order : Iteration} {filename : GoString}
    {disk after : Disk} {manager next : StoreManager Double} {log : LogIndex Double} (reliable : disk.Reliable)
    (filed : Filed log.streams)
    (written : manager.writeTo rt order filename disk log = .ok (after, next, true))
    (complete : after.incomplete = false) :
    ∃ content index, after.Reliable ∧ after.view filename = some content ∧ Written rt log content index := by
  obtain ⟨start, listed, later⟩ := Fallible.bind_ok written
  rw [reliable.writeProtoFile] at later
  obtain ⟨finished, body, renamed⟩ := Fallible.bind_ok later
  have view : (disk.store (filename ++ ascii ".new") (disk.content (filename ++ ascii ".new"))).view
      (filename ++ ascii ".new") = some (disk.content (filename ++ ascii ".new")) := by
    rw [Disk.view_store, Function.update_self]
  cases moved : finished.rename (filename ++ ascii ".new") filename with
  | none =>
    simp only [moved] at renamed
    cases renamed
  | some last =>
    simp only [moved] at renamed
    cases renamed
    obtain ⟨incomplete, keepsReliable, lastView⟩ := rename_eq_some moved
    obtain ⟨finishedReliable, content, index, present, written⟩ :=
      writeIndexed_ok (reliable.store _ _) filed listed view body (incomplete ▸ complete)
    refine ⟨content, index, keepsReliable finishedReliable, ?_, written⟩
    rw [lastView, Disk.content_eq, present]
    rfl

/-- What `Open` takes from the new file. -/
theorem tellsStreams_of_written {rt : Runtime Double} {order : Iteration} {datastorePath : GoString}
    {disk after : Disk} {manager next : StoreManager Double} {log : LogIndex Double} {file : IndexedStoreFile}
    (foreign : ∀ header : StoreFileHeader, header.endTimestamp.isSome →
      rt.stream.decode (rt.header.encode header) = none)
    (reliable : disk.Reliable) (filed : Filed log.streams)
    (written : manager.writeIndexedFile rt order datastorePath disk log = .ok (after, next, true))
    (complete : after.incomplete = false)
    (opened : (newIndexedStoreFile (storeFilename datastorePath log.maxTimestamp)).openFile rt after =
      .ok (some file)) :
    ∃ content index, TellsStreams rt file log.streams log.minTimestamp content index := by
  obtain ⟨content, index, stillReliable, present, layout⟩ := writeTo_ok reliable filed written complete
  obtain ⟨rest, whole⟩ := layout.header
  have header : protoRead rt.header content 0 = .message (indexHeader log.minTimestamp index)
      (0 + (frame (rt.header.encode (indexHeader log.minTimestamp index))).length) :=
    protoRead_frame whole (by have small := layout.small; omega)
  have read : (newIndexedStoreFile (storeFilename datastorePath log.maxTimestamp)).readHeader content
      (indexHeader log.minTimestamp index) = .ok file := by
    simp only [IndexedStoreFile.openFile, newIndexedStoreFile, stillReliable.readProtoFile, present, header,
      Bool.false_eq_true, if_false] at opened
    obtain ⟨_, ran, same⟩ := Fallible.bind_ok (show _ >>= (fun file => Except.ok (some file)) = _ from opened)
    cases same
    exact ran
  obtain ⟨names, parsed, same⟩ := Fallible.bind_ok read
  cases same
  -- Every variable of the index was parsed from a key, so it prints as that key again.
  have each : ∀ entry ∈ index, newFromProto entry.streamVariable = .ok (readVariable entry) ∧
      (readVariable entry).string = entry.key := by
    intro entry member
    obtain ⟨key, _, v, _, variable_⟩ := layout.parsed.source entry member
    rw [readVariable, StoreFileHeaderIndex.key, variable_]
    exact ⟨rfl, rfl⟩
  have all := Fallible.mapM_ok fun entry member => (each entry member).1
  obtain rfl : names = index.map readVariable := Except.ok.inj (parsed.symm.trans all)
  refine ⟨content, index, rfl, ⟨rfl, rfl⟩, ?_, ?_, layout.parsed, layout.points, layout.placed,
    readAt_header whole layout.small (foreign _ rfl)⟩
  · show Keyed.insertAll ∅ (((index.map readVariable).map Variable.string).zip (index.map (·.offset))) = _
    rw [List.map_map, List.zip_map']
    congr 1
    apply List.map_congr_left
    intro entry member
    exact Prod.ext (each entry member).2 rfl
  · show some ((index.map readVariable).map Variable.name) = _
    rw [List.map_map]
    rfl

/-! ## Searching the file -/

theorem keyMatches_parsed {key : GoString} {v : Variable} (parsed : newFromString key = .ok (some v))
    (search : Variable) : IndexedStoreFile.keyMatches search key = v.isMatch search := by
  rw [IndexedStoreFile.keyMatches, parsed]
  rfl

theorem isMatch_of_lookup {streams : StreamMap Double} (filed : Filed streams) {key : GoString}
    {stream : Stream Double} (found : streams.lookup key = some stream) (search : Variable) :
    ∃ v : Variable, stream.isMatch search = v.isMatch search := by
  obtain ⟨v, parsed, _⟩ := (filed key stream found).2.newFromProto
  exact ⟨v, by rw [ValueStream.isMatch, parsed]; rfl⟩

/-! ## The other goroutines -/

section

variable {rt : Runtime Double} {bloom : BloomFilter} {order : Iteration} {disk : Disk} {manager : StoreManager Double}
  {search : Variable} {minTimestamp maxTimestamp : Option UInt64}

/-- With a search that does not panic itself, a stream is tested unless it has no variable. -/
theorem isMatch_ok_iff (decided : ∀ v : Variable, ∃ matched, v.isMatch search = .ok matched)
    (stream : Stream Double) : (∃ matched, stream.isMatch search = .ok matched) ↔ stream.HasVariable := by
  constructor
  · rintro ⟨matched, tested⟩
    obtain ⟨v, parsed, -⟩ := Fallible.bind_ok tested
    cases found : stream.streamVariable with
    | none =>
      rw [found] at parsed
      cases parsed
    | some p => simp [ValueStream.HasVariable, found]
  · intro named
    obtain ⟨v, parsed, -⟩ := named.newFromProto
    rw [ValueStream.isMatch, parsed]
    exact decided v

theorem memoryStreams_ok_iff (decided : ∀ v : Variable, ∃ matched, v.isMatch search = .ok matched) :
    (∃ sent, manager.memoryStreams order search = .ok sent) ↔
      ∀ key ∈ manager.streams, ∃ v, newFromString key = .ok (some v) := by
  constructor
  · rintro ⟨sent, run⟩ key member
    obtain ⟨stream, found⟩ := Keyed.mem_iff_lookup.mp member
    obtain ⟨selected, ran, -⟩ := Fallible.bind_ok run
    obtain ⟨passed, tested⟩ :=
      (Fallible.select_ok ran).1 (key, stream) ((order.perm _).mem_iff.mpr (Keyed.mem_pairs.mpr found))
    obtain ⟨read, parsed, -⟩ := Fallible.bind_ok tested
    cases read with
    | none =>
      rw [IndexedStoreFile.keyMatches, parsed] at tested
      cases tested
    | some v => exact ⟨v, parsed⟩
  · intro parses
    have each : ∀ entry ∈ order.order (Keyed.pairs manager.streams),
        ∃ passed, IndexedStoreFile.keyMatches search entry.1 = .ok passed := by
      intro entry member
      have found := Keyed.mem_pairs.mp ((order.perm _).mem_iff.mp member)
      obtain ⟨v, parsed⟩ := parses entry.1 (Keyed.mem_iff_lookup.mpr ⟨_, found⟩)
      rw [keyMatches_parsed parsed]
      exact decided v
    obtain ⟨selected, ran⟩ := Fallible.select_exists each
    exact ⟨_, by rw [StoreManager.memoryStreams, ran]; rfl⟩

theorem fileStreams_ok_iff (decided : ∀ v : Variable, ∃ matched, v.isMatch search = .ok matched)
    (file : IndexedStoreFile) :
    (∃ sent, StoreManager.fileStreams rt bloom order disk search minTimestamp maxTimestamp file = .ok sent) ↔
      file.Answers rt bloom order disk search minTimestamp maxTimestamp := by
  rw [IndexedStoreFile.Answers, StoreManager.fileStreams]
  by_cases late : minTimestamp.any (fun bound => file.maxTimestamp < bound) = true
  · rw [if_pos late]
    exact iff_of_true ⟨[], rfl⟩ (.inl late)
  by_cases early : maxTimestamp.any (fun bound => bound < file.minTimestamp) = true
  · rw [if_neg late, if_pos early]
    exact iff_of_true ⟨[], rfl⟩ (.inr (.inl early))
  rw [if_neg late, if_neg early]
  simp only [late, early, Bool.false_eq_true, false_or]
  constructor
  · rintro ⟨sent, run⟩
    obtain ⟨found, got, selected⟩ := Fallible.bind_ok run
    exact ⟨found, got, fun stream member =>
      (isMatch_ok_iff decided stream).mp ((Fallible.select_ok selected).1 stream member)⟩
  · rintro ⟨found, got, named⟩
    obtain ⟨sent, selected⟩ := Fallible.select_exists fun stream member =>
      (isMatch_ok_iff decided stream).mpr (named stream member)
    exact ⟨sent, by rw [got]; exact selected⟩

/-- The call of a search that does not panic itself, when the goroutine of one file does not. -/
theorem alive_iff (decided : ∀ v : Variable, ∃ matched, v.isMatch search = .ok matched) {file : IndexedStoreFile}
    {sent : List (Stream Double)}
    (answered : StoreManager.fileStreams rt bloom order disk search minTimestamp maxTimestamp file = .ok sent) :
    (∀ result ∈ manager.getValueStreams rt bloom order disk search minTimestamp maxTimestamp,
        ∃ sent, result = .ok sent) ↔
      Undisturbed rt bloom order disk manager file search minTimestamp maxTimestamp := by
  rw [StoreManager.getValueStreams, List.forall_mem_cons, memoryStreams_ok_iff decided, List.forall_mem_map]
  constructor
  · rintro ⟨memory, files⟩
    exact ⟨memory, fun other member _ => (fileStreams_ok_iff decided other).mp (files other member)⟩
  · rintro ⟨memory, files⟩
    refine ⟨memory, fun other member => ?_⟩
    by_cases same : other = file
    · exact ⟨sent, same ▸ answered⟩
    · exact (fileStreams_ok_iff decided other).mpr (files other member same)

end

namespace TellsStreams

variable {rt : Runtime Double} {bloom : BloomFilter} {order : Iteration} {disk : Disk} {manager : StoreManager Double}
  {file : IndexedStoreFile}
  {streams : StreamMap Double} {timestamp : UInt64} {content : Bytes} {index : List StoreFileHeaderIndex}
  {search : Variable} {key : GoString} {stream : Stream Double}

theorem openFile (tells : TellsStreams rt file streams timestamp content index) (disk : Disk) :
    file.openFile rt disk = .ok (some file) := by
  rw [IndexedStoreFile.openFile, tells.opened]

theorem mem_offsets (tells : TellsStreams rt file streams timestamp content index) {offset : UInt64}
    (member : (key, offset) ∈ order.order (Keyed.pairs file.offsets)) :
    ∃ entry ∈ index, entry.key = key ∧ entry.offset = offset := by
  have found := Keyed.mem_pairs.mp ((order.perm _).mem_iff.mp member)
  rw [tells.offsets] at found
  cases Keyed.mem_of_lookup_insertAll found with
  | inl none_ => cases none_
  | inr inside =>
    obtain ⟨entry, entryMember, same⟩ := List.mem_map.mp inside
    exact ⟨entry, entryMember, congrArg Prod.fst same, congrArg Prod.snd same⟩

theorem readStreams_eq (tells : TellsStreams rt file streams timestamp content index) (search : Variable) :
    file.readStreams rt order search =
      (Fallible.select (fun entry => IndexedStoreFile.keyMatches search entry.1)
        (order.order (Keyed.pairs file.offsets))).map fun found =>
          found.map fun entry => IndexedStoreFile.readAt rt content entry.2 := by
  rw [IndexedStoreFile.readStreams, tells.opened]
  cases Fallible.select (fun entry => IndexedStoreFile.keyMatches search entry.1)
      (order.order (Keyed.pairs file.offsets)) with
  | error err => rfl
  | ok found => exact Fallible.mapM_ok fun entry _ => rfl

theorem getStreams_eq (tells : TellsStreams rt file streams timestamp content index) (disk : Disk)
    (search : Variable) :
    file.getStreams rt bloom order disk search =
      if search.name.getLast? = some star ∨
          bloom.test (index.map fun entry => (readVariable entry).name) search.name = true then
        file.readStreams rt order search
      else .ok [] := by
  rw [IndexedStoreFile.getStreams, tells.openFile]
  simp only [Fallible.ok_bind, Option.getD_some, tells.names]
  by_cases wild : search.name.getLast? = some star
  · rw [if_pos wild, if_pos (.inl wild)]
  · rw [if_neg wild]
    simp only [wild, false_or]
    rfl

/-- A stream that the file sends was found by the variable that its printed one is read back as. -/
theorem keyMatches_of_sent (tells : TellsStreams rt file streams timestamp content index) (filed : Filed streams)
    (valued : Valued streams) {sent : List (Stream Double)} (run : file.readStreams rt order search = .ok sent)
    (found : streams.lookup key = some stream) (member : stream ∈ sent) :
    (∃ entry ∈ index, entry.key = key) ∧ IndexedStoreFile.keyMatches search key = .ok true := by
  rw [tells.readStreams_eq] at run
  obtain ⟨entries, selected, rfl⟩ := Fallible.map_ok run
  obtain ⟨⟨key', offset⟩, chosen, read⟩ := List.mem_map.mp member
  obtain ⟨listed, passed⟩ := ((Fallible.select_ok selected).2 _).mp chosen
  obtain ⟨entry, entryMember, rfl, rfl⟩ := tells.mem_offsets listed
  cases tells.points entry entryMember with
  | inl zero =>
    -- At the beginning of the file there is no stream.
    rw [zero, tells.unplaced] at read
    rw [← read] at found
    exact absurd rfl (valued key _ found)
  | inr pointed =>
    obtain ⟨other, otherFound, otherRead⟩ := pointed
    obtain rfl : other = stream := otherRead.symm.trans read
    obtain rfl : entry.key = key := (filed _ _ otherFound).1.symm.trans (filed _ _ found).1
    exact ⟨⟨entry, entryMember, rfl⟩, passed⟩

theorem oneTimestamp_of_sound (tells : TellsStreams rt file streams timestamp content index) (filed : Filed streams)
    (sound : PruningSound rt bloom order disk manager file streams) : OneTimestamp streams timestamp := by
  intro key stream found value member
  obtain ⟨v, same⟩ := isMatch_of_lookup filed found searchAll
  obtain ⟨sent, run, inside⟩ := (sound searchAll (some value.timestamp) (some value.timestamp) stream
    ⟨⟨key, found⟩, same.trans (isMatch_searchAll v), value, member, by simp, by simp⟩).sent
  obtain ⟨low, high⟩ := tells.bounds
  rw [StoreManager.fileStreams, low, high] at run
  by_cases later : timestamp < value.timestamp
  · rw [if_pos (by simpa using later)] at run
    cases run
    cases inside
  · by_cases earlier : value.timestamp < timestamp
    · rw [if_neg (by simpa using later), if_pos (by simpa using earlier)] at run
      cases run
      cases inside
    · exact UInt64.le_antisymm (UInt64.not_lt.mp later) (UInt64.not_lt.mp earlier)

/-- The search without bounds finds a stream by its printed variable, or not at all. -/
theorem keyMatches_of_sound (tells : TellsStreams rt file streams timestamp content index) (filed : Filed streams)
    (valued : Valued streams) (sound : PruningSound rt bloom order disk manager file streams)
    (found : streams.lookup key = some stream) (matched : stream.isMatch search = .ok true) :
    (∃ entry ∈ index, entry.key = key) ∧ IndexedStoreFile.keyMatches search key = .ok true := by
  obtain ⟨value, member⟩ := List.exists_mem_of_ne_nil _ (valued key stream found)
  obtain ⟨sent, run, inside⟩ :=
    (sound search none none stream ⟨⟨key, found⟩, matched, value, member, by simp, by simp⟩).sent
  obtain ⟨read, got, selected⟩ := Fallible.bind_ok (show file.getStreams rt bloom order disk search >>= _ = _ from run)
  have read_ : stream ∈ read := (((Fallible.select_ok selected).2 stream).mp inside).1
  rw [tells.getStreams_eq] at got
  split at got
  · exact tells.keyMatches_of_sent filed valued got found read_
  · cases got
    cases read_

theorem searchable_of_sound (tells : TellsStreams rt file streams timestamp content index) (filed : Filed streams)
    (valued : Valued streams) (sound : PruningSound rt bloom order disk manager file streams) : Searchable streams := by
  constructor
  · intro key member
    obtain ⟨stream, found⟩ := Keyed.mem_iff_lookup.mp member
    obtain ⟨v, same⟩ := isMatch_of_lookup filed found searchAll
    obtain ⟨⟨entry, inside, rfl⟩, _⟩ :=
      tells.keyMatches_of_sound filed valued sound found (same.trans (isMatch_searchAll v))
    obtain ⟨other, otherMember, w, parsed, variable_⟩ := tells.parsed.source entry inside
    refine ⟨other, otherMember, w, parsed, ?_⟩
    rw [StoreFileHeaderIndex.key, variable_]
    exact (string_parsed_asProto w).symm
  · intro key stream found search matched
    exact (tells.keyMatches_of_sound filed valued sound found matched).2

/-- There is an entry for each printed variable, and one only, when they are all listed. -/
theorem keys_perm (tells : TellsStreams rt file streams timestamp content index) (searchable : Searchable streams) :
    streams.keys.Perm (index.map StoreFileHeaderIndex.key) := by
  apply (List.subperm_of_subset streams.keys_nodup ?_).perm_of_length_le
  · rw [List.length_map, tells.parsed.length]
  · intro key member
    obtain ⟨other, otherMember, v, parsed, rfl⟩ := searchable.listed key member
    obtain ⟨entry, inside, w, parsed', variable_⟩ := tells.parsed.target other otherMember
    obtain rfl : v = w := by
      rw [parsed, Except.ok.injEq, Option.some.injEq] at parsed'
      exact parsed'
    apply List.mem_map.mpr ⟨entry, inside, ?_⟩
    rw [StoreFileHeaderIndex.key, variable_]
    exact string_parsed_asProto v

/-- The stream at an offset is the one of the printed variable. -/
theorem readAt_offset (tells : TellsStreams rt file streams timestamp content index)
    (searchable : Searchable streams) {offset : UInt64}
    (member : (key, offset) ∈ order.order (Keyed.pairs file.offsets)) :
    streams.lookup key = some (IndexedStoreFile.readAt rt content offset) := by
  have perm := tells.keys_perm searchable
  have distinct : (index.map StoreFileHeaderIndex.key).Nodup := perm.nodup_iff.mp streams.keys_nodup
  obtain ⟨entry, inside, rfl, rfl⟩ := tells.mem_offsets member
  have listed : entry.key ∈ index.map StoreFileHeaderIndex.key := List.mem_map_of_mem inside
  obtain ⟨stream, found⟩ := Keyed.mem_iff_lookup.mp (show entry.key ∈ streams from perm.mem_iff.mpr listed)
  obtain ⟨placed, placedInside, same, read⟩ := tells.placed _ stream found listed
  obtain rfl : placed = entry := List.inj_on_of_nodup_map distinct placedInside inside same
  rw [found, read]

/-- A stream whose printed variable matches is read. -/
theorem readStreams_finds (tells : TellsStreams rt file streams timestamp content index)
    (searchable : Searchable streams) (found : streams.lookup key = some stream)
    (matched : IndexedStoreFile.keyMatches search key = .ok true) :
    ∃ sent, file.readStreams rt order search = .ok sent ∧ stream ∈ sent ∧
      ∀ other ∈ sent, ∃ key, streams.lookup key = some other := by
  have present : key ∈ streams := Keyed.mem_iff_lookup.mpr ⟨stream, found⟩
  obtain ⟨_, _, v, parsed, _⟩ := tells.parsed.target key present
  rw [keyMatches_parsed parsed] at matched
  -- No other entry stops the loop: one search that was decided is decided for all.
  have each : ∀ entry ∈ order.order (Keyed.pairs file.offsets),
      ∃ passed, IndexedStoreFile.keyMatches search entry.1 = .ok passed := by
    intro entry member
    have listed : entry.1 ∈ streams := Keyed.mem_iff_lookup.mpr ⟨_, tells.readAt_offset searchable member⟩
    obtain ⟨_, _, w, parsed', _⟩ := tells.parsed.target entry.1 listed
    rw [keyMatches_parsed parsed']
    exact isMatch_total matched w
  obtain ⟨entries, selected⟩ := Fallible.select_exists each
  obtain ⟨_, members⟩ := Fallible.select_ok selected
  refine ⟨_, by rw [tells.readStreams_eq, selected]; rfl, ?_, ?_⟩
  · have perm := tells.keys_perm searchable
    obtain ⟨entry, inside, rfl⟩ := List.mem_map.mp (perm.mem_iff.mp present)
    have distinct : (index.map StoreFileHeaderIndex.key).Nodup := perm.nodup_iff.mp streams.keys_nodup
    have offset : (entry.key, entry.offset) ∈ order.order (Keyed.pairs file.offsets) := by
      apply (order.perm _).mem_iff.mpr
      apply Keyed.mem_pairs.mpr
      rw [tells.offsets]
      apply Keyed.lookup_insertAll_of_mem
      · rw [List.map_map]
        exact distinct
      · exact List.mem_map.mpr ⟨entry, inside, rfl⟩
    have read := tells.readAt_offset searchable offset
    rw [found, Option.some.injEq] at read
    apply List.mem_map.mpr ⟨(entry.key, entry.offset), (members _).mpr ⟨offset, ?_⟩, read.symm⟩
    rw [keyMatches_parsed parsed]
    exact matched
  · intro other member
    obtain ⟨⟨key', offset⟩, chosen, rfl⟩ := List.mem_map.mp member
    exact ⟨key', tells.readAt_offset searchable ((members _).mp chosen).1⟩

/-- The goroutine of the file sends the streams that a search demands. -/
theorem sent_of_searchable (tells : TellsStreams rt file streams timestamp content index) (filed : Filed streams)
    (one : OneTimestamp streams timestamp) (searchable : Searchable streams)
    {minTimestamp maxTimestamp : Option UInt64}
    (demands : Demands streams search minTimestamp maxTimestamp stream) :
    ∃ sent, StoreManager.fileStreams rt bloom order disk search minTimestamp maxTimestamp file = .ok sent ∧
      stream ∈ sent := by
  obtain ⟨⟨key, found⟩, matched, inRange⟩ := demands
  have keyMatched := searchable.found key stream found search matched
  obtain ⟨read, got, inside, others⟩ : ∃ read, file.readStreams rt order search = .ok read ∧ stream ∈ read ∧
      ∀ other ∈ read, ∃ key, streams.lookup key = some other :=
    tells.readStreams_finds searchable found keyMatched
  -- The bounds are met, and the filter knows the name.
  obtain ⟨value, member, low, high⟩ := inRange
  have here := one key stream found value member
  obtain ⟨minBound, maxBound⟩ := tells.bounds
  have present : key ∈ streams := Keyed.mem_iff_lookup.mpr ⟨stream, found⟩
  obtain ⟨entry, entryInside, v, parsed, variable_⟩ := tells.parsed.target key present
  rw [keyMatches_parsed parsed] at keyMatched
  have known_ : search.name.getLast? = some star ∨
      bloom.test (index.map fun entry => (readVariable entry).name) search.name = true := by
    by_cases wild : search.name.getLast? = some star
    · exact .inl wild
    · right
      apply bloom.test_of_mem
      apply List.mem_map.mpr ⟨entry, entryInside, ?_⟩
      rw [readVariable, variable_]
      show v.name = search.name
      exact name_of_isMatch keyMatched wild
  have each : ∀ other ∈ read, ∃ passed, ValueStream.isMatch other search = .ok passed := by
    intro other otherInside
    obtain ⟨otherKey, otherFound⟩ := others other otherInside
    obtain ⟨w, same⟩ := isMatch_of_lookup filed otherFound search
    rw [same]
    exact isMatch_total keyMatched w
  obtain ⟨sent, selected⟩ := Fallible.select_exists each
  refine ⟨sent, ?_, ((Fallible.select_ok selected).2 stream).mpr ⟨inside, matched⟩⟩
  have notLater : ¬ minTimestamp.any (fun bound => decide (timestamp < bound)) = true := by
    cases minTimestamp with
    | none => exact Bool.false_ne_true
    | some bound =>
      have below := low bound rfl
      rw [here] at below
      simpa using below
  have notEarlier : ¬ maxTimestamp.any (fun bound => decide (bound < timestamp)) = true := by
    cases maxTimestamp with
    | none => exact Bool.false_ne_true
    | some bound =>
      have above := high bound rfl
      rw [here] at above
      simpa using above
  rw [StoreManager.fileStreams, minBound, maxBound, if_neg notLater, if_neg notEarlier, tells.getStreams_eq,
    if_pos known_, got]
  exact selected

end TellsStreams

/-- A file that has been written and opened prunes soundly exactly when no value has another timestamp than
the least one, its streams are found by their printed variables, and nothing else of the store disturbs the searches
that match some of its streams. -/
theorem pruningSound_iff {rt : Runtime Double} {bloom : BloomFilter} {order : Iteration} {datastorePath : GoString}
    {disk after : Disk} {manager next : StoreManager Double} {eq : Double → Double → Bool} {zero : Double}
    {messages : List (Stream Double)} {log : LogIndex Double} {file : IndexedStoreFile}
    (foreign : ∀ header : StoreFileHeader, header.endTimestamp.isSome →
      rt.stream.decode (rt.header.encode header) = none)
    (reliable : disk.Reliable) (indexed : indexRecordLog eq zero messages = .ok log) (valued : Valued log.streams)
    (written : manager.writeIndexedFile rt order datastorePath disk log = .ok (after, next, true))
    (complete : after.incomplete = false)
    (opened : (newIndexedStoreFile (storeFilename datastorePath log.maxTimestamp)).openFile rt after =
      .ok (some file)) (searched : StoreManager Double) (known : file ∈ searched.storeFiles) :
    PruningSound rt bloom order after searched file log.streams ↔
      OneTimestamp log.streams log.minTimestamp ∧ Searchable log.streams ∧
        ∀ search minTimestamp maxTimestamp stream, Demands log.streams search minTimestamp maxTimestamp stream →
          Undisturbed rt bloom order after searched file search minTimestamp maxTimestamp := by
  have filed := indexRecordLog_filed indexed
  obtain ⟨content, index, tells⟩ := tellsStreams_of_written foreign reliable filed written complete opened
  have decided : ∀ {search minTimestamp maxTimestamp stream},
      Demands log.streams search minTimestamp maxTimestamp stream →
      ∀ v : Variable, ∃ matched, v.isMatch search = .ok matched := by
    intro search minTimestamp maxTimestamp stream demands v
    obtain ⟨key, found⟩ := demands.present
    obtain ⟨w, same⟩ := isMatch_of_lookup filed found search
    exact isMatch_total (same.symm.trans demands.isMatch) v
  constructor
  · intro sound
    refine ⟨tells.oneTimestamp_of_sound filed sound, tells.searchable_of_sound filed valued sound, ?_⟩
    intro search minTimestamp maxTimestamp stream demands
    obtain ⟨-, alive, sent, answered, -⟩ := sound search minTimestamp maxTimestamp stream demands
    exact (alive_iff (decided demands) answered).mp alive
  · rintro ⟨one, searchable, undisturbed⟩ search minTimestamp maxTimestamp stream demands
    obtain ⟨sent, answered, inside⟩ := tells.sent_of_searchable filed one searchable demands
    exact ⟨known, (alive_iff (decided demands) answered).mpr (undisturbed _ _ _ stream demands), sent, answered, inside⟩

/-- Streams whose variables are read back from their printed form are found by it. -/
theorem searchable_of_readBack {streams : StreamMap Double}
    (readBack : ∀ key stream, streams.lookup key = some stream →
      ∃ v, newFromString key = .ok (some v) ∧ newFromProto stream.streamVariable = .ok v ∧ v.string = key) :
    Searchable streams := by
  constructor
  · intro key member
    obtain ⟨stream, found⟩ := Keyed.mem_iff_lookup.mp member
    obtain ⟨v, parsed, -, printed⟩ := readBack key stream found
    exact ⟨key, member, v, parsed, printed⟩
  · intro key stream found search matched
    obtain ⟨v, parsed, same, -⟩ := readBack key stream found
    rw [ValueStream.isMatch, same] at matched
    rw [keyMatches_parsed parsed]
    exact matched

/-! ## Files of the messages on the wire -/

/-- The end of the range stands in the field of the variable, with the type of a number. -/
theorem decode_header_eq_none {header : StoreFileHeader} (ranged : header.endTimestamp.isSome) :
    protoRuntime.stream.decode (protoRuntime.header.encode header) = none := by
  obtain ⟨timestamp, ends⟩ := Option.isSome_iff_exists.mp ranged
  have fields : Wire.readFields (headerFormat.encode header).length (headerFormat.encode header) =
      some (headerFormat.toFields header) := Wire.readFields_encodeFields (Wire.encodeFields_length_ge _)
  show streamFormat.decode (headerFormat.encode header) = none
  rw [Wire.Format.decode, fields]
  simp [streamFormat, headerFormat, Wire.Scalar.all, Wire.payloads_fields_ne, ends, Wire.embedded, Wire.uint64]

/-- A filter without false positives. -/
def exactFilter : BloomFilter where
  test added name := decide (name ∈ added)
  test_of_mem := decide_eq_true

/-- What a store without files writes for some streams to an empty directory, and the file once opened. -/
def openedFile (messages : List (Stream UInt64)) :
    Except Panic (Option (Disk × LogIndex UInt64 × IndexedStoreFile)) := do
  let log ← indexRecordLog Server.doubleEq 0 messages
  let written ← StoreManager.writeIndexedFile protoRuntime .listed (ascii "/d") Disk.empty
    { streams := ∅, storeFiles := [] } log
  let file ← (newIndexedStoreFile (storeFilename (ascii "/d") log.maxTimestamp)).openFile protoRuntime written.1
  return if written.2.2 && !written.1.incomplete then file.map fun file => (written.1, log, file) else none

theorem openedFile_ok {messages : List (Stream UInt64)} {after : Disk} {log : LogIndex UInt64}
    {file : IndexedStoreFile} (run : openedFile messages = .ok (some (after, log, file))) :
    indexRecordLog Server.doubleEq 0 messages = .ok log ∧
      (∃ next, StoreManager.writeIndexedFile protoRuntime .listed (ascii "/d") Disk.empty
        { streams := ∅, storeFiles := [] } log = .ok (after, next, true)) ∧
      after.incomplete = false ∧
      (newIndexedStoreFile (storeFilename (ascii "/d") log.maxTimestamp)).openFile protoRuntime after =
        .ok (some file) := by
  unfold openedFile at run
  obtain ⟨log', indexed, run⟩ := Fallible.bind_ok run
  obtain ⟨⟨disk, next, complete⟩, written, run⟩ := Fallible.bind_ok run
  obtain ⟨opened, opening, run⟩ := Fallible.bind_ok run
  cases complete with
  | false => cases run
  | true =>
    cases unfinished : disk.incomplete with
    | true => simp [unfinished, pure, Except.pure] at run
    | false =>
      cases opened with
      | none => simp [pure, Except.pure] at run
      | some file' =>
        simp only [unfinished, pure, Except.pure, Bool.not_false, Bool.and_self, if_true, Option.map_some,
          Except.ok.injEq, Option.some.injEq, Prod.mk.injEq] at run
        obtain ⟨rfl, rfl, rfl⟩ := run
        exact ⟨indexed, ⟨next, written⟩, unfinished, opening⟩

def risingLog : List (Stream UInt64) :=
  [{ streamVariable := some { name := ascii "a", label := [] }, value := [doubleAt 5 0, doubleAt 9 1] }]

/-- A log is opened with a property when it can be run. -/
theorem openedFile_exists {messages : List (Stream UInt64)} {test : LogIndex UInt64 → Bool}
    (found : ((openedFile messages).toOption.any fun opened => opened.any fun opened => test opened.2.1) = true) :
    ∃ after log file, openedFile messages = .ok (some (after, log, file)) ∧ test log = true := by
  cases run : openedFile messages with
  | error _ =>
    rw [run] at found
    cases found
  | ok opened =>
    rw [run] at found
    cases opened with
    | none => cases found
    | some opened => exact ⟨opened.1, opened.2.1, opened.2.2, rfl, found⟩

theorem valued_of_entries {streams : StreamMap Double}
    (each : ∀ entry ∈ Keyed.pairs streams, entry.2.value ≠ []) : Valued streams :=
  fun key stream found => each (key, stream) (Keyed.mem_pairs.mpr found)

/-- The variable of a stream has no labels, and it is read back from the key that it prints as. -/
def isReadBack (entry : GoString × Stream UInt64) : Bool :=
  match newFromString entry.1, newFromProto entry.2.streamVariable with
  | .ok (some v), .ok w => v.name = w.name && v.labels.keys = [] && w.labels.keys = [] && v.string = entry.1
  | _, _ => false

theorem exists_of_isReadBack {entry : GoString × Stream UInt64} (same : isReadBack entry = true) :
    ∃ v, newFromString entry.1 = .ok (some v) ∧ newFromProto entry.2.streamVariable = .ok v ∧ v.string = entry.1 := by
  unfold isReadBack at same
  split at same
  · rename_i v w parsed read
    simp only [Bool.and_eq_true, decide_eq_true_eq] at same
    obtain ⟨⟨⟨name, none_⟩, others⟩, printed⟩ := same
    have labels : v.labels = w.labels :=
      AList.ext ((List.map_eq_nil_iff.mp none_).trans (List.map_eq_nil_iff.mp others).symm)
    obtain rfl : v = w := by
      cases v
      cases w
      exact congrArg₂ Variable.mk name labels
    exact ⟨v, parsed, read, printed⟩
  · cases same

/-- A store that has a stream in memory besides a file. -/
def searchedStore (file : IndexedStoreFile) : StoreManager UInt64 :=
  { streams := (∅ : StreamMap UInt64).insert (ascii "b") (gauge "b" [7]), storeFiles := [file] }

theorem undisturbed_searchedStore (disk : Disk) (file : IndexedStoreFile) (search : Variable)
    (minTimestamp maxTimestamp : Option UInt64) :
    Undisturbed protoRuntime exactFilter .listed disk (searchedStore file) file search minTimestamp maxTimestamp where
  memory := by
    intro key member
    have printed : key = ascii "b" := ((AList.mem_insert _).mp member).resolve_right (AList.notMem_empty key)
    have read : (newFromString (ascii "b")).toOption.all Option.isSome = true ∧
        (newFromString (ascii "b")).toOption.isSome = true := by decide
    rw [printed]
    cases parsed : newFromString (ascii "b") with
    | error panic =>
      rw [parsed] at read
      exact absurd read.2 Bool.false_ne_true
    | ok v =>
      rw [parsed] at read
      obtain ⟨w, rfl⟩ := Option.isSome_iff_exists.mp (show v.isSome = true from read.1)
      exact ⟨w, rfl⟩
  files other member different := absurd (List.mem_singleton.mp member) different

/-- The file of a single value is searched soundly. -/
theorem pruningSound_gauge :
    ∃ after log file, openedFile [gauge "a" [5]] = .ok (some (after, log, file)) ∧ log.streams.keys ≠ [] ∧
      PruningSound protoRuntime exactFilter .listed after (searchedStore file) file log.streams := by
  obtain ⟨after, log, file, run, found⟩ := @openedFile_exists [gauge "a" [5]]
    (fun log => decide (log.streams.keys ≠ [] ∧ ∀ entry ∈ Keyed.pairs log.streams, entry.2.value ≠ [] ∧
      (∀ value ∈ entry.2.value, value.timestamp = log.minTimestamp) ∧ isReadBack entry = true)) (by decide +kernel)
  obtain ⟨some_, each⟩ := of_decide_eq_true found
  obtain ⟨indexed, ⟨next, written⟩, complete, opened⟩ := openedFile_ok run
  have valued := valued_of_entries fun entry member => (each entry member).1
  refine ⟨after, log, file, run, some_, (pruningSound_iff (fun _ => decode_header_eq_none) (fun _ => rfl) indexed
    valued written complete opened (searchedStore file) (List.mem_singleton_self file)).mpr ⟨?_, ?_, ?_⟩⟩
  · exact fun key stream present => (each (key, stream) (Keyed.mem_pairs.mpr present)).2.1
  · exact searchable_of_readBack fun key stream present =>
      exists_of_isReadBack (each (key, stream) (Keyed.mem_pairs.mpr present)).2.2
  · exact fun search minTimestamp maxTimestamp _ _ =>
      undisturbed_searchedStore after file search minTimestamp maxTimestamp

/-- The file of two values in a row ends at the first of them. -/
theorem pruningSound_rising :
    ∃ after log file, openedFile risingLog = .ok (some (after, log, file)) ∧ log.minTimestamp = 5 ∧
      log.maxTimestamp = 9 ∧ Valued log.streams ∧
      ¬ PruningSound protoRuntime exactFilter .listed after (searchedStore file) file log.streams := by
  obtain ⟨after, log, file, run, found⟩ := @openedFile_exists risingLog
    (fun log => decide ((∀ entry ∈ Keyed.pairs log.streams, entry.2.value ≠ []) ∧ log.minTimestamp = 5 ∧
      log.maxTimestamp = 9 ∧ ∃ entry ∈ Keyed.pairs log.streams, ∃ value ∈ entry.2.value, value.timestamp = 9))
    (by decide)
  obtain ⟨valued, least, greatest, ⟨key, stream⟩, inside, value, member, late⟩ := of_decide_eq_true found
  obtain ⟨indexed, ⟨next, written⟩, complete, opened⟩ := openedFile_ok run
  have filed := indexRecordLog_filed indexed
  obtain ⟨content, index, tells⟩ := tellsStreams_of_written (fun _ => decode_header_eq_none) (fun _ => rfl) filed
    written complete opened
  refine ⟨after, log, file, run, least, greatest, valued_of_entries valued, ?_⟩
  intro sound
  have one : value.timestamp = log.minTimestamp :=
    tells.oneTimestamp_of_sound filed sound key stream (Keyed.mem_pairs.mp inside) value member
  rw [late, least] at one
  exact absurd one (by decide)

end OpenInstrument
