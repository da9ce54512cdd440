import OpenInstrument.Server.Reindexing
import OpenInstrument.Server.StoreConfig

/-! # Reading indexed store files

`Open` takes a file whose header has two bounds that are apart.  `GetVariable` reads the stream at the offset of
each entry of the header that it selects.  A stored variable is selected when the search matches it, where other
places ask whether it matches the search.
-/

namespace OpenInstrument.Server

/-! ## Opening a file -/

def StoreFileHeader.getStartTimestamp (header : StoreFileHeader) : UInt64 := header.startTimestamp.getD 0

/-- The test of `Open`. -/
def StoreFileHeader.isUsable (header : StoreFileHeader) : Bool :=
  !(header.getStartTimestamp == 0 || header.getEndTimestamp == 0 ||
    decide (header.getEndTimestamp ≤ header.getStartTimestamp))

section Codec

variable (crc : Bytes → UInt16) (headerCodec : Codec StoreFileHeader) (codec : Codec ValueStream)
  (regexMatch : RegexMatch)

/-- What `IndexedStoreFile::Open` returns for a file of some content. -/
def openIndexed (content : Bytes) : Bool := (openHeader crc headerCodec content).isUsable

/-! ## Reading a variable -/

/-- The entries of an index lead to some streams, each to one, under their variables. -/
def LeadsTo (content : Bytes) (index : List StoreFileHeaderIndex) (streams : List ValueStream) : Prop :=
  List.Forall₂ (fun entry stream => entry.streamVariable = stream.streamVariable ∧
    ∃ after, next crc codec content entry.offset.toNat = some (stream, after)) index streams

/-! ## What is selected -/

/-- The answer of a test, which is no when there is none. -/
def answer : Except Bytes Bool → Bool
  | .ok result => result
  | .error _ => false

/-- What `GetVariable` asks of a variable: whether the search matches it, and whether it matches itself. -/
def selects (search v : Variable) : Except Bytes Bool :=
  match search.matches regexMatch v with
  | .error what => .error what
  | .ok false => .ok false
  | .ok true => v.matches regexMatch v

def isSearched (search : Variable) (stream : ValueStream) : Bool :=
  answer ((fromProtobuf stream.streamVariable).matches regexMatch search)

/-- Reading a variable finds the streams that are searched, and says whether there are any. -/
def FindsSearched (content : Bytes) (header : StoreFileHeader) (streams : List ValueStream)
    (search : Variable) : Prop :=
  getVariable crc codec regexMatch content header search =
    .ok (streams.filter (isSearched regexMatch search), !(streams.filter (isSearched regexMatch search)).isEmpty)

end Codec

variable {crc : Bytes → UInt16} {headerCodec : Codec StoreFileHeader} {codec : Codec ValueStream}
  {regexMatch : RegexMatch}

/-! ## The streams of a written file -/

theorem leadsTo_records {content before : Bytes} {index : List StoreFileHeaderIndex} {streams : List ValueStream}
    (content_ : content = before ++ records crc codec streams) (size : content.length < 2 ^ 63)
    (small : ∀ stream ∈ streams, (codec.encode stream).length ≤ maxMessageSize)
    (aligned : List.Forall₂ (fun entry stream => entry.streamVariable = stream.streamVariable) index streams) :
    LeadsTo crc codec content
      (List.zipWith (fun (index : StoreFileHeaderIndex) offset => { index with offset }) index
        (offsetsFrom codec before.length streams)) streams := by
  induction aligned generalizing before with
  | nil => exact .nil
  | @cons entry stream index streams same aligned inductionHypothesis =>
    rw [records_cons] at content_
    have position : (UInt64.ofNat before.length).toNat = before.length := by
      rw [content_, List.length_append] at size
      exact UInt64.toNat_ofNat_of_lt (by rw [UInt64.size]; omega)
    have stands : content.drop before.length = record crc (codec.encode stream) ++ records crc codec streams := by
      rw [content_, List.drop_left]
    have rest := @inductionHypothesis (before ++ record crc (codec.encode stream))
      (by rw [content_, List.append_assoc]) fun other member => small other (.tail _ member)
    rw [List.length_append, record_length] at rest
    have here := next_record stands (small stream List.mem_cons_self)
    rw [← position] at here
    exact .cons ⟨same, _, here⟩ rest

/-- The offsets that are written lead to the streams. -/
theorem leadsTo_indexedContent (fixed : FixedOffsets headerCodec) {streams : List ValueStream}
    (header : (headerCodec.encode (indexHeader streams)).length ≤ maxMessageSize)
    (small : ∀ stream ∈ streams, (codec.encode stream).length ≤ maxMessageSize)
    (size : (indexedContent crc headerCodec codec streams).length < 2 ^ 63) :
    LeadsTo crc codec (indexedContent crc headerCodec codec streams)
      (openHeader crc headerCodec (indexedContent crc headerCodec codec streams)).index streams := by
  have width : (headerCodec.encode (writtenHeader headerCodec codec streams)).length =
      (headerCodec.encode (indexHeader streams)).length := fixed _ _ (by simp)
  have aligned : List.Forall₂ (fun entry stream => entry.streamVariable = stream.streamVariable)
      (indexHeader streams).index streams := by
    rw [index_indexHeader, List.forall₂_map_left_iff]
    exact List.forall₂_same.mpr fun _ _ => rfl
  have leads := @leadsTo_records crc codec (indexedContent crc headerCodec codec streams)
    (record crc (headerCodec.encode (writtenHeader headerCodec codec streams))) _ streams rfl size small aligned
  rw [record_length, width] at leads
  rw [openHeader_indexedContent fixed header]
  exact leads

/-! ## The bounds of a header -/

def firstTimestamps (streams : List ValueStream) : List UInt64 :=
  streams.flatMap fun stream => (stream.value.head?.map Value.timestamp).toList

/-- The timestamps at which the last values begin and end. -/
def lastTimestamps (streams : List ValueStream) : List UInt64 :=
  streams.flatMap fun stream =>
    stream.value.getLast?.elim [] fun last => [last.timestamp, last.endTimestamp.getD 0]

/-- The header starts at the least of some timestamps, or has no start when there are none. -/
def StartsAt (header : StoreFileHeader) (firsts : List UInt64) : Prop :=
  header.startTimestamp.elim (firsts = []) fun start => start ∈ firsts ∧ ∀ timestamp ∈ firsts, start ≤ timestamp

/-- The header ends at the greatest of some timestamps and zero. -/
def EndsAt (header : StoreFileHeader) (lasts : List UInt64) : Prop :=
  (header.getEndTimestamp = 0 ∨ header.getEndTimestamp ∈ lasts) ∧
    ∀ timestamp ∈ lasts, timestamp ≤ header.getEndTimestamp

theorem StartsAt.startBy {header : StoreFileHeader} {firsts : List UInt64} (starts : StartsAt header firsts)
    (timestamp : UInt64) : StartsAt (header.startBy timestamp) (firsts ++ [timestamp]) := by
  unfold StartsAt at starts
  unfold StoreFileHeader.startBy
  cases known : header.startTimestamp with
  | none =>
    rw [known] at starts
    simp [StartsAt, show firsts = [] from starts]
  | some start =>
    rw [known] at starts
    obtain ⟨member, least⟩ := starts
    rw [Option.all_some]
    split
    · rename_i below
      have earlier : timestamp < start := by simpa using below
      refine ⟨by simp, fun other among => ?_⟩
      cases List.mem_append.mp among with
      | inl before => exact le_trans (le_of_lt earlier) (least other before)
      | inr last => exact le_of_eq (List.mem_singleton.mp last).symm
    · rename_i notBelow
      have later : start ≤ timestamp := by simpa using notBelow
      rw [StartsAt, known]
      refine ⟨List.mem_append_left _ member, fun other among => ?_⟩
      cases List.mem_append.mp among with
      | inl before => exact least other before
      | inr last => exact (List.mem_singleton.mp last).symm ▸ later

theorem EndsAt.endBy {header : StoreFileHeader} {lasts : List UInt64} (ends : EndsAt header lasts)
    (timestamp : UInt64) : EndsAt (header.endBy timestamp) (lasts ++ [timestamp]) := by
  obtain ⟨member, greatest⟩ := ends
  unfold StoreFileHeader.endBy
  split
  · rename_i later
    refine ⟨.inr (by simp [StoreFileHeader.getEndTimestamp]), fun other among => ?_⟩
    show other ≤ timestamp
    cases List.mem_append.mp among with
    | inl before => exact le_trans (greatest other before) (le_of_lt later)
    | inr last => exact le_of_eq (List.mem_singleton.mp last)
  · rename_i notLater
    refine ⟨member.imp_right (List.mem_append_left _), fun other among => ?_⟩
    cases List.mem_append.mp among with
    | inl before => exact greatest other before
    | inr last => exact (List.mem_singleton.mp last).symm ▸ not_lt.mp notLater

theorem startTimestamp_endBy (header : StoreFileHeader) (timestamp : UInt64) :
    (header.endBy timestamp).startTimestamp = header.startTimestamp := by
  unfold StoreFileHeader.endBy
  split <;> rfl

theorem getEndTimestamp_startBy (header : StoreFileHeader) (timestamp : UInt64) :
    (header.startBy timestamp).getEndTimestamp = header.getEndTimestamp := by
  unfold StoreFileHeader.startBy
  split <;> rfl

/-- One stream more, which may have no values. -/
theorem bounds_addStream {header : StoreFileHeader} {firsts lasts : List UInt64} (starts : StartsAt header firsts)
    (ends : EndsAt header lasts) (stream : ValueStream) :
    StartsAt (header.addStream stream) (firsts ++ firstTimestamps [stream]) ∧
      EndsAt (header.addStream stream) (lasts ++ lastTimestamps [stream]) := by
  let listed : StoreFileHeader := { header with
    variable_ := header.variable_ ++ [stream.streamVariable]
    index := header.index ++ [{ streamVariable := stream.streamVariable, offset := 0 }] }
  have startsListed : StartsAt listed firsts := starts
  have endsListed : EndsAt listed lasts := ends
  cases first : stream.value.head? with
  | none =>
    -- The three comparisons are made one after the other, the last with the end timestamp.
    have added : header.addStream stream = listed := by simp only [StoreFileHeader.addStream, first, listed]
    have empty : stream.value = [] := List.head?_eq_none_iff.mp first
    rw [added]
    simpa [firstTimestamps, lastTimestamps, empty] using And.intro startsListed endsListed
  | some firstValue =>
    cases last : stream.value.getLast? with
    | none =>
      rw [List.getLast?_eq_none_iff.mp last] at first
      cases first
    | some lastValue =>
      have added : header.addStream stream =
          ((listed.startBy firstValue.timestamp).endBy lastValue.timestamp).endBy (lastValue.endTimestamp.getD 0) := by
        simp only [StoreFileHeader.addStream, first, last, listed]
      have started := startsListed.startBy firstValue.timestamp
      have begun : EndsAt (listed.startBy firstValue.timestamp) lasts := by
        rw [EndsAt, getEndTimestamp_startBy]
        exact endsListed
      have ended := (begun.endBy lastValue.timestamp).endBy (lastValue.endTimestamp.getD 0)
      rw [added]
      constructor
      · have firstOne : firsts ++ firstTimestamps [stream] = firsts ++ [firstValue.timestamp] := by
          simp [firstTimestamps, first]
        rw [firstOne, StartsAt, startTimestamp_endBy, startTimestamp_endBy]
        exact started
      · simpa [lastTimestamps, last] using ended

theorem bounds_indexHeader (streams : List ValueStream) :
    StartsAt (indexHeader streams) (firstTimestamps streams) ∧
      EndsAt (indexHeader streams) (lastTimestamps streams) := by
  have run : ∀ (header : StoreFileHeader) (firsts lasts : List UInt64), StartsAt header firsts → EndsAt header lasts →
      StartsAt (streams.foldl .addStream header) (firsts ++ firstTimestamps streams) ∧
        EndsAt (streams.foldl .addStream header) (lasts ++ lastTimestamps streams) := by
    induction streams with
    | nil =>
      intro header firsts lasts starts ends
      simpa [firstTimestamps, lastTimestamps] using And.intro starts ends
    | cons stream streams inductionHypothesis =>
      intro header firsts lasts starts ends
      obtain ⟨started, ended⟩ := bounds_addStream starts ends stream
      have rest := inductionHypothesis _ _ _ started ended
      simpa [firstTimestamps, lastTimestamps] using rest
  exact run .empty [] [] rfl ⟨.inl rfl, by simp⟩

/-- A header can be used when its bounds are not zero and apart. -/
theorem isUsable_iff {header : StoreFileHeader} {firsts lasts : List UInt64} (starts : StartsAt header firsts)
    (ends : EndsAt header lasts) :
    header.isUsable = true ↔
      (∀ first ∈ firsts, first ≠ 0) ∧ ∃ first ∈ firsts, ∃ last ∈ lasts, first < last := by
  have test : header.isUsable = true ↔ header.getStartTimestamp ≠ 0 ∧ header.getEndTimestamp ≠ 0 ∧
      header.getStartTimestamp < header.getEndTimestamp := by
    simp [StoreFileHeader.isUsable, and_assoc]
  rw [test]
  obtain ⟨ending, greatest⟩ := ends
  unfold StartsAt at starts
  unfold StoreFileHeader.getStartTimestamp
  cases known : header.startTimestamp with
  | none =>
    rw [known] at starts
    simp [show firsts = [] from starts]
  | some start =>
    rw [known] at starts
    obtain ⟨member, least⟩ := starts
    rw [Option.getD_some]
    constructor
    · intro usable
      obtain ⟨positive, ended, apart⟩ := usable
      refine ⟨fun first among zero => ?_, start, member, _, ending.resolve_left ended, apart⟩
      have below := least first among
      rw [zero] at below
      exact positive (UInt64.le_zero_iff.mp below)
    · intro bounds
      obtain ⟨positive, first, amongFirsts, last, amongLasts, apart⟩ := bounds
      have below : start < header.getEndTimestamp :=
        lt_of_le_of_lt (least first amongFirsts) (lt_of_lt_of_le apart (greatest last amongLasts))
      refine ⟨positive start member, fun zero => ?_, below⟩
      rw [zero] at below
      exact absurd below (UInt64.not_lt_zero)

/-! ## Files that are written and not opened -/

/-- No stream begins at zero, and some stream ends behind the beginning of some stream. -/
def BoundsApart (streams : List ValueStream) : Prop :=
  (∀ first ∈ firstTimestamps streams, first ≠ 0) ∧
    ∃ first ∈ firstTimestamps streams, ∃ last ∈ lastTimestamps streams, first < last

/-- The file of a log is opened, and its entries lead to the streams. -/
def ReadBack (crc : Bytes → UInt16) (headerCodec : Codec StoreFileHeader) (codec : Codec ValueStream)
    (directory : Directory) (name : Bytes) (streams : List ValueStream) : Prop :=
  ∃ content, directory.lookup name = some content ∧ openIndexed crc headerCodec content = true ∧
    LeadsTo crc codec content (openHeader crc headerCodec content).index streams

theorem isUsable_writtenHeader (streams : List ValueStream) :
    (writtenHeader headerCodec codec streams).isUsable = true ↔ BoundsApart streams := by
  obtain ⟨starts, ends⟩ := bounds_indexHeader streams
  -- The offsets do not touch the bounds.
  exact @isUsable_iff (writtenHeader headerCodec codec streams) _ _ starts ends

/-- A file that is written for streams within the limits can be opened when its bounds are apart.  Its entries lead to
the streams in any case. -/
theorem writeIndexedFile_readBack_iff (fixed : FixedOffsets headerCodec) {directory after : Directory}
    {logData : LogData} {log : Bytes}
    (header : (headerCodec.encode (indexHeader logData.streams)).length ≤ maxMessageSize)
    (small : ∀ stream ∈ logData.streams, (codec.encode stream).length ≤ maxMessageSize)
    (size : (indexedContent crc headerCodec codec logData.streams).length < 2 ^ 63)
    (written : writeIndexedFile crc headerCodec codec directory logData.streams log = (after, true)) :
    ReadBack crc headerCodec codec after (storeName (newestTimestamp logData.streams)) logData.streams ↔
      BoundsApart logData.streams := by
  have limit : maxMessageSize < 2 ^ 31 := by decide
  have encodable : Encodable headerCodec codec logData.streams :=
    ⟨lt_of_le_of_lt header limit, fun stream member => lt_of_le_of_lt (small stream member) limit⟩
  have free : directory.lookup (log ++ ascii ".new") = none := by
    cases taken : directory.lookup (log ++ ascii ".new") with
    | none => rfl
    | some content =>
      obtain ⟨_, _, failed⟩ :=
        @writeIndexedFile_fails crc _ codec fixed directory logData.streams log (.inl (by simp [taken]))
      rw [failed] at written
      cases written
  obtain ⟨before, -, ok⟩ := @writeIndexedFile_ok crc _ codec fixed directory logData.streams log free encodable
  rw [ok] at written
  obtain ⟨rfl, -⟩ := Prod.mk.inj written
  have opens : openIndexed crc headerCodec (indexedContent crc headerCodec codec logData.streams) = true ↔
      BoundsApart logData.streams := by
    rw [openIndexed, openHeader_indexedContent fixed header, isUsable_writtenHeader]
  rw [ReadBack, AList.lookup_insert]
  constructor
  · intro readBack
    obtain ⟨content, found, opened, -⟩ := readBack
    cases Option.some.inj found
    exact opens.mp opened
  · exact fun apart => ⟨_, rfl, opens.mpr apart, leadsTo_indexedContent fixed header small size⟩

/-- A map with one stream, which has a value at each of some times. -/
def oneStream (name : String) (times : List UInt64) : LogData :=
  OrderedMap.empty.set (ascii name)
    { streamVariable := { name := ascii name, label := [], type := none }
      value := times.map fun timestamp =>
        { timestamp, doubleValue := some 0, stringValue := none, endTimestamp := none } }

/-- The directory behind writing the file of one stream. -/
def writtenOne (times : List UInt64) : Directory × Bool :=
  writeIndexedFile crc16 storeFileHeaderCodec valueStreamCodec ∅ (oneStream "cpu" times).streams (ascii "recordlog.1")

theorem writeIndexedFile_readBack_apart :
    ReadBack crc16 storeFileHeaderCodec valueStreamCodec (writtenOne [5, 9]).1
        (storeName (newestTimestamp (oneStream "cpu" [5, 9]).streams)) (oneStream "cpu" [5, 9]).streams ↔
      BoundsApart (oneStream "cpu" [5, 9]).streams := by
  have written : (writtenOne [5, 9]).2 = true := by decide
  exact writeIndexedFile_readBack_iff storeFileHeaderCodec_fixed (by decide) (by decide)
    (by decide) (Prod.ext rfl written)

/-- The file of a single sample is written, and never opened. -/
theorem writeIndexedFile_unopened :
    (writtenOne [5]).2 = true ∧
      ¬ ReadBack crc16 storeFileHeaderCodec valueStreamCodec (writtenOne [5]).1
        (storeName (newestTimestamp (oneStream "cpu" [5]).streams)) (oneStream "cpu" [5]).streams := by
  refine ⟨by decide, fun readBack => ?_⟩
  obtain ⟨content, found, opened, -⟩ := readBack
  have closed : ((writtenOne [5]).1.lookup (storeName (newestTimestamp (oneStream "cpu" [5]).streams))).all
      (fun content => !openIndexed crc16 storeFileHeaderCodec content) = true := by decide +kernel
  rw [found, Option.all_some, opened] at closed
  cases closed

/-! ## What is found -/

/-- One turn of the loop, at an entry that leads to a stream. -/
theorem getVariableFrom_cons {content : Bytes} {search : Variable} {entry : StoreFileHeaderIndex}
    {stream : ValueStream} (same : entry.streamVariable = stream.streamVariable)
    (stands : ∃ after, next crc codec content entry.offset.toNat = some (stream, after))
    (rest : List StoreFileHeaderIndex) (results : List ValueStream) :
    getVariableFrom crc codec regexMatch content search (entry :: rest) results =
      (selects regexMatch search (fromProtobuf stream.streamVariable)).bind fun selected =>
        getVariableFrom crc codec regexMatch content search rest
          (if selected then results ++ [stream] else results) := by
  obtain ⟨after, found⟩ := stands
  rw [getVariableFrom, selects, same]
  cases search.matches regexMatch (fromProtobuf stream.streamVariable) with
  | error what => rfl
  | ok first =>
    cases first with
    | false => rfl
    | true =>
      simp only [found]
      cases (fromProtobuf stream.streamVariable).matches regexMatch (fromProtobuf stream.streamVariable) with
      | error what => rfl
      | ok second => cases second <;> rfl

/-- The loop finds some streams when no test stops it, and these are the ones that are selected. -/
theorem getVariableFrom_eq_ok {content : Bytes} {search : Variable} {index : List StoreFileHeaderIndex}
    {streams : List ValueStream} (leads : LeadsTo crc codec content index streams) {results found : List ValueStream} :
    getVariableFrom crc codec regexMatch content search index results = .ok found ↔
      (∀ stream ∈ streams, ∃ selected, selects regexMatch search (fromProtobuf stream.streamVariable) = .ok selected) ∧
        found = results ++ streams.filter fun stream =>
          answer (selects regexMatch search (fromProtobuf stream.streamVariable)) := by
  induction leads generalizing results with
  | nil => simp [getVariableFrom, eq_comm]
  | @cons entry stream index streams here leads inductionHypothesis =>
    rw [getVariableFrom_cons here.1 here.2, List.forall_mem_cons, List.filter_cons]
    cases selected : selects regexMatch search (fromProtobuf stream.streamVariable) with
    | error what => simp [Except.bind]
    | ok result =>
      rw [Except.bind, inductionHypothesis]
      cases result with
      | false => simp [answer]
      | true => simp [answer]

/-- The search rules are met when each test says of a stored variable what the variable says of the search. -/
theorem getVariable_finds_iff {content : Bytes} {header : StoreFileHeader} {streams : List ValueStream}
    (leads : LeadsTo crc codec content header.index streams) (search : Variable) :
    FindsSearched crc codec regexMatch content header streams search ↔
      ∀ stream ∈ streams, selects regexMatch search (fromProtobuf stream.streamVariable) =
        .ok (isSearched regexMatch search stream) := by
  have loop := @getVariableFrom_eq_ok crc codec regexMatch content search header.index streams leads []
  simp only [List.nil_append] at loop
  rw [FindsSearched, getVariable]
  constructor
  · intro finds stream member
    obtain ⟨found, looped, same⟩ : ∃ found, getVariableFrom crc codec regexMatch content search header.index [] =
        .ok found ∧ found = streams.filter (isSearched regexMatch search) := by
      cases looped : getVariableFrom crc codec regexMatch content search header.index [] with
      | error what =>
        rw [looped] at finds
        cases finds
      | ok found =>
        rw [looped] at finds
        exact ⟨found, rfl, congrArg Prod.fst (Except.ok.inj finds)⟩
    obtain ⟨answered, selected⟩ := loop.mp looped
    obtain ⟨result, here⟩ := answered stream member
    -- Two filters that agree on a list agree on each of its members.
    have agree : answer (selects regexMatch search (fromProtobuf stream.streamVariable)) =
        isSearched regexMatch search stream := by
      rw [Bool.eq_iff_iff]
      have both := congrArg (stream ∈ ·) (selected.symm.trans same)
      simpa [member] using both
    rw [here] at agree ⊢
    exact congrArg Except.ok agree
  · intro agree
    have looped := loop.mpr ⟨fun stream member => ⟨_, agree stream member⟩, rfl⟩
    rw [looped]
    have filters : (streams.filter fun stream =>
        answer (selects regexMatch search (fromProtobuf stream.streamVariable))) =
        streams.filter (isSearched regexMatch search) :=
      List.filter_congr fun stream member => by rw [agree stream member, answer]
    rw [filters]
    rfl

def oneFile (name : String) : Bytes :=
  indexedContent crc16 storeFileHeaderCodec valueStreamCodec (oneStream name [5, 9]).streams

theorem leadsTo_oneFile :
    LeadsTo crc16 valueStreamCodec (oneFile "cpu") (openHeader crc16 storeFileHeaderCodec (oneFile "cpu")).index
      (oneStream "cpu" [5, 9]).streams :=
  leadsTo_indexedContent storeFileHeaderCodec_fixed (by decide) (by decide) (by decide)

def unlabelled (name : String) : Variable := { name := ascii name, labels := .empty, type := .unknown }

theorem getVariable_finds_cpu :
    FindsSearched crc16 valueStreamCodec (fun _ _ => .ok false) (oneFile "cpu")
        (openHeader crc16 storeFileHeaderCodec (oneFile "cpu")) (oneStream "cpu" [5, 9]).streams (unlabelled "cpu") ↔
      ∀ stream ∈ (oneStream "cpu" [5, 9]).streams,
        selects (fun _ _ => .ok false) (unlabelled "cpu") (fromProtobuf stream.streamVariable) =
          .ok (isSearched (fun _ _ => .ok false) (unlabelled "cpu") stream) :=
  getVariable_finds_iff leadsTo_oneFile (unlabelled "cpu")

/-- A search with a star at its end finds nothing. -/
theorem getVariable_misses :
    LeadsTo crc16 valueStreamCodec (oneFile "cpu") (openHeader crc16 storeFileHeaderCodec (oneFile "cpu")).index
        (oneStream "cpu" [5, 9]).streams ∧
      ¬ FindsSearched crc16 valueStreamCodec (fun _ _ => .ok false) (oneFile "cpu")
        (openHeader crc16 storeFileHeaderCodec (oneFile "cpu")) (oneStream "cpu" [5, 9]).streams (unlabelled "c*") := by
  refine ⟨leadsTo_oneFile, fun finds => ?_⟩
  have nothing : (getVariable crc16 valueStreamCodec (fun _ _ => .ok false) (oneFile "cpu")
      (openHeader crc16 storeFileHeaderCodec (oneFile "cpu")) (unlabelled "c*")).toOption = some ([], false) := by
    decide +kernel
  have searched :
      (oneStream "cpu" [5, 9]).streams.filter (isSearched (fun _ _ => .ok false) (unlabelled "c*")) ≠ [] := by
    decide
  rw [FindsSearched] at finds
  rw [finds] at nothing
  exact searched (congrArg Prod.fst (Option.some.inj nothing))

end OpenInstrument.Server
