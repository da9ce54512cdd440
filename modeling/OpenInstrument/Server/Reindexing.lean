import OpenInstrument.ProtoFileRoundTrip
import OpenInstrument.Server.ProtoStreamRoundTrip
import OpenInstrument.Server.LogStreams

/-! # What reindexing keeps

The streams that are collected from a log are read back from its indexed file, as far as `GetVariable` finds them.
The file is renamed over any other of its name, so that of the logs with one newest timestamp only the last is kept,
and a store file of that name is lost.
-/

namespace OpenInstrument.Server

variable {crc : Bytes → UInt16} {headerCodec : Codec StoreFileHeader} {codec : Codec ValueStream}
  {regexMatch : RegexMatch}

/-! ## Writing in place -/

/-- Bytes written over as many others. -/
theorem File.writeParts_over {file after : File} {before old rest : Bytes} {parts : List Bytes}
    (content : file.content = before ++ (old ++ rest)) (position : file.position = before.length)
    (width : parts.flatten.length = old.length) (written : file.writeParts parts = (after, true)) :
    after.content = before ++ (parts.flatten ++ rest) := by
  induction parts generalizing file before old with
  | nil =>
    cases written
    rw [content, List.length_eq_zero_iff.mp width.symm]
    rfl
  | cons part parts inductionHypothesis =>
    unfold File.writeParts at written
    split at written
    · rename_i middle here
      simp only [File.write, Prod.mk.injEq, decide_eq_true_eq] at here
      obtain ⟨rfl, whole⟩ := here
      rw [List.flatten_cons, List.length_append] at width
      have overwritten :
          overwrite file.content file.position part = (before ++ part) ++ (old.drop part.length ++ rest) := by
        rw [overwrite, content, position, List.take_left, List.drop_append, List.drop_eq_nil_of_le (by omega),
          Nat.add_sub_cancel_left, List.drop_append_of_le_length (by omega), List.nil_append]
      rw [inductionHypothesis (by rw [File.transferred_eq whole]; exact overwritten)
          (by rw [File.transferred_eq whole, position, List.length_append])
          (by rw [List.length_drop]; omega) written,
        List.append_assoc, List.flatten_cons, List.append_assoc]
    · cases written

theorem protoStreamWrite_over {Message : Type} {codec : Codec Message} {file after : File} {old rest : Bytes}
    {message : Message} (content : file.content = old ++ rest) (position : file.position = 0)
    (width : (record crc (codec.encode message)).length = old.length)
    (written : protoStreamWrite crc codec file message = (after, true)) :
    after.content = record crc (codec.encode message) ++ rest := by
  unfold protoStreamWrite at written
  split at written
  · cases written
  · rename_i buf marshalled
    obtain ⟨rfl, small⟩ := Codec.marshal_eq_some marshalled
    have parts := @File.writeParts_over file after [] old rest _ content position
      (by simpa [record] using width) written
    simpa [record] using parts

/-- Where no `write` falls short, `Write` returns true for what can be encoded. -/
theorem protoStreamWrite_reliable {Message : Type} {codec : Codec Message} {file : File} {message : Message}
    (reliable : ∀ position, file.short position = none) :
    (protoStreamWrite crc codec file message).2 = true ↔ (codec.encode message).length < 2 ^ 31 := by
  unfold protoStreamWrite
  split
  · rename_i refused
    unfold Codec.marshal at refused
    split at refused
    · cases refused
    · rename_i large
      simp only [maxMarshalSize] at large
      simp only [Bool.false_eq_true, false_iff, not_lt]
      omega
  · rename_i buf marshalled
    obtain ⟨rfl, small⟩ := Codec.marshal_eq_some marshalled
    exact iff_of_true (File.writeParts_reliable reliable _) small

theorem protoStreamWrite_short {Message : Type} {codec : Codec Message} {file : File} {message : Message} :
    (protoStreamWrite crc codec file message).1.short = file.short := by
  unfold protoStreamWrite
  split
  · rfl
  · exact File.writeParts_short _ _

/-! ## The layout of an indexed file -/

/-- Where streams begin that are written one after another. -/
def offsetsFrom (codec : Codec ValueStream) : Nat → List ValueStream → List UInt64
  | _, [] => []
  | start, stream :: streams =>
    .ofNat start :: offsetsFrom codec (start + ((codec.encode stream).length + 8)) streams

@[simp] theorem offsetsFrom_length (start : Nat) (streams : List ValueStream) :
    (offsetsFrom codec start streams).length = streams.length := by
  induction streams generalizing start with
  | nil => rfl
  | cons stream streams inductionHypothesis => simp [offsetsFrom, inductionHypothesis]

theorem writeStreams_ok {file after : File} {streams : List ValueStream} {offsets : List UInt64}
    (atEnd : file.AtEnd) (written : writeStreams crc codec file streams = (after, offsets, true)) :
    after.AtEnd ∧ after.content = file.content ++ records crc codec streams ∧
      offsets = offsetsFrom codec file.content.length streams := by
  induction streams generalizing file after offsets with
  | nil =>
    cases written
    exact ⟨atEnd, (List.append_nil _).symm, rfl⟩
  | cons stream streams inductionHypothesis =>
    unfold writeStreams at written
    split at written
    · cases written
    · rename_i middle here
      obtain ⟨stillAtEnd, content, fits⟩ := atEnd.protoStreamWrite here
      simp only [Prod.mk.injEq] at written
      obtain ⟨rfl, rfl, rest⟩ := written
      obtain ⟨closing, whole, offsets⟩ := inductionHypothesis stillAtEnd
        (Prod.ext rfl (Prod.ext rfl rest) : writeStreams crc codec middle streams = (_, _, true))
      refine ⟨closing, by rw [whole, content, List.append_assoc, records_cons], ?_⟩
      exact congrArg₂ List.cons (congrArg UInt64.ofNat atEnd)
        (offsets.trans (by rw [content, List.length_append, record_length]))

theorem writeStreams_reliable {file : File} {streams : List ValueStream}
    (reliable : ∀ position, file.short position = none) :
    (∀ position, (writeStreams crc codec file streams).1.short position = none) ∧
      ((writeStreams crc codec file streams).2.2 = true ↔
        ∀ stream ∈ streams, (codec.encode stream).length < 2 ^ 31) := by
  induction streams generalizing file with
  | nil => exact ⟨reliable, by simp [writeStreams]⟩
  | cons stream streams inductionHypothesis =>
    have still : ∀ position, (protoStreamWrite crc codec file stream).1.short position = none := by
      rw [protoStreamWrite_short]
      exact reliable
    have first := @protoStreamWrite_reliable crc _ codec file stream reliable
    obtain ⟨later, rest⟩ := inductionHypothesis still
    unfold writeStreams
    split
    · rename_i after here
      rw [here] at first still
      refine ⟨still, ?_⟩
      simp only [Bool.false_eq_true, false_iff] at first ⊢
      exact fun all => first (all stream List.mem_cons_self)
    · rename_i after here
      rw [here] at first later rest
      refine ⟨later, ?_⟩
      rw [List.forall_mem_cons, ← rest]
      exact ⟨fun whole => ⟨first.mp rfl, whole⟩, fun whole => whole.2⟩

/-! ## The indexed file of some streams -/

def writtenHeader (headerCodec : Codec StoreFileHeader) (codec : Codec ValueStream) (streams : List ValueStream) :
    StoreFileHeader :=
  (indexHeader streams).setOffsets
    (offsetsFrom codec ((headerCodec.encode (indexHeader streams)).length + 8) streams)

def indexedContent (crc : Bytes → UInt16) (headerCodec : Codec StoreFileHeader) (codec : Codec ValueStream)
    (streams : List ValueStream) : Bytes :=
  record crc (headerCodec.encode (writtenHeader headerCodec codec streams)) ++ records crc codec streams

def Encodable (headerCodec : Codec StoreFileHeader) (codec : Codec ValueStream) (streams : List ValueStream) : Prop :=
  (headerCodec.encode (indexHeader streams)).length < 2 ^ 31 ∧
    ∀ stream ∈ streams, (codec.encode stream).length < 2 ^ 31

/-- The length of a header does not depend on the offsets. -/
def FixedOffsets (headerCodec : Codec StoreFileHeader) : Prop :=
  ∀ header offsets, offsets.length = header.index.length →
    (headerCodec.encode (StoreFileHeader.setOffsets header offsets)).length = (headerCodec.encode header).length

@[simp] theorem index_startBy (header : StoreFileHeader) (timestamp : UInt64) :
    (header.startBy timestamp).index = header.index := by
  unfold StoreFileHeader.startBy
  split <;> rfl

@[simp] theorem index_endBy (header : StoreFileHeader) (timestamp : UInt64) :
    (header.endBy timestamp).index = header.index := by
  unfold StoreFileHeader.endBy
  split <;> rfl

theorem index_addStream (header : StoreFileHeader) (stream : ValueStream) :
    (header.addStream stream).index =
      header.index ++ [{ streamVariable := stream.streamVariable, offset := 0 }] := by
  unfold StoreFileHeader.addStream
  split
  · simp only [index_startBy, index_endBy]
  · rfl

theorem index_foldl_addStream (header : StoreFileHeader) (streams : List ValueStream) :
    (streams.foldl .addStream header).index =
      header.index ++ streams.map fun stream => { streamVariable := stream.streamVariable, offset := 0 } := by
  induction streams generalizing header with
  | nil => exact (List.append_nil _).symm
  | cons stream streams inductionHypothesis =>
    rw [List.foldl_cons, inductionHypothesis, index_addStream, List.append_assoc]
    rfl

@[simp] theorem index_indexHeader (streams : List ValueStream) :
    (indexHeader streams).index =
      streams.map fun stream => { streamVariable := stream.streamVariable, offset := 0 } :=
  index_foldl_addStream .empty streams

/-- The file is written exactly when everything can be encoded. -/
theorem writeIndexed_eq_true (fixed : FixedOffsets headerCodec) (streams : List ValueStream) :
    (writeIndexed crc headerCodec codec (File.create fun _ => none) streams).2 = true ↔
      Encodable headerCodec codec streams := by
  have reliable : ∀ position, (File.create fun _ => none).short position = none := fun _ => rfl
  have first := @protoStreamWrite_reliable crc _ headerCodec _ (indexHeader streams) reliable
  unfold writeIndexed Encodable
  split
  · rename_i after here
    rw [here] at first
    simp only [Bool.false_eq_true, false_iff] at first ⊢
    exact fun all => first all.1
  · rename_i middle here
    have still : ∀ position, middle.short position = none := by
      have same := @protoStreamWrite_short crc _ headerCodec (File.create fun _ => none) (indexHeader streams)
      rw [here] at same
      rw [same]
      exact reliable
    rw [here] at first
    have header := first.mp rfl
    obtain ⟨later, body⟩ := @writeStreams_reliable crc codec middle streams still
    split
    · rename_i after offsets there
      rw [there] at body
      simp only [Bool.false_eq_true, false_iff] at body ⊢
      exact fun all => body all.2
    · rename_i after offsets there
      rw [there] at body later
      have atEnd : middle.AtEnd := ((File.create_atEnd _).protoStreamWrite here).1
      obtain ⟨-, -, rfl⟩ := writeStreams_ok atEnd there
      have last := @protoStreamWrite_reliable crc _ headerCodec { after with position := 0 }
        ((indexHeader streams).setOffsets (offsetsFrom codec middle.content.length streams)) later
      rw [last, fixed _ _ (by simp)]
      exact ⟨fun _ => ⟨header, body.mp rfl⟩, fun _ => header⟩

theorem writeIndexed_ok (fixed : FixedOffsets headerCodec) {streams : List ValueStream} {file : File}
    (written : writeIndexed crc headerCodec codec (File.create fun _ => none) streams = (file, true)) :
    file.content = indexedContent crc headerCodec codec streams := by
  unfold writeIndexed at written
  split at written
  · cases written
  · rename_i middle here
    obtain ⟨atEnd, header, -⟩ := (File.create_atEnd _).protoStreamWrite here
    split at written
    · cases written
    · rename_i after offsets there
      obtain ⟨-, body, rfl⟩ := writeStreams_ok atEnd there
      have empty : (File.create fun _ => none).content = [] := rfl
      rw [empty, List.nil_append] at header
      rw [header] at body written
      have width := fixed (indexHeader streams)
        (offsetsFrom codec (record crc (headerCodec.encode (indexHeader streams))).length streams) (by simp)
      have rewritten := @protoStreamWrite_over crc _ headerCodec { after with position := 0 } file _ _ _ body rfl
        (by rw [record_length, width, record_length]) written
      rw [record_length] at rewritten
      exact rewritten

/-! ## Reading it back -/

section Codec

variable (crc : Bytes → UInt16) (headerCodec : Codec StoreFileHeader) (codec : Codec ValueStream)
  (regexMatch : RegexMatch)

/-- A stream that some call of `GetVariable` returns from a file of some content. -/
def FoundIn (content : Bytes) (stream : ValueStream) : Prop :=
  ∃ search results, getVariable crc codec regexMatch content (openHeader crc headerCodec content) search =
    .ok results ∧ stream ∈ results.1

/-- What a search finds among the streams of a file: those that it matches and that match themselves, up to one that is
too large to be read. -/
def findStreams (search : Variable) : List ValueStream → List ValueStream → Except Bytes (List ValueStream)
  | [], results => .ok results
  | stream :: rest, results =>
    let v := fromProtobuf stream.streamVariable
    match search.matches regexMatch v with
    | .error what => .error what
    | .ok false => findStreams search rest results
    | .ok true =>
      if maxMessageSize < (codec.encode stream).length then .ok results
      else
        match v.matches regexMatch v with
        | .error what => .error what
        | .ok false => findStreams search rest results
        | .ok true => findStreams search rest (results ++ [stream])

def FoundAmong (streams : List ValueStream) (stream : ValueStream) : Prop :=
  ∃ search found, findStreams codec regexMatch search streams [] = .ok found ∧ stream ∈ found

end Codec

theorem getVariable_eq_ok {content : Bytes} {header : StoreFileHeader} {search : Variable}
    {results : List ValueStream × Bool}
    (found : getVariable crc codec regexMatch content header search = .ok results) :
    getVariableFrom crc codec regexMatch content search header.index [] = .ok results.1 := by
  unfold getVariable at found
  cases looped : getVariableFrom crc codec regexMatch content search header.index [] with
  | error what =>
    rw [looped] at found
    cases found
  | ok streams =>
    rw [looped] at found
    rw [← Except.ok.inj found]

/-- What `GetVariable` returns stands at the offset of some entry. -/
theorem mem_of_getVariableFrom {content : Bytes} {search : Variable} {index : List StoreFileHeaderIndex}
    {results found : List ValueStream}
    (looped : getVariableFrom crc codec regexMatch content search index results = .ok found) {stream : ValueStream}
    (member : stream ∈ found) :
    stream ∈ results ∨
      stream ∈ index.filterMap fun entry => (next crc codec content entry.offset.toNat).map Prod.fst := by
  induction index generalizing results with
  | nil => exact .inl (Except.ok.inj looped ▸ member)
  | cons entry index inductionHypothesis =>
    have later : ∀ {results : List ValueStream},
        getVariableFrom crc codec regexMatch content search index results = .ok found → stream ∈ results ∨
          stream ∈ (entry :: index).filterMap fun entry => (next crc codec content entry.offset.toNat).map Prod.fst := by
      intro results rest
      refine (inductionHypothesis rest).imp_right fun inside => ?_
      rw [List.filterMap_cons]
      split
      · exact inside
      · exact List.mem_cons_of_mem _ inside
    rw [getVariableFrom] at looped
    split at looped
    · cases looped
    · exact later looped
    · split at looped
      · exact .inl (Except.ok.inj looped ▸ member)
      · rename_i read after here
        split at looped
        · cases looped
        · exact later looped
        · rcases later looped with among | inside
          · rcases List.mem_append.mp among with old | new
            · exact .inl old
            · obtain rfl := List.mem_singleton.mp new
              exact .inr (List.mem_filterMap.mpr ⟨entry, List.mem_cons_self, by rw [here]; rfl⟩)
          · exact .inr inside

/-- Reading through the entries of a written file finds what can be found among its streams. -/
theorem getVariableFrom_written {content before : Bytes} {index : List StoreFileHeaderIndex}
    {streams : List ValueStream} (content_ : content = before ++ records crc codec streams)
    (size : content.length < 2 ^ 63) (fits : ∀ stream ∈ streams, (codec.encode stream).length < 2 ^ 31)
    (aligned : List.Forall₂ (fun entry stream => entry.streamVariable = stream.streamVariable) index streams)
    (search : Variable) (results : List ValueStream) :
    getVariableFrom crc codec regexMatch content search
        (List.zipWith (fun (index : StoreFileHeaderIndex) offset => { index with offset }) index
          (offsetsFrom codec before.length streams)) results =
      findStreams codec regexMatch search streams results := by
  induction aligned generalizing before results with
  | nil => rfl
  | @cons entry stream index streams same aligned inductionHypothesis =>
    rw [records_cons] at content_
    have position : (UInt64.ofNat before.length).toNat = before.length := by
      rw [content_, List.length_append] at size
      exact UInt64.toNat_ofNat_of_lt (by rw [UInt64.size]; omega)
    have stands : content.drop before.length =
        record crc (codec.encode stream) ++ records crc codec streams := by
      rw [content_, List.drop_left]
    have rest := @inductionHypothesis (before ++ record crc (codec.encode stream))
      (by rw [content_, List.append_assoc]) fun other member => fits other (.tail _ member)
    rw [List.length_append, record_length] at rest
    rw [offsetsFrom, List.zipWith_cons_cons, getVariableFrom, findStreams]
    simp only [same, position, rest]
    cases search.matches regexMatch (fromProtobuf stream.streamVariable) with
    | error what => rfl
    | ok selected =>
      cases selected with
      | false => rfl
      | true =>
        -- A record that is too large is written, but not read back.
        by_cases small : (codec.encode stream).length ≤ maxMessageSize
        · refine Eq.trans ?_ (if_neg (not_lt.mpr small)).symm
          exact next_record stands small ▸ rfl
        · refine Eq.trans ?_ (if_pos (not_le.mp small)).symm
          exact next_largeRecord stands (not_le.mp small) (fits stream List.mem_cons_self) ▸ rfl

theorem openHeader_indexedContent (fixed : FixedOffsets headerCodec) {streams : List ValueStream}
    (small : (headerCodec.encode (indexHeader streams)).length ≤ maxMessageSize) :
    openHeader crc headerCodec (indexedContent crc headerCodec codec streams) =
      writtenHeader headerCodec codec streams := by
  have width : (headerCodec.encode (writtenHeader headerCodec codec streams)).length =
      (headerCodec.encode (indexHeader streams)).length := fixed _ _ (by simp)
  have stands : (indexedContent crc headerCodec codec streams).drop 0 =
      record crc (headerCodec.encode (writtenHeader headerCodec codec streams)) ++ records crc codec streams := rfl
  rw [openHeader, next_record stands (by rw [width]; exact small)]

/-- What is found in a written file is what can be found among its streams, when the header can be read. -/
theorem foundIn_indexedContent (fixed : FixedOffsets headerCodec) {streams : List ValueStream}
    (encodable : Encodable headerCodec codec streams)
    (size : (indexedContent crc headerCodec codec streams).length < 2 ^ 63) (stream : ValueStream) :
    FoundIn crc headerCodec codec regexMatch (indexedContent crc headerCodec codec streams) stream ↔
      (headerCodec.encode (indexHeader streams)).length ≤ maxMessageSize ∧
        FoundAmong codec regexMatch streams stream := by
  have width : (headerCodec.encode (writtenHeader headerCodec codec streams)).length =
      (headerCodec.encode (indexHeader streams)).length := fixed _ _ (by simp)
  have stands : (indexedContent crc headerCodec codec streams).drop 0 =
      record crc (headerCodec.encode (writtenHeader headerCodec codec streams)) ++ records crc codec streams := rfl
  by_cases small : (headerCodec.encode (indexHeader streams)).length ≤ maxMessageSize
  · have aligned : List.Forall₂ (fun entry stream => entry.streamVariable = stream.streamVariable)
        (indexHeader streams).index streams := by
      rw [index_indexHeader, List.forall₂_map_left_iff]
      exact List.forall₂_same.mpr fun _ _ => rfl
    have loop := fun search => @getVariableFrom_written crc codec regexMatch
      (indexedContent crc headerCodec codec streams)
      (record crc (headerCodec.encode (writtenHeader headerCodec codec streams))) (indexHeader streams).index streams
      rfl size encodable.2 aligned search []
    rw [record_length, width] at loop
    rw [FoundIn, openHeader_indexedContent fixed small]
    constructor
    · rintro ⟨search, results, found, inside⟩
      exact ⟨small, search, results.1, (loop search).symm.trans (getVariable_eq_ok found), inside⟩
    · rintro ⟨-, search, found, looped, inside⟩
      have read : getVariableFrom crc codec regexMatch (indexedContent crc headerCodec codec streams) search
          (writtenHeader headerCodec codec streams).index [] = .ok found := (loop search).trans looped
      exact ⟨search, (found, !found.isEmpty), by rw [getVariable, read]; rfl, inside⟩
  · have header : openHeader crc headerCodec (indexedContent crc headerCodec codec streams) = .empty := by
      rw [openHeader, next_largeRecord stands (by rw [width]; omega) (by rw [width]; exact encodable.1)]
    refine iff_of_false ?_ fun both => small both.1
    rintro ⟨search, results, found, inside⟩
    rw [header] at found
    rw [← Except.ok.inj (getVariable_eq_ok found)] at inside
    cases inside

/-! ## One log -/

section Directory

variable (crc : Bytes → UInt16) (headerCodec : Codec StoreFileHeader) (codec : Codec ValueStream)

def streamsIn (content : Bytes) : List ValueStream := logStreams (protoStreamRead crc codec content)

/-- The log is there, and can be indexed. -/
structure Indexes (directory : Directory) (log content : Bytes) : Prop where
  isLog : isRecordLog log = true
  present : directory.lookup log = some content
  free : directory.lookup (log ++ ascii ".new") = none
  encodable : Encodable headerCodec codec (streamsIn crc codec content)

def Gives (directory : Directory) (log name : Bytes) : Prop :=
  ∃ content, Indexes crc headerCodec codec directory log content ∧
    storeName (newestTimestamp (streamsIn crc codec content)) = name

end Directory

theorem streams_reindexRecordLogFile (content : Bytes) :
    (reindexRecordLogFile crc codec content).streams = streamsIn crc codec content :=
  streams_collected _

theorem isStoreFile_storeName (timestamp : UInt64) : isStoreFile (storeName timestamp) = true := by
  have text : storeName timestamp = ascii "datastore." ++ (ascii timestamp.toNat.repr ++ ascii ".bin") := by
    simp [storeName, ascii, String.toList_append]
  have front : (ascii "datastore.").isPrefixOf (storeName timestamp) = true := by
    rw [List.isPrefixOf_iff_prefix, text]
    exact List.prefix_append _ _
  have back : (ascii ".bin").isSuffixOf (storeName timestamp) = true := by
    rw [List.isSuffixOf_iff_suffix, text, ← List.append_assoc]
    exact List.suffix_append _ _
  have long : 14 ≤ (storeName timestamp).length := by
    rw [text, List.length_append, List.length_append]
    have first : (ascii "datastore.").length = 10 := by decide
    have last : (ascii ".bin").length = 4 := by decide
    omega
  rw [isStoreFile, front, back, decide_eq_true long]
  rfl

/-- A log is no store file. -/
theorem not_isStoreFile {log : Bytes} (isLog : isRecordLog log = true) : isStoreFile log = false := by
  cases log with
  | nil => rfl
  | cons char rest =>
    have first : char = 114 := by
      rw [isRecordLog, List.isPrefixOf_iff_prefix] at isLog
      exact (List.cons_prefix_cons.mp isLog).1.symm
    have other : (ascii "datastore.").isPrefixOf (char :: rest) = false := by
      rw [first]
      rfl
    rw [isStoreFile, other]
    rfl

theorem isRecordLog_new {log : Bytes} (isLog : isRecordLog log = true) : isRecordLog (log ++ ascii ".new") = true := by
  rw [isRecordLog, List.isPrefixOf_iff_prefix] at isLog ⊢
  exact isLog.trans (List.prefix_append _ _)

theorem ne_of_kinds {name log : Bytes} (store : isStoreFile name = true) (isLog : isRecordLog log = true) :
    name ≠ log := by
  rintro rfl
  rw [not_isStoreFile isLog] at store
  cases store

theorem append_new_ne (log : Bytes) : log ++ ascii ".new" ≠ log := by
  intro same
  have lengths := congrArg List.length same
  rw [List.length_append] at lengths
  have width : (ascii ".new").length = 4 := by decide
  omega

/-- The files are the same but for a log and for what is newly written next to it. -/
def SameBut (log : Bytes) (directory after : Directory) : Prop :=
  ∀ name, name ≠ log → (name = log ++ ascii ".new" → directory.lookup name ≠ none) →
    after.lookup name = directory.lookup name

theorem writeIndexedFile_ok (fixed : FixedOffsets headerCodec) {directory : Directory} {streams : List ValueStream}
    {log : Bytes} (free : directory.lookup (log ++ ascii ".new") = none)
    (encodable : Encodable headerCodec codec streams) :
    ∃ after : Directory, SameBut log directory after ∧
      writeIndexedFile crc headerCodec codec directory streams log =
        (after.insert (storeName (newestTimestamp streams)) (indexedContent crc headerCodec codec streams), true) := by
  have written := (@writeIndexed_eq_true crc headerCodec codec fixed streams).mpr encodable
  have absent : ¬ (directory.lookup (log ++ ascii ".new")).isSome = true := by
    rw [free]
    exact Bool.false_ne_true
  rw [writeIndexedFile, if_neg absent]
  cases here : writeIndexed crc headerCodec codec (File.create fun _ => none) streams with
  | mk file complete =>
    rw [here] at written
    cases written
    let linked : Directory := directory.insert (log ++ ascii ".new") file.content
    have found : (linked.erase log).lookup (log ++ ascii ".new") = some file.content := by
      rw [AList.lookup_erase_ne (append_new_ne log), AList.lookup_insert]
    refine ⟨(linked.erase log).erase (log ++ ascii ".new"), ?_, ?_⟩
    · intro name other present
      have next : name ≠ log ++ ascii ".new" := by
        rintro rfl
        exact present rfl free
      rw [AList.lookup_erase_ne next, AList.lookup_erase_ne other, AList.lookup_insert_ne next]
    · show (Directory.rename (linked.erase log) _ _, true) = _
      rw [Directory.rename, found, writeIndexed_ok fixed here]

theorem writeIndexedFile_fails (fixed : FixedOffsets headerCodec) {directory : Directory} {streams : List ValueStream}
    {log : Bytes}
    (fails : directory.lookup (log ++ ascii ".new") ≠ none ∨ ¬ Encodable headerCodec codec streams) :
    ∃ after : Directory, SameBut log directory after ∧
      writeIndexedFile crc headerCodec codec directory streams log = (after, false) := by
  by_cases taken : (directory.lookup (log ++ ascii ".new")).isSome = true
  · exact ⟨directory, fun _ _ _ => rfl, by rw [writeIndexedFile, if_pos taken]⟩
  · have unencodable : ¬ Encodable headerCodec codec streams :=
      fails.resolve_left (not_not_intro (Option.not_isSome_iff_eq_none.mp taken))
    have unwritten := mt (@writeIndexed_eq_true crc headerCodec codec fixed streams).mp unencodable
    rw [writeIndexedFile, if_neg taken]
    cases here : writeIndexed crc headerCodec codec (File.create fun _ => none) streams with
    | mk file complete =>
      rw [here] at unwritten
      cases complete with
      | true => exact absurd rfl unwritten
      | false =>
        refine ⟨_, fun name _ present => AList.lookup_insert_ne ?_, rfl⟩
        rintro rfl
        exact present rfl (Option.not_isSome_iff_eq_none.mp taken)

/-- A log whose store file is not written leaves the directory. -/
theorem reindexFile_present {directory after : Directory} {log content : Bytes} {complete : Bool}
    (present : directory.lookup log = some content)
    (written : writeIndexedFile crc headerCodec codec directory (streamsIn crc codec content) log = (after, complete))
    (succeeded : Bool) :
    (reindexFile crc headerCodec codec (directory, succeeded) log).1 = if complete then after else after.erase log := by
  rw [← streams_reindexRecordLogFile] at written
  cases complete with
  | true => simp only [reindexFile, present, written, if_true]
  | false => simp only [reindexFile, present, written, Bool.false_eq_true, if_false]

/-- A log that can be indexed is renamed over a store file. -/
theorem reindexFile_indexes (fixed : FixedOffsets headerCodec) {directory : Directory} {log content : Bytes}
    (indexes : Indexes crc headerCodec codec directory log content) (succeeded : Bool) :
    ∃ after : Directory, SameBut log directory after ∧
      (reindexFile crc headerCodec codec (directory, succeeded) log).1 =
        after.insert (storeName (newestTimestamp (streamsIn crc codec content)))
          (indexedContent crc headerCodec codec (streamsIn crc codec content)) := by
  obtain ⟨after, same, written⟩ := @writeIndexedFile_ok crc _ _ fixed _ _ _ indexes.free indexes.encodable
  exact ⟨after, same, reindexFile_present indexes.present written succeeded⟩

/-- Any other log only leaves the directory. -/
theorem reindexFile_leaves (fixed : FixedOffsets headerCodec) {directory : Directory} {log : Bytes}
    (isLog : isRecordLog log = true)
    (unindexed : ∀ content, ¬ Indexes crc headerCodec codec directory log content) (succeeded : Bool) :
    SameBut log directory (reindexFile crc headerCodec codec (directory, succeeded) log).1 := by
  cases present : directory.lookup log with
  | none =>
    rw [reindexFile, present]
    exact fun _ _ _ => rfl
  | some content =>
    have fails : directory.lookup (log ++ ascii ".new") ≠ none ∨
        ¬ Encodable headerCodec codec (streamsIn crc codec content) := by
      by_contra both
      rw [not_or, not_not, not_not] at both
      exact unindexed content ⟨isLog, present, both.1, both.2⟩
    obtain ⟨after, same, written⟩ := @writeIndexedFile_fails crc _ _ fixed _ _ _ fails
    rw [reindexFile_present present written]
    exact fun name other there => (AList.lookup_erase_ne other).trans (same name other there)

/-! ## All logs -/

/-- A log is seen in the same way in two directories. -/
theorem Indexes.congr {first second : Directory} {log content : Bytes}
    (here : second.lookup log = first.lookup log)
    (next : second.lookup (log ++ ascii ".new") = first.lookup (log ++ ascii ".new")) :
    Indexes crc headerCodec codec second log content ↔ Indexes crc headerCodec codec first log content := by
  constructor
  · intro ⟨isLog, present, free, encodable⟩
    exact ⟨isLog, here ▸ present, next ▸ free, encodable⟩
  · intro ⟨isLog, present, free, encodable⟩
    exact ⟨isLog, here.trans present, next.trans free, encodable⟩

/-- A log that comes later in the order is not what is written next to another. -/
theorem lt_append_new (log : Bytes) : log < log ++ ascii ".new" := by
  induction log with
  | nil => decide
  | cons char rest inductionHypothesis => exact List.cons_lt_cons_iff.mpr (.inr ⟨rfl, inductionHypothesis⟩)

/-- What a log does to a record log of another name. -/
theorem reindexFile_recordLog (fixed : FixedOffsets headerCodec) {directory : Directory} {log name : Bytes}
    (isLog : isRecordLog log = true) (named : isRecordLog name = true) (other : name ≠ log)
    (present : name = log ++ ascii ".new" → directory.lookup name ≠ none) (succeeded : Bool) :
    (reindexFile crc headerCodec codec (directory, succeeded) log).1.lookup name = directory.lookup name := by
  by_cases indexed : ∃ content, Indexes crc headerCodec codec directory log content
  · obtain ⟨content, indexes⟩ := indexed
    obtain ⟨after, same, result⟩ := reindexFile_indexes fixed indexes succeeded
    have apart : name ≠ storeName (newestTimestamp (streamsIn crc codec content)) :=
      (ne_of_kinds (isStoreFile_storeName _) named).symm
    rw [result, AList.lookup_insert_ne apart]
    exact same name other present
  · exact reindexFile_leaves fixed isLog (not_exists.mp indexed) succeeded name other present

/-- A log sees the same after another one in front of it. -/
theorem reindexFile_later (fixed : FixedOffsets headerCodec) {directory : Directory} {log later : Bytes}
    (isLog : isRecordLog log = true) (behind : log < later) (isLater : isRecordLog later = true)
    (there : directory.lookup later ≠ none) (succeeded : Bool) (content : Bytes) :
    Indexes crc headerCodec codec (reindexFile crc headerCodec codec (directory, succeeded) log).1 later content ↔
      Indexes crc headerCodec codec directory later content := by
  apply Indexes.congr
  · exact reindexFile_recordLog fixed isLog isLater (ne_of_gt behind) (fun _ => there) succeeded
  · apply reindexFile_recordLog fixed isLog (isRecordLog_new isLater) (ne_of_gt (behind.trans (lt_append_new later)))
    intro same
    exact absurd (List.append_cancel_right same) (ne_of_gt behind)

/-- A store file after a log: what the log gives, or as before. -/
theorem reindexFile_storeFile (fixed : FixedOffsets headerCodec) {directory : Directory} {log name : Bytes}
    (isLog : isRecordLog log = true) (store : isStoreFile name = true) (succeeded : Bool) (content : Bytes) :
    (reindexFile crc headerCodec codec (directory, succeeded) log).1.lookup name = some content ↔
      (∃ source, Indexes crc headerCodec codec directory log source ∧
        storeName (newestTimestamp (streamsIn crc codec source)) = name ∧
        indexedContent crc headerCodec codec (streamsIn crc codec source) = content) ∨
      (¬ Gives crc headerCodec codec directory log name ∧ directory.lookup name = some content) := by
  have other : name ≠ log := ne_of_kinds store isLog
  have present : name = log ++ ascii ".new" → directory.lookup name ≠ none :=
    fun same => absurd same (ne_of_kinds store (isRecordLog_new isLog))
  by_cases indexed : ∃ source, Indexes crc headerCodec codec directory log source
  · obtain ⟨source, indexes⟩ := indexed
    have only : ∀ other, Indexes crc headerCodec codec directory log other → other = source :=
      fun other also => Option.some.inj (also.present.symm.trans indexes.present)
    obtain ⟨after, same, result⟩ := reindexFile_indexes fixed indexes succeeded
    rw [result]
    -- Only the file that the log gives its name to is written.
    by_cases here : storeName (newestTimestamp (streamsIn crc codec source)) = name
    · have given : Gives crc headerCodec codec directory log name := ⟨source, indexes, here⟩
      rw [here, AList.lookup_insert, Option.some.injEq]
      constructor
      · exact fun written => .inl ⟨source, indexes, here, written⟩
      · rintro (⟨_, also, _, written⟩ | ⟨ungiven, _⟩)
        · rw [← written, only _ also]
        · exact absurd given ungiven
    · rw [AList.lookup_insert_ne (Ne.symm here), same name other present]
      constructor
      · intro found
        refine .inr ⟨?_, found⟩
        rintro ⟨_, also, named⟩
        exact here (only _ also ▸ named)
      · rintro (⟨_, also, named, _⟩ | ⟨_, found⟩)
        · exact absurd (only _ also ▸ named) here
        · exact found
  · rw [reindexFile_leaves fixed isLog (not_exists.mp indexed) succeeded name other present]
    constructor
    · intro found
      exact .inr ⟨fun ⟨source, indexes, _⟩ => indexed ⟨source, indexes⟩, found⟩
    · rintro (⟨source, indexes, _⟩ | ⟨_, found⟩)
      · exact absurd ⟨source, indexes⟩ indexed
      · exact found

/-- A store file after some logs: what the last of them gives that gives its name, or as before. -/
theorem reindexAll_storeFile (fixed : FixedOffsets headerCodec) {directory : Directory} {logs : List Bytes}
    {name : Bytes} (each : ∀ log ∈ logs, isRecordLog log = true ∧ directory.lookup log ≠ none)
    (sorted : logs.Pairwise (· < ·)) (store : isStoreFile name = true) (succeeded : Bool) (content : Bytes) :
    (logs.foldl (reindexFile crc headerCodec codec) (directory, succeeded)).1.lookup name = some content ↔
      (∃ log ∈ logs, (∃ source, Indexes crc headerCodec codec directory log source ∧
          storeName (newestTimestamp (streamsIn crc codec source)) = name ∧
          indexedContent crc headerCodec codec (streamsIn crc codec source) = content) ∧
        ∀ later ∈ logs, log < later → ¬ Gives crc headerCodec codec directory later name) ∨
      ((∀ log ∈ logs, ¬ Gives crc headerCodec codec directory log name) ∧ directory.lookup name = some content) := by
  induction logs generalizing directory succeeded with
  | nil => simp
  | cons log logs inductionHypothesis =>
    obtain ⟨below, sortedRest⟩ := List.pairwise_cons.mp sorted
    obtain ⟨⟨isLog, here⟩, eachRest⟩ := List.forall_mem_cons.mp each
    -- The first log does not change what the later ones are read from.
    have same : ∀ later ∈ logs, ∀ source,
        Indexes crc headerCodec codec (reindexFile crc headerCodec codec (directory, succeeded) log).1 later source ↔
          Indexes crc headerCodec codec directory later source :=
      fun later member source => reindexFile_later fixed isLog (below later member) (eachRest later member).1
        (eachRest later member).2 succeeded source
    have gives : ∀ later ∈ logs,
        Gives crc headerCodec codec (reindexFile crc headerCodec codec (directory, succeeded) log).1 later name ↔
          Gives crc headerCodec codec directory later name :=
      fun later member => exists_congr fun source => and_congr_left' (same later member source)
    have rest := @inductionHypothesis (reindexFile crc headerCodec codec (directory, succeeded) log).1
      (by
        intro later member
        refine ⟨(eachRest later member).1, ?_⟩
        rw [reindexFile_recordLog fixed isLog (eachRest later member).1 (ne_of_gt (below later member))
          (fun _ => (eachRest later member).2)]
        exact (eachRest later member).2)
      sortedRest (reindexFile crc headerCodec codec (directory, succeeded) log).2
    rw [List.foldl_cons, rest, reindexFile_storeFile fixed isLog store]
    constructor
    · rintro (⟨last, member, ⟨source, indexes, named, written⟩, final⟩ | ⟨ungiven, written | ⟨unchanged, found⟩⟩)
      · refine .inl ⟨last, .tail _ member, ⟨source, (same last member source).mp indexes, named, written⟩, ?_⟩
        intro later inside behind
        cases inside with
        | head => exact absurd behind (lt_asymm (below last member))
        | tail _ inside => exact mt (gives later inside).mpr (final later inside behind)
      · refine .inl ⟨log, List.mem_cons_self, written, ?_⟩
        intro later inside behind
        cases inside with
        | head => exact absurd behind (lt_irrefl log)
        | tail _ inside => exact mt (gives later inside).mpr (ungiven later inside)
      · refine .inr ⟨List.forall_mem_cons.mpr ⟨unchanged, ?_⟩, found⟩
        exact fun later inside => mt (gives later inside).mpr (ungiven later inside)
    · rintro (⟨last, member, ⟨source, indexes, named, written⟩, final⟩ | ⟨ungiven, found⟩)
      · cases member with
        | head =>
          refine .inr ⟨?_, .inl ⟨source, indexes, named, written⟩⟩
          exact fun later inside => mt (gives later inside).mp (final later (.tail _ inside) (below later inside))
        | tail _ member =>
          refine .inl ⟨last, member, ⟨source, (same last member source).mpr indexes, named, written⟩, ?_⟩
          exact fun later inside behind => mt (gives later inside).mp (final later (.tail _ inside) behind)
      · obtain ⟨unchanged, later⟩ := List.forall_mem_cons.mp ungiven
        exact .inr ⟨fun other inside => mt (gives other inside).mp (later other inside), .inr ⟨unchanged, found⟩⟩

/-! ## What is kept -/

theorem mem_recordLogs {directory : Directory} {log : Bytes} :
    log ∈ recordLogs directory ↔ log ∈ directory ∧ isRecordLog log = true := by
  rw [recordLogs, (sortStrings_perm _).mem_iff, List.mem_filter, AList.mem_keys]

theorem recordLogs_sorted (directory : Directory) : (recordLogs directory).Pairwise (· < ·) := by
  have distinct : (recordLogs directory).Nodup :=
    (sortStrings_perm _).nodup_iff.mpr ((AList.keys_nodup directory).filter _)
  exact (sortStrings_sorted _).imp₂ (fun _ _ below other => lt_of_le_of_ne below other) distinct

section Streams

variable (crc : Bytes → UInt16) (headerCodec : Codec StoreFileHeader) (codec : Codec ValueStream)
  (regexMatch : RegexMatch)

/-- A stream that can be read from a log or from a store file. -/
inductive Readable (directory : Directory) (stream : ValueStream) : Prop where
  | log {name content : Bytes} (isLog : isRecordLog name = true) (present : directory.lookup name = some content)
      (inside : stream ∈ protoStreamRead crc codec content)
  | storeFile {name content : Bytes} (store : isStoreFile name = true)
      (present : directory.lookup name = some content)
      (found : FoundIn crc headerCodec codec regexMatch content stream)

def Stored (directory : Directory) (stream : ValueStream) : Prop :=
  ∃ name content, isStoreFile name = true ∧ directory.lookup name = some content ∧
    FoundIn crc headerCodec codec regexMatch content stream

/-- A stream of a store file that no log replaces, or one that is collected from a log that no later log
replaces and that can be found among the others. -/
inductive Kept (directory : Directory) (stream : ValueStream) : Prop where
  | storeFile {name content : Bytes} (store : isStoreFile name = true)
      (present : directory.lookup name = some content)
      (unreplaced : ∀ log ∈ recordLogs directory, ¬ Gives crc headerCodec codec directory log name)
      (found : FoundIn crc headerCodec codec regexMatch content stream)
  | log {log content : Bytes} (indexes : Indexes crc headerCodec codec directory log content)
      (unreplaced : ∀ later ∈ recordLogs directory, log < later →
        ¬ Gives crc headerCodec codec directory later (storeName (newestTimestamp (streamsIn crc codec content))))
      (header : (headerCodec.encode (indexHeader (streamsIn crc codec content))).length ≤ maxMessageSize)
      (found : FoundAmong codec regexMatch (streamsIn crc codec content) stream)

/-- The files that are written do not exceed what can be addressed. -/
def Addressable (directory : Directory) : Prop :=
  ∀ log content, Indexes crc headerCodec codec directory log content →
    (indexedContent crc headerCodec codec (streamsIn crc codec content)).length < 2 ^ 63

end Streams

/-- The streams of the store files in the end are the ones that are kept. -/
theorem stored_reindexRecordLog (fixed : FixedOffsets headerCodec) {directory : Directory}
    (addressable : Addressable crc headerCodec codec directory) (stream : ValueStream) :
    Stored crc headerCodec codec regexMatch (reindexRecordLog crc headerCodec codec directory).1 stream ↔
      Kept crc headerCodec codec regexMatch directory stream := by
  have each : ∀ log ∈ recordLogs directory, isRecordLog log = true ∧ directory.lookup log ≠ none :=
    fun log member =>
      ⟨(mem_recordLogs.mp member).2, fun absent => AList.lookup_eq_none.mp absent (mem_recordLogs.mp member).1⟩
  have after := fun (name : Bytes) (store : isStoreFile name = true) (content : Bytes) =>
    @reindexAll_storeFile crc headerCodec codec fixed directory _ name each (recordLogs_sorted directory) store true
      content
  have streams : ∀ {log content : Bytes}, Indexes crc headerCodec codec directory log content →
      (FoundIn crc headerCodec codec regexMatch
          (indexedContent crc headerCodec codec (streamsIn crc codec content)) stream ↔
        (headerCodec.encode (indexHeader (streamsIn crc codec content))).length ≤ maxMessageSize ∧
          FoundAmong codec regexMatch (streamsIn crc codec content) stream) :=
    fun {log content} indexes => foundIn_indexedContent fixed indexes.encodable (addressable log content indexes) stream
  constructor
  · rintro ⟨name, content, store, found, inside⟩
    cases (after name store content).mp found with
    | inl given =>
      obtain ⟨log, -, ⟨source, indexes, rfl, rfl⟩, final⟩ := given
      obtain ⟨header, among⟩ := (streams indexes).mp inside
      exact .log indexes final header among
    | inr unchanged => exact .storeFile store unchanged.2 unchanged.1 inside
  · intro kept
    cases kept with
    | storeFile store present unreplaced inside =>
      exact ⟨_, _, store, (after _ store _).mpr (.inr ⟨unreplaced, present⟩), inside⟩
    | @log log content indexes unreplaced header among =>
      have member : log ∈ recordLogs directory :=
        mem_recordLogs.mpr ⟨Keyed.mem_iff_lookup.mpr ⟨_, indexes.present⟩, indexes.isLog⟩
      have store := isStoreFile_storeName (newestTimestamp (streamsIn crc codec content))
      exact ⟨_, _, store, (after _ store _).mpr (.inl ⟨log, member, ⟨content, indexes, rfl, rfl⟩, unreplaced⟩),
        (streams indexes).mpr ⟨header, among⟩⟩

/-! ## What is lost -/

section Streams

variable (crc : Bytes → UInt16) (headerCodec : Codec StoreFileHeader) (codec : Codec ValueStream)
  (regexMatch : RegexMatch)

/-- Every stream that could be read is held by a store file. -/
def Keeps (directory after : Directory) : Prop :=
  ∀ stream, Readable crc headerCodec codec regexMatch directory stream →
    ∃ kept, Stored crc headerCodec codec regexMatch after kept ∧ Holds kept stream

/-- The streams of the logs, and of the store files that a log replaces, are held by streams that are kept. -/
structure Spared (directory : Directory) : Prop where
  logs : ∀ name content, isRecordLog name = true → directory.lookup name = some content →
    ∀ stream ∈ protoStreamRead crc codec content, ∃ kept, Kept crc headerCodec codec regexMatch directory kept ∧ Holds kept stream
  replaced : ∀ log name content, Gives crc headerCodec codec directory log name →
    directory.lookup name = some content → ∀ stream, FoundIn crc headerCodec codec regexMatch content stream →
      ∃ kept, Kept crc headerCodec codec regexMatch directory kept ∧ Holds kept stream

end Streams

/-- Reindexing keeps every stream exactly when those of the logs and of the replaced store files are among
what is kept. -/
theorem reindexRecordLog_keeps_iff (fixed : FixedOffsets headerCodec) {directory : Directory}
    (addressable : Addressable crc headerCodec codec directory) :
    Keeps crc headerCodec codec regexMatch directory (reindexRecordLog crc headerCodec codec directory).1 ↔
      Spared crc headerCodec codec regexMatch directory := by
  have stored := @stored_reindexRecordLog crc headerCodec codec regexMatch fixed directory addressable
  constructor
  · intro keeps
    constructor
    · intro name content isLog present stream inside
      obtain ⟨kept, found, holds⟩ := keeps stream (.log isLog present inside)
      exact ⟨kept, (stored kept).mp found, holds⟩
    · rintro log name content ⟨_, _, rfl⟩ present stream inside
      obtain ⟨kept, found, holds⟩ := keeps stream (.storeFile (isStoreFile_storeName _) present inside)
      exact ⟨kept, (stored kept).mp found, holds⟩
  · intro spared stream readable
    cases readable with
    | log isLog present inside =>
      obtain ⟨kept, found, holds⟩ := spared.logs _ _ isLog present stream inside
      exact ⟨kept, (stored kept).mpr found, holds⟩
    | @storeFile name content store present inside =>
      by_cases replaced : ∃ log ∈ recordLogs directory, Gives crc headerCodec codec directory log name
      · obtain ⟨log, -, gives⟩ := replaced
        obtain ⟨kept, found, holds⟩ := spared.replaced log name content gives present stream inside
        exact ⟨kept, (stored kept).mpr found, holds⟩
      · -- A store file that no log replaces holds its own streams.
        refine ⟨stream, (stored stream).mpr (.storeFile store present ?_ inside), .refl stream⟩
        exact fun log member gives => replaced ⟨log, member, gives⟩

/-! ## Logs that lose nothing -/

/-- No label of a variable that is searched for holds a regular expression. -/
def Plain (v : Variable) : Prop :=
  ∀ entry ∈ v.labels.entries, ¬ (entry.2.head? = some slash ∧ entry.2.getLast? = some slash ∧ 2 < entry.2.length)

theorem labelsMatch_plain {v : Variable} {entries : List (Bytes × Bytes)}
    (plain : ∀ entry ∈ entries,
      ¬ (entry.2.head? = some slash ∧ entry.2.getLast? = some slash ∧ 2 < entry.2.length)) :
    ∃ result, labelsMatch regexMatch v entries = .ok result := by
  induction entries with
  | nil => exact ⟨true, rfl⟩
  | cons entry entries inductionHypothesis =>
    obtain ⟨rest, later⟩ := inductionHypothesis fun other member => plain other (.tail _ member)
    rw [labelsMatch, if_neg (plain entry List.mem_cons_self), later]
    split <;> split <;> exact ⟨_, rfl⟩

theorem matches_plain {v search : Variable} (plain : Plain search) :
    ∃ result, v.matches regexMatch search = .ok result := by
  rw [Variable.matches]
  split
  · exact labelsMatch_plain plain
  · exact ⟨false, rfl⟩

theorem labelsMatch_self {v : Variable} {entries : List (Bytes × Bytes)}
    (plain : ∀ entry ∈ entries,
      ¬ (entry.2.head? = some slash ∧ entry.2.getLast? = some slash ∧ 2 < entry.2.length))
    (own : ∀ entry ∈ entries, v.labels.lookup entry.1 = some entry.2) :
    labelsMatch regexMatch v entries = .ok true := by
  induction entries with
  | nil => rfl
  | cons entry entries inductionHypothesis =>
    have here := own entry List.mem_cons_self
    have later := inductionHypothesis (fun other member => plain other (.tail _ member))
      fun other member => own other (.tail _ member)
    have label : v.hasLabel entry.1 = true := by rw [Variable.hasLabel, here]; rfl
    have value : v.getLabel entry.1 = entry.2 := by rw [Variable.getLabel, here]; rfl
    rw [labelsMatch, if_neg (plain entry List.mem_cons_self), if_pos label, if_pos value.symm, later, ite_self]

/-- A variable without regular expressions matches itself. -/
theorem matches_self {v : Variable} (plain : Plain v) : v.matches regexMatch v = .ok true := by
  have name : nameMatches v v = true := by
    rw [nameMatches]
    split
    · rw [List.dropLast_eq_take, beq_self_eq_true]
    · exact beq_self_eq_true _
  rw [Variable.matches, if_pos name]
  exact labelsMatch_self plain fun entry member => OrderedMap.mem_entries.mp member

/-- Among plain streams that can be read, each one that a search matches is found. -/
theorem findStreams_plain {search : Variable} {streams : List ValueStream}
    (small : ∀ stream ∈ streams, (codec.encode stream).length ≤ maxMessageSize)
    (plain : ∀ stream ∈ streams, Plain (fromProtobuf stream.streamVariable)) (results : List ValueStream) :
    ∃ found, findStreams codec regexMatch search streams results = .ok found ∧ (∀ stream ∈ results, stream ∈ found) ∧
      ∀ stream ∈ streams,
        search.matches regexMatch (fromProtobuf stream.streamVariable) = .ok true → stream ∈ found := by
  induction streams generalizing results with
  | nil => exact ⟨results, rfl, fun _ member => member, fun _ member => by cases member⟩
  | cons stream streams inductionHypothesis =>
    have rest := inductionHypothesis (fun other member => small other (.tail _ member))
      fun other member => plain other (.tail _ member)
    obtain ⟨selected, tested⟩ := @matches_plain regexMatch search _ (plain stream List.mem_cons_self)
    have own := @matches_self regexMatch _ (plain stream List.mem_cons_self)
    rw [findStreams]
    simp only [tested, own, if_neg (not_lt.mpr (small stream List.mem_cons_self))]
    cases selected with
    | false =>
      obtain ⟨found, looped, kept, others⟩ := rest results
      refine ⟨found, looped, kept, List.forall_mem_cons.mpr ⟨fun matched => ?_, others⟩⟩
      rw [tested] at matched
      cases matched
    | true =>
      obtain ⟨found, looped, kept, others⟩ := rest (results ++ [stream])
      exact ⟨found, looped, fun other member => kept other (List.mem_append_left _ member),
        List.forall_mem_cons.mpr ⟨fun _ => kept stream (List.mem_append_right _ (List.mem_singleton_self stream)), others⟩⟩

/-- A plain stream is found by its own variable. -/
theorem foundAmong_of_plain {streams : List ValueStream} {stream : ValueStream}
    (small : ∀ stream ∈ streams, (codec.encode stream).length ≤ maxMessageSize)
    (plain : ∀ stream ∈ streams, Plain (fromProtobuf stream.streamVariable)) (member : stream ∈ streams) :
    FoundAmong codec regexMatch streams stream := by
  obtain ⟨found, looped, -, among⟩ := findStreams_plain small plain []
  exact ⟨_, found, looped, among stream member (matches_self (plain stream member))⟩

/-- A log that is read back as it was written: it can be indexed and its file read, and its streams hold what
was read from it. -/
structure Regular (crc : Bytes → UInt16) (headerCodec : Codec StoreFileHeader) (codec : Codec ValueStream)
    (directory : Directory) (log content : Bytes) : Prop where
  indexes : Indexes crc headerCodec codec directory log content
  header : (headerCodec.encode (indexHeader (streamsIn crc codec content))).length ≤ maxMessageSize
  small : ∀ stream ∈ streamsIn crc codec content, (codec.encode stream).length ≤ maxMessageSize
  plain : ∀ stream ∈ streamsIn crc codec content, Plain (fromProtobuf stream.streamVariable)
  named : ∀ message ∈ protoStreamRead crc codec content, printed message ≠ []
  told : ∀ message ∈ protoStreamRead crc codec content, ∀ other ∈ protoStreamRead crc codec content,
    printed other = printed message →
      (fromProtobuf other.streamVariable).name = (fromProtobuf message.streamVariable).name ∧
        (fromProtobuf other.streamVariable).labels = (fromProtobuf message.streamVariable).labels
  orderly : ∀ key, Orderly (valuesOf key (protoStreamRead crc codec content))

/-- A log with a single value, whose stream can be found, is regular. -/
theorem Regular.of_single {directory : Directory} {log content : Bytes}
    (indexes : Indexes crc headerCodec codec directory log content)
    (header : (headerCodec.encode (indexHeader (streamsIn crc codec content))).length ≤ maxMessageSize)
    (small : ∀ stream ∈ streamsIn crc codec content, (codec.encode stream).length ≤ maxMessageSize)
    (plain : ∀ stream ∈ streamsIn crc codec content, Plain (fromProtobuf stream.streamVariable))
    {message : ValueStream} (only : protoStreamRead crc codec content = [message]) (named : printed message ≠ [])
    (single : message.value.length = 1) : Regular crc headerCodec codec directory log content := by
  refine ⟨indexes, header, small, plain, ?_, ?_, fun key => ?_⟩
  · simpa only [only, List.forall_mem_singleton] using named
  · simp [only]
  · obtain ⟨value, one⟩ := List.length_eq_one_iff.mp single
    rw [only, valuesOf, List.filter_singleton]
    cases decide (printed message = key) with
    | true =>
      rw [cond_true, List.flatMap_singleton, one]
      trivial
    | false => trivial

/-- Nothing is lost of regular logs whose store files are new and have different names. -/
theorem spared_of_regular {directory : Directory}
    (regular : ∀ log content, isRecordLog log = true → directory.lookup log = some content →
      Regular crc headerCodec codec directory log content)
    (apart : ∀ first second name, Gives crc headerCodec codec directory first name →
      Gives crc headerCodec codec directory second name → first = second)
    (fresh : ∀ log name, Gives crc headerCodec codec directory log name → directory.lookup name = none) :
    Spared crc headerCodec codec regexMatch directory := by
  constructor
  · intro log content isLog present message inside
    obtain ⟨indexes, header, small, plain, named, told, orderly⟩ := regular log content isLog present
    obtain ⟨kept, member, holds⟩ := logStreams_holds inside (named message inside) (told message inside) (orderly _)
    refine ⟨kept, .log indexes ?_ header (foundAmong_of_plain small plain member), holds⟩
    intro later _ behind gives
    exact absurd (apart log later _ ⟨content, indexes, rfl⟩ gives) (ne_of_lt behind)
  · intro log name content gives present
    rw [fresh log name gives] at present
    cases present

/-! ## Files of the messages on the wire -/

/-- An offset takes eight bytes, whatever it is. -/
theorem storeFileHeaderIndex_length (entry : StoreFileHeaderIndex) (offset : UInt64) :
    (storeFileHeaderIndexFormat.encode { entry with offset }).length =
      (storeFileHeaderIndexFormat.encode entry).length := by
  have offsets : (Wire.encodeFields (Wire.fixed64.fields 2 [offset])).length =
      (Wire.encodeFields (Wire.fixed64.fields 2 [entry.offset])).length :=
    Wire.encodeFields_length_congr (.cons (Wire.fixed64_length 2 _ _) .nil)
  simp only [Wire.Format.encode, storeFileHeaderIndexFormat, Wire.encodeFields_append, List.length_append, offsets]

theorem storeFileHeaderCodec_fixed : FixedOffsets storeFileHeaderCodec := by
  intro header offsets aligned
  have index : (Wire.encodeFields ((Wire.embedded storeFileHeaderIndexFormat).fields 5
        (header.setOffsets offsets).index)).length =
      (Wire.encodeFields ((Wire.embedded storeFileHeaderIndexFormat).fields 5 header.index)).length := by
    apply Wire.encodeFields_length_congr
    show List.Forall₂ _ (List.zipWith _ header.index offsets) _
    generalize header.index = entries at aligned ⊢
    induction entries generalizing offsets with
    | nil => exact .nil
    | cons entry entries inductionHypothesis =>
      cases offsets with
      | nil => cases aligned
      | cons offset offsets =>
        exact .cons (Wire.embedded_length 5 (storeFileHeaderIndex_length entry offset))
          (inductionHypothesis offsets (Nat.succ.inj aligned))
  show (storeFileHeaderFormat.encode _).length = (storeFileHeaderFormat.encode _).length
  simp only [Wire.Format.encode, storeFileHeaderFormat, Wire.encodeFields_append, List.length_append, index]
  rfl

/-- A log with one stream, which has the value zero at one time. -/
def logOf (name : String) (timestamp : UInt64) : Bytes :=
  records crc16 valueStreamCodec
    [{ streamVariable := { name := ascii name, label := [], type := none }
       value := [{ timestamp, doubleValue := some 0, stringValue := none, endTimestamp := none }] }]

def reindexed (directory : Directory) : Directory :=
  (reindexRecordLog crc16 storeFileHeaderCodec valueStreamCodec directory).1

def oneLog : Directory := AList.insert (ascii "recordlog.1") (logOf "a" 5) ∅

def twoLogs : Directory := AList.insert (ascii "recordlog.2") (logOf "b" 5) oneLog

theorem addressable_of_files {directory : Directory}
    (each : ∀ file ∈ Keyed.pairs directory,
      (indexedContent crc headerCodec codec (streamsIn crc codec file.2)).length < 2 ^ 63) :
    Addressable crc headerCodec codec directory :=
  fun log content indexes => each (log, content) (Keyed.mem_pairs.mpr indexes.present)

theorem oneLog_lookup {name content : Bytes} (present : oneLog.lookup name = some content) :
    name = ascii "recordlog.1" ∧ content = logOf "a" 5 := by
  by_cases here : name = ascii "recordlog.1"
  · rw [here, oneLog, AList.lookup_insert] at present
    exact ⟨here, (Option.some.inj present).symm⟩
  · rw [oneLog, AList.lookup_insert_ne here] at present
    cases present

/-- One log loses nothing. -/
theorem reindexRecordLog_keeps_oneLog :
    Keeps crc16 storeFileHeaderCodec valueStreamCodec (fun _ _ => .ok false) oneLog
      (reindexRecordLog crc16 storeFileHeaderCodec valueStreamCodec oneLog).1 := by
  refine (reindexRecordLog_keeps_iff storeFileHeaderCodec_fixed (addressable_of_files (by decide +kernel))).mpr
    (spared_of_regular ?_ ?_ ?_)
  · rintro log content - present
    obtain ⟨rfl, rfl⟩ := oneLog_lookup present
    have indexes : Indexes crc16 storeFileHeaderCodec valueStreamCodec oneLog (ascii "recordlog.1") (logOf "a" 5) :=
      ⟨by decide, AList.lookup_insert _, by decide, by decide +kernel, by decide +kernel⟩
    have plain : ∀ stream ∈ streamsIn crc16 valueStreamCodec (logOf "a" 5),
        Plain (fromProtobuf stream.streamVariable) := by
      unfold Plain
      decide +kernel
    obtain ⟨message, only⟩ := List.length_eq_one_iff.mp
      (show (protoStreamRead crc16 valueStreamCodec (logOf "a" 5)).length = 1 by decide +kernel)
    have facts : ∀ message ∈ protoStreamRead crc16 valueStreamCodec (logOf "a" 5),
        printed message ≠ [] ∧ message.value.length = 1 := by decide +kernel
    obtain ⟨named, single⟩ := facts message (only ▸ List.mem_singleton_self message)
    exact .of_single indexes (by decide +kernel) (by decide +kernel) plain only named single
  · rintro first second name ⟨_, one, -⟩ ⟨_, other, -⟩
    rw [(oneLog_lookup one.present).1, (oneLog_lookup other.present).1]
  · rintro log name ⟨content, -, rfl⟩
    refine AList.lookup_eq_none.mpr fun taken => ?_
    obtain ⟨there, present⟩ := Keyed.mem_iff_lookup.mp taken
    exact ne_of_kinds (isStoreFile_storeName _) (by decide) (oneLog_lookup present).1

/-- Of two logs that end at the same time only the second is kept. -/
theorem reindexRecordLog_loses :
    ¬ Keeps crc16 storeFileHeaderCodec valueStreamCodec (fun _ _ => .ok false) twoLogs
        (reindexRecordLog crc16 storeFileHeaderCodec valueStreamCodec twoLogs).1 := by
  intro keeps
  have first : ∀ stream ∈ protoStreamRead crc16 valueStreamCodec (logOf "a" 5),
      (fromProtobuf stream.streamVariable).name = ascii "a" := by decide +kernel
  have others : ∀ file ∈ Keyed.pairs (reindexed twoLogs),
      ∀ stream ∈ (openHeader crc16 storeFileHeaderCodec file.2).index.filterMap fun entry =>
          (next crc16 valueStreamCodec file.2 entry.offset.toNat).map Prod.fst,
        (fromProtobuf stream.streamVariable).name ≠ ascii "a" := by decide +kernel
  have some_ : protoStreamRead crc16 valueStreamCodec (logOf "a" 5) ≠ [] := by decide +kernel
  obtain ⟨stream, inside⟩ := List.exists_mem_of_ne_nil _ some_
  have isLog : isRecordLog (ascii "recordlog.1") = true := by decide
  have present : twoLogs.lookup (ascii "recordlog.1") = some (logOf "a" 5) := by
    rw [twoLogs, AList.lookup_insert_ne (by decide), oneLog, AList.lookup_insert]
  obtain ⟨kept, ⟨name, content, -, found, search, results, read, returned⟩, holds⟩ :=
    keeps stream (.log isLog present inside)
  have stands := (mem_of_getVariableFrom (getVariable_eq_ok read) returned).resolve_left List.not_mem_nil
  exact others (name, content) (Keyed.mem_pairs.mpr found) kept stands (holds.name.trans (first stream inside))

end OpenInstrument.Server
