import OpenInstrument.Library.Fallible
import OpenInstrument.Datastore.Merging
import OpenInstrument.ProtoFileRoundTrip
import OpenInstrument.StreamWriter

/-! # The store manager

A rotated record log is turned into an indexed file: a header with the range of the timestamps and the
offset of each stream, and the streams behind it.  `GetValueStreams` asks the streams in memory and, at the
same time, each indexed file whose range meets the bounds of the request.

The Bloom filter of a file is not part of the repository and is a parameter.  A file keeps the streams that
it has read from it; they are what it would read again.  The writers of run-length-encoded streams are taken
to finish with each value before the next one is sent, and the limit on open files is left out.
-/

namespace OpenInstrument

variable {Double : Type}

/-- What is relied on of a Bloom filter: it knows the names that were added to it. -/
structure BloomFilter where
  test : List GoString → GoString → Bool
  test_of_mem : ∀ {added : List GoString} {name : GoString}, name ∈ added → test added name = true

/-! ## Indexed files -/

/-- `IndexedStoreFile`.  `file` is the content of the file when it is open; `bloomfilter` are the names that
were added, once the header has been read. -/
structure IndexedStoreFile where
  filename : GoString
  file : Option Bytes
  minTimestamp : UInt64
  maxTimestamp : UInt64
  offsets : AList fun _ : GoString => UInt64
  headerRead : Bool
  bloomfilter : Option (List GoString)

def newIndexedStoreFile (filename : GoString) : IndexedStoreFile :=
  { filename, file := none, minTimestamp := 0, maxTimestamp := 0, offsets := ∅, headerRead := false
    bloomfilter := none }

def StoreFileHeader.getStartTimestamp (header : StoreFileHeader) : UInt64 := header.startTimestamp.getD 0

def StoreFileHeader.getEndTimestamp (header : StoreFileHeader) : UInt64 := header.endTimestamp.getD 0

namespace IndexedStoreFile

/-- What `Open` takes from the header. -/
def readHeader (file : IndexedStoreFile) (content : Bytes) (header : StoreFileHeader) :
    Except Panic IndexedStoreFile := do
  let names ← header.index.mapM fun index => newFromProto index.streamVariable
  return { file with
    file := some content
    minTimestamp := header.getStartTimestamp
    maxTimestamp := header.getEndTimestamp
    offsets := Keyed.insertAll ∅ ((names.map Variable.string).zip (header.index.map (·.offset)))
    bloomfilter := some (names.map Variable.name)
    headerRead := true }

/-- `Open`.  There is no result when it returns an error; the file is closed then. -/
def openFile (rt : Runtime Double) (disk : Disk) (file : IndexedStoreFile) :
    Except Panic (Option IndexedStoreFile) :=
  match file.file with
  | some _ => .ok (some file)
  | none =>
    match disk.readProtoFile file.filename with
    | .opened content =>
      if file.headerRead then .ok (some { file with file := some content })
      else
        match protoRead rt.header content 0 with
        | .message header _ => some <$> file.readHeader content header
        | _ => .ok none
    | _ => .ok none

/-- `varmatch.Match(v)` for a variable that is printed as the key. -/
def keyMatches (search : Variable) (key : GoString) : Except Panic Bool := do
  match ← newFromString key with
  | none => .error .nilMessage
  | some varmatch => varmatch.isMatch search

/-- `ReadAt` into an empty stream, which stays empty when nothing can be read. -/
def readAt (rt : Runtime Double) (content : Bytes) (offset : UInt64) : Stream Double :=
  match protoRead rt.stream content offset.toNat with
  | .message stream _ => stream
  | _ => { streamVariable := none, value := [] }

/-- The loop of `GetStreams` over the offsets. -/
def readStreams (rt : Runtime Double) (order : Iteration) (file : IndexedStoreFile) (search : Variable) :
    Except Panic (List (Stream Double)) := do
  let found ← Fallible.select (fun entry => keyMatches search entry.1) (order.order (Keyed.pairs file.offsets))
  found.mapM fun entry =>
    match file.file with
    | none => .error .nilFile
    | some content => .ok (readAt rt content entry.2)

/-- `GetStreams`.  An error of `Open` is ignored. -/
def getStreams (rt : Runtime Double) (bloom : BloomFilter) (order : Iteration) (disk : Disk)
    (file : IndexedStoreFile) (search : Variable) : Except Panic (List (Stream Double)) := do
  let opened := (← file.openFile rt disk).getD file
  if search.name.getLast? = some star then opened.readStreams rt order search
  else
    match opened.bloomfilter with
    | none => .error .nilFile
    | some added => if bloom.test added search.name then opened.readStreams rt order search else return []

end IndexedStoreFile

/-! ## Searching -/

/-- `StoreManager`. -/
structure StoreManager (Double : Type) where
  streams : StreamMap Double
  storeFiles : List IndexedStoreFile

/-- `NewFromProto(stream.Variable).Match(v)`. -/
def ValueStream.isMatch (stream : Stream Double) (search : Variable) : Except Panic Bool := do
  let k ← newFromProto stream.streamVariable
  k.isMatch search

namespace StoreManager

/-- What the goroutine for the streams in memory sends. -/
def memoryStreams (order : Iteration) (manager : StoreManager Double) (search : Variable) :
    Except Panic (List (Stream Double)) := do
  let found ← Fallible.select (fun entry => IndexedStoreFile.keyMatches search entry.1)
    (order.order (Keyed.pairs manager.streams))
  return found.map Prod.snd

def fileStreams (rt : Runtime Double) (bloom : BloomFilter) (order : Iteration) (disk : Disk) (search : Variable)
    (minTimestamp maxTimestamp : Option UInt64) (file : IndexedStoreFile) : Except Panic (List (Stream Double)) :=
  if minTimestamp.any (fun bound => file.maxTimestamp < bound) then .ok []
  else if maxTimestamp.any (fun bound => bound < file.minTimestamp) then .ok []
  else do
    let streams ← file.getStreams rt bloom order disk search
    Fallible.select (fun stream => stream.isMatch search) streams

/-- `GetValueStreams`: what each of its goroutines sends, unless it panics. -/
def getValueStreams (rt : Runtime Double) (bloom : BloomFilter) (order : Iteration) (disk : Disk)
    (manager : StoreManager Double) (search : Variable) (minTimestamp maxTimestamp : Option UInt64) :
    List (Except Panic (List (Stream Double))) :=
  manager.memoryStreams order search ::
    manager.storeFiles.map (fileStreams rt bloom order disk search minTimestamp maxTimestamp)

end StoreManager

/-! ## Indexing a record log -/

/-- The variables of `indexRecordLog`. -/
structure LogIndex (Double : Type) where
  streams : StreamMap Double
  minTimestamp : UInt64
  maxTimestamp : UInt64

def earliest (minTimestamp : UInt64) (value : Value Double) : UInt64 :=
  if minTimestamp = 0 ∨ value.timestamp < minTimestamp then value.timestamp else minTimestamp

def latest (maxTimestamp : UInt64) (value : Value Double) : UInt64 :=
  let maxTimestamp := if maxTimestamp < value.timestamp then value.timestamp else maxTimestamp
  if maxTimestamp < value.getEndTimestamp then value.getEndTimestamp else maxTimestamp

/-- The callback of `indexRecordLog`. -/
def indexStream (eq : Double → Double → Bool) (zero : Double) (log : LogIndex Double)
    (newStream : Stream Double) : Except Panic (LogIndex Double) := do
  let newVariable ← newFromProto newStream.streamVariable
  let stream := (log.streams.lookup newVariable.string).getD
    { streamVariable := some newVariable.asProto, value := [] }
  return {
    streams := log.streams.insert newVariable.string
      { stream with value := newStream.value.foldl (writeValue eq zero) stream.value }
    minTimestamp := newStream.value.foldl earliest log.minTimestamp
    maxTimestamp := newStream.value.foldl latest log.maxTimestamp }

/-- What `indexRecordLog` makes of the streams that it reads from a record log. -/
def indexRecordLog (eq : Double → Double → Bool) (zero : Double) (messages : List (Stream Double)) :
    Except Panic (LogIndex Double) :=
  messages.foldlM (indexStream eq zero) { streams := ∅, minTimestamp := 0, maxTimestamp := 0 }

/-! ## Writing an indexed file -/

/-- The index entry of a stream before its offset is known. -/
def newIndex (varname : GoString) : Except Panic StoreFileHeaderIndex := do
  match ← newFromString varname with
  | none => .error .nilMessage
  | some v =>
    return { streamVariable := some v.asProto, offset := 0, numValues := none, minTimestamp := none
             maxTimestamp := none }

/-- The inner loop of `writeIndexedFile`: the first entry of a name gets the offset. -/
def setFirstOffset (varname : GoString) (offset : UInt64) :
    List StoreFileHeaderIndex → Except Panic (List StoreFileHeaderIndex)
  | [] => .ok []
  | index :: rest => do
    let name ← variableString index.streamVariable
    if name = varname then return { index with offset } :: rest
    else return index :: (← setFirstOffset varname offset rest)

/-- The variables of the loop of `writeIndexedFile`. -/
structure IndexWriter where
  file : ProtoFileWriter
  disk : Disk
  index : List StoreFileHeaderIndex

def IndexWriter.writeStream (rt : Runtime Double) (state : IndexWriter) (stream : Stream Double) :
    Except Panic IndexWriter := do
  let varname ← variableString stream.streamVariable
  let index ← setFirstOffset varname (.ofNat state.file.position) state.index
  let written := state.file.write rt.stream state.disk stream
  return { file := written.1, disk := written.2.1, index }

/-- The header that is written, with its two timestamps. -/
def indexHeader (minTimestamp : UInt64) (index : List StoreFileHeaderIndex) : StoreFileHeader :=
  { version := none, startTimestamp := some minTimestamp, endTimestamp := some minTimestamp, index
    endKey := none, footerPosition := none }

/-- `datastore.%d.bin` in the directory of the datastore. -/
def storeFilename (datastorePath : GoString) (maxTimestamp : UInt64) : GoString :=
  datastorePath ++ ascii ("/datastore." ++ maxTimestamp.toNat.repr ++ ".bin")

/-- The header, the streams behind it, and the header again with their offsets. -/
def writeIndexed (rt : Runtime Double) (order : Iteration) (log : LogIndex Double)
    (index : List StoreFileHeaderIndex) (disk : Disk) (file : ProtoFileWriter) : Except Panic Disk := do
  let started := file.write rt.header disk (indexHeader log.minTimestamp index)
  let written ← (order.order ((Keyed.pairs log.streams).map Prod.snd)).foldlM (IndexWriter.writeStream rt)
    { file := started.1, disk := started.2.1, index }
  return (written.file.writeAt rt.header written.disk 0 (indexHeader log.minTimestamp written.index)).2.1

/-- The new file takes the place of a known one of its name. -/
def StoreManager.addFile (manager : StoreManager Double) (filename : GoString) : StoreManager Double :=
  { manager with
    storeFiles := (manager.storeFiles.eraseP fun storefile => storefile.filename = filename) ++
      [newIndexedStoreFile filename] }

/-- `writeIndexedFile` into a file of some name: whether it returns without an error. -/
def StoreManager.writeTo (rt : Runtime Double) (order : Iteration) (filename : GoString) (disk : Disk)
    (manager : StoreManager Double) (log : LogIndex Double) :
    Except Panic (Disk × StoreManager Double × Bool) := do
  let index ← (sortStrings log.streams.keys).mapM newIndex
  match writeProtoFile disk (filename ++ ascii ".new") with
  | (disk, none) => return (disk, manager, false)
  | (disk, some file) =>
    let disk ← writeIndexed rt order log index disk file
    match disk.rename (filename ++ ascii ".new") filename with
    | none => return (disk, manager, false)
    | some disk => return (disk, manager.addFile filename, true)

/-- `writeIndexedFile`. -/
def StoreManager.writeIndexedFile (rt : Runtime Double) (order : Iteration) (datastorePath : GoString)
    (disk : Disk) (manager : StoreManager Double) (log : LogIndex Double) :
    Except Panic (Disk × StoreManager Double × Bool) :=
  manager.writeTo rt order (storeFilename datastorePath log.maxTimestamp) disk log

end OpenInstrument
