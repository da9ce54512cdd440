import OpenInstrument.ProtoFile

/-! # One block of the datastore

A block keeps streams in three places: its block file, which `blockHeader.index` describes, the
streams written to its log but not yet to the block file, and the streams not yet written at all.

`write` and `read` follow `DatastoreBlock.Write` and `DatastoreBlock.Read`.  A compaction record
is given by the caller: its times come from the clock.
-/

namespace OpenInstrument

variable {Double : Type}

abbrev StreamMap (Double : Type) := AList fun _ : GoString => Stream Double

structure DatastoreBlock (Double : Type) where
  endKey : GoString
  id : GoString
  blockHeader : StoreFileHeader
  blockFooter : StoreFileFooter
  logStreams : StreamMap Double
  newStreams : List (Stream Double)

def newBlock (endKey id : GoString) : DatastoreBlock Double :=
  { endKey
    id
    blockHeader :=
      { version := some 2, startTimestamp := none, endTimestamp := none, index := []
        endKey := none, footerPosition := none }
    blockFooter := { compactionLog := [] }
    logStreams := ∅
    newStreams := [] }

def DatastoreBlock.filename (block : DatastoreBlock Double) : GoString := ascii "block." ++ block.id

def DatastoreBlock.logFilename (block : DatastoreBlock Double) : GoString :=
  ascii "block." ++ block.id ++ ascii ".log"

/-- The name under which `Write` builds a new block file. -/
def DatastoreBlock.newFilename (rt : Runtime Double) (block : DatastoreBlock Double) : GoString :=
  block.filename ++ ascii ".new." ++ rt.pid

inductive StoreError where
  | unreadable
  | corruptHeader
  | unknownVersion
  | rename
  | tooFewStreams
  | uuid
  deriving DecidableEq, Repr

/-- `variable.NewFromProto(p).String()`. -/
def variableString (p : Option StreamVariable) : Except Panic GoString := do
  let v ← newFromProto p
  return v.string

/-- Files a stream under its variable: values are appended to a stream that is already there.
`Flush`, `readBlockLog` and `Read` all do this. -/
def appendStream (streams : StreamMap Double) (stream : Stream Double) :
    Except Panic (StreamMap Double) := do
  let v ← variableString stream.streamVariable
  match streams.lookup v with
  | some found => return streams.insert v { found with value := found.value ++ stream.value }
  | none => return streams.insert v stream

/-! ## Reading the block file -/

/-- The block-file part of `Read`. -/
def DatastoreBlock.readFile (rt : Runtime Double) (disk : Disk) (block : DatastoreBlock Double)
    (streams : StreamMap Double) : Except Panic (Except StoreError (StreamMap Double)) :=
  match disk.readProtoFile block.filename with
  | .missing => .ok (.ok streams)
  | .failed => .ok (.error .unreadable)
  | .opened content =>
    match protoRead rt.header content 0 with
    | .message oldheader position =>
      if oldheader.getVersion = 2 then
        .ok <$> (valueStreamReaderUntil rt content position oldheader.getFooterPosition.toNat).foldlM
          appendStream streams
      else .ok (.error .unknownVersion)
    | _ => .ok (.error .corruptHeader)

/-- `Read` adds the streams of the block file and then the log streams to `streams`. -/
def DatastoreBlock.read (rt : Runtime Double) (logOrder : Iteration) (disk : Disk)
    (block : DatastoreBlock Double) (streams : StreamMap Double) :
    Except Panic (Except StoreError (StreamMap Double)) := do
  match ← block.readFile rt disk streams with
  | .error err => return .error err
  | .ok streams =>
    let streams ← (logOrder.order ((Keyed.pairs block.logStreams).map Prod.snd)).foldlM
      appendStream streams
    return .ok streams

/-! ## Writing a block file -/

/-- The orders in which the loops of one compaction visit their maps. -/
structure Orders where
  logs : Iteration
  index : Iteration
  streams : Iteration

/-- Every loop takes its entries as they happen to be listed. -/
def Orders.listed : Orders := { logs := .listed, index := .listed, streams := .listed }

def Runtime.sortStream (rt : Runtime Double) (stream : Stream Double) : Stream Double :=
  { stream with value := rt.sortValues stream.value }

/-- What the first loop of `Write` collects. -/
structure WriteSummary where
  minTimestamp : UInt64
  maxTimestamp : UInt64
  endKey : GoString
  index : List StoreFileHeaderIndex

/-- One turn of the first loop of `Write`: `stream.Value[0]` panics when there is no value. -/
def summarizeStream (summary : WriteSummary) (entry : GoString × Stream Double) :
    Except Panic WriteSummary :=
  let (v, stream) := entry
  match stream.value.head?, stream.value.getLast? with
  | some first, some last =>
    .ok
      { minTimestamp :=
          if summary.minTimestamp = 0 ∨ first.timestamp < summary.minTimestamp then first.timestamp
          else summary.minTimestamp
        maxTimestamp :=
          if last.timestamp > summary.maxTimestamp then last.timestamp else summary.maxTimestamp
        endKey := if v > summary.endKey then v else summary.endKey
        index := summary.index ++
          [{ streamVariable := stream.streamVariable
             offset := 0
             numValues := some (UInt32.ofNat stream.value.length)
             minTimestamp := some first.timestamp
             maxTimestamp := some last.timestamp }] }
  | _, _ => .error .indexOutOfRange

/-- The state of the second loop of `Write`: the file, and `index_pos`. -/
structure StreamWriter where
  newfile : ProtoFileWriter
  disk : Disk
  indexPos : AList fun _ : GoString => UInt64

def writeStream (rt : Runtime Double) (state : StreamWriter) (stream : Stream Double) :
    Except Panic StreamWriter := do
  let v ← variableString stream.streamVariable
  let indexPos := state.indexPos.insert v (UInt64.ofNat state.newfile.position)
  let (newfile, disk, _) := state.newfile.write rt.stream state.disk stream
  return { newfile, disk, indexPos }

def setOffset (indexPos : AList fun _ : GoString => UInt64) (entry : StoreFileHeaderIndex) :
    Except Panic StoreFileHeaderIndex := do
  let v ← variableString entry.streamVariable
  return { entry with offset := (indexPos.lookup v).getD 0 }

/-- `Write`.  The header in memory is replaced even when the new file cannot be renamed into place;
when the new file cannot be opened, closing it dereferences a nil writer. -/
def DatastoreBlock.write (rt : Runtime Double) (orders : Orders) (disk : Disk)
    (block : DatastoreBlock Double) (streams : StreamMap Double) :
    Except Panic (Disk × DatastoreBlock Double × Option StoreError) := do
  let sorted := (Keyed.pairs streams).map fun entry => (entry.1, rt.sortStream entry.2)
  let summary ← (orders.index.order sorted).foldlM summarizeStream
    { minTimestamp := 0, maxTimestamp := 0, endKey := [], index := [] }
  let header :=
    { block.blockHeader with
      index := summary.index
      startTimestamp := some summary.minTimestamp
      endTimestamp := some summary.maxTimestamp
      endKey := some summary.endKey
      footerPosition := some 0 }
  match writeProtoFile disk (block.newFilename rt) with
  | (_, none) => throw .nilFile
  | (disk, some newfile) =>
    let (newfile, disk, _) := newfile.write rt.header disk header
    let state ← ((orders.streams.order sorted).map Prod.snd).foldlM (writeStream rt)
      { newfile, disk, indexPos := ∅ }
    let index ← header.index.mapM (setOffset state.indexPos)
    let header :=
      { header with index, footerPosition := some (UInt64.ofNat state.newfile.position) }
    let (newfile, disk, _) := state.newfile.write rt.footer state.disk block.blockFooter
    let (_, disk, _) := newfile.writeAt rt.header disk 0 header
    let block := { block with blockHeader := header }
    match disk.rename (block.newFilename rt) block.filename with
    | none => return (disk, block, some .rename)
    | some disk => return (disk, block, none)

/-! ## Compaction -/

/-- Sorting the values of the streams handed to `Write` also sorts the log streams among them, which
are those whose variable the block file does not hold. -/
def DatastoreBlock.sortLogStreams (rt : Runtime Double) (block : DatastoreBlock Double)
    (fromFile : StreamMap Double) : DatastoreBlock Double :=
  { block with
    logStreams := Keyed.insertAll ∅ ((Keyed.pairs block.logStreams).map fun entry =>
      (entry.1, if entry.1 ∈ fromFile then entry.2 else rt.sortStream entry.2)) }

/-- `compactBlock`. -/
def DatastoreBlock.compactBlock (rt : Runtime Double) (orders : Orders) (clog : CompactionLog)
    (disk : Disk) (block : DatastoreBlock Double) :
    Except Panic (Disk × DatastoreBlock Double × Option StoreError) := do
  let block :=
    { block with
      blockFooter := { compactionLog := block.blockFooter.compactionLog ++ [clog] } }
  match ← block.readFile rt disk ∅, ← block.read rt orders.logs disk ∅ with
  | .ok fromFile, .ok streams =>
    match ← block.write rt orders disk streams with
    | (disk, block, some err) => return (disk, block.sortLogStreams rt fromFile, some err)
    | (disk, block, none) => return (disk.remove block.logFilename, { block with logStreams := ∅ }, none)
  | .error err, _ | _, .error err => return (disk, block, some err)

/-! ## Reading one stream -/

/-- `file.Seek` to a position taken from a file: a negative one leaves the file where it is. -/
def seek (position : Nat) (target : UInt64) : Nat :=
  if target.toNat < 2 ^ 63 then target.toNat else position

/-- `GetStreams`: the stream at an index entry's offset, if it can be read there.  A file that
cannot be opened leaves a nil reader, which is closed all the same. -/
def DatastoreBlock.getStreams (rt : Runtime Double) (disk : Disk) (block : DatastoreBlock Double)
    (entry : StoreFileHeaderIndex) : Except Panic (List (Stream Double)) :=
  match disk.readProtoFile block.filename with
  | .opened content =>
    match protoRead rt.stream content (seek 0 entry.offset) with
    | .message stream _ => .ok [stream]
    | _ => .ok []
  | _ => .error .nilFile

/-! ## Sizes -/

def DatastoreBlock.numStreams (block : DatastoreBlock Double) : UInt32 :=
  UInt32.ofNat block.blockHeader.index.length + UInt32.ofNat block.logStreams.keys.length +
    UInt32.ofNat block.newStreams.length

end OpenInstrument
