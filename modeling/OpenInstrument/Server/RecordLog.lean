import OpenInstrument.Go.Text
import OpenInstrument.Server.Messages
import OpenInstrument.Server.StoreConfig

/-! # Reindexing rotated record logs

A rotated log is read back, its values are collected under their variables, and the streams are written to
an indexed file: a header with the offset of each stream, and the streams behind it.  The file takes the
place of the log under a name that the latest of its timestamps gives.

All calls of the file system succeed here.  A file is listed by its name in the directory of the log.
-/

namespace OpenInstrument.Server

/-! ## Collecting the values of a log -/

/-- `RecordLog::MapType`. -/
abbrev LogData := OrderedMap Bytes ValueStream

def repeatsValue (last value : Value UInt64) : Bool :=
  (last.stringValue.isSome && getStringValue last == getStringValue value) ||
    (last.doubleValue.isSome && doubleEq (getDoubleValue last) (getDoubleValue value))

/-- One turn of the loop over the values.  Without a last value the pointer to it is not followed. -/
def collectValue (values : List (Value UInt64)) (oldvalue : Value UInt64) : List (Value UInt64) :=
  match values.getLast? with
  | none => values ++ [oldvalue]
  | some lastvalue =>
    if repeatsValue lastvalue oldvalue then
      values.dropLast ++ [{ lastvalue with endTimestamp := some oldvalue.timestamp }]
    else values ++ [oldvalue]

/-- One turn of the loop of `ReindexRecordLogFile`. -/
def collectStream (logData : LogData) (stream : ValueStream) : LogData :=
  let v := fromProtobuf stream.streamVariable
  if v.toString = [] then logData
  else
    let newstream := (logData.lookup v.toString).getD { streamVariable := v.toProtobuf, value := [] }
    logData.set v.toString { newstream with value := stream.value.foldl collectValue newstream.value }

/-! ## The header -/

/-- `proto::StoreFileHeaderIndex`. -/
structure StoreFileHeaderIndex where
  streamVariable : StreamVariable
  offset : UInt64
  deriving DecidableEq

/-- `proto::StoreFileHeader`. -/
structure StoreFileHeader where
  startTimestamp : Option UInt64
  endTimestamp : Option UInt64
  variable_ : List StreamVariable
  index : List StoreFileHeaderIndex
  deriving DecidableEq

namespace StoreFileHeader

def empty : StoreFileHeader := { startTimestamp := none, endTimestamp := none, variable_ := [], index := [] }

def getEndTimestamp (header : StoreFileHeader) : UInt64 := header.endTimestamp.getD 0

/-- The header starts no later than a timestamp. -/
def startBy (header : StoreFileHeader) (timestamp : UInt64) : StoreFileHeader :=
  if header.startTimestamp.all fun start => timestamp < start then { header with startTimestamp := some timestamp }
  else header

/-- The header ends no earlier than a timestamp. -/
def endBy (header : StoreFileHeader) (timestamp : UInt64) : StoreFileHeader :=
  if header.getEndTimestamp < timestamp then { header with endTimestamp := some timestamp } else header

def addStream (header : StoreFileHeader) (stream : ValueStream) : StoreFileHeader :=
  let header := { header with
    variable_ := header.variable_ ++ [stream.streamVariable]
    index := header.index ++ [{ streamVariable := stream.streamVariable, offset := 0 }] }
  match stream.value.head?, stream.value.getLast? with
  | some firstValue, some lastValue =>
    ((header.startBy firstValue.timestamp).endBy lastValue.timestamp).endBy (lastValue.endTimestamp.getD 0)
  | _, _ => header

def setOffsets (header : StoreFileHeader) (offsets : List UInt64) : StoreFileHeader :=
  { header with index := List.zipWith (fun index offset => { index with offset }) header.index offsets }

end StoreFileHeader

def indexHeader (streams : List ValueStream) : StoreFileHeader := streams.foldl .addStream .empty

def newest (timestamp : UInt64) (value : Value UInt64) : UInt64 :=
  if timestamp < value.timestamp then value.timestamp else timestamp

/-- `newest_timestamp`. -/
def newestTimestamp (streams : List ValueStream) : UInt64 :=
  (streams.flatMap ValueStream.value).foldl newest 0

/-- `datastore.%lu.bin`. -/
def storeName (timestamp : UInt64) : Bytes := ascii ("datastore." ++ timestamp.toNat.repr ++ ".bin")

/-! ## Writing an indexed file -/

section Codec

variable (crc : Bytes → UInt16) (headerCodec : Codec StoreFileHeader) (codec : Codec ValueStream)

/-- The streams written one after another, where each of them begins, and whether every `Write` returned true. -/
def writeStreams : File → List ValueStream → File × List UInt64 × Bool
  | file, [] => (file, [], true)
  | file, stream :: streams =>
    match protoStreamWrite crc codec file stream with
    | (after, false) => (after, [], false)
    | (after, true) =>
      let rest := writeStreams after streams
      (rest.1, .ofNat file.position :: rest.2.1, rest.2.2)

/-- The header, the streams behind it, and the header again with their offsets. -/
def writeIndexed (file : File) (streams : List ValueStream) : File × Bool :=
  match protoStreamWrite crc headerCodec file (indexHeader streams) with
  | (file, false) => (file, false)
  | (file, true) =>
    match writeStreams crc codec file streams with
    | (file, _, false) => (file, false)
    | (file, offsets, true) =>
      protoStreamWrite crc headerCodec { file with position := 0 } ((indexHeader streams).setOffsets offsets)

/-! ## Reading an indexed file -/

/-- What `IndexedStoreFile::Open` reads. -/
def openHeader (content : Bytes) : StoreFileHeader :=
  match next crc headerCodec content 0 with
  | some (header, _) => header
  | none => .empty

variable (regexMatch : RegexMatch)

/-- The loop of `IndexedStoreFile::GetVariable` over the entries of the header. -/
def getVariableFrom (content : Bytes) (variable_ : Variable) :
    List StoreFileHeaderIndex → List ValueStream → Except Bytes (List ValueStream)
  | [], results => .ok results
  | index :: rest, results =>
    let indexVar := fromProtobuf index.streamVariable
    match variable_.matches regexMatch indexVar with
    | .error what => .error what
    | .ok false => getVariableFrom content variable_ rest results
    | .ok true =>
      match next crc codec content index.offset.toNat with
      | none => .ok results
      | some (stream, _) =>
        match (fromProtobuf stream.streamVariable).matches regexMatch indexVar with
        | .error what => .error what
        | .ok false => getVariableFrom content variable_ rest results
        | .ok true => getVariableFrom content variable_ rest (results ++ [stream])

/-- `GetVariable`, with the results that it appends to no results. -/
def getVariable (content : Bytes) (header : StoreFileHeader) (variable_ : Variable) :
    Except Bytes (List ValueStream × Bool) := do
  let results ← getVariableFrom crc codec regexMatch content variable_ header.index []
  return (results, !results.isEmpty)

/-! ## Reindexing -/

/-- The files of a directory. -/
abbrev Directory := AList fun _ : Bytes => Bytes

def Directory.rename (directory : Directory) (source target : Bytes) : Directory :=
  match directory.lookup source with
  | none => directory
  | some content => (directory.erase source).insert target content

def isRecordLog (name : Bytes) : Bool := (ascii "recordlog.").isPrefixOf name

/-- `datastore.*.bin`. -/
def isStoreFile (name : Bytes) : Bool :=
  (ascii "datastore.").isPrefixOf name && (ascii ".bin").isSuffixOf name && decide (14 ≤ name.length)

/-- `ReindexRecordLogFile` on a log of some content. -/
def reindexRecordLogFile (content : Bytes) : LogData :=
  (protoStreamRead crc codec content).foldl collectStream .empty

def LogData.streams (logData : LogData) : List ValueStream := logData.entries.map Prod.snd

/-- `WriteIndexedFile`. -/
def writeIndexedFile (directory : Directory) (streams : List ValueStream) (filename : Bytes) : Directory × Bool :=
  let outfile := filename ++ ascii ".new"
  if (directory.lookup outfile).isSome then (directory, false)
  else
    match writeIndexed crc headerCodec codec (File.create fun _ => none) streams with
    | (file, false) => (directory.insert outfile file.content, false)
    | (file, true) =>
      let directory : Directory := (directory.insert outfile file.content).erase filename
      (directory.rename outfile (storeName (newestTimestamp streams)), true)

/-- One turn of the loop of `ReindexRecordLog`.  The log of a failure is renamed to `failed-` in front of its
path, which leads out of the directory. -/
def reindexFile (state : Directory × Bool) (filename : Bytes) : Directory × Bool :=
  match state.1.lookup filename with
  | none => (state.1, false)
  | some content =>
    match writeIndexedFile crc headerCodec codec state.1 (reindexRecordLogFile crc codec content).streams filename with
    | (directory, true) => (directory, state.2)
    | (directory, false) => (directory.erase filename, false)

/-- The names that `Glob` finds, in their order. -/
def recordLogs (directory : Directory) : List Bytes := sortStrings (directory.keys.filter isRecordLog)

/-- `ReindexRecordLog`. -/
def reindexRecordLog (directory : Directory) : Directory × Bool :=
  (recordLogs directory).foldl (reindexFile crc headerCodec codec) (directory, true)

end Codec

/-! ## The header on the wire -/

def storeFileHeaderIndexFormat : Wire.Format StoreFileHeaderIndex where
  toFields message :=
    (Wire.embedded streamVariableFormat).fields 1 [message.streamVariable] ++ Wire.fixed64.fields 2 [message.offset]
  ofFields fields :=
    match (Wire.embedded streamVariableFormat).all 1 fields, Wire.fixed64.all 2 fields with
    | some [streamVariable], some [offset] => some { streamVariable, offset }
    | _, _ => none
  ofFields_toFields message := by
    simp [Wire.Scalar.all, Wire.payloads_fields_ne]

def storeFileHeaderFormat : Wire.Format StoreFileHeader where
  toFields message :=
    Wire.uint64.fields 1 message.startTimestamp.toList ++
      (Wire.uint64.fields 2 message.endTimestamp.toList ++
        ((Wire.embedded streamVariableFormat).fields 4 message.variable_ ++
          (Wire.embedded storeFileHeaderIndexFormat).fields 5 message.index))
  ofFields fields :=
    match Wire.uint64.all 1 fields, Wire.uint64.all 2 fields, (Wire.embedded streamVariableFormat).all 4 fields,
        (Wire.embedded storeFileHeaderIndexFormat).all 5 fields with
    | some startTimestamp, some endTimestamp, some variable_, some index =>
      some { startTimestamp := startTimestamp.head?, endTimestamp := endTimestamp.head?, variable_, index }
    | _, _, _, _ => none
  ofFields_toFields message := by
    simp [Wire.Scalar.all, Wire.payloads_fields_ne]

def storeFileHeaderCodec : Codec StoreFileHeader := Format.codec storeFileHeaderFormat

end OpenInstrument.Server
