import OpenInstrument.Datastore.Block

/-! # The datastore

`Blocks` maps an end key to the block that holds the variables up to it, and `blockKeys` lists the
end keys in order.  `send` is the body of the loop in `Writer`; `flush`, `compactBlock`,
`splitBlock` and `joinBlocks` are the operations of the background loop; `readBlocks` rebuilds the
maps from a directory.

Blocks are named by their key in `Blocks` where the source holds pointers to them.  Identifiers
of new blocks come from a UUID generator outside the repository, which may fail.
-/

namespace OpenInstrument

variable {Double : Type}

structure Datastore (Double : Type) where
  disk : Disk
  blocks : AList fun _ : GoString => DatastoreBlock Double
  blockKeys : List GoString

/-- `SPLIT_POINT`, in streams. -/
def splitPoint : UInt32 := 500

/-- `Open` on an empty directory. -/
def Datastore.empty : Datastore Double := { disk := Disk.empty, blocks := ∅, blockKeys := [] }

def Datastore.insertBlock (s : Datastore Double) (block : DatastoreBlock Double) : Datastore Double :=
  { s with
    blocks := s.blocks.insert block.endKey block
    blockKeys :=
      if block.endKey ∈ s.blocks then s.blockKeys else sortStrings (s.blockKeys ++ [block.endKey]) }

/-! ## Writing -/

/-- `findBlock`: the key of the block for a variable, or `none` for a nil block.  The first key not
below the variable decides, whether or not `Blocks` still has it. -/
def Datastore.findBlock (s : Datastore Double) (uuid : Option GoString) (v : Variable) :
    Datastore Double × Option GoString :=
  match s.blockKeys.find? fun key => v.string ≤ key with
  | some key => (s, if key ∈ s.blocks then some key else none)
  | none =>
    match uuid with
    | none => (s, none)
    | some id => (s.insertBlock (newBlock v.string id), some v.string)

/-- The loop body of `Writer`. -/
def Datastore.send (s : Datastore Double) (uuid : Option GoString) (stream : Stream Double) :
    Except Panic (Datastore Double) := do
  let v ← newFromProto stream.streamVariable
  let (s, found) := s.findBlock uuid v
  match found.bind fun key => s.blocks.lookup key with
  | none => return s
  | some block =>
    return { s with
      blocks := s.blocks.insert block.endKey { block with newStreams := block.newStreams ++ [stream] } }

/-! ## Flushing -/

/-- The first inner loop of `Flush`: writes streams to the log until one cannot be written. -/
def flushStreams (rt : Runtime Double) :
    ProtoFileWriter → Disk → List (Stream Double) → Disk × Bool
  | _, disk, [] => (disk, true)
  | file, disk, stream :: streams =>
    match file.write rt.stream disk stream with
    | (file, disk, true) => flushStreams rt file disk streams
    | (_, disk, false) => (disk, false)

/-- One turn of `Flush` over the blocks; `false` when it returns early. -/
def DatastoreBlock.flush (rt : Runtime Double) (disk : Disk) (block : DatastoreBlock Double) :
    Except Panic (Disk × DatastoreBlock Double × Bool) :=
  if block.newStreams = [] then .ok (disk, block, true)
  else
    match writeProtoFile disk block.logFilename with
    | (disk, none) => .ok (disk, block, false)
    | (disk, some file) =>
      match flushStreams rt file disk block.newStreams with
      | (disk, false) => .ok (disk, block, false)
      | (disk, true) => do
        let logStreams ← block.newStreams.foldlM appendStream block.logStreams
        return (disk, { block with logStreams, newStreams := [] }, true)

def Datastore.flushBlocks (rt : Runtime Double) :
    List GoString → Datastore Double → Except Panic (Datastore Double)
  | [], s => .ok s
  | key :: keys, s =>
    match s.blocks.lookup key with
    | none => s.flushBlocks rt keys
    | some block => do
      let (disk, block, more) ← block.flush rt s.disk
      let s := { s with disk, blocks := s.blocks.insert key block }
      if more then s.flushBlocks rt keys else return s

def Datastore.flush (rt : Runtime Double) (order : Iteration) (s : Datastore Double) :
    Except Panic (Datastore Double) :=
  s.flushBlocks rt (order.order s.blocks.keys)

/-! ## Compacting and splitting -/

def Datastore.compactBlock (rt : Runtime Double) (orders : Orders) (clog : CompactionLog)
    (s : Datastore Double) (key : GoString) : Except Panic (Datastore Double × Option StoreError) :=
  match s.blocks.lookup key with
  | none => .ok (s, none)
  | some block => do
    let (disk, block, err) ← block.compactBlock rt orders clog s.disk
    return ({ s with disk, blocks := s.blocks.insert key block }, err)

/-- The key set that `splitBlock` collects from all three places of a block, in order. -/
def DatastoreBlock.splitKeys (block : DatastoreBlock Double) : Except Panic (List GoString) := do
  let index ← (block.blockHeader.index.map (·.streamVariable)).mapM variableString
  let log ← ((Keyed.pairs block.logStreams).map (·.2.streamVariable)).mapM variableString
  let new ← (block.newStreams.map (·.streamVariable)).mapM variableString
  return sortStrings (index ++ log ++ new).dedup

/-- The loop of `splitBlock` that divides the streams at the end key of the left block. -/
def divideStreams (endKey : GoString) :
    List (Stream Double) → Except Panic (StreamMap Double × StreamMap Double)
  | [] => .ok (∅, ∅)
  | stream :: streams => do
    let v ← variableString stream.streamVariable
    let (left, right) ← divideStreams endKey streams
    if v ≤ endKey then return (left.insert v stream, right) else return (left, right.insert v stream)

/-- The choices a split leaves open: the identifier drawn for the left block, the compaction record,
and the orders of the loops. -/
structure SplitChoices where
  uuid : Option GoString
  clog : CompactionLog
  compaction : Orders
  left : Orders
  right : Orders

/-- `splitBlock` once the block is compacted; the error of that compaction is ignored. -/
def Datastore.splitCompacted (rt : Runtime Double) (choices : SplitChoices) (s : Datastore Double)
    (block : DatastoreBlock Double) (sortedKeys : List GoString) :
    Except Panic (Datastore Double × Option StoreError) := do
  match sortedKeys[sortedKeys.length / 2]?, sortedKeys[sortedKeys.length / 2 - 1]? with
  | some _, some leftKey =>
    match ← block.read rt choices.left.logs s.disk ∅ with
    | .error err => return (s, some err)
    | .ok streams =>
      match choices.uuid with
      | none => return (s, some .uuid)
      | some id =>
        let leftblock := newBlock leftKey id
        let (leftstreams, rightstreams) ← divideStreams leftKey ((Keyed.pairs streams).map Prod.snd)
        let (disk, leftblock, err) ← leftblock.write rt choices.left s.disk leftstreams
        let s := { s with disk }
        if err.isSome then return (s, err)
        else
          let (disk, block, err) ← block.write rt choices.right s.disk rightstreams
          let s := { s with disk, blocks := s.blocks.insert block.endKey block }
          if err.isSome then return (s, err) else return (s.insertBlock leftblock, none)
  | _, _ => throw .indexOutOfRange

def Datastore.splitBlock (rt : Runtime Double) (choices : SplitChoices) (s : Datastore Double)
    (key : GoString) : Except Panic (Datastore Double × Option StoreError) :=
  match s.blocks.lookup key with
  | none => .ok (s, none)
  | some block => do
    let sortedKeys ← block.splitKeys
    if sortedKeys.length < 2 then return (s, some .tooFewStreams)
    else
      let (disk, block, _) ← block.compactBlock rt choices.compaction choices.clog s.disk
      let s := { s with disk, blocks := s.blocks.insert key block }
      s.splitCompacted rt choices block sortedKeys

/-! ## Reading a directory -/

/-- `BlockIdFromFilename`: what `^block\.([^\.]+).*` captures, or the name if it does not match. -/
def blockIdFromFilename (name : GoString) : GoString :=
  if (ascii "block.").isPrefixOf name then
    let id := (name.drop 6).takeWhile (· != dot)
    if id = [] then name else id
  else name

def Datastore.readBlock (rt : Runtime Double) (s : Datastore Double) (name : GoString) :
    Datastore Double :=
  let block : DatastoreBlock Double := newBlock [] (blockIdFromFilename name)
  match s.disk.readProtoFile block.filename with
  | .opened content =>
    match protoRead rt.header content 0 with
    | .message header position =>
      if header.getVersion = 2 then
        let blockFooter := match header.footerPosition with
          | none => block.blockFooter
          | some footerPosition =>
            match protoRead rt.footer content (seek position footerPosition) with
            | .message footer _ => footer
            | _ => block.blockFooter
        s.insertBlock { block with endKey := header.getEndKey, blockHeader := header, blockFooter }
      else s
    | _ => s
  | _ => s

/-- The loop of `readBlockLog`: the greatest variable so far, and the merged streams. -/
def readLogStream (state : GoString × StreamMap Double) (stream : Stream Double) :
    Except Panic (GoString × StreamMap Double) := do
  let v ← variableString stream.streamVariable
  let logStreams ← appendStream state.2 stream
  return (if v > state.1 then v else state.1, logStreams)

/-- `readBlockLog`.  When the log cannot be opened it goes on with a nil reader. -/
def Datastore.readBlockLog (rt : Runtime Double) (s : Datastore Double) (name : GoString) :
    Except Panic (Datastore Double) :=
  let block : DatastoreBlock Double := newBlock [] (blockIdFromFilename name)
  match s.disk.readProtoFile block.logFilename with
  | .opened content => do
    let (endKey, logStreams) ← (valueStreamReader rt content).foldlM readLogStream ([], ∅)
    match (Keyed.pairs s.blocks).find? fun entry => entry.2.id == block.id with
    | some (key, existing) =>
      return { s with blocks := s.blocks.insert key { existing with logStreams } }
    | none => return s.insertBlock { block with endKey, logStreams }
  | _ => .error .nilFile

/-- The regular expression `^block\..+$`. -/
def isBlockName (name : GoString) : Bool :=
  (ascii "block.").isPrefixOf name && decide (6 < name.length) && !(name.drop 6).contains newline

/-- The regular expression `^block\..+\.log$`. -/
def isBlockLogName (name : GoString) : Bool :=
  (ascii "block.").isPrefixOf name && decide (10 < name.length) && !(name.drop 6).contains newline &&
    (ascii ".log").isSuffixOf name

/-- The regular expression `\.(log|new\.[0-9]+)$`. -/
def isLogOrNewName (name : GoString) : Bool :=
  let digits := name.reverse.takeWhile fun byte => 48 ≤ byte && byte ≤ 57
  (ascii ".log").isSuffixOf name ||
    (!digits.isEmpty && (ascii ".new.").isSuffixOf (name.take (name.length - digits.length)))

/-- `readBlocks`, with the order in which the goroutines that read the logs take their turns.  `none`
when the directory cannot be read. -/
def Datastore.readBlocks (rt : Runtime Double) (order : Iteration) (disk : Disk) :
    Except Panic (Option (Datastore Double)) :=
  match disk.fault .readDirectory with
  | some _ => .ok none
  | none => do
    let names := sortStrings disk.files.keys
    let s := (names.filter fun name => isBlockName name && !isLogOrNewName name).foldl
      (fun s name => s.readBlock rt name) { disk, blocks := ∅, blockKeys := [] }
    let s ← (order.order (names.filter isBlockLogName)).foldlM (fun s name => s.readBlockLog rt name) s
    return some s

/-! ## Joining -/

/-- The selection loop in `Open`, over the blocks in key order: a block that does not fit is
skipped. -/
def selectBlock (state : UInt32 × List (DatastoreBlock Double)) (block : DatastoreBlock Double) :
    UInt32 × List (DatastoreBlock Double) :=
  if state.1 + block.numStreams > splitPoint then state
  else (state.1 + block.numStreams, state.2 ++ [block])

def Datastore.sortedBlocks (s : Datastore Double) : List (DatastoreBlock Double) :=
  ((Keyed.pairs s.blocks).map Prod.snd).insertionSort fun first second => first.endKey ≤ second.endKey

/-- The blocks the background loop joins, if it joins any. -/
def Datastore.joinSelection (s : Datastore Double) : List (DatastoreBlock Double) :=
  let (joinSize, joinBlocks) := s.sortedBlocks.foldl selectBlock (0, [])
  if joinSize > 0 ∧ 1 < joinBlocks.length then joinBlocks else []

/-- `joinBlocks` reads all blocks into one map; an error leaves the blocks as they are. -/
def readAll (rt : Runtime Double) (logOrder : Iteration) (disk : Disk) :
    List (DatastoreBlock Double) → StreamMap Double →
      Except Panic (Except StoreError (StreamMap Double))
  | [], streams => .ok (.ok streams)
  | block :: blocks, streams => do
    match ← block.read rt logOrder disk streams with
    | .error err => return .error err
    | .ok streams => readAll rt logOrder disk blocks streams

/-- The last loop of `joinBlocks`, for one of the old blocks. -/
def Datastore.dropJoined (rt : Runtime Double) (newblock : DatastoreBlock Double) (s : Datastore Double)
    (block : DatastoreBlock Double) : Datastore Double :=
  let s := { s with disk := s.disk.remove block.logFilename, blocks := s.blocks.erase block.endKey }
  if block.endKey = newblock.endKey then s.readBlock rt newblock.filename
  else { s with disk := s.disk.remove block.filename }

def Datastore.joinBlocks (rt : Runtime Double) (orders : Orders) (clog : CompactionLog)
    (s : Datastore Double) (blocks : List (DatastoreBlock Double)) :
    Except Panic (Datastore Double) := do
  match blocks.getLast? with
  | none => throw .indexOutOfRange
  | some last =>
    let newblock : DatastoreBlock Double :=
      { newBlock last.endKey last.id with
        blockFooter := { compactionLog := last.blockFooter.compactionLog ++ [clog] } }
    match ← readAll rt orders.logs s.disk blocks ∅ with
    | .error _ => return s
    | .ok streams =>
      let (disk, newblock, err) ← newblock.write rt orders s.disk streams
      let s := { s with disk }
      if err.isSome then return s
      else
        let s := blocks.foldl (Datastore.dropJoined rt newblock) s
        return { s with blocks := s.blocks.insert newblock.endKey newblock }

/-! ## Operations -/

/-- The operations of the store, with what each takes from outside: an identifier the generator
would draw, the orders of loops over maps, a compaction record. -/
inductive Operation (Double : Type) where
  | send (uuid : Option GoString) (stream : Stream Double)
  | flush (order : Iteration)
  | compactBlock (key : GoString) (orders : Orders) (clog : CompactionLog)
  | splitBlock (key : GoString) (choices : SplitChoices)
  | joinBlocks (orders : Orders) (clog : CompactionLog)

/-- One operation.  `joinBlocks` runs on the blocks the background loop selects, if there are at
least two.  A compaction or split that reports an error has had its effects all the same. -/
def Datastore.step (rt : Runtime Double) (s : Datastore Double) :
    Operation Double → Except Panic (Datastore Double)
  | .send uuid stream => s.send uuid stream
  | .flush order => s.flush rt order
  | .compactBlock key orders clog => Prod.fst <$> s.compactBlock rt orders clog key
  | .splitBlock key choices => Prod.fst <$> s.splitBlock rt choices key
  | .joinBlocks orders clog =>
    if s.joinSelection = [] then .ok s else s.joinBlocks rt orders clog s.joinSelection

def Datastore.run (rt : Runtime Double) (s : Datastore Double) (operations : List (Operation Double)) :
    Except Panic (Datastore Double) :=
  operations.foldlM (Datastore.step rt) s

end OpenInstrument
