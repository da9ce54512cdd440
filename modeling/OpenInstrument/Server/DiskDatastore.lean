import OpenInstrument.Proto
import OpenInstrument.Server.Variable
import OpenInstrument.Server.ProtoStream

/-! # The datastore of the C++ server

`DiskDatastore` keeps a list of values for each variable.  A value that repeats the last one of its
variable is merged into it: it only moves the end of the last value.  Every recorded value, merged or
not, goes into the record log, from which the store is filled again when the server starts.

A double is its 64 bits; `doubleEq` is the comparison `==` of two of them.
-/

namespace OpenInstrument.Server

/-! ## Values -/

def isNaN (bits : UInt64) : Bool := decide (0x7FF0000000000000 < bits &&& 0x7FFFFFFFFFFFFFFF)

def isZero (bits : UInt64) : Bool := bits &&& 0x7FFFFFFFFFFFFFFF == 0

/-- `==` of doubles: a NaN equals nothing, and the two zeros are equal. -/
def doubleEq (first second : UInt64) : Bool :=
  !isNaN first && !isNaN second && (first == second || (isZero first && isZero second))

def getDoubleValue (value : Value UInt64) : UInt64 := value.doubleValue.getD 0

def getStringValue (value : Value UInt64) : Bytes := value.stringValue.getD []

/-- `proto::ValueStream`. -/
structure ValueStream where
  streamVariable : StreamVariable
  value : List (Value UInt64)
  deriving DecidableEq

/-! ## Recording -/

def repeatsDouble (last value : Value UInt64) : Bool :=
  value.doubleValue.isSome && doubleEq (getDoubleValue last) (getDoubleValue value)

def repeatsString (last value : Value UInt64) : Bool :=
  value.stringValue.isSome && getStringValue last == getStringValue value

/-- The last value after one that repeats it, or nothing when the value does not repeat it. -/
def mergeValue (last : Value UInt64) (timestamp : UInt64) (value : Value UInt64) :
    Option (Value UInt64) :=
  if repeatsDouble last value then
    some { last with doubleValue := some (getDoubleValue value), endTimestamp := some timestamp }
  else if repeatsString last value then
    some { last with stringValue := some (getStringValue value), endTimestamp := some timestamp }
  else none

/-- The values of a stream after one more is recorded, and the value that now stands for it. -/
def recordValue (values : List (Value UInt64)) (timestamp : UInt64) (value : Value UInt64) :
    List (Value UInt64) × Value UInt64 :=
  match values.getLast?.bind fun last => mergeValue last timestamp value with
  | some merged => (values.dropLast ++ [merged], merged)
  | none => (values ++ [{ value with timestamp }], { value with timestamp })

abbrev LiveData := AList fun _ : Bytes => ValueStream

/-- `GetOrCreateVariable`. -/
def getOrCreateVariable (liveData : LiveData) (v : Variable) : ValueStream :=
  (liveData.lookup v.toString).getD { streamVariable := v.toProtobuf, value := [] }

/-- `RecordNoLog`: the store after the value is recorded, and the value that it returns. -/
def recordNoLog (liveData : LiveData) (v : Variable) (timestamp : UInt64) (value : Value UInt64) :
    LiveData × Value UInt64 :=
  let stream := getOrCreateVariable liveData v
  let recorded := recordValue stream.value timestamp value
  (liveData.insert v.toString { stream with value := recorded.1 }, recorded.2)

/-- The store and the streams that were added to its record log. -/
structure DiskDatastore where
  liveData : LiveData
  recordLog : List ValueStream

def DiskDatastore.empty : DiskDatastore := { liveData := ∅, recordLog := [] }

/-- The arguments of a call of `Record`. -/
structure RecordCall where
  variable_ : Variable
  timestamp : UInt64
  value : Value UInt64

/-- `Record`. -/
def DiskDatastore.record (store : DiskDatastore) (call : RecordCall) : DiskDatastore :=
  let recorded := recordNoLog store.liveData call.variable_ call.timestamp call.value
  { liveData := recorded.1
    recordLog :=
      store.recordLog ++ [{ streamVariable := call.variable_.toProtobuf, value := [recorded.2] }] }

def DiskDatastore.recordAll (store : DiskDatastore) (calls : List RecordCall) : DiskDatastore :=
  calls.foldl DiskDatastore.record store

/-! ## Replaying -/

def replayValue (v : Variable) (liveData : LiveData) (value : Value UInt64) : LiveData :=
  (recordNoLog liveData v value.timestamp value).1

/-- One turn of the loop of `ReplayRecordLog`. -/
def replayStream (liveData : LiveData) (stream : ValueStream) : LiveData :=
  stream.value.foldl (replayValue (fromProtobuf stream.streamVariable)) liveData

/-- `ReplayRecordLog` on a new store, given the streams that `ReplayLog` reads. -/
def replayRecordLog (streams : List ValueStream) : LiveData := streams.foldl replayStream ∅

/-! ## Reading -/

/-- The values that `GetRange` returns; a variable that is not found has none. -/
def getRange (liveData : LiveData) (v : Variable) (start finish : UInt64) : List (Value UInt64) :=
  match liveData.lookup v.toString with
  | none => []
  | some stream =>
    stream.value.filter fun value =>
      decide (start ≤ value.timestamp) && (finish == 0 || decide (value.timestamp < finish))

end OpenInstrument.Server
