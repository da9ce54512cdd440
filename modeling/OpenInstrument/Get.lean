import OpenInstrument.Datastore.Searching
import OpenInstrument.Mutations

/-! # Get requests

`Get` reads the streams that a search selects, groups them by variable and perhaps by the value of a
label, merges the values of each group by timestamp, and sends them through the mutations of the
request.  Every stage is a goroutine; a panic in any of them ends the server.
-/

namespace OpenInstrument

variable {Cell : Type}

structure StreamAggregation where
  label : List GoString
  deriving DecidableEq

structure GetRequest where
  streamVariable : Option StreamVariable
  minTimestamp : Option UInt64
  maxTimestamp : Option UInt64
  mutation : List StreamMutation
  aggregation : List StreamAggregation
  deriving DecidableEq

/-! ## Merging values -/

/-- One turn of the outer loop of `MergeValueStreams`: the value with the least timestamp of those in
front, and what is left.  Each value that was the least so far is taken off its stream, although only
the last of them is sent. -/
def mergeTurn (timestamp : Cell → UInt64) : Option Cell → List (List Cell) → Option Cell × List (List Cell)
  | least, [] => (least, [])
  | least, [] :: streams =>
    let rest := mergeTurn timestamp least streams
    (rest.1, [] :: rest.2)
  | least, (v :: values) :: streams =>
    if least.all fun other => timestamp v < timestamp other then
      let rest := mergeTurn timestamp (some v) streams
      (rest.1, values :: rest.2)
    else
      let rest := mergeTurn timestamp least streams
      (rest.1, (v :: values) :: rest.2)

def mergeLoop (timestamp : Cell → UInt64) : Nat → List (List Cell) → List Cell
  | 0, _ => []
  | turns + 1, streams =>
    match mergeTurn timestamp none streams with
    | (none, _) => []
    | (some v, rest) => v :: mergeLoop timestamp turns rest

/-- `MergeValueStreams`.  A turn takes a value off a stream, so there are at most as many turns as
values. -/
def mergeValueStreams (timestamp : Cell → UInt64) (streams : List (ValueStream Cell)) : List Cell :=
  mergeLoop timestamp (streams.map fun stream => stream.value.length).sum (streams.map ValueStream.value)

/-! ## Grouping streams -/

/-- The stream, if it is of the variable and is to be kept.  The variable is nil when its name could not
be parsed, and `v.Variable` panics. -/
def inGroup (v : Option Variable) (keep : Variable → Bool) (stream : ValueStream Cell) :
    Except Panic (List (ValueStream Cell)) := do
  let testvar ← newFromProto stream.streamVariable
  match v with
  | none => .error .nilMessage
  | some v => .ok (if testvar.name = v.name ∧ keep testvar = true then [stream] else [])

def groupOf (v : Option Variable) (keep : Variable → Bool) (streams : List (ValueStream Cell)) :
    Except Panic (List (ValueStream Cell)) :=
  List.flatten <$> streams.mapM (inGroup v keep)

def Variable.labelOr (v : Variable) (label : GoString) : GoString := (v.labels.lookup label).getD []

/-- The groups of one variable name; the name is parsed as if it were a printed variable. -/
def groupsOf (uniqueLabels : List GoString) (streams : List (ValueStream Cell)) (mergeBy : GoString)
    (varname : GoString) : Except Panic (List (List (ValueStream Cell))) := do
  let v ← newFromString varname
  if mergeBy = [] then
    let group ← groupOf v (fun _ => true) streams
    return [group]
  else
    uniqueLabels.mapM fun labelvalue =>
      groupOf v (fun testvar => decide (testvar.labels.lookup mergeBy = some labelvalue)) streams

/-- The orders in which the names and the label values come out of their maps; the values are gone through
once for each name. -/
structure MapOrders where
  names : Iteration
  labelValues : GoString → Iteration

def MapOrders.listed : MapOrders := { names := .listed, labelValues := fun _ => .listed }

def MapOrders.uniqueVars (maps : MapOrders) (parsed : List Variable) : List GoString :=
  maps.names.order (parsed.map Variable.name).dedup

/-- The values as the loop for one name goes through them. -/
def MapOrders.uniqueLabels (maps : MapOrders) (parsed : List Variable) (mergeBy varname : GoString) :
    List GoString :=
  (maps.labelValues varname).order (parsed.map fun v => v.labelOr mergeBy).dedup

/-- `MergeStreamsBy`. -/
def mergeStreamsBy (maps : MapOrders) (streams : List (ValueStream Cell)) (mergeBy : GoString) :
    Except Panic (List (List (ValueStream Cell))) := do
  let parsed ← streams.mapM fun stream => newFromProto stream.streamVariable
  let groups ← (maps.uniqueVars parsed).mapM fun varname =>
    groupsOf (maps.uniqueLabels parsed mergeBy varname) streams mergeBy varname
  return groups.flatten.filter fun group => !group.isEmpty

/-! ## The request -/

/-- `request.Aggregation[0].GetLabel()[0]`. -/
def mergeLabel : List StreamAggregation → Except Panic GoString
  | [] => .ok []
  | aggregation :: _ =>
    match aggregation.label with
    | [] => .error .indexOutOfRange
    | label :: _ => .ok label

def GetRequest.search (request : GetRequest) (p : StreamVariable) : Search :=
  { v := p.parsed, minTimestamp := request.minTimestamp, maxTimestamp := request.maxTimestamp }

end OpenInstrument
