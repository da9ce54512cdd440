import OpenInstrument.Mutations
import OpenInstrument.Server.DiskDatastore
import OpenInstrument.Server.HandleAdd

/-! # Mutations and aggregations of the C++ server

A mutation turns the stream of a variable into another one, and an aggregation makes one stream of several.
A double is its 64 bits, and the operations on doubles are parameters.  Two loops need not come to an end;
they are given a number of turns.
-/

namespace OpenInstrument.Server

/-- How a request can stop short: by one of two errors, by an exception, or in a loop that has made all the turns
that it was given. -/
inductive Stop where
  | divisionByZero
  | noInput
  | exception (what : Bytes)
  | exhausted
  deriving DecidableEq

/-- A `proto::ValueStream` whose variable need not be set. -/
structure ResponseStream where
  variable_ : Option StreamVariable
  value : List (Value UInt64)
  deriving DecidableEq

def ResponseStream.empty : ResponseStream := { variable_ := none, value := [] }

/-- `stream.variable()`. -/
def ResponseStream.getVariable (stream : ResponseStream) : StreamVariable :=
  stream.variable_.getD { name := [], label := [], type := none }

/-- `Variable(stream.variable())`. -/
def ResponseStream.toVariable (stream : ResponseStream) : Variable := fromProtobuf stream.getVariable

/-- `ToValueStream`, which does not take away a type. -/
def ResponseStream.setVariable (stream : ResponseStream) (v : Variable) : ResponseStream :=
  { stream with
    variable_ := some
      { v.toProtobuf with type := if v.type = .unknown then stream.getVariable.type else some v.type } }

def newValue {Double : Type} (timestamp : UInt64) (double : Double) : Value Double :=
  { timestamp, doubleValue := some double, stringValue := none, endTimestamp := none }

/-! ## Uniform time series -/

section UniformTimeSeries

variable {Double : Type} (arithmetic : Arithmetic Double)

structure UniformTimeSeries (Double : Type) where
  interval : UInt64
  baseTimestamp : UInt64
  pointsInput : UInt64
  pointsOutput : UInt64
  lastInputTimestamp : UInt64
  lastInputValue : Double

def UniformTimeSeries.new (interval : UInt64) : UniformTimeSeries Double :=
  { interval, baseTimestamp := 0, pointsInput := 0, pointsOutput := 0, lastInputTimestamp := 0
    lastInputValue := arithmetic.zero }

def UniformTimeSeries.nextOutputTimestamp (series : UniformTimeSeries Double) : UInt64 :=
  series.baseTimestamp + series.interval * series.pointsOutput

/-- The value on the line from the last point. -/
def UniformTimeSeries.interpolate (series : UniformTimeSeries Double) (timestamp : UInt64) (value : Double)
    (next : UInt64) : Except Stop Double :=
  if timestamp - series.lastInputTimestamp = 0 then .error .divisionByZero
  else .ok (arithmetic.add
    (arithmetic.mul
      (arithmetic.div (arithmetic.sub value series.lastInputValue)
        (arithmetic.ofUInt64 (timestamp - series.lastInputTimestamp)))
      (arithmetic.ofUInt64 (next - series.lastInputTimestamp)))
    series.lastInputValue)

/-- The loops of `AddPoint`: the inner one goes on where the outer one would. -/
def UniformTimeSeries.output (timestamp : UInt64) (value : Double) :
    Nat → UniformTimeSeries Double → List (Value Double) → Except Stop (List (Value Double) × UniformTimeSeries Double)
  | 0, _, _ => .error .exhausted
  | turns + 1, series, output =>
    let next := series.nextOutputTimestamp
    let counted := { series with pointsOutput := series.pointsOutput + 1 }
    if timestamp = next then .ok (output ++ [newValue timestamp value], counted)
    else if timestamp < next then .ok (output, series)
    else do
      let newvalue ← series.interpolate arithmetic timestamp value next
      UniformTimeSeries.output timestamp value turns counted (output ++ [newValue next newvalue])

/-- `AddPoint`, with what it adds to some output. -/
def UniformTimeSeries.addPointAt (turns : Nat) (state : List (Value Double) × UniformTimeSeries Double)
    (timestamp : UInt64) (value : Double) : Except Stop (List (Value Double) × UniformTimeSeries Double) :=
  let series := { state.2 with pointsInput := state.2.pointsInput + 1 }
  if series.pointsInput = 1 then
    if series.interval = 0 then .error .divisionByZero
    else .ok (state.1, { series with
      baseTimestamp := timestamp - timestamp % series.interval
      pointsOutput := series.pointsOutput + 1
      lastInputTimestamp := timestamp
      lastInputValue := value })
  else do
    let added ← UniformTimeSeries.output arithmetic timestamp value turns series state.1
    return (added.1, { added.2 with lastInputTimestamp := timestamp, lastInputValue := value })

end UniformTimeSeries

variable (arithmetic : Arithmetic UInt64)

/-- `AddPoint` of a value of a stream. -/
def UniformTimeSeries.addPoint (turns : Nat) (state : List (Value UInt64) × UniformTimeSeries UInt64)
    (point : Value UInt64) : Except Stop (List (Value UInt64) × UniformTimeSeries UInt64) :=
  UniformTimeSeries.addPointAt arithmetic turns state point.timestamp (getDoubleValue point)

/-! ## Mutations -/

/-- `proto::StreamMutation`. -/
structure StreamMutation where
  sampleType : SampleType
  sampleFrequency : Option UInt32
  maxGapInterpolate : Option UInt32
  deriving DecidableEq

def StreamMutation.getSampleFrequency (mutation : StreamMutation) : UInt32 := mutation.sampleFrequency.getD 0

def StreamMutation.getMaxGapInterpolate (mutation : StreamMutation) : UInt32 := mutation.maxGapInterpolate.getD 1

/-- The test of `ApplyMutation`. -/
def StreamMutation.isValid (mutation : StreamMutation) : Bool :=
  !((mutation.sampleType == .average || mutation.sampleType == .min || mutation.sampleType == .max) &&
    (mutation.sampleFrequency.isNone || mutation.getMaxGapInterpolate == 0))

/-- The loop over the values behind the one at hand. -/
def rates (signed : Bool) (last : Value UInt64) : List (Value UInt64) → Except Stop (List (Value UInt64))
  | [] => .ok []
  | oldvalue :: rest =>
    -- The timestamps are divided by 1000.0, which makes zero of zero only.
    if oldvalue.timestamp - last.timestamp = 0 then .error .divisionByZero
    else do
      let rate := arithmetic.div (arithmetic.sub (getDoubleValue oldvalue) (getDoubleValue last))
        (arithmetic.div (arithmetic.ofUInt64 (oldvalue.timestamp - last.timestamp)) (arithmetic.ofUInt64 1000))
      let later ← rates signed oldvalue rest
      return if signed || arithmetic.le arithmetic.zero rate then newValue oldvalue.timestamp rate :: later else later

def deltas (last : Value UInt64) : List (Value UInt64) → List (Value UInt64)
  | [] => []
  | oldvalue :: rest =>
    let delta := arithmetic.sub (getDoubleValue oldvalue) (getDoubleValue last)
    if arithmetic.le arithmetic.zero delta then newValue oldvalue.timestamp delta :: deltas oldvalue rest
    else deltas oldvalue rest

/-- `ApplyMutation`, into a new stream. -/
def applyMutation (turns : Nat) (istream : ResponseStream) (mutation : StreamMutation) : Except Stop ResponseStream :=
  if mutation.isValid = false then .error (.exception (ascii "Invalid StreamMutation"))
  else
    match istream.value with
    | [] => .ok .empty
    | first :: rest =>
      match mutation.sampleType with
      | .average => do
        let added ← istream.value.foldlM (UniformTimeSeries.addPoint arithmetic turns)
          ([], .new arithmetic mutation.getSampleFrequency.toUInt64)
        return { istream with value := added.1 }
      | .rate => do return { istream with value := ← rates arithmetic false first rest }
      | .rateSigned => do return { istream with value := ← rates arithmetic true first rest }
      | .delta => .ok { istream with value := deltas arithmetic first rest }
      | _ => .ok istream

/-! ## Calculations over several streams -/

/-- The variables of one turn of `ValueStreamCalculation`. -/
structure Pass where
  found : Bool
  foundBracket : Bool
  remaining : List (List (Value UInt64))
  bucket : List UInt64
  ts : UInt64

/-- One turn of the inner loop, on the values that a stream has left. -/
def passStream (sampleInterval : UInt64) (pass : Pass) : List (Value UInt64) → Pass
  | [] => { pass with remaining := pass.remaining ++ [[]] }
  | val :: rest =>
    let ts := if pass.ts = 0 then val.timestamp else pass.ts
    if ts - sampleInterval ≤ val.timestamp ∧ val.timestamp ≤ ts + sampleInterval then
      { found := true, foundBracket := true, remaining := pass.remaining ++ [rest]
        bucket := pass.bucket ++ [getDoubleValue val], ts }
    else { pass with found := true, remaining := pass.remaining ++ [val :: rest], ts }

def calculationLoop {Result : Type} (sampleInterval : UInt64) (calcfunc : List UInt64 → Except Stop Result) :
    Nat → List (List (Value UInt64)) → List UInt64 → UInt64 → List (Value Result) →
      Except Stop (List (Value Result))
  | 0, _, _, _, _ => .error .exhausted
  | turns + 1, remaining, bucket, ts, output =>
    let pass := remaining.foldl (passStream sampleInterval)
      { found := false, foundBracket := false, remaining := [], bucket, ts }
    if pass.found = false then .ok output
    else if pass.foundBracket = false ∧ pass.bucket ≠ [] then do
      let value ← calcfunc pass.bucket
      calculationLoop sampleInterval calcfunc turns pass.remaining [] 0 (output ++ [newValue pass.ts value])
    else calculationLoop sampleInterval calcfunc turns pass.remaining pass.bucket pass.ts output

/-- `ValueStreamCalculation`.  It takes the variable of the first stream. -/
def valueStreamCalculation (turns : Nat) (input : List ResponseStream) (sampleInterval : UInt64)
    (calcfunc : List UInt64 → Except Stop UInt64) : Except Stop ResponseStream :=
  match input with
  | [] => .error .noInput
  | first :: _ => do
    let value ← calculationLoop sampleInterval calcfunc turns (input.map ResponseStream.value) [] 0 []
    return { variable_ := some first.getVariable, value }

def sumOf (bucket : List UInt64) : UInt64 := bucket.foldl arithmetic.add arithmetic.zero

/-- `_DoAverage`. -/
def doAverage (bucket : List UInt64) : Except Stop UInt64 :=
  if bucket.length = 0 then .error .divisionByZero
  else .ok (arithmetic.div (sumOf arithmetic bucket) (arithmetic.ofUInt64 (.ofNat bucket.length)))

/-- `_DoSum`. -/
def doSum (bucket : List UInt64) : Except Stop UInt64 := .ok (sumOf arithmetic bucket)

/-- `_DoMax`. -/
def doMax (bucket : List UInt64) : Except Stop UInt64 :=
  .ok (bucket.foldl (fun max value => if arithmetic.lt max value then value else max) arithmetic.zero)

/-- `_DoMin`. -/
def doMin (bucket : List UInt64) : Except Stop UInt64 :=
  .ok (bucket.foldl (fun min value => if arithmetic.lt value min then value else min) (bucket.headD arithmetic.zero))

/-- `_DoMedian`. -/
def doMedian (bucket : List UInt64) : Except Stop UInt64 :=
  let sorted := bucket.insertionSort fun first second => arithmetic.lt second first = false
  .ok (sorted.getD (bucket.length / 2) arithmetic.zero)

/-! ## Aggregations -/

inductive AggregateType where
  | average
  | max
  | min
  | median
  | sum
  deriving DecidableEq

/-- `proto::StreamAggregation`. -/
structure StreamAggregation where
  type : Option AggregateType
  label : List Bytes
  sampleInterval : Option UInt32
  deriving DecidableEq

def StreamAggregation.getType (agg : StreamAggregation) : AggregateType := agg.type.getD .average

/-- The sample interval that is used; zero stands for the default. -/
def StreamAggregation.interval (agg : StreamAggregation) : UInt64 :=
  let sampleInterval := (agg.sampleInterval.getD 30000).toUInt64
  if sampleInterval = 0 then 30000 else sampleInterval

def AggregateType.calcfunc : AggregateType → List UInt64 → Except Stop UInt64
  | .average => doAverage arithmetic
  | .max => doMax arithmetic
  | .min => doMin arithmetic
  | .median => doMedian arithmetic
  | .sum => doSum arithmetic

/-- `ValueStreamAverage` and the like. -/
def aggregateStreams (turns : Nat) (agg : StreamAggregation) (input : List ResponseStream) :
    Except Stop ResponseStream :=
  valueStreamCalculation turns input agg.interval (agg.getType.calcfunc arithmetic)

/-- The values of a label, in their order. -/
def distinctValues (label : Bytes) (streams : List ResponseStream) : List Bytes :=
  sortStrings ((streams.filter fun stream => stream.toVariable.hasLabel label).map
    fun stream => stream.toVariable.getLabel label).dedup

/-- How often the value of each label has changed over some streams, and the last value.  A label has the empty
value at first. -/
def countLabels (streams : List ResponseStream) : OrderedMap Bytes (Nat × Bytes) :=
  (streams.flatMap fun stream => stream.toVariable.labels.entries).foldl (fun counts entry =>
      let known := (counts.lookup entry.1).getD (0, [])
      if known.2 = entry.2 then counts else counts.set entry.1 (known.1 + 1, entry.2))
    .empty

/-- The variable of the aggregation over one value of a label: a label that has one value keeps it. -/
def labelVariable (v : Variable) (label value : Bytes) (streams : List ResponseStream) : Variable :=
  (countLabels streams).entries.foldl
    (fun v entry => if entry.2.1 = 1 then v.setLabel entry.1 entry.2.2 else v) (v.setLabel label value)

def aggregateLabel (turns : Nat) (agg : StreamAggregation) (v : Variable) (aggstreams : List ResponseStream)
    (label value : Bytes) : Except Stop (List ResponseStream) :=
  let tmpstreams := aggstreams.filter fun stream => stream.toVariable.getLabel label = value
  if tmpstreams = [] then .ok []
  else do
    let output ← aggregateStreams arithmetic turns agg tmpstreams
    return [output.setVariable (labelVariable v label value tmpstreams)]

/-- One aggregation of the streams of a variable. -/
def aggregate (turns : Nat) (aggstreams : List ResponseStream) (agg : StreamAggregation) :
    Except Stop (List ResponseStream) :=
  let v : Variable :=
    { name := (aggstreams.head?.map fun stream => stream.toVariable.name).getD [], labels := .empty, type := .unknown }
  if agg.label = [] then do
    let output ← aggregateStreams arithmetic turns agg aggstreams
    return [output.setVariable v]
  else do
    let outputs ← agg.label.mapM fun label => (distinctValues label aggstreams).mapM fun value =>
      aggregateLabel arithmetic turns agg v aggstreams label value
    return outputs.flatten.flatten

end OpenInstrument.Server
