import OpenInstrument.Library.Channel
import OpenInstrument.Proto

/-! # Mutations

A mutation is a goroutine that turns a channel of values into another one.  What it sends is a new value
or one that it has received, which may be the very value that the store holds in memory.

Doubles are used through the operations of `Arithmetic`.  Two things of a run are open: how many turns
its loops have made, since one of them need not come to an end; and what a goroutine reads of a value
that it has passed on, since the next one may have moved the timestamp of that value meanwhile.
-/

namespace OpenInstrument

/-- The operations on doubles. -/
structure Arithmetic (Double : Type) where
  zero : Double
  add : Double → Double → Double
  sub : Double → Double → Double
  mul : Double → Double → Double
  div : Double → Double → Double
  ofUInt64 : UInt64 → Double
  lt : Double → Double → Bool
  le : Double → Double → Bool
  eq : Double → Double → Bool

/-- Whole numbers in place of doubles. -/
def wholeNumbers : Arithmetic UInt64 where
  zero := 0
  add first second := first + second
  sub first second := first - second
  mul first second := first * second
  div first second := first / second
  ofUInt64 number := number
  lt first second := decide (first < second)
  le first second := decide (first ≤ second)
  eq first second := first == second

/-- `StreamMutation_SampleType`. -/
inductive SampleType where
  | none
  | average
  | max
  | min
  | rate
  | rateSigned
  | delta
  | latest
  deriving DecidableEq

structure StreamMutation where
  sampleType : SampleType
  sampleFrequency : Option UInt32
  deriving DecidableEq

/-- `uint64(mut.GetSampleFrequency())`. -/
def StreamMutation.duration (mutation : StreamMutation) : UInt64 :=
  (mutation.sampleFrequency.getD 0).toUInt64

/-- A value on a channel, and where the store holds it if it is one of the store's. -/
structure Item (Address Double : Type) where
  origin : Option Address
  value : Value Double

variable {Address Double : Type}

def Item.timestamp (item : Item Address Double) : UInt64 := item.value.timestamp

def Item.getDoubleValue (arithmetic : Arithmetic Double) (item : Item Address Double) : Double :=
  item.value.doubleValue.getD arithmetic.zero

def Item.new (timestamp : UInt64) (double : Double) : Item Address Double :=
  { origin := none
    value := { timestamp, doubleValue := some double, stringValue := none, endTimestamp := none } }

/-- What a goroutine does to the world: it sends a value, or it moves the timestamp of a stored one. -/
inductive Effect (Address Double : Type) where
  | send (item : Item Address Double)
  | setTimestamp (address : Address) (timestamp : UInt64)

def Effect.sent : Effect Address Double → Option (Item Address Double)
  | .send item => some item
  | .setTimestamp .. => none

abbrev Values (Address Double : Type) := Channel (Effect Address Double)

/-- What the next goroutine receives. -/
def received (values : Values Address Double) : Channel (Item Address Double) :=
  { items := values.items.filterMap Effect.sent, closed := values.closed }

namespace Mutations

/-! ## Mean -/

structure MeanState (Double : Type) where
  sum : Double
  count : UInt64
  firstTimestamp : UInt64
  lastTimestamp : UInt64
  first : Bool

def meanTurn (arithmetic : Arithmetic Double) (duration : UInt64) (state : MeanState Double)
    (v : Item Address Double) : List (Effect Address Double) × MeanState Double :=
  if duration = 0 then ([.send v], state)
  else
    let firstTimestamp := if state.first then v.timestamp else state.firstTimestamp
    if v.timestamp - firstTimestamp > duration then
      ([.send (.new state.lastTimestamp (arithmetic.div state.sum (arithmetic.ofUInt64 state.count)))],
        { sum := arithmetic.add arithmetic.zero (v.getDoubleValue arithmetic)
          count := 1
          firstTimestamp := v.timestamp
          lastTimestamp := v.timestamp
          first := false })
    else
      ([],
        { sum := arithmetic.add state.sum (v.getDoubleValue arithmetic)
          count := state.count + 1
          firstTimestamp
          lastTimestamp := v.timestamp
          first := false })

def meanFinish (arithmetic : Arithmetic Double) (state : MeanState Double) : List (Effect Address Double) :=
  if state.count > 0 then
    [.send (.new state.lastTimestamp (arithmetic.div state.sum (arithmetic.ofUInt64 state.count)))]
  else []

def mean (arithmetic : Arithmetic Double) (duration : UInt64) :
    Loop (Item Address Double) (Effect Address Double) (MeanState Double) Panic where
  start := { sum := arithmetic.zero, count := 0, firstTimestamp := 0, lastTimestamp := 0, first := true }
  turn state v :=
    let (sent, next) := meanTurn arithmetic duration state v
    .ok (sent, some next)
  finish := meanFinish arithmetic

/-! ## Rates -/

/-- The double and the timestamp of the last value that has a double. -/
abbrev RateState (Double : Type) := Option (Double × UInt64)

def signedRateTurn (arithmetic : Arithmetic Double) (state : RateState Double) (v : Item Address Double) :
    List (Effect Address Double) × RateState Double :=
  if v.value.doubleValue = none then ([], state)
  else
    match state with
    | none => ([], some (v.getDoubleValue arithmetic, v.timestamp))
    | some (lastValue, lastTimestamp) =>
      ([.send (.new v.timestamp (arithmetic.div (arithmetic.sub (v.getDoubleValue arithmetic) lastValue)
          (arithmetic.ofUInt64 (v.timestamp - lastTimestamp))))],
        some (v.getDoubleValue arithmetic, v.timestamp))

def signedRate (arithmetic : Arithmetic Double) :
    Loop (Item Address Double) (Effect Address Double) (RateState Double) Panic where
  start := none
  turn state v :=
    let (sent, next) := signedRateTurn arithmetic state v
    .ok (sent, some next)
  finish _ := []

/-- `Rate` lets the rates of `SignedRate` through that are not negative. -/
def nonNegative (arithmetic : Arithmetic Double) : Effect Address Double → Bool
  | .send item => arithmetic.le arithmetic.zero (item.getDoubleValue arithmetic)
  | .setTimestamp .. => true

def rate (arithmetic : Arithmetic Double) :
    Loop (Item Address Double) (Effect Address Double) (RateState Double) Panic where
  start := none
  turn state v :=
    let (sent, next) := signedRateTurn arithmetic state v
    .ok (sent.filter (nonNegative arithmetic), some next)
  finish _ := []

/-! ## Interpolate -/

/-- `a % b` and `a / b` of unsigned integers. -/
def remainder (dividend divisor : UInt64) : Except Panic UInt64 :=
  if divisor = 0 then .error .divideByZero else .ok (dividend % divisor)

def quotient (dividend divisor : UInt64) : Except Panic UInt64 :=
  if divisor = 0 then .error .divideByZero else .ok (dividend / divisor)

/-- The value that `Interpolate` holds, and whether it has passed it on. -/
structure Previous (Address Double : Type) where
  item : Item Address Double
  passedOn : Bool

structure InterpolateState (Address Double : Type) where
  previous : Option (Previous Address Double)
  timestamp : UInt64
  /-- How often the timestamp of the value it holds was read. -/
  reads : Nat

/-- What a goroutine reads, at each time, as the timestamp of a value that it has passed on. -/
abbrev Reads := Nat → UInt64 → UInt64

def Previous.readTimestamp (read : Reads) (previous : Previous Address Double) (time : Nat) : UInt64 :=
  if previous.passedOn then read time previous.item.timestamp else previous.item.timestamp

/-- The loop that fills in missing values, and how it ends if `turns` turns are enough. -/
def fillLoop (arithmetic : Arithmetic Double) (duration : UInt64) (read : Reads)
    (previous : Previous Address Double) (v : Item Address Double) (rate : Double) :
    Nat → Nat → UInt64 → List (Effect Address Double) × Option (Nat × UInt64)
  | 0, _, _ => ([], none)
  | turns + 1, reads, timestamp =>
    if timestamp ≤ v.timestamp then
      let pct := arithmetic.div
        (arithmetic.ofUInt64 (timestamp - previous.readTimestamp read reads))
        (arithmetic.ofUInt64 (v.timestamp - previous.readTimestamp read (reads + 1)))
      let newValue := arithmetic.add (previous.item.getDoubleValue arithmetic) (arithmetic.mul rate pct)
      let rest := fillLoop arithmetic duration read previous v rate turns (reads + 2) (timestamp + duration)
      (.send (.new timestamp newValue) :: rest.1, rest.2)
    else ([], some (reads, timestamp))

/-- The first value: it is sent if it lies on a boundary, and otherwise moved to the one before it. -/
def interpolateFirst (duration : UInt64) (v : Item Address Double) :
    Except Panic (List (Effect Address Double) × Option (InterpolateState Address Double)) := do
  if (← remainder v.timestamp duration) = 0 then
    return ([.send v],
      some { previous := some { item := v, passedOn := true }, timestamp := v.timestamp + duration, reads := 0 })
  else
    let boundary := (← quotient v.timestamp duration) * duration
    let moved := { v with value := { v.value with timestamp := boundary } }
    return (v.origin.toList.map fun address => .setTimestamp address boundary,
      some { previous := some { item := moved, passedOn := false }, timestamp := boundary + duration, reads := 0 })

/-- A value behind the first one, at or behind the next boundary. -/
def interpolateNext (arithmetic : Arithmetic Double) (duration : UInt64) (read : Reads) (turns : Nat)
    (previous : Previous Address Double) (state : InterpolateState Address Double)
    (v : Item Address Double) :
    Except Panic (List (Effect Address Double) × Option (InterpolateState Address Double)) :=
  let rate := arithmetic.sub (v.getDoubleValue arithmetic) (previous.item.getDoubleValue arithmetic)
  match fillLoop arithmetic duration read previous v rate turns state.reads state.timestamp with
  | (filled, none) => .ok (filled, none)
  | (filled, some (reads, timestamp)) =>
    if previous.readTimestamp read reads < v.timestamp then
      match remainder v.timestamp duration with
      | .error panic => .error panic
      | .ok rest =>
        if rest = 0 then
          .ok (filled ++ [.send v],
            some
              { previous := some { item := v, passedOn := true }
                timestamp := timestamp + duration
                reads := reads + 1 })
        else
          .ok (filled,
            some { previous := some { item := v, passedOn := false }, timestamp, reads := reads + 1 })
    else .ok (filled, some { state with timestamp, reads := reads + 1 })

def interpolate (arithmetic : Arithmetic Double) (duration : UInt64) (read : Reads) (turns : Nat) :
    Loop (Item Address Double) (Effect Address Double) (InterpolateState Address Double) Panic where
  start := { previous := none, timestamp := 0, reads := 0 }
  turn state v :=
    match state.previous with
    | none => interpolateFirst duration v
    | some previous =>
      if v.timestamp ≥ state.timestamp then
        interpolateNext arithmetic duration read turns previous state v
      else .ok ([], some state)
  finish _ := []

/-! ## Minimum and maximum -/

structure ExtremeState (Double : Type) where
  extreme : Double
  lastTimestamp : UInt64
  first : Bool

/-- The loop of `Min` and `Max`, which differ in which double is the better one. -/
def extremeTurn (arithmetic : Arithmetic Double) (better : Double → Double → Bool) (duration : UInt64)
    (state : ExtremeState Double) (v : Item Address Double) :
    List (Effect Address Double) × ExtremeState Double :=
  if state.first then
    ([], { extreme := v.getDoubleValue arithmetic, lastTimestamp := v.timestamp, first := false })
  else if v.timestamp ≥ state.lastTimestamp + duration then
    ([.send (.new v.timestamp state.extreme)],
      { extreme := v.getDoubleValue arithmetic, lastTimestamp := v.timestamp, first := false })
  else
    ([],
      { state with
        extreme :=
          if better (v.getDoubleValue arithmetic) state.extreme then v.getDoubleValue arithmetic
          else state.extreme
        first := false })

def extreme (arithmetic : Arithmetic Double) (better : Double → Double → Bool) (duration : UInt64) :
    Loop (Item Address Double) (Effect Address Double) (ExtremeState Double) Panic where
  start := { extreme := arithmetic.zero, lastTimestamp := 0, first := true }
  turn state v :=
    let (sent, next) := extremeTurn arithmetic better duration state v
    .ok (sent, some next)
  finish _ := []

def min (arithmetic : Arithmetic Double) (duration : UInt64) :
    Loop (Item Address Double) (Effect Address Double) (ExtremeState Double) Panic :=
  extreme arithmetic arithmetic.lt duration

def max (arithmetic : Arithmetic Double) (duration : UInt64) :
    Loop (Item Address Double) (Effect Address Double) (ExtremeState Double) Panic :=
  extreme arithmetic (fun first second => arithmetic.lt second first) duration

end Mutations

end OpenInstrument
