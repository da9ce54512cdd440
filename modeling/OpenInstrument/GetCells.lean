import OpenInstrument.GetReading
import OpenInstrument.Library.Goroutines
import OpenInstrument.ResponseLimit

/-! # The values that a request is answered from

Streams hold pointers to their values.  `Reader` sends the very streams that the blocks have in memory, so that the
goroutines of a request get the values of the store themselves.  Here a value is a cell at an address, and the
goroutines of `Get` run in any order.  What a goroutine does between two channel operations is a step, or a few.
-/

namespace OpenInstrument

open Goroutines (Instruction)
open Mutations (MeanState RateState ExtremeState)

variable {Double : Type}

/-! ## The store -/

/-- Where a value lies. -/
abbrev Address := Nat

/-- The value at an address.  The fields of a nil pointer read as absent. -/
def cellAt (cells : List (Value Double)) (address : Address) : Value Double :=
  cells[address]?.getD { timestamp := 0, doubleValue := none, stringValue := none, endTimestamp := none }

def ValueStream.load (cells : List (Value Double)) (stream : ValueStream Address) : Stream Double :=
  { streamVariable := stream.streamVariable, value := stream.value.map (cellAt cells) }

structure CellBlock where
  endKey : GoString
  id : GoString
  blockHeader : StoreFileHeader
  blockFooter : StoreFileFooter
  logStreams : AList fun _ : GoString => ValueStream Address
  newStreams : List (ValueStream Address)

def CellBlock.logs (block : CellBlock) : List (ValueStream Address) := (Keyed.pairs block.logStreams).map Prod.snd

def CellBlock.load (cells : List (Value Double)) (block : CellBlock) : DatastoreBlock Double :=
  { endKey := block.endKey
    id := block.id
    blockHeader := block.blockHeader
    blockFooter := block.blockFooter
    logStreams := Keyed.mapValues (ValueStream.load cells) block.logStreams
    newStreams := block.newStreams.map (ValueStream.load cells) }

/-- A datastore whose values lie in cells. -/
structure CellStore (Double : Type) where
  disk : Disk
  cells : List (Value Double)
  blocks : AList fun _ : GoString => CellBlock
  blockKeys : List GoString
  allocated : ∀ key block, blocks.lookup key = some block → ∀ stream ∈ block.logs ++ block.newStreams,
    ∀ address ∈ stream.value, address < cells.length

/-- The value at an address is reached from the datastore. -/
def CellStore.Holds (s : CellStore Double) (address : Address) : Prop :=
  ∃ key block, s.blocks.lookup key = some block ∧ ∃ stream ∈ block.logs ++ block.newStreams, address ∈ stream.value

/-- The datastore with the values in place of their addresses. -/
def CellStore.load (s : CellStore Double) : Datastore Double :=
  { disk := s.disk, blocks := Keyed.mapValues (CellBlock.load s.cells) s.blocks, blockKeys := s.blockKeys }

/-! ## Reading -/

/-- The goroutine that `Reader` starts for one block: the streams in memory that it sends, and the streams that it
reads from the block file. -/
def CellBlock.reader (rt : Runtime Double) (disk : Disk) (cells : List (Value Double)) (block : CellBlock)
    (search : Search) : Except Panic (List (ValueStream Address) × List (Stream Double)) :=
  if search.v.string > block.endKey then .ok ([], [])
  else do
    let logStreams ← block.logs.mapM (maybeReturnStream (fun v => (cellAt cells v).timestamp) search)
    let newStreams ← block.newStreams.mapM (maybeReturnStream (fun v => (cellAt cells v).timestamp) search)
    let indexed ← block.blockHeader.index.mapM ((block.load cells).readIndex rt disk search true)
    return (logStreams.flatten ++ newStreams.flatten, indexed.flatten)

/-- Streams that come from a file get cells of their own. -/
def allocate : List (Value Double) → List (Stream Double) → List (Value Double) × List (ValueStream Address)
  | cells, [] => (cells, [])
  | cells, stream :: streams =>
    let rest := allocate (cells ++ stream.value) streams
    (rest.1,
      { streamVariable := stream.streamVariable, value := List.range' cells.length stream.value.length } :: rest.2)

theorem isPrefix_allocate (cells : List (Value Double)) (streams : List (Stream Double)) :
    cells <+: (allocate cells streams).1 := by
  induction streams generalizing cells with
  | nil => exact List.prefix_rfl
  | cons stream streams inductionHypothesis => exact (List.prefix_append _ _).trans (inductionHypothesis _)

theorem lt_of_mem_allocate {cells : List (Value Double)} {streams : List (Stream Double)}
    {located : ValueStream Address} (member : located ∈ (allocate cells streams).2) {address : Address}
    (inside : address ∈ located.value) : address < (allocate cells streams).1.length := by
  induction streams generalizing cells with
  | nil => cases member
  | cons stream streams inductionHypothesis =>
    cases member with
    | head =>
      have grown := (isPrefix_allocate (cells ++ stream.value) streams).length_le
      rw [List.mem_range'_1] at inside
      rw [List.length_append] at grown
      exact lt_of_lt_of_le inside.2 grown
    | tail _ later => exact inductionHypothesis later

/-- `Reader`: the cells behind it, and the streams in the order of their arrival. -/
def CellStore.reader (rt : Runtime Double) (arrival : Iteration) (s : CellStore Double) (search : Search) :
    Except Panic (List (Value Double) × List (ValueStream Address)) := do
  let delivered ← ((Keyed.pairs s.blocks).map Prod.snd).mapM fun block => block.reader rt s.disk s.cells search
  let fromFiles := allocate s.cells (delivered.flatMap Prod.snd)
  return (fromFiles.1, arrival.order (delivered.flatMap Prod.fst ++ fromFiles.2))

/-! ## The values that are sent -/

theorem maybeReturnStream_load (cells : List (Value Double)) (search : Search) (stream : ValueStream Address) :
    maybeReturnStream Value.timestamp search (stream.load cells) =
      List.map (ValueStream.load cells) <$>
        maybeReturnStream (fun v => (cellAt cells v).timestamp) search stream := by
  have first : (stream.load cells).value.head? = stream.value.head?.map (cellAt cells) := List.head?_map
  have last : (stream.load cells).value.getLast? = stream.value.getLast?.map (cellAt cells) := List.getLast?_map
  have named : (stream.load cells).streamVariable = stream.streamVariable := rfl
  rw [maybeReturnStream, maybeReturnStream, named, first, last]
  cases search.isMatch stream.streamVariable with
  | error panic => rfl
  | ok matched =>
    simp only [Fallible.ok_bind]
    cases matched with
    | false => rfl
    | true =>
      cases stream.value.head? with
      | none => rfl
      | some first =>
        cases stream.value.getLast? with
        | none => rfl
        | some last =>
          simp only [Option.map_some]
          split_ifs <;> rfl

theorem CellBlock.load_reader (rt : Runtime Double) (disk : Disk) (cells : List (Value Double)) (block : CellBlock)
    (search : Search) :
    (block.load cells).reader rt disk search true =
      (fun found => found.1.map (ValueStream.load cells) ++ found.2) <$> block.reader rt disk cells search := by
  rw [DatastoreBlock.reader, CellBlock.reader]
  have endKey : (block.load cells).endKey = block.endKey := rfl
  have logs : (Keyed.pairs (block.load cells).logStreams).map Prod.snd = block.logs.map (ValueStream.load cells) := by
    rw [CellBlock.load, Keyed.pairs_mapValues, CellBlock.logs, List.map_map, List.map_map]
    rfl
  have pending : (block.load cells).newStreams = block.newStreams.map (ValueStream.load cells) := rfl
  have header : (block.load cells).blockHeader = block.blockHeader := rfl
  rw [endKey, logs, pending, header, Fallible.mapM_map_eq fun stream _ => maybeReturnStream_load cells search stream,
    Fallible.mapM_map_eq fun stream _ => maybeReturnStream_load cells search stream]
  split
  · rfl
  · cases block.logs.mapM (maybeReturnStream (fun v => (cellAt cells v).timestamp) search) with
    | error panic => rfl
    | ok logStreams =>
      cases block.newStreams.mapM (maybeReturnStream (fun v => (cellAt cells v).timestamp) search) with
      | error panic => rfl
      | ok newStreams =>
        cases block.blockHeader.index.mapM ((block.load cells).readIndex rt disk search true) with
        | error panic => rfl
        | ok indexed =>
          show Except.ok _ = Except.ok _
          simp only [List.map_append, List.map_flatten]

theorem map_cellAt_range (front values after : List (Value Double)) :
    (List.range' front.length values.length).map (cellAt (front ++ values ++ after)) = values := by
  apply List.ext_getElem
  · simp
  · intro place inside inside'
    rw [List.getElem_map, List.getElem_range', Nat.one_mul, cellAt, List.append_assoc,
      List.getElem?_append_right (Nat.le_add_right _ _), Nat.add_sub_cancel_left, List.getElem?_append_left inside',
      List.getElem?_eq_getElem inside', Option.getD_some]

/-- What is in the cells of streams from a file is what was read. -/
theorem load_allocate (cells : List (Value Double)) (streams : List (Stream Double)) :
    (allocate cells streams).2.map (ValueStream.load (allocate cells streams).1) = streams := by
  induction streams generalizing cells with
  | nil => rfl
  | cons stream streams inductionHypothesis =>
    obtain ⟨more, grown⟩ := isPrefix_allocate (cells ++ stream.value) streams
    rw [allocate, List.map_cons, inductionHypothesis]
    simp only [ValueStream.load]
    rw [← grown, map_cellAt_range]

theorem ValueStream.load_of_prefix {cells grown : List (Value Double)} (grows : cells <+: grown)
    {stream : ValueStream Address} (inside : ∀ address ∈ stream.value, address < cells.length) :
    stream.load grown = stream.load cells := by
  obtain ⟨more, rfl⟩ := grows
  rw [load, load]
  congr 1
  apply List.map_congr_left
  intro address member
  rw [cellAt, cellAt, List.getElem?_append_left (inside address member)]

theorem mem_of_maybeReturnStream {timestamp : Address → UInt64} {search : Search} {stream other : ValueStream Address}
    {found : List (ValueStream Address)} (ran : maybeReturnStream timestamp search stream = .ok found)
    (member : other ∈ found) : other = stream := by
  obtain ⟨matched, _, ran⟩ := Fallible.bind_ok ran
  split at ran
  · cases ran
    cases member
  · split at ran
    · split at ran
      · cases ran
        cases member
      · split at ran
        · cases ran
          cases member
        · cases ran
          exact List.mem_singleton.mp member
    · cases ran
      cases member

theorem mem_of_mapM_maybeReturnStream {timestamp : Address → UInt64} {search : Search}
    {streams : List (ValueStream Address)} {found : List (List (ValueStream Address))}
    (ran : streams.mapM (maybeReturnStream timestamp search) = .ok found) {stream : ValueStream Address}
    (member : stream ∈ found.flatten) : stream ∈ streams := by
  obtain ⟨sent, inside, member⟩ := List.mem_flatten.mp member
  obtain ⟨source, given, ran⟩ := (Fallible.mem_of_mapM_ok ran).1 sent inside
  exact mem_of_maybeReturnStream ran member ▸ given

/-- A block sends streams that it has. -/
theorem CellBlock.mem_of_reader {rt : Runtime Double} {disk : Disk} {cells : List (Value Double)} {block : CellBlock}
    {search : Search} {found : List (ValueStream Address) × List (Stream Double)}
    (ran : block.reader rt disk cells search = .ok found) {stream : ValueStream Address} (member : stream ∈ found.1) :
    stream ∈ block.logs ++ block.newStreams := by
  rw [reader] at ran
  split at ran
  · cases ran
    cases member
  · obtain ⟨logStreams, logs, ran⟩ := Fallible.bind_ok ran
    obtain ⟨newStreams, pending, ran⟩ := Fallible.bind_ok ran
    obtain ⟨indexed, _, ran⟩ := Fallible.bind_ok ran
    cases ran
    cases List.mem_append.mp member with
    | inl logged => exact List.mem_append_left _ (mem_of_mapM_maybeReturnStream logs logged)
    | inr new => exact List.mem_append_right _ (mem_of_mapM_maybeReturnStream pending new)

/-- The reader of the cells panics where the reader of the values does, and else it sends streams of the same
values. -/
theorem CellStore.load_reader (rt : Runtime Double) (arrival : Iteration) (s : CellStore Double) (search : Search) :
    (∀ panic, s.reader rt arrival search = .error panic → s.load.reader rt arrival search true = .error panic) ∧
      ∀ cells delivered, s.reader rt arrival search = .ok (cells, delivered) →
        ∃ values, s.load.reader rt arrival search true = .ok values ∧
          (delivered.map (ValueStream.load cells)).Perm values := by
  have blocks : (Keyed.pairs s.load.blocks).map Prod.snd =
      ((Keyed.pairs s.blocks).map Prod.snd).map (CellBlock.load s.cells) := by
    rw [load, Keyed.pairs_mapValues, List.map_map, List.map_map]
    rfl
  have loaded : (((Keyed.pairs s.blocks).map Prod.snd).map (CellBlock.load s.cells)).mapM
      (fun block => block.reader rt s.disk search true) =
        List.map (fun found => found.1.map (ValueStream.load s.cells) ++ found.2) <$>
          ((Keyed.pairs s.blocks).map Prod.snd).mapM fun block => block.reader rt s.disk s.cells search :=
    Fallible.mapM_map_eq fun block _ => block.load_reader rt s.disk s.cells search
  have load : s.load.reader rt arrival search true =
      (List.map (fun found => found.1.map (ValueStream.load s.cells) ++ found.2) <$>
        ((Keyed.pairs s.blocks).map Prod.snd).mapM fun block => block.reader rt s.disk s.cells search) >>=
          fun delivered => pure (arrival.order delivered.flatten) := by
    rw [← loaded, ← blocks]
    rfl
  rw [load, CellStore.reader]
  cases ran : ((Keyed.pairs s.blocks).map Prod.snd).mapM fun block => block.reader rt s.disk s.cells search with
  | error panic =>
    constructor
    · intro other failed
      cases failed
      rfl
    · intro cells delivered succeeded
      cases succeeded
  | ok delivered =>
    refine ⟨fun _ => nofun, fun cells sent same => ?_⟩
    cases same
    refine ⟨_, rfl, ?_⟩
    -- What was in memory keeps its values when cells are added for what comes from the files.
    have kept : (delivered.flatMap Prod.fst).map (ValueStream.load (allocate s.cells (delivered.flatMap Prod.snd)).1) =
        (delivered.flatMap Prod.fst).map (ValueStream.load s.cells) := by
      apply List.map_congr_left
      intro stream member
      obtain ⟨found, inside, member⟩ := List.mem_flatMap.mp member
      obtain ⟨block, present, here⟩ := (Fallible.mem_of_mapM_ok ran).1 found inside
      obtain ⟨⟨key, block⟩, pair, rfl⟩ := List.mem_map.mp present
      exact ValueStream.load_of_prefix (isPrefix_allocate s.cells _) fun address holds =>
        s.allocated key block (Keyed.mem_pairs.mp pair) stream (CellBlock.mem_of_reader here member) address holds
    have parts := List.flatMap_append_perm delivered (fun found => found.1.map (ValueStream.load s.cells)) Prod.snd
    refine ((arrival.perm _).map _).trans (.trans ?_ (arrival.perm _).symm)
    rw [List.map_append, kept, load_allocate, List.map_flatMap, ← List.flatMap_def]
    exact parts

/-! ## The goroutines of a request -/

/-- A request with the most values that a stream of the response is to have. -/
structure LimitedRequest extends GetRequest where
  maxValues : Option UInt32

/-- What the goroutines share: the values, and of each stream of the response the values that its writer has kept. -/
structure GetMemory (Double : Type) where
  cells : List (Value Double)
  response : List (List Address)

/-- A value as a mutation receives it. -/
def GetMemory.item (memory : GetMemory Double) (v : Address) : Item Address Double :=
  { origin := some v, value := cellAt memory.cells v }

def GetMemory.set (memory : GetMemory Double) (v : Address) (value : Value Double) : GetMemory Double :=
  { memory with cells := memory.cells.set v value }

/-- A new value, at the first free address. -/
def GetMemory.new (memory : GetMemory Double) (value : Value Double) : GetMemory Double :=
  { memory with cells := memory.cells ++ [value] }

def GetMemory.written (memory : GetMemory Double) (index : Nat) : List Address := memory.response[index]?.getD []

def GetMemory.setWritten (memory : GetMemory Double) (index : Nat) (values : List Address) : GetMemory Double :=
  { memory with response := memory.response.set index values }

/-- Where a goroutine of `Get` stands, with its variables. -/
inductive GetPoint (Double : Type) where
  | merge (streams : List (List Address))
  | merged (v : Address) (streams : List (List Address))
  | relay
  | relayed (v : Address)
  /-- The values that are sent before the goroutine goes on. -/
  | deliver (sent : List (Item Address Double)) (next : GetPoint Double)
  | mean (duration : UInt64) (state : MeanState Double)
  | meanOf (duration : UInt64) (state : MeanState Double) (v : Address)
  | signedRate (state : RateState Double)
  | signedRateOf (state : RateState Double) (v : Address)
  | nonNegative
  | nonNegativeOf (v : Address)
  | extreme (greatest : Bool) (duration : UInt64) (state : ExtremeState Double)
  | extremeOf (greatest : Bool) (duration : UInt64) (state : ExtremeState Double) (v : Address)
  | interpolate (duration : UInt64) (previous : Option Address) (timestamp : UInt64)
  /-- Interpolation has received its first value. -/
  | interpolateFirst (duration : UInt64) (v : Address)
  | onBoundary (duration : UInt64) (v : Address)
  | behindFirst (duration : UInt64) (v : Address)
  | interpolateNext (duration : UInt64) (previous v : Address) (timestamp : UInt64)
  | fill (duration : UInt64) (previous v : Address) (rate : Double) (timestamp : UInt64)
  | filled (duration : UInt64) (previous v new : Address) (rate : Double) (timestamp : UInt64)
  | behindFill (duration : UInt64) (previous v : Address) (timestamp : UInt64)
  | passOn (duration : UInt64) (v : Address) (timestamp : UInt64)
  /-- The loop of `Get` over the values of a group. -/
  | answer (index : Nat) (valueCount : UInt32) (groups : List (List (ValueStream Address)))
  | answerOf (index : Nat) (valueCount : UInt32) (groups : List (List (ValueStream Address))) (v : Address)
  | answerWith (index : Nat) (valueCount : UInt32) (groups : List (List (ValueStream Address))) (v : Address)
  | closeWriter (index : Nat) (valueCount : UInt32) (groups : List (List (ValueStream Address)))
  | limit (index : Nat) (valueCount : UInt32) (groups : List (List (ValueStream Address)))
  | nextGroup (groups : List (List (ValueStream Address)))
  | startGroup (index : Nat) (group : List (ValueStream Address)) (groups : List (List (ValueStream Address)))
  | writer (index : Nat)
  /-- The writer of a stream of the response has received a value. -/
  | write (index : Nat) (v : Address)
  | stopped
  | panicked

namespace GetPoint

/-- The goroutines that are started for a mutation: `MutateValues` hands the values over to the mutation. -/
def mutation (arithmetic : Arithmetic Double) (mutation : StreamMutation) : List (GetPoint Double) :=
  match mutation.sampleType with
  | .none => [.relay, .interpolate mutation.duration none 0]
  | .average => [.relay, .mean mutation.duration (@Mutations.mean Address _ arithmetic mutation.duration).start]
  | .min => [.relay, .extreme false mutation.duration (@Mutations.min Address _ arithmetic mutation.duration).start]
  | .max => [.relay, .extreme true mutation.duration (@Mutations.max Address _ arithmetic mutation.duration).start]
  | .rate => [.relay, .signedRate none, .nonNegative]
  | .rateSigned => [.relay, .signedRate none]
  | .delta | .latest => []

/-- The goroutines of a group, with the loop of `Get` in front of its writer. -/
def pipeline (arithmetic : Arithmetic Double) (request : LimitedRequest) (index : Nat)
    (group : List (ValueStream Address)) (groups : List (List (ValueStream Address))) : List (GetPoint Double) :=
  .merge (group.map ValueStream.value) ::
    (request.mutation.flatMap (mutation arithmetic) ++ [.answer index 0 groups, .writer index])

/-- `newstream.Value[uint32(len(newstream.Value))-request.GetMaxValues():]`, where the limit is reached. -/
def limited (maxValues : Option UInt32) (valueCount : UInt32) (values : List Address) : Option (List Address) :=
  match maxValues with
  | none => some values
  | some maxValues =>
    if valueCount ≥ maxValues then
      let low := UInt32.ofNat values.length - maxValues
      if low.toNat ≤ values.length then some (values.drop low.toNat) else none
    else some values

/-! ### What they do -/

/-- `Interpolate` with its first value.  A value off the boundaries is itself moved to the one before it. -/
def first (duration : UInt64) (v : Address) (memory : GetMemory Double) : GetMemory Double × GetPoint Double :=
  let value := cellAt memory.cells v
  match Mutations.remainder value.timestamp duration with
  | .error _ => (memory, .panicked)
  | .ok rest =>
    if rest = 0 then (memory, .onBoundary duration v)
    else
      let boundary := value.timestamp / duration * duration
      (memory.set v { value with timestamp := boundary }, .interpolate duration (some v) (boundary + duration))

/-- The body of the loop that fills in missing values. -/
def fillIn (arithmetic : Arithmetic Double) (duration : UInt64) (previous v : Address) (rate : Double)
    (timestamp : UInt64) (memory : GetMemory Double) : GetMemory Double × GetPoint Double :=
  let last := memory.item previous
  if timestamp ≤ (cellAt memory.cells v).timestamp then
    let pct := arithmetic.div (arithmetic.ofUInt64 (timestamp - last.timestamp))
      (arithmetic.ofUInt64 ((cellAt memory.cells v).timestamp - last.timestamp))
    let newValue := arithmetic.add (last.getDoubleValue arithmetic) (arithmetic.mul rate pct)
    (memory.new (@Item.new Address _ timestamp newValue).value,
      .filled duration previous v memory.cells.length rate timestamp)
  else (memory, .behindFill duration previous v timestamp)

/-- `ValueStreamWriter` with a value: it appends the value, or ends the last one of the stream with it. -/
def keep (arithmetic : Arithmetic Double) (index : Nat) (v : Address) (memory : GetMemory Double) :
    GetMemory Double × GetPoint Double :=
  match (memory.written index).getLast? with
  | none => (memory.setWritten index (memory.written index ++ [v]), .writer index)
  | some last =>
    let lastValue := cellAt memory.cells last
    let value := cellAt memory.cells v
    if lastValue.repeats arithmetic.eq arithmetic.zero value then
      (memory.set last (lastValue.extend value), .writer index)
    else (memory.setWritten index (memory.written index ++ [v]), .writer index)

def program (arithmetic : Arithmetic Double) (request : LimitedRequest) :
    GetPoint Double → Instruction (GetPoint Double) Address (GetMemory Double)
  | merge streams => .compute fun memory =>
    match mergeTurn (fun v => (cellAt memory.cells v).timestamp) none streams with
    | (none, _) => (memory, stopped)
    | (some v, rest) => (memory, merged v rest)
  | merged v streams => .send v (merge streams)
  | relay => .receive fun received => received.elim stopped relayed
  | relayed v => .send v relay
  | deliver [] next => .compute fun memory => (memory, next)
  | deliver (item :: sent) next =>
    match item.origin with
    | some v => .send v (deliver sent next)
    | none => .compute fun memory =>
      (memory.new item.value, deliver ({ item with origin := some memory.cells.length } :: sent) next)
  | mean duration state => .receive fun received =>
    received.elim (deliver ((Mutations.meanFinish arithmetic state).filterMap Effect.sent) stopped)
      (meanOf duration state)
  | meanOf duration state v => .compute fun memory =>
    let turn := Mutations.meanTurn arithmetic duration state (memory.item v)
    (memory, deliver (turn.1.filterMap Effect.sent) (mean duration turn.2))
  | signedRate state => .receive fun received => received.elim stopped (signedRateOf state)
  | signedRateOf state v => .compute fun memory =>
    let turn := Mutations.signedRateTurn arithmetic state (memory.item v)
    (memory, deliver (turn.1.filterMap Effect.sent) (signedRate turn.2))
  | nonNegative => .receive fun received => received.elim stopped nonNegativeOf
  | nonNegativeOf v => .compute fun memory =>
    if arithmetic.le arithmetic.zero ((memory.item v).getDoubleValue arithmetic) then
      (memory, deliver [memory.item v] nonNegative)
    else (memory, nonNegative)
  | extreme greatest duration state => .receive fun received =>
    received.elim stopped (extremeOf greatest duration state)
  | extremeOf greatest duration state v => .compute fun memory =>
    let better := if greatest then fun first second => arithmetic.lt second first else arithmetic.lt
    let turn := Mutations.extremeTurn arithmetic better duration state (memory.item v)
    (memory, deliver (turn.1.filterMap Effect.sent) (extreme greatest duration turn.2))
  | interpolate duration none _ => .receive fun received => received.elim stopped (interpolateFirst duration)
  | interpolate duration (some previous) timestamp => .receive fun received =>
    received.elim stopped fun v => interpolateNext duration previous v timestamp
  | interpolateFirst duration v => .compute (first duration v)
  | onBoundary duration v => .send v (behindFirst duration v)
  | behindFirst duration v => .compute fun memory =>
    (memory, interpolate duration (some v) ((cellAt memory.cells v).timestamp + duration))
  | interpolateNext duration previous v timestamp => .compute fun memory =>
    if (cellAt memory.cells v).timestamp ≥ timestamp then
      let rate := arithmetic.sub ((memory.item v).getDoubleValue arithmetic)
        ((memory.item previous).getDoubleValue arithmetic)
      (memory, fill duration previous v rate timestamp)
    else (memory, interpolate duration (some previous) timestamp)
  | fill duration previous v rate timestamp => .compute (fillIn arithmetic duration previous v rate timestamp)
  | filled duration previous v new rate timestamp => .send new (fill duration previous v rate (timestamp + duration))
  | behindFill duration previous v timestamp => .compute fun memory =>
    if (cellAt memory.cells previous).timestamp < (cellAt memory.cells v).timestamp then
      -- The first value was divided by the duration, so that it is not zero.
      if (cellAt memory.cells v).timestamp % duration = 0 then (memory, passOn duration v timestamp)
      else (memory, interpolate duration (some v) timestamp)
    else (memory, interpolate duration (some previous) timestamp)
  | passOn duration v timestamp => .send v (interpolate duration (some v) (timestamp + duration))
  | answer index valueCount groups => .receive fun received =>
    received.elim (closeWriter index valueCount groups) (answerOf index valueCount groups)
  | answerOf index valueCount groups v => .compute fun memory =>
    if inRange request.minTimestamp request.maxTimestamp (cellAt memory.cells v) then
      (memory, answerWith index valueCount groups v)
    else (memory, answer index valueCount groups)
  | answerWith index valueCount groups v => .send v (answer index (valueCount + 1) groups)
  -- `Get` goes on behind the loop while the writer may still have to take up its last value.
  | closeWriter index valueCount groups => .start [limit index valueCount groups] stopped
  | limit index valueCount groups => .compute fun memory =>
    match limited request.maxValues valueCount (memory.written index) with
    | none => (memory, panicked)
    | some values => (memory.setWritten index values, nextGroup groups)
  | nextGroup [] => .stop
  | nextGroup (group :: groups) => .compute fun memory =>
    ({ memory with response := memory.response ++ [[]] }, startGroup memory.response.length group groups)
  | startGroup index group groups => .start (pipeline arithmetic request index group groups) stopped
  | writer index => .receive fun received => received.elim stopped (write index)
  | write index v => .compute (keep arithmetic index v)
  | stopped => .stop
  | panicked => .panic

end GetPoint

/-! ## The request -/

abbrev GetState (Double : Type) := Goroutines.State (GetPoint Double) (GetMemory Double)

/-- `Get` behind `Reader` and `MergeStreamsBy`, which write no value; an answer with an error starts no goroutine. -/
def CellStore.get (rt : Runtime Double) (arrival : Iteration) (maps : MapOrders) (s : CellStore Double)
    (request : LimitedRequest) : Except Panic (GetState Double) :=
  match request.streamVariable with
  | none => .ok { memory := { cells := s.cells, response := [] }, goroutines := [] }
  | some p =>
    if p.parsed.name = [] then .ok { memory := { cells := s.cells, response := [] }, goroutines := [] }
    else do
      let (cells, delivered) ← s.reader rt arrival (request.search p)
      let mergeBy ← mergeLabel request.aggregation
      let groups ← mergeStreamsBy maps delivered mergeBy
      return { memory := { cells, response := [] }, goroutines := [.nextGroup groups] }

def LimitedRequest.step (arithmetic : Arithmetic Double) (request : LimitedRequest) :
    GetState Double → Nat → Option (GetState Double) :=
  Goroutines.State.step (GetPoint.program arithmetic request)

end OpenInstrument
