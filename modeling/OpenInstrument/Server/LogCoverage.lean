import OpenInstrument.Server.Flushing
import OpenInstrument.Server.LogStreams
import OpenInstrument.Server.ProtoStreamRoundTrip

/-! # What a reindexed log covers

Values are recorded, the record log is flushed from time to time, and it is reindexed.  A value that repeats the last
one of its variable is logged with the time of the first, so that the reindexer takes it for a value of that time.
For every value the reindexer looks at the last one that was collected, whether there is one or not.
-/

namespace OpenInstrument.Server

/-! ## Recording and flushing -/

/-- The store with what is in the file of its record log. -/
structure Logging where
  store : DiskDatastore
  content : Bytes

def Logging.start : Logging := { store := .empty, content := [] }

/-- A call of `Record`, or of `Flush` with the writes that fall short unless the file cannot be opened. -/
inductive LogAction where
  | record (call : RecordCall)
  | flush (opened : Option (Nat → Option Nat))

def LogAction.call : LogAction → Option RecordCall
  | .record call => some call
  | .flush _ => none

/-- The values that are recorded, with their variables and times. -/
def recordCalls (actions : List LogAction) : List RecordCall := actions.filterMap LogAction.call

section Codec

variable (crc : Bytes → UInt16) (codec : Codec ValueStream)

def Logging.act (state : Logging) : LogAction → Logging
  | .record call => { state with store := state.store.record call }
  | .flush opened =>
    let file := opened.map fun short => { content := state.content, position := state.content.length, short }
    let after := Server.flush crc codec file state.store.recordLog
    { store := { state.store with recordLog := after.log }
      content := after.file.elim state.content File.content }

def Logging.run (state : Logging) (actions : List LogAction) : Logging := actions.foldl (Logging.act crc codec) state

/-! ## What is read while collecting -/

/-- The index of the last value, as it is computed in front of each turn of the inner loop. -/
def lastIndex (values : List (Value UInt64)) : Int := values.length - 1

/-- The indices that the inner loop reads lie in the list. -/
def ValuesInRange : List (Value UInt64) → List (Value UInt64) → Prop
  | _, [] => True
  | values, oldvalue :: rest =>
    (0 ≤ lastIndex values ∧ lastIndex values < values.length) ∧ ValuesInRange (collectValue values oldvalue) rest

/-- The values that are known of the variable of a stream. -/
def knownValues (logData : LogData) (stream : ValueStream) : List (Value UInt64) :=
  (logData.lookup (printed stream)).elim [] ValueStream.value

/-- The indices that `ReindexRecordLogFile` reads lie in the lists. -/
def IndexesInRange : LogData → List ValueStream → Prop
  | _, [] => True
  | logData, stream :: rest =>
    (printed stream ≠ [] → ValuesInRange (knownValues logData stream) stream.value) ∧
      IndexesInRange (collectStream logData stream) rest

/-! ## Coverage -/

/-- What was recorded is in the log data: a value with the same double and string whose interval holds the time. -/
def CoversCall (logData : LogData) (call : RecordCall) : Prop :=
  ∃ stream, logData.lookup call.variable_.toString = some stream ∧ ∃ value ∈ stream.value,
    Option.Rel SameDouble value.doubleValue call.value.doubleValue ∧ value.stringValue = call.value.stringValue ∧
      value.timestamp ≤ call.timestamp ∧ call.timestamp ≤ lastTimestamp value

/-- Reindexing stays inside its lists, and keeps the time coverage of what was recorded. -/
def KeepsCoverage (content : Bytes) (calls : List RecordCall) : Prop :=
  IndexesInRange .empty (protoStreamRead crc codec content) ∧
    ∀ call ∈ calls, CoversCall (reindexRecordLogFile crc codec content) call

end Codec

variable {crc : Bytes → UInt16} {codec : Codec ValueStream}

theorem SameDouble.trans {first second third : UInt64} (left : SameDouble first second)
    (right : SameDouble second third) : SameDouble first third := by
  cases left with
  | inl same => exact same ▸ right
  | inr left => exact .trans_doubleEq left right

theorem sameDoubles_trans {first second third : Option UInt64} (left : Option.Rel SameDouble first second)
    (right : Option.Rel SameDouble second third) : Option.Rel SameDouble first third := by
  cases right with
  | none => exact left
  | some later =>
    cases left with
    | some earlier => exact .some (earlier.trans later)

/-- Apart from the index in front of the list: what an entry of the log says of a recorded value stays covered when the
entries of its variable that repeat a run have its double and string, do not start before its end, and end where they
start.  `Record` logs a repeated value with the time of the first and ends it later, so that its end is lost. -/
theorem coversCall_of_orderly {messages : List ValueStream} {message : ValueStream} (member : message ∈ messages)
    (named : printed message ≠ []) (orderly : Orderly (valuesOf (printed message) messages)) {value : Value UInt64}
    (inside : value ∈ message.value) {call : RecordCall} (variable_ : call.variable_.toString = printed message)
    (double : Option.Rel SameDouble value.doubleValue call.value.doubleValue)
    (string : value.stringValue = call.value.stringValue) (start : value.timestamp ≤ call.timestamp)
    (finish : call.timestamp ≤ lastTimestamp value) : CoversCall (messages.foldl collectStream .empty) call := by
  obtain ⟨first, -, -, stream⟩ := streamOf_of_mem member
  obtain ⟨run, kept, covers⟩ := runs_cover orderly value (mem_valuesOf member inside)
  have collected := (lookup_collected messages (printed message)).trans ((if_neg named).trans stream)
  refine ⟨_, (congrArg _ variable_).trans collected, run, kept, sameDoubles_trans covers.double double, covers.string.trans string,
    UInt64.le_trans covers.start start, UInt64.le_trans finish covers.finish⟩

def Vacant (logData : LogData) : Prop := ∀ key stream, logData.lookup key = some stream → stream.value = []

/-- The first value of a variable is looked for in front of the list. -/
theorem not_valuesInRange (oldvalue : Value UInt64) (rest : List (Value UInt64)) :
    ¬ ValuesInRange [] (oldvalue :: rest) := by
  intro inRange
  have first : (0 : Int) ≤ lastIndex [] := inRange.1.1
  simp [lastIndex] at first

theorem Vacant.collectStream {logData : LogData} (vacant : Vacant logData) {stream : ValueStream}
    (inRange : printed stream ≠ [] → ValuesInRange (knownValues logData stream) stream.value) :
    Vacant (collectStream logData stream) := by
  rw [Server.collectStream]
  by_cases unnamed : printed stream = []
  · rw [printed] at unnamed
    simpa only [unnamed, if_true] using vacant
  · have none_ : knownValues logData stream = [] := by
      rw [knownValues]
      cases known : logData.lookup (printed stream) with
      | none => rfl
      | some other => exact vacant _ other known
    have empty : stream.value = [] := by
      have inRange := inRange unnamed
      rw [none_] at inRange
      cases values : stream.value with
      | nil => rfl
      | cons oldvalue rest =>
        rw [values] at inRange
        exact absurd inRange (not_valuesInRange oldvalue rest)
    rw [printed] at unnamed
    simp only [unnamed, if_false, empty, List.foldl_nil]
    intro key other found
    by_cases here : key = (fromProtobuf stream.streamVariable).toString
    · subst here
      rw [OrderedMap.lookup_set] at found
      cases Option.some.inj found
      cases known : logData.lookup (fromProtobuf stream.streamVariable).toString with
      | none => rfl
      | some old => exact vacant _ old known
    · rw [OrderedMap.lookup_set_ne here] at found
      exact vacant key other found

/-- Whoever reads inside the lists collects nothing. -/
theorem Vacant.collected {logData : LogData} (vacant : Vacant logData) {streams : List ValueStream}
    (inRange : IndexesInRange logData streams) : Vacant (streams.foldl Server.collectStream logData) := by
  induction streams generalizing logData with
  | nil => exact vacant
  | cons stream streams inductionHypothesis => exact inductionHypothesis (vacant.collectStream inRange.1) inRange.2

/-- Without a recorded value nothing comes into the log. -/
theorem Logging.run_unrecorded {actions : List LogAction} (none_ : recordCalls actions = []) :
    (Logging.start.run crc codec actions).content = [] := by
  have run : ∀ state : Logging, state.store.recordLog = [] → state.content = [] →
      (state.run crc codec actions).content = [] := by
    induction actions with
    | nil => exact fun _ _ content => content
    | cons action actions inductionHypothesis =>
      intro state log content
      cases action with
      | record call => cases none_
      | flush opened =>
        have still : (flush crc codec (opened.map fun short =>
            { content := state.content, position := state.content.length, short }) state.store.recordLog) =
            { file := opened.map fun short =>
                { content := state.content, position := state.content.length, short }, log := [], result := true } := by
          rw [log]
          rfl
        apply inductionHypothesis none_
        · show (flush crc codec _ state.store.recordLog).log = []
          rw [still]
        · show (flush crc codec _ state.store.recordLog).file.elim state.content File.content = []
          rw [still]
          cases opened with
          | none => exact content
          | some short => exact content
  exact run .start rfl rfl

/-- However values are recorded and the log is flushed, reindexing meets what is said of it only when there is
nothing to reindex. -/
theorem keepsCoverage_iff (actions : List LogAction) :
    KeepsCoverage crc codec (Logging.start.run crc codec actions).content (recordCalls actions) ↔
      recordCalls actions = [] := by
  constructor
  · intro keeps
    obtain ⟨inRange, covered⟩ := keeps
    have empty : Vacant OrderedMap.empty := fun key stream found => by cases found
    have vacant := empty.collected inRange
    apply List.eq_nil_iff_forall_not_mem.mpr
    intro call member
    obtain ⟨stream, found, value, inside, -⟩ := covered call member
    rw [vacant _ stream found] at inside
    cases inside
  · intro none_
    have unread : protoStreamRead crc codec [] = [] := by
      rw [protoStreamRead, Scan.collect, next_end [] (Nat.zero_le _)]
    rw [KeepsCoverage, Logging.run_unrecorded none_, none_, unread]
    exact ⟨trivial, fun _ member => by cases member⟩

def cpuVariable : Variable := { name := ascii "cpu", labels := .empty, type := .unknown }

/-- Two equal samples of a variable, at the times 1 and 2, are recorded and flushed. -/
def twoSamples : List LogAction :=
  [.record (Sample.call cpuVariable ⟨1, 0⟩), .record (Sample.call cpuVariable ⟨2, 0⟩), .flush (some fun _ => none)]

/-- The list is read in front of its beginning, and what is collected ends at the time 1. -/
theorem keepsCoverage_fails :
    (Logging.start.run crc16 valueStreamCodec twoSamples).store.recordLog = [] ∧
      ¬ KeepsCoverage crc16 valueStreamCodec (Logging.start.run crc16 valueStreamCodec twoSamples).content
        (recordCalls twoSamples) := by
  refine ⟨by decide, fun keeps => ?_⟩
  obtain ⟨stream, found, value, inside, -, -, -, ends⟩ :=
    keeps.2 (Sample.call cpuVariable ⟨2, 0⟩) (by simp [recordCalls, twoSamples, LogAction.call])
  have early : ∀ entry ∈ (reindexRecordLogFile crc16 valueStreamCodec
      (Logging.start.run crc16 valueStreamCodec twoSamples).content).entries,
      ∀ value ∈ entry.2.value, lastTimestamp value = 1 := by decide +kernel
  rw [early _ (OrderedMap.mem_entries.mpr found) value inside] at ends
  exact absurd ends (by decide)

end OpenInstrument.Server
