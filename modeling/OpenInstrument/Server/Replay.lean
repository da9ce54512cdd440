import OpenInstrument.Server.Messages
import OpenInstrument.Server.ProtoStreamRoundTrip
import Mathlib.Data.List.Induction

/-! # Replaying the record log

The log has an entry for every recorded value: for a value that was merged, the merged value with the
timestamp of the first of its run.  Replaying records each entry at its own timestamp, so a merged
entry moves the end of its run to the start of it.  Replaying gives the store back as long as every
value that is merged has the timestamp of the value into which it is merged.
-/

namespace OpenInstrument.Server

variable {crc : Bytes → UInt16} {codec : Codec ValueStream}

/-! ## Merging a merged value again -/

theorem doubleEq_self (bits : UInt64) : doubleEq bits bits = !isNaN bits := by
  simp [doubleEq]

theorem mergeValue_double {last value : Value UInt64} (repeats : repeatsDouble last value = true)
    (timestamp : UInt64) :
    mergeValue last timestamp value =
      some { last with doubleValue := some (getDoubleValue value), endTimestamp := some timestamp } :=
  if_pos repeats

theorem mergeValue_string {last value : Value UInt64} (noDouble : repeatsDouble last value = false)
    (repeats : repeatsString last value = true) (timestamp : UInt64) :
    mergeValue last timestamp value =
      some { last with stringValue := some (getStringValue value), endTimestamp := some timestamp } := by
  rw [mergeValue, noDouble, if_neg (by decide), if_pos repeats]

theorem mergeValue_none {last value : Value UInt64} {timestamp : UInt64}
    (unmerged : mergeValue last timestamp value = none) :
    repeatsDouble last value = false ∧ repeatsString last value = false := by
  unfold mergeValue at unmerged
  split at unmerged
  · cases unmerged
  · split at unmerged
    · cases unmerged
    · rename_i noDouble noString
      exact ⟨by simpa using noDouble, by simpa using noString⟩

/-- The value can be replayed from what was logged for it: merged again at its own timestamp, the merged
value stays as it is. -/
def MergesAgain (last : Value UInt64) (timestamp : UInt64) (value : Value UInt64) : Prop :=
  (repeatsDouble last value = true → timestamp = last.timestamp) ∧
    (repeatsDouble last value = false → repeatsString last value = true →
      timestamp = last.timestamp ∧
        (last.doubleValue.isSome = true → isNaN (getDoubleValue last) = false →
          last.stringValue.isSome = true))

/-- A value with the double of the last one repeats it unless it is not a number. -/
theorem repeatsDouble_own {last value : Value UInt64} (same : value.doubleValue = last.doubleValue) :
    repeatsDouble last value = (last.doubleValue.isSome && !isNaN (getDoubleValue last)) := by
  rw [← doubleEq_self, repeatsDouble, getDoubleValue, getDoubleValue, same]

theorem mergeValue_again_double {last value : Value UInt64} {timestamp : UInt64}
    (repeats : repeatsDouble last value = true) {merged : Value UInt64}
    (merges : mergeValue last timestamp value = some merged) :
    mergeValue last merged.timestamp merged = some merged ↔ timestamp = last.timestamp := by
  rw [mergeValue_double repeats] at merges
  obtain rfl := Option.some.inj merges
  have again : repeatsDouble last
      { last with doubleValue := some (getDoubleValue value), endTimestamp := some timestamp } = true := by
    simp only [repeatsDouble, Bool.and_eq_true] at repeats
    exact repeats.2
  rw [mergeValue_double again]
  simp only [Option.some.injEq, Value.mk.injEq, true_and, getDoubleValue, Option.getD_some]
  exact eq_comm

theorem mergeValue_again_string {last value : Value UInt64} {timestamp : UInt64}
    (noDouble : repeatsDouble last value = false) (repeats : repeatsString last value = true)
    {merged : Value UInt64} (merges : mergeValue last timestamp value = some merged) :
    mergeValue last merged.timestamp merged = some merged ↔
      timestamp = last.timestamp ∧
        (last.doubleValue.isSome = true → isNaN (getDoubleValue last) = false →
          last.stringValue.isSome = true) := by
  rw [mergeValue_string noDouble repeats] at merges
  obtain rfl := Option.some.inj merges
  have strings : getStringValue last = getStringValue value := by
    simp only [repeatsString, Bool.and_eq_true, beq_iff_eq] at repeats
    exact repeats.2
  have doubles : repeatsDouble last
      { last with stringValue := some (getStringValue value), endTimestamp := some timestamp } =
        (last.doubleValue.isSome && !isNaN (getDoubleValue last)) := repeatsDouble_own rfl
  by_cases double : last.doubleValue.isSome = true ∧ isNaN (getDoubleValue last) = false
  · -- The double is taken for repeated, and the string is not looked at.
    rw [double.1, double.2] at doubles
    obtain ⟨bits, held⟩ := Option.isSome_iff_exists.mp double.1
    have text : last.stringValue = some (getStringValue value) ↔ last.stringValue.isSome = true := by
      rw [← strings, getStringValue]
      cases last.stringValue <;> simp
    have required : (last.doubleValue.isSome = true → isNaN (getDoubleValue last) = false →
        last.stringValue.isSome = true) ↔ last.stringValue.isSome = true :=
      ⟨fun requires => requires double.1 double.2, fun has _ _ => has⟩
    rw [mergeValue_double doubles, required, ← text]
    simp only [Option.some.injEq, Value.mk.injEq, true_and, getDoubleValue, held, Option.getD_some]
    rw [and_comm, @eq_comm _ last.timestamp]
  · have noDoubles : (last.doubleValue.isSome && !isNaN (getDoubleValue last)) = false := by
      simpa using double
    rw [noDoubles] at doubles
    have again : repeatsString last
        { last with stringValue := some (getStringValue value), endTimestamp := some timestamp } = true := by
      simp only [repeatsString, Option.isSome_some, Bool.true_and, beq_iff_eq]
      exact strings
    have vacuous : (last.doubleValue.isSome = true → isNaN (getDoubleValue last) = false →
        last.stringValue.isSome = true) :=
      fun present notNaN => absurd ⟨present, notNaN⟩ double
    rw [mergeValue_string doubles again]
    simp only [Option.some.injEq, Value.mk.injEq, true_and, getStringValue, Option.getD_some]
    exact ⟨fun time => ⟨time.symm, vacuous⟩, fun holds => holds.1.symm⟩

theorem mergeValue_again {last value merged : Value UInt64} {timestamp : UInt64}
    (merges : mergeValue last timestamp value = some merged) :
    mergeValue last merged.timestamp merged = some merged ↔ MergesAgain last timestamp value := by
  by_cases byDouble : repeatsDouble last value = true
  · rw [mergeValue_again_double byDouble merges, MergesAgain]
    simp [byDouble]
  · rw [Bool.not_eq_true] at byDouble
    by_cases byString : repeatsString last value = true
    · rw [mergeValue_again_string byDouble byString merges, MergesAgain]
      simp [byDouble, byString]
    · rw [mergeValue, if_neg (by simp [byDouble]), if_neg byString] at merges
      cases merges

/-- A value that is not merged can be replayed from its log entry. -/
theorem mergesAgain_of_none {last value : Value UInt64} {timestamp : UInt64}
    (unmerged : mergeValue last timestamp value = none) : MergesAgain last timestamp value := by
  obtain ⟨noDouble, noString⟩ := mergeValue_none unmerged
  simp [MergesAgain, noDouble, noString]

/-! ## One call -/

/-- Whether a value is merged does not depend on its timestamps. -/
theorem mergeValue_append {last value : Value UInt64} {timestamp : UInt64}
    (unmerged : mergeValue last timestamp value = none) :
    mergeValue last timestamp { value with timestamp } = none := by
  obtain ⟨noDouble, noString⟩ := mergeValue_none unmerged
  have double : repeatsDouble last { value with timestamp } = false := noDouble
  have string : repeatsString last { value with timestamp } = false := noString
  rw [mergeValue, if_neg (by simp [double]), if_neg (by simp [string])]

/-- Recording the logged value at its own timestamp gives the same values again exactly when the value
can be replayed. -/
theorem recordValue_again (values : List (Value UInt64)) (timestamp : UInt64) (value : Value UInt64) :
    (recordValue values (recordValue values timestamp value).2.timestamp
        (recordValue values timestamp value).2).1 = (recordValue values timestamp value).1 ↔
      ∀ last, values.getLast? = some last → MergesAgain last timestamp value := by
  cases present : values.getLast? with
  | none => simp [recordValue, present]
  | some last =>
    simp only [Option.some.injEq, forall_eq']
    cases merges : mergeValue last timestamp value with
    | none =>
      have first : recordValue values timestamp value =
          (values ++ [{ value with timestamp }], { value with timestamp }) := by
        rw [recordValue, present, Option.bind_some, merges]
      have again : (recordValue values timestamp { value with timestamp }).1 =
          values ++ [{ value with timestamp }] := by
        rw [recordValue, present, Option.bind_some, mergeValue_append merges]
      rw [first]
      exact iff_of_true again (mergesAgain_of_none merges)
    | some merged =>
      have first : recordValue values timestamp value = (values.dropLast ++ [merged], merged) := by
        rw [recordValue, present, Option.bind_some, merges]
      rw [first, ← mergeValue_again merges]
      cases second : mergeValue last merged.timestamp merged with
      | none =>
        have appended : (recordValue values merged.timestamp merged).1 =
            values ++ [{ merged with timestamp := merged.timestamp }] := by
          rw [recordValue, present, Option.bind_some, second]
        -- Appended a second time, the value makes the list longer.
        have longer : values ++ [{ merged with timestamp := merged.timestamp }] ≠
            values.dropLast ++ [merged] := by
          intro same
          have sizes := congrArg List.length same
          have nonempty : values ≠ [] := by
            rintro rfl
            cases present
          have positive := List.length_pos_iff.mpr nonempty
          simp at sizes
          omega
        simp only [appended, reduceCtorEq, iff_false]
        exact longer
      | some other =>
        have replaced : (recordValue values merged.timestamp merged).1 = values.dropLast ++ [other] := by
          rw [recordValue, present, Option.bind_some, second]
        rw [replaced]
        simp

/-! ## Runs -/

def recorded (calls : List RecordCall) : DiskDatastore := DiskDatastore.empty.recordAll calls

/-- Two stores hold the same variables with the same values. -/
def SameData (first second : LiveData) : Prop := ∀ key, first.lookup key = second.lookup key

/-- The record log of the calls, flushed to a file, is replayed as the store that they made. -/
def Replays (crc : Bytes → UInt16) (codec : Codec ValueStream) (calls : List RecordCall) : Prop :=
  ∀ short file, protoStreamWriteAll crc codec (File.create short) (recorded calls).recordLog = (file, true) →
    SameData (replayRecordLog (protoStreamRead crc codec file.content)) (recorded calls).liveData

/-- The call can be replayed, given the store before it. -/
def Replayable (liveData : LiveData) (call : RecordCall) : Prop :=
  ∀ stream last, liveData.lookup call.variable_.toString = some stream →
    stream.value.getLast? = some last → MergesAgain last call.timestamp call.value

theorem recordAll_append (store : DiskDatastore) (first second : List RecordCall) :
    store.recordAll (first ++ second) = (store.recordAll first).recordAll second :=
  List.foldl_append

/-- A store is read off at its keys, whatever the order in which they are listed. -/
theorem replayValue_congr {first second : LiveData} (same : SameData first second) (v : Variable)
    (value : Value UInt64) : SameData (replayValue v first value) (replayValue v second value) := by
  intro key
  have stream : getOrCreateVariable first v = getOrCreateVariable second v := by
    rw [getOrCreateVariable, getOrCreateVariable, same]
  by_cases here : key = v.toString
  · subst here
    simp [replayValue, recordNoLog, stream]
  · simp [replayValue, recordNoLog, here, same key]

/-- The log entry of one call. -/
def DiskDatastore.entry (store : DiskDatastore) (call : RecordCall) : ValueStream :=
  { streamVariable := call.variable_.toProtobuf
    value := [(recordNoLog store.liveData call.variable_ call.timestamp call.value).2] }

theorem record_recordLog (store : DiskDatastore) (call : RecordCall) :
    (store.record call).recordLog = store.recordLog ++ [store.entry call] := rfl

theorem replayRecordLog_append (streams : List ValueStream) (stream : ValueStream) :
    replayRecordLog (streams ++ [stream]) = replayStream (replayRecordLog streams) stream := by
  simp [replayRecordLog]

theorem replayStream_entry (liveData : LiveData) (store : DiskDatastore) (call : RecordCall) :
    replayStream liveData (store.entry call) =
      replayValue call.variable_ liveData
        (recordNoLog store.liveData call.variable_ call.timestamp call.value).2 := by
  simp [replayStream, DiskDatastore.entry, fromProtobuf_toProtobuf]

/-- Replaying the entry of a call on the store before it gives the store after it exactly when the call
can be replayed. -/
theorem replayValue_again (liveData : LiveData) (call : RecordCall) :
    SameData
        (replayValue call.variable_ liveData
          (recordNoLog liveData call.variable_ call.timestamp call.value).2)
        (recordNoLog liveData call.variable_ call.timestamp call.value).1 ↔
      Replayable liveData call := by
  have again := recordValue_again (getOrCreateVariable liveData call.variable_).value call.timestamp call.value
  have values : (∀ last, (getOrCreateVariable liveData call.variable_).value.getLast? = some last →
      MergesAgain last call.timestamp call.value) ↔ Replayable liveData call := by
    rw [Replayable, getOrCreateVariable]
    cases liveData.lookup call.variable_.toString with
    | none => simp
    | some stream =>
      simp only [Option.getD_some, Option.some.injEq]
      exact ⟨fun all _ last same => same ▸ all last, fun all last => all stream last rfl⟩
  rw [← values, ← again]
  constructor
  · intro same
    have here := same call.variable_.toString
    simpa [replayValue, recordNoLog] using here
  · intro same key
    by_cases here : key = call.variable_.toString
    · subst here
      simpa [replayValue, recordNoLog] using same
    · simp [replayValue, recordNoLog, here]

theorem SameData.trans {first second third : LiveData} (left : SameData first second)
    (right : SameData second third) : SameData first third :=
  fun key => (left key).trans (right key)

theorem SameData.symm {first second : LiveData} (same : SameData first second) : SameData second first :=
  fun key => (same key).symm

/-- The step: from a store that its log gives back, a call leads to another one exactly when it can be
replayed. -/
theorem record_sameData {store : DiskDatastore} {call : RecordCall}
    (same : SameData (replayRecordLog store.recordLog) store.liveData) :
    SameData (replayRecordLog (store.record call).recordLog) (store.record call).liveData ↔
      Replayable store.liveData call := by
  have entry := replayValue_congr same call.variable_
    (recordNoLog store.liveData call.variable_ call.timestamp call.value).2
  rw [← replayValue_again, record_recordLog, replayRecordLog_append, replayStream_entry]
  exact ⟨entry.symm.trans, entry.trans⟩

/-- The run: the log gives the store back at every moment exactly when each call can be replayed. -/
theorem recordAll_sameData (calls : List RecordCall) :
    (∀ before after, calls = before ++ after →
        SameData (replayRecordLog (recorded before).recordLog) (recorded before).liveData) ↔
      ∀ before call after, calls = before ++ call :: after → Replayable (recorded before).liveData call := by
  have next : ∀ before call, recorded (before ++ [call]) = (recorded before).record call :=
    fun before call => recordAll_append _ before [call]
  constructor
  · intro same before call after split
    have here := same before (call :: after) split
    have there := same (before ++ [call]) after (by simpa using split)
    rw [next] at there
    exact (record_sameData here).mp there
  · intro replayable before
    induction before using List.reverseRecOn with
    | nil => exact fun _ _ _ => rfl
    | append_singleton before call inductionHypothesis =>
      intro after split
      have earlier : calls = before ++ call :: after := by simpa using split
      rw [next]
      exact (record_sameData (inductionHypothesis (call :: after) earlier)).mpr
        (replayable before call after earlier)

/-! ## The record log on disk -/

theorem recordAll_recordLog (store : DiskDatastore) (calls : List RecordCall) :
    ∃ entries, (store.recordAll calls).recordLog = store.recordLog ++ entries := by
  induction calls generalizing store with
  | nil => exact ⟨[], (List.append_nil _).symm⟩
  | cons call calls inductionHypothesis =>
    obtain ⟨entries, later⟩ := inductionHypothesis (store.record call)
    refine ⟨store.entry call :: entries, ?_⟩
    rw [record_recordLog, List.append_assoc] at later
    exact later

/-- The entries of the log are small enough to be read back. -/
def SmallLog (codec : Codec ValueStream) (calls : List RecordCall) : Prop :=
  ∀ entry ∈ (recorded calls).recordLog, (codec.encode entry).length ≤ maxMessageSize

theorem SmallLog.before {before after : List RecordCall} (small : SmallLog codec (before ++ after)) :
    SmallLog codec before := by
  obtain ⟨entries, log⟩ := recordAll_recordLog (recorded before) after
  intro entry member
  apply small entry
  rw [recorded, recordAll_append, ← recorded, log]
  exact List.mem_append_left _ member

/-- A log of small entries is read back from its file as it was written. -/
theorem replays_iff_sameData {calls : List RecordCall} (small : SmallLog codec calls) :
    Replays crc codec calls ↔
      SameData (replayRecordLog (recorded calls).recordLog) (recorded calls).liveData := by
  have fits : ∀ entry ∈ (recorded calls).recordLog, (codec.encode entry).length < 2 ^ 31 := by
    intro entry member
    have bound := small entry member
    simp only [maxMessageSize] at bound
    omega
  have reads : ∀ short file,
      protoStreamWriteAll crc codec (File.create short) (recorded calls).recordLog = (file, true) →
        protoStreamRead crc codec file.content = (recorded calls).recordLog := by
    intro short file written
    obtain ⟨content, -⟩ := (File.create_atEnd short).protoStreamWriteAll written
    have whole : file.content.drop 0 = records crc codec (recorded calls).recordLog := by
      simpa [File.create] using content
    have collects := collects_takeWhile whole fits
    rw [List.takeWhile_eq_self_iff.mpr fun entry member => decide_eq_true (small entry member)] at collects
    exact (protoStreamRead_collects file.content).unique collects
  constructor
  · intro replays
    have complete : (protoStreamWriteAll crc codec (File.create fun _ => none)
        (recorded calls).recordLog).2 = true := protoStreamWriteAll_reliable (fun _ => rfl) fits
    have same := replays (fun _ => none) _ (Prod.ext rfl complete)
    rw [reads _ _ (Prod.ext rfl complete)] at same
    exact same
  · intro same short file written
    rw [reads short file written]
    exact same

/-- The replayed log gives the store back at every moment of a run if each call can be replayed, and
only if it can. -/
theorem replayRecordLog_iff (crc : Bytes → UInt16) (codec : Codec ValueStream) (calls : List RecordCall) :
    (SmallLog codec calls ∧ (∀ before call after, calls = before ++ call :: after →
          Replayable (recorded before).liveData call) →
        ∀ before after, calls = before ++ after → Replays crc codec before) ∧
      (SmallLog codec calls → (∀ before after, calls = before ++ after → Replays crc codec before) →
        ∀ before call after, calls = before ++ call :: after →
          Replayable (recorded before).liveData call) := by
  constructor
  · rintro ⟨small, replayable⟩ before after split
    subst split
    exact (replays_iff_sameData small.before).mpr ((recordAll_sameData _).mpr replayable before after rfl)
  · intro small replays
    refine (recordAll_sameData calls).mp fun before after split => ?_
    have smallBefore : SmallLog codec before := by
      subst split
      exact small.before
    exact (replays_iff_sameData smallBefore).mp (replays before after split)

def repeatedDouble : List RecordCall :=
  let value : Value UInt64 :=
    { timestamp := 0, doubleValue := some 1, stringValue := none, endTimestamp := none }
  let gauge : Variable := { name := ascii "/a", labels := .empty, type := .gauge }
  [{ variable_ := gauge, timestamp := 1, value }, { variable_ := gauge, timestamp := 2, value }]

/-- The end of the run is 2 in the store and 1 in the replayed one. -/
theorem replayRecordLog_differs : ¬Replays crc16 valueStreamCodec repeatedDouble := by
  intro replays
  have complete : (protoStreamWriteAll crc16 valueStreamCodec (File.create fun _ => none)
      (recorded repeatedDouble).recordLog).2 = true := by
    decide
  have same := replays (fun _ => none) _ (Prod.ext rfl complete) (ascii "/a")
  revert same
  decide +kernel

end OpenInstrument.Server
