import Mathlib.Data.List.SplitBy
import OpenInstrument.Library.Handover
import OpenInstrument.Server.RangeReads

/-! # Run-length encoding of a stream

`ValueStreamWriter` appends the values it receives to a stream.  A value that repeats the last one only
moves the end of that one.  What counts as a repetition compares strings and doubles at once, and a field
that is absent reads as the empty string or as zero.
-/

namespace OpenInstrument

open Server (doubleEq isZero isNaN)

variable {Double : Type}

def Value.getStringValue (value : Value Double) : GoString := value.stringValue.getD []

def Value.getDoubleValue (zero : Double) (value : Value Double) : Double := value.doubleValue.getD zero

def Value.getEndTimestamp (value : Value Double) : UInt64 := value.endTimestamp.getD 0

/-- The test of the writer. -/
def Value.repeats (eq : Double → Double → Bool) (zero : Double) (last value : Value Double) : Bool :=
  (!last.getStringValue.isEmpty && last.getStringValue == value.getStringValue) ||
    eq (last.getDoubleValue zero) (value.getDoubleValue zero)

def Value.extend (last value : Value Double) : Value Double :=
  if 0 < value.getEndTimestamp then { last with endTimestamp := value.endTimestamp }
  else { last with endTimestamp := some value.timestamp }

/-- What the goroutine of `ValueStreamWriter` does with a value. -/
def writeValue (eq : Double → Double → Bool) (zero : Double) (written : List (Value Double))
    (value : Value Double) : List (Value Double) :=
  match written.getLast? with
  | none => written ++ [value]
  | some last =>
    if last.repeats eq zero value then written.dropLast ++ [last.extend value] else written ++ [value]

/-! ## The encoding -/

def Value.samePayload [DecidableEq Double] (first second : Value Double) : Bool :=
  first.doubleValue == second.doubleValue && first.stringValue == second.stringValue

/-- One entry for a run, from its first timestamp to its last. -/
def runEntry : List (Value Double) → Option (Value Double)
  | [] => none
  | first :: rest => some { first with endTimestamp := rest.getLast?.map Value.timestamp }

/-- One entry for each maximal run of equal payloads. -/
def runLengthEncoding [DecidableEq Double] (values : List (Value Double)) : List (Value Double) :=
  (values.splitBy Value.samePayload).filterMap runEntry

/-- A double or a string that is not empty, at one time. -/
def Value.Plain (value : Value Double) : Prop :=
  value.endTimestamp = none ∧
    ((value.doubleValue.isSome ∧ value.stringValue = none) ∨
      (value.doubleValue = none ∧ ∃ text ≠ [], value.stringValue = some text))

/-- Where the test of the writer tells two payloads apart as it should: doubles are equal only when they
are the same and not a number that differs from itself, no zero stands beside a string, and two strings
are the same one. -/
def TellsApart (first second : Value UInt64) : Prop :=
  match first.doubleValue, second.doubleValue with
  | some d, some e => doubleEq d e = true ↔ d = e
  | some d, none => isZero d = false
  | none, some e => isZero e = false
  | none, none => first.stringValue = second.stringValue

/-! ## Writing as a recursion over what is to come

Both encodings keep the entry of the run at hand and decide for each value whether it goes on.  The writer
compares it with the entry, the maximal runs with the value before it. -/

/-- The entries from the run at hand on.  `goesOn` sees its entry, its latest value and the next value. -/
def runsFrom (goesOn : Value Double → Value Double → Value Double → Bool) (entry latest : Value Double) :
    List (Value Double) → List (Value Double)
  | [] => [entry]
  | value :: values =>
    if goesOn entry latest value then
      runsFrom goesOn { entry with endTimestamp := some value.timestamp } value values
    else entry :: runsFrom goesOn value value values

theorem extend_of_plain {value : Value Double} (plain : value.Plain) (last : Value Double) :
    last.extend value = { last with endTimestamp := some value.timestamp } := by
  simp [Value.extend, Value.getEndTimestamp, plain.1]

theorem writeValue_append (eq : Double → Double → Bool) (zero : Double) (written : List (Value Double))
    (last value : Value Double) :
    writeValue eq zero (written ++ [last]) value =
      if last.repeats eq zero value then written ++ [last.extend value] else written ++ [last, value] := by
  simp only [writeValue, List.getLast?_append, List.getLast?_singleton, Option.some_or,
    List.dropLast_append_cons, List.dropLast_singleton, List.append_nil, List.append_assoc,
    List.singleton_append]

theorem foldl_writeValue_append (eq : Double → Double → Bool) (zero : Double) {values : List (Value Double)}
    (plain : ∀ value ∈ values, value.Plain) (written : List (Value Double)) (last latest : Value Double) :
    values.foldl (writeValue eq zero) (written ++ [last]) =
      written ++ runsFrom (fun entry _ value => entry.repeats eq zero value) last latest values := by
  induction values generalizing written last latest with
  | nil => rfl
  | cons value values inductionHypothesis =>
    have rest := fun written last => inductionHypothesis (fun other member => plain other (.tail _ member))
      written last value
    rw [List.foldl_cons, writeValue_append, runsFrom, extend_of_plain (plain value (List.mem_cons_self ..))]
    split
    · exact rest _ _
    · have appended := rest (written ++ [last]) value
      rw [List.append_assoc, List.append_assoc] at appended
      exact appended

theorem runEntry_append {run : List (Value Double)} {entry : Value Double} (current : runEntry run = some entry)
    (value : Value Double) :
    runEntry (run ++ [value]) = some { entry with endTimestamp := some value.timestamp } := by
  cases run with
  | nil => cases current
  | cons first rest =>
    cases current
    simp [runEntry]

theorem runEntry_singleton {value : Value Double} (plain : value.Plain) : runEntry [value] = some value := by
  have absent : value.endTimestamp = none := plain.1
  cases value
  subst absent
  rfl

theorem splitBy_loop_eq_runsFrom [DecidableEq Double] {values : List (Value Double)}
    (plain : ∀ value ∈ values, value.Plain) (latest : Value Double)
    (earlier : List (Value Double)) (done : List (List (Value Double))) {entry : Value Double}
    (current : runEntry (earlier.reverse ++ [latest]) = some entry) :
    (List.splitBy.loop Value.samePayload values latest earlier done).filterMap runEntry =
      done.reverse.filterMap runEntry ++
        runsFrom (fun _ latest value => latest.samePayload value) entry latest values := by
  induction values generalizing latest earlier done entry with
  | nil => simp [List.splitBy.loop, runsFrom, current, List.filterMap_append]
  | cons value values inductionHypothesis =>
    have rest := fun earlier done entry => @inductionHypothesis
      (fun other member => plain other (.tail _ member)) value earlier done entry
    rw [List.splitBy.loop, runsFrom]
    cases latest.samePayload value with
    | true =>
      -- The run goes on, and so does the group that `splitBy` is collecting.
      apply rest
      rw [List.reverse_cons]
      exact runEntry_append current value
    | false =>
      have next := rest [] ((latest :: earlier).reverse :: done) _
        (runEntry_singleton (plain value (List.mem_cons_self ..)))
      simpa [List.filterMap_append, current] using next

theorem runLengthEncoding_cons [DecidableEq Double] {first : Value Double} {values : List (Value Double)}
    (plain : ∀ value ∈ first :: values, value.Plain) :
    runLengthEncoding (first :: values) =
      runsFrom (fun _ latest value => latest.samePayload value) first first values := by
  have split := splitBy_loop_eq_runsFrom (fun value member => plain value (.tail _ member)) first [] []
    (runEntry_singleton (plain first (List.mem_cons_self ..)))
  simpa [runLengthEncoding, List.splitBy] using split

/-! ## Where the two recursions part -/

/-- The entries start where their runs do. -/
theorem runsFrom_starts (goesOn : Value Double → Value Double → Value Double → Bool)
    (entry latest : Value Double) (values : List (Value Double)) :
    ∃ front rest, runsFrom goesOn entry latest values = front :: rest ∧ front.timestamp = entry.timestamp ∧
      ∀ later ∈ rest, later.timestamp ∈ values.map Value.timestamp := by
  induction values generalizing entry latest with
  | nil => exact ⟨entry, [], rfl, rfl, by simp⟩
  | cons value values inductionHypothesis =>
    rw [runsFrom]
    split
    · obtain ⟨front, rest, runs, start, starts⟩ :=
        inductionHypothesis { entry with endTimestamp := some value.timestamp } value
      exact ⟨front, rest, runs, start, fun later member => .tail _ (starts later member)⟩
    · obtain ⟨front, rest, runs, start, starts⟩ := inductionHypothesis value value
      refine ⟨entry, front :: rest, by rw [runs], rfl, ?_⟩
      intro later member
      cases member with
      | head => rw [List.map_cons, start]; exact List.mem_cons_self ..
      | tail _ member => exact .tail _ (starts later member)

/-- Where one recursion goes on and the other starts a run, the results differ: no other run starts at
the time of the value. -/
theorem runsFrom_ne (first second : Value Double → Value Double → Value Double → Bool)
    (entry other value : Value Double) {values : List (Value Double)}
    (later : ∀ next ∈ values, value.timestamp < next.timestamp) :
    runsFrom first entry value values ≠ other :: runsFrom second value value values := by
  intro same
  obtain ⟨front, rest, runs, -, starts⟩ := runsFrom_starts first entry value values
  obtain ⟨next, others, runsNext, start, -⟩ := runsFrom_starts second value value values
  rw [runs, runsNext, List.cons.injEq] at same
  have found := starts next (by rw [same.2]; exact List.mem_cons_self ..)
  rw [start, List.mem_map] at found
  obtain ⟨twin, member, equal⟩ := found
  have strictly := later twin member
  rw [equal] at strictly
  exact UInt64.lt_irrefl _ strictly

theorem repeats_congr {entry latest : Value UInt64} (same : entry.samePayload latest = true)
    (value : Value UInt64) : entry.repeats doubleEq 0 value = latest.repeats doubleEq 0 value := by
  simp only [Value.samePayload, Bool.and_eq_true, beq_iff_eq] at same
  simp only [Value.repeats, Value.getStringValue, Value.getDoubleValue, same.1, same.2]

theorem doubleEq_zero_left (bits : UInt64) : doubleEq 0 bits = isZero bits := by
  cases zero : isZero bits with
  | true =>
    have masked : bits &&& 0x7FFFFFFFFFFFFFFF = 0 := by simpa [isZero] using zero
    simp [doubleEq, isNaN, masked, isZero]
  | false =>
    have different : (0 == bits) = false := by
      apply beq_false_of_ne
      intro same
      rw [← same] at zero
      exact absurd zero (by decide)
    simp [doubleEq, zero, different]

theorem doubleEq_zero_right (bits : UInt64) : doubleEq bits 0 = isZero bits := by
  rw [← doubleEq_zero_left, Bool.eq_iff_iff]
  exact ⟨Server.doubleEq_symm, Server.doubleEq_symm⟩

/-- The test is right where it tells the payloads apart. -/
theorem tellsApart_iff {first second : Value UInt64} (plainFirst : first.Plain) (plainSecond : second.Plain) :
    TellsApart first second ↔ first.repeats doubleEq 0 second = first.samePayload second := by
  obtain ⟨_, payloadFirst⟩ := plainFirst
  obtain ⟨_, payloadSecond⟩ := plainSecond
  simp only [TellsApart, Value.repeats, Value.samePayload, Value.getStringValue, Value.getDoubleValue]
  cases payloadFirst with
  | inl double =>
    obtain ⟨d, present⟩ := Option.isSome_iff_exists.mp double.1
    cases payloadSecond with
    | inl double' =>
      obtain ⟨e, present'⟩ := Option.isSome_iff_exists.mp double'.1
      simp only [present, present', double.2, double'.2]
      cases equal : doubleEq d e <;> simp [equal]
    | inr string =>
      obtain ⟨text, nonempty, present'⟩ := string.2
      simp [present, double.2, string.1, present', doubleEq_zero_right]
  | inr string =>
    obtain ⟨text, nonempty, present⟩ := string.2
    cases payloadSecond with
    | inl double =>
      obtain ⟨e, present'⟩ := Option.isSome_iff_exists.mp double.1
      simp [present, present', double.2, string.1, doubleEq_zero_left]
    | inr string' =>
      -- Both doubles read as zero, so the test takes any two strings for the same.
      obtain ⟨other, nonempty', present'⟩ := string'.2
      have zeros : doubleEq 0 0 = true := by decide
      simp [present, present', string.1, string'.1, zeros]

theorem runsFrom_eq_iff {entry latest : Value UInt64} {values : List (Value UInt64)}
    (same : entry.samePayload latest = true) (plain : ∀ value ∈ latest :: values, value.Plain)
    (increasing : (latest :: values).Pairwise fun first second => first.timestamp < second.timestamp) :
    runsFrom (fun entry _ value => entry.repeats doubleEq 0 value) entry latest values =
        runsFrom (fun _ latest value => latest.samePayload value) entry latest values ↔
      (latest :: values).IsChain TellsApart := by
  induction values generalizing entry latest with
  | nil => simp [runsFrom]
  | cons value values inductionHypothesis =>
    have plainValue : value.Plain := plain value (by simp)
    have plainRest : ∀ other ∈ value :: values, other.Plain := fun other member => plain other (.tail _ member)
    have increasingRest := (List.pairwise_cons.mp increasing).2
    have later := (List.pairwise_cons.mp increasingRest).1
    have self : value.samePayload value = true := by simp [Value.samePayload]
    rw [List.isChain_cons_cons, tellsApart_iff (plain latest (List.mem_cons_self ..)) plainValue, runsFrom,
      runsFrom, repeats_congr same]
    cases goesOn : latest.repeats doubleEq 0 value with
    | true =>
      cases repeated : latest.samePayload value with
      | true =>
        have entrySame : Value.samePayload { entry with endTimestamp := some value.timestamp } value = true := by
          simp only [Value.samePayload, Bool.and_eq_true, beq_iff_eq] at same repeated ⊢
          exact ⟨same.1.trans repeated.1, same.2.trans repeated.2⟩
        simpa [repeated] using inductionHypothesis entrySame plainRest increasingRest
      | false => simpa [repeated] using runsFrom_ne _ _ _ entry value later
    | false =>
      cases repeated : latest.samePayload value with
      | true => simpa [repeated] using (runsFrom_ne _ _ _ entry value later).symm
      | false => simpa [repeated] using inductionHypothesis self plainRest increasingRest

/-- The writer encodes the runs of the values exactly when its test tells the payloads of all consecutive
values apart. -/
theorem writer_encodes_iff (values : List (Value UInt64)) (plain : ∀ value ∈ values, value.Plain)
    (increasing : values.Pairwise fun first second => first.timestamp < second.timestamp) :
    values.foldl (writeValue doubleEq 0) [] = runLengthEncoding values ↔ values.IsChain TellsApart := by
  cases values with
  | nil => simp [runLengthEncoding, List.splitBy]
  | cons first values =>
    have self : first.samePayload first = true := by simp [Value.samePayload]
    have written := foldl_writeValue_append doubleEq 0 (fun value member => plain value (.tail _ member))
      [] first first
    rw [List.foldl_cons, runLengthEncoding_cons plain, ← runsFrom_eq_iff self plain increasing]
    exact Eq.congr_left written

def stringAt (timestamp : UInt64) (text : GoString) : Value UInt64 :=
  { timestamp, doubleValue := none, stringValue := some text, endTimestamp := none }

def doubleAt (timestamp : UInt64) (bits : UInt64) : Value UInt64 :=
  { timestamp, doubleValue := some bits, stringValue := none, endTimestamp := none }

theorem writer_encodes_three :
    [doubleAt 1 5, doubleAt 2 5, doubleAt 3 7].foldl (writeValue doubleEq 0) [] =
        runLengthEncoding [doubleAt 1 5, doubleAt 2 5, doubleAt 3 7] ↔
      [doubleAt 1 5, doubleAt 2 5, doubleAt 3 7].IsChain TellsApart :=
  writer_encodes_iff _ (by simp [Value.Plain, doubleAt]) (by decide)

/-- Two different strings become one run of the first. -/
theorem writer_merges_strings :
    [stringAt 1 (ascii "up"), stringAt 2 (ascii "down")].foldl (writeValue doubleEq 0) [] =
        [{ stringAt 1 (ascii "up") with endTimestamp := some 2 }] ∧
      [stringAt 1 (ascii "up"), stringAt 2 (ascii "down")].foldl (writeValue doubleEq 0) [] ≠
        runLengthEncoding [stringAt 1 (ascii "up"), stringAt 2 (ascii "down")] := by
  decide

/-! ## Writers and their callers

The goroutine of a writer is a worker on its stream.  Its callers send it values, close its channel and
go on; they do not wait for it. -/

open Handover (Command State Event orderly orderlyRun valuesOf)

variable {Key : Type}

/-- A writer that is opened on a stream, given values and closed. -/
def writeAll (key : Key) (values : List (Value Double)) : List (Command Key (Value Double)) :=
  .openWorker key :: values.map .send ++ [.close]

/-- The streams of `Get`: one for each group, read when its writer is closed if their number is limited,
and read again for the response. -/
def getCommands (limited : Bool) (groups : List (List (Value Double))) : List (Command Nat (Value Double)) :=
  (groups.zipIdx.flatMap fun group =>
      writeAll group.2 group.1 ++ if limited then [.read group.2] else []) ++
    (List.range groups.length).map .read

/-- The streams of `indexRecordLog`: each message of the log has a writer on the stream of its variable,
and the streams are read for the indexed file in the order of a map. -/
def indexCommands (maps : Iteration) (log : List (GoString × List (Value Double))) :
    List (Command GoString (Value Double)) :=
  (log.flatMap fun message => writeAll message.1 message.2) ++
    (maps.order (log.map Prod.fst).dedup).map .read

variable [DecidableEq Key]

/-- The stream holds all values sent to its writers so far, written in the order they were sent. -/
def HoldsAllSent (eq : Double → Double → Bool) (zero : Double)
    (s : State Key (Value Double) (List (Value Double))) (key : Key) : Prop :=
  valuesOf key s.applied = valuesOf key s.sent ∧
    s.target key = (valuesOf key s.sent).foldl (writeValue eq zero) []

/-- In a run in which no writer overtakes an older one of its stream, and no stream was read too early so
far, the next read finds all values sent exactly when it is not too early. -/
theorem writer_read_iff (eq : Double → Double → Bool) (zero : Double)
    (program : List (Command Key (Value Double))) (events : List Event)
    (s : State Key (Value Double) (List (Value Double)))
    (ran : orderlyRun (writeValue eq zero) (Handover.start program fun _ => []) events = some s) (key : Key)
    (rest : List (Command Key (Value Double))) (reads : s.commands = .read key :: rest) :
    orderly s .command = true ↔ HoldsAllSent eq zero s key := by
  have inOrder := (Handover.inOrder_start program).run ran
  have target := inOrder.target key
  have turn : orderly s .command = true ↔ valuesOf key s.held = [] := by
    simp [orderly, reads]
  rw [turn, ← inOrder.applied_iff key]
  constructor
  · intro applied
    exact ⟨applied, by rw [← applied]; exact target⟩
  · intro holds
    exact holds.1

/-- `Get` with one value, read after its writer has written it. -/
theorem writer_read_written :
    ∃ s, orderlyRun (writeValue doubleEq 0)
          (Handover.start (getCommands false [[doubleAt 1 5]]) fun _ => [])
          [.command, .command, .apply, .command] = some s ∧
        (orderly s .command = true ↔ HoldsAllSent doubleEq 0 s 0) := by
  refine ⟨_, rfl, ?_⟩
  exact writer_read_iff doubleEq 0 (getCommands false [[doubleAt 1 5]]) [.command, .command, .apply, .command]
    _ rfl 0 [] rfl

/-- `Get` reads a stream before its only value is written; and of two messages in a record log the second
is written first, for all that the first was sent before it. -/
theorem writer_loses :
    (∃ s, Handover.run (writeValue doubleEq 0)
          (Handover.start (getCommands false [[doubleAt 1 5]]) fun _ => [])
          [.command, .command, .command] = some s ∧
        s.commands = [.read 0] ∧ s.target 0 = [] ∧ valuesOf 0 s.sent = [doubleAt 1 5] ∧
        ¬ HoldsAllSent doubleEq 0 s 0) ∧
      ∃ s, Handover.run (writeValue doubleEq 0)
          (Handover.start (indexCommands .listed
            [(ascii "a", [doubleAt 1 5]), (ascii "a", [doubleAt 2 7])]) fun _ => [])
          [.command, .command, .command, .command, .command, .apply, .applyLeftover 0, .command] = some s ∧
        s.commands = [.read (ascii "a")] ∧ s.target (ascii "a") = [doubleAt 2 7, doubleAt 1 5] ∧
        valuesOf (ascii "a") s.sent = [doubleAt 1 5, doubleAt 2 7] ∧
        ¬ HoldsAllSent doubleEq 0 s (ascii "a") := by
  constructor
  · refine ⟨_, rfl, rfl, rfl, rfl, ?_⟩
    intro holds
    exact absurd holds.1 (by decide)
  · refine ⟨_, rfl, rfl, by decide, by decide, ?_⟩
    intro holds
    exact absurd holds.1 (by decide)

end OpenInstrument
