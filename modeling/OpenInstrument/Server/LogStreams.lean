import Mathlib.Data.List.Dedup
import Mathlib.Data.List.Induction
import OpenInstrument.Server.RangeReads
import OpenInstrument.Server.RecordLog

/-! # The streams of a record log

What is collected from a log: for each variable, in the order in which they are printed, its values in runs
of values that repeat the first one.  The runs stand for all the values when each value has the double and
the string of its run and does not end before it.
-/

namespace OpenInstrument.Server

/-! ## Runs of values -/

/-- The runs of some values, behind the one at hand. -/
def runsFrom (run : Value UInt64) : List (Value UInt64) → List (Value UInt64)
  | [] => [run]
  | value :: rest =>
    if repeatsValue run value then runsFrom { run with endTimestamp := some value.timestamp } rest
    else run :: runsFrom value rest

def runs : List (Value UInt64) → List (Value UInt64)
  | [] => []
  | first :: rest => runsFrom first rest

theorem foldl_collectValue_concat (before : List (Value UInt64)) (run : Value UInt64) (values : List (Value UInt64)) :
    values.foldl collectValue (before ++ [run]) = before ++ runsFrom run values := by
  induction values generalizing before run with
  | nil => rfl
  | cons value rest inductionHypothesis =>
    have last : (before ++ [run]).getLast? = some run := by simp
    rw [List.foldl_cons, collectValue, last]
    show List.foldl collectValue (if repeatsValue run value then _ else _) rest = _
    rw [runsFrom, List.dropLast_concat]
    split
    · exact inductionHypothesis before _
    · rw [inductionHypothesis, List.append_assoc]
      rfl

theorem foldl_collectValue (values : List (Value UInt64)) : values.foldl collectValue [] = runs values := by
  cases values with
  | nil => rfl
  | cons first rest => exact foldl_collectValue_concat [] first rest

/-! ## The streams -/

def printed (stream : ValueStream) : Bytes := (fromProtobuf stream.streamVariable).toString

def valuesOf (key : Bytes) (messages : List ValueStream) : List (Value UInt64) :=
  (messages.filter fun message => printed message = key).flatMap ValueStream.value

/-- The stream of a variable: the variable is the first one that is printed so. -/
def streamOf (messages : List ValueStream) (key : Bytes) : Option ValueStream :=
  (messages.find? fun message => printed message = key).map fun first =>
    { streamVariable := (fromProtobuf first.streamVariable).toProtobuf, value := runs (valuesOf key messages) }

/-- The printed variables in their order, but for one that is printed as nothing. -/
def logKeys (messages : List ValueStream) : List Bytes :=
  sortStrings ((messages.map printed).filter fun key => key ≠ []).dedup

def logStreams (messages : List ValueStream) : List ValueStream := (logKeys messages).filterMap (streamOf messages)

theorem valuesOf_concat (key : Bytes) (messages : List ValueStream) (message : ValueStream) :
    valuesOf key (messages ++ [message]) =
      valuesOf key messages ++ if printed message = key then message.value else [] := by
  rw [valuesOf, List.filter_append, List.flatMap_append, ← valuesOf, List.filter_singleton]
  by_cases here : printed message = key
  · simp [here]
  · simp [here]

theorem streamOf_concat_ne {messages : List ValueStream} {message : ValueStream} {key : Bytes}
    (other : printed message ≠ key) : streamOf (messages ++ [message]) key = streamOf messages key := by
  have unfound : ([message].find? fun message => decide (printed message = key)) = none := by simp [other]
  rw [streamOf, List.find?_append, unfound, Option.or_none, valuesOf_concat, if_neg other, List.append_nil, streamOf]

theorem streamOf_concat (messages : List ValueStream) (message : ValueStream) :
    streamOf (messages ++ [message]) (printed message) =
      let newstream := (streamOf messages (printed message)).getD
        { streamVariable := (fromProtobuf message.streamVariable).toProtobuf, value := [] }
      some { newstream with value := message.value.foldl collectValue newstream.value } := by
  have here : ([message].find? fun other => decide (printed other = printed message)) = some message := by simp
  have values : runs (valuesOf (printed message) (messages ++ [message])) =
      message.value.foldl collectValue (runs (valuesOf (printed message) messages)) := by
    rw [valuesOf_concat, if_pos rfl, ← foldl_collectValue, List.foldl_append, foldl_collectValue]
  simp only [streamOf, List.find?_append, here, values]
  cases found : messages.find? fun other => decide (printed other = printed message) with
  | some first => rfl
  | none =>
    have none_ : valuesOf (printed message) messages = [] := by
      rw [valuesOf, List.filter_eq_nil_iff.mpr fun other member => by
        simpa using List.find?_eq_none.mp found other member]
      rfl
    rw [none_]
    rfl

theorem lookup_collected (messages : List ValueStream) (key : Bytes) :
    (messages.foldl collectStream .empty).lookup key = if key = [] then none else streamOf messages key := by
  induction messages using List.reverseRecOn with
  | nil =>
    split
    · rfl
    · rfl
  | append_singleton messages message inductionHypothesis =>
    rw [List.foldl_append, List.foldl_cons, List.foldl_nil]
    show (if printed message = [] then _ else OrderedMap.set _ (printed message) _).lookup key = _
    by_cases unnamed : printed message = []
    · rw [if_pos unnamed, inductionHypothesis]
      split
      · rfl
      · rename_i named
        rw [streamOf_concat_ne (by rw [unnamed]; exact Ne.symm named)]
    · rw [if_neg unnamed]
      by_cases here : key = printed message
      · subst here
        rw [OrderedMap.lookup_set, if_neg unnamed, streamOf_concat]
        show some _ = some _
        rw [show (List.foldl collectStream .empty messages).lookup (fromProtobuf message.streamVariable).toString =
          streamOf messages (printed message) from inductionHypothesis.trans (if_neg unnamed)]
      · rw [OrderedMap.lookup_set_ne here, inductionHypothesis, streamOf_concat_ne (Ne.symm here)]

theorem logKeys_sorted (messages : List ValueStream) : (logKeys messages).Pairwise (· < ·) := by
  have distinct : (logKeys messages).Nodup := (sortStrings_perm _).nodup_iff.mpr (List.nodup_dedup _)
  exact (sortStrings_sorted _).imp₂ (fun _ _ below other => lt_of_le_of_ne below other) distinct

theorem mem_logKeys {messages : List ValueStream} {key : Bytes} :
    key ∈ logKeys messages ↔ key ≠ [] ∧ ∃ message ∈ messages, printed message = key := by
  rw [logKeys, (sortStrings_perm _).mem_iff, List.mem_dedup, List.mem_filter, List.mem_map, decide_eq_true_eq]
  exact and_comm

/-- What `ReindexRecordLogFile` collects. -/
theorem streams_collected (messages : List ValueStream) :
    (messages.foldl collectStream .empty).streams = logStreams messages := by
  have entries : (messages.foldl collectStream .empty).entries =
      (logKeys messages).filterMap fun key => (streamOf messages key).map fun stream => (key, stream) := by
    apply OrderedMap.entries_eq_of_lookup
    · rw [List.pairwise_filterMap]
      refine (logKeys_sorted messages).imp fun {first second} below one found other found' => ?_
      obtain ⟨stream, -, rfl⟩ := Option.map_eq_some_iff.mp found
      obtain ⟨stream', -, rfl⟩ := Option.map_eq_some_iff.mp found'
      exact below
    · intro key stream
      rw [lookup_collected, List.mem_filterMap]
      constructor
      · rintro ⟨other, member, found⟩
        obtain ⟨stream', here, same⟩ := Option.map_eq_some_iff.mp found
        cases same
        rw [if_neg (mem_logKeys.mp member).1, here]
      · intro found
        split at found
        · cases found
        · rename_i named
          refine ⟨key, mem_logKeys.mpr ⟨named, ?_⟩, by rw [found]; rfl⟩
          obtain ⟨first, located, -⟩ := Option.map_eq_some_iff.mp found
          exact ⟨first, List.mem_of_find?_eq_some located, by simpa using List.find?_some located⟩
  rw [LogData.streams, entries, List.map_filterMap, logStreams]
  congr 1
  funext key
  rw [Option.map_map]
  exact Option.map_id'

/-! ## Values in runs -/

def lastTimestamp (value : Value UInt64) : UInt64 := value.endTimestamp.getD value.timestamp

/-- A value lies in a run of the same double and string. -/
structure Covers (run value : Value UInt64) : Prop where
  double : Option.Rel SameDouble run.doubleValue value.doubleValue
  string : run.stringValue = value.stringValue
  start : run.timestamp ≤ value.timestamp
  finish : lastTimestamp value ≤ lastTimestamp run

/-- A stream has the variable of another, and all its values up to run-length merging. -/
structure Holds (kept stream : ValueStream) : Prop where
  name : (fromProtobuf kept.streamVariable).name = (fromProtobuf stream.streamVariable).name
  labels : (fromProtobuf kept.streamVariable).labels = (fromProtobuf stream.streamVariable).labels
  values : ∀ value ∈ stream.value, ∃ run ∈ kept.value, Covers run value

theorem Covers.refl (value : Value UInt64) : Covers value value where
  double := by
    cases value.doubleValue with
    | none => exact .none
    | some bits => exact .some (.inl rfl)
  string := rfl
  start := UInt64.le_refl _
  finish := UInt64.le_refl _

theorem Holds.refl (stream : ValueStream) : Holds stream stream where
  name := rfl
  labels := rfl
  values value member := ⟨value, member, .refl value⟩

/-- Each value that repeats the run at hand has its double and string, and the run goes on to it. -/
def OrderlyFrom (run : Value UInt64) : List (Value UInt64) → Prop
  | [] => True
  | value :: rest =>
    if repeatsValue run value then
      lastTimestamp run ≤ value.timestamp ∧ Covers { run with endTimestamp := some value.timestamp } value ∧
        OrderlyFrom { run with endTimestamp := some value.timestamp } rest
    else OrderlyFrom value rest

def Orderly : List (Value UInt64) → Prop
  | [] => True
  | first :: rest => OrderlyFrom first rest

/-- A run that goes on covers what it covered. -/
theorem Covers.extend {run value : Value UInt64} (covers : Covers run value) {timestamp : UInt64}
    (later : lastTimestamp run ≤ timestamp) : Covers { run with endTimestamp := some timestamp } value where
  double := covers.double
  string := covers.string
  start := covers.start
  finish := UInt64.le_trans covers.finish later

theorem runsFrom_covers {run : Value UInt64} {values : List (Value UInt64)} (orderly : OrderlyFrom run values) :
    (∀ value, Covers run value → ∃ other ∈ runsFrom run values, Covers other value) ∧
      ∀ value ∈ values, ∃ other ∈ runsFrom run values, Covers other value := by
  induction values generalizing run with
  | nil => exact ⟨fun value covers => ⟨run, List.mem_singleton_self run, covers⟩, fun value member => by cases member⟩
  | cons value rest inductionHypothesis =>
    rw [OrderlyFrom] at orderly
    rw [runsFrom]
    split
    · rename_i repeats
      rw [if_pos repeats] at orderly
      obtain ⟨later, here, orderlyRest⟩ := orderly
      obtain ⟨covered, others⟩ := inductionHypothesis orderlyRest
      exact ⟨fun other covers => covered other (covers.extend later),
        List.forall_mem_cons.mpr ⟨covered value here, others⟩⟩
    · rename_i new
      rw [if_neg new] at orderly
      obtain ⟨covered, others⟩ := inductionHypothesis orderly
      refine ⟨fun other covers => ⟨run, List.mem_cons_self, covers⟩, List.forall_mem_cons.mpr ⟨?_, ?_⟩⟩
      · obtain ⟨other, member, covers⟩ := covered value (.refl value)
        exact ⟨other, .tail _ member, covers⟩
      · intro value' member
        obtain ⟨other, member', covers⟩ := others value' member
        exact ⟨other, .tail _ member', covers⟩

theorem runs_cover {values : List (Value UInt64)} (orderly : Orderly values) :
    ∀ value ∈ values, ∃ run ∈ runs values, Covers run value := by
  cases values with
  | nil => exact fun _ member => by cases member
  | cons first rest =>
    obtain ⟨covered, others⟩ := runsFrom_covers orderly
    exact List.forall_mem_cons.mpr ⟨covered first (.refl first), others⟩

/-- The stream that a log has of the variable of one that was read. -/
theorem streamOf_of_mem {messages : List ValueStream} {message : ValueStream} (member : message ∈ messages) :
    ∃ first ∈ messages, printed first = printed message ∧
      streamOf messages (printed message) =
        some { streamVariable := (fromProtobuf first.streamVariable).toProtobuf
               value := runs (valuesOf (printed message) messages) } := by
  have located : (messages.find? fun other => decide (printed other = printed message)).isSome = true :=
    List.find?_isSome.mpr ⟨message, member, decide_eq_true rfl⟩
  obtain ⟨first, found⟩ := Option.isSome_iff_exists.mp located
  refine ⟨first, List.mem_of_find?_eq_some found, by simpa using List.find?_some found, ?_⟩
  rw [streamOf, found]
  rfl

theorem mem_valuesOf {messages : List ValueStream} {message : ValueStream} (member : message ∈ messages)
    {value : Value UInt64} (inside : value ∈ message.value) : value ∈ valuesOf (printed message) messages :=
  List.mem_flatMap.mpr ⟨message, List.mem_filter.mpr ⟨member, decide_eq_true rfl⟩, inside⟩

/-- The streams of a log hold the ones that were read, when their variables are told apart by what is printed
and their values are in order. -/
theorem logStreams_holds {messages : List ValueStream} {message : ValueStream} (member : message ∈ messages)
    (named : printed message ≠ [])
    (told : ∀ other ∈ messages, printed other = printed message →
      (fromProtobuf other.streamVariable).name = (fromProtobuf message.streamVariable).name ∧
        (fromProtobuf other.streamVariable).labels = (fromProtobuf message.streamVariable).labels)
    (orderly : Orderly (valuesOf (printed message) messages)) :
    ∃ kept ∈ logStreams messages, Holds kept message := by
  obtain ⟨first, among, here, stream⟩ := streamOf_of_mem member
  obtain ⟨name, labels⟩ := told first among here
  refine ⟨_, List.mem_filterMap.mpr ⟨_, mem_logKeys.mpr ⟨named, message, member, rfl⟩, stream⟩, ?_⟩
  constructor
  · rw [fromProtobuf_toProtobuf]
    exact name
  · rw [fromProtobuf_toProtobuf]
    exact labels
  · intro value inside
    exact runs_cover orderly value (mem_valuesOf member inside)

end OpenInstrument.Server
