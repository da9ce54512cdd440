import OpenInstrument.Server.HandleAdd
import OpenInstrument.Server.HandleGet
import OpenInstrument.Server.VariableRoundTrip

/-! # List requests to the C++ server

The handler searches the keys of the store for a pattern, and returns the variables that match in the order of
what they are printed as, up to a number that the request gives.  What the keys hold is the text of the variables
that were recorded, and it is parsed again for each request.
-/

namespace OpenInstrument.Server

/-- `proto::ListRequest`. -/
structure ListRequest where
  prefixVariable : Option StreamVariable
  maxVariables : Option UInt32

def ListRequest.getPrefix (req : ListRequest) : StreamVariable :=
  req.prefixVariable.getD { name := [], label := [], type := none }

def ListRequest.getMaxVariables (req : ListRequest) : UInt32 := req.maxVariables.getD 0

/-- `proto::ListResponse`. -/
structure ListResponse where
  success : Bool
  stream : List ValueStream
  deriving DecidableEq

inductive ListReply where
  | badRequest (text : Bytes)
  | response (response : ListResponse)
  deriving DecidableEq

/-- What `add_stream` adds. -/
def addedStream : ValueStream := { streamVariable := { name := [], label := [], type := none }, value := [] }

/-- `HandleList`, given what was parsed from the body.  An exception of the search is not caught. -/
def handleList (regexMatch : RegexMatch) (order : Iteration) (liveData : LiveData)
    (request : Option ListRequest) : Except Stop ListReply :=
  match request with
  | none => .ok (.badRequest (ascii "Invalid request\n"))
  | some req =>
    if req.getPrefix.name = [] then .ok (.badRequest (ascii "Empty prefix\n"))
    else do
      let vars ← findVariables regexMatch order liveData (fromProtobuf req.getPrefix)
      let listed := limitVariables req.getMaxVariables 0 vars
      return .response { success := true, stream := listed.map fun v => v.toValueStream addedStream }

/-! ## The limit -/

/-- The number of variables that a limit admits: the counter has 32 bits, so that it never exceeds the largest
number that it can hold. -/
def admitted (maxVariables : UInt32) (vars : List Variable) : List Variable :=
  if maxVariables.toNat + 1 = 2 ^ 32 then vars else vars.take maxVariables.toNat

theorem limitVariables_all {maxVariables : UInt32} (largest : maxVariables.toNat + 1 = 2 ^ 32)
    (varcounter : UInt32) (vars : List Variable) : limitVariables maxVariables varcounter vars = vars := by
  induction vars generalizing varcounter with
  | nil => rfl
  | cons v vars inductionHypothesis =>
    have within : ¬maxVariables < varcounter + 1 := by
      have bound := (varcounter + 1).toNat_lt
      rw [UInt32.lt_iff_toNat_lt]
      omega
    rw [limitVariables, if_neg within, inductionHypothesis]

theorem limitVariables_take {maxVariables varcounter : UInt32} (smaller : maxVariables.toNat + 1 ≠ 2 ^ 32)
    (within : varcounter.toNat ≤ maxVariables.toNat) (vars : List Variable) :
    limitVariables maxVariables varcounter vars = vars.take (maxVariables.toNat - varcounter.toNat) := by
  induction vars generalizing varcounter with
  | nil => simp [limitVariables]
  | cons v vars inductionHypothesis =>
    have bound := maxVariables.toNat_lt
    have next : (varcounter + 1).toNat = varcounter.toNat + 1 := by
      rw [UInt32.toNat_add, UInt32.toNat_one, Nat.mod_eq_of_lt (by omega)]
    rw [limitVariables]
    split
    · rename_i above
      rw [UInt32.lt_iff_toNat_lt, next] at above
      rw [show maxVariables.toNat - varcounter.toNat = 0 by omega, List.take_zero]
    · rename_i notAbove
      rw [UInt32.lt_iff_toNat_lt, next] at notAbove
      rw [inductionHypothesis (by omega), next,
        show maxVariables.toNat - varcounter.toNat = maxVariables.toNat - (varcounter.toNat + 1) + 1 by omega,
        List.take_succ_cons]

theorem limitVariables_eq (maxVariables : UInt32) (vars : List Variable) :
    limitVariables maxVariables 0 vars = admitted maxVariables vars := by
  rw [admitted]
  split
  · rename_i largest
    exact limitVariables_all largest 0 vars
  · rename_i smaller
    exact limitVariables_take smaller (Nat.zero_le _) vars

/-! ## The search -/

section Search

variable (regexMatch : RegexMatch) (search : Variable)

/-- What a key of the store adds to the variables that are found. -/
def shownBy (key : Bytes) : Except Stop (Option Variable) := do
  let v ← parseKey key
  let matched ← matchesSearch regexMatch search v
  return if matched then some v else none

/-- One turn of the loop of `FindVariables`. -/
def findStep (vars : OrderedMap Bytes Variable) (key : Bytes) : Except Stop (OrderedMap Bytes Variable) := do
  let shown ← shownBy regexMatch search key
  return match shown with
    | some v => insertVariable vars v
    | none => vars

variable {regexMatch search}

theorem findVariables_eq (order : Iteration) (liveData : LiveData) :
    findVariables regexMatch order liveData search =
      ((order.order liveData.keys).foldlM (findStep regexMatch search) OrderedMap.empty >>= fun vars =>
        .ok (vars.entries.map Prod.snd)) := by
  have turn : findStep regexMatch search = fun vars key => (do
      let v ← parseKey key
      let matched ← matchesSearch regexMatch search v
      return if matched then insertVariable vars v else vars) := by
    funext vars key
    rw [findStep, shownBy]
    cases parseKey key with
    | error stop => rfl
    | ok v =>
      cases tested : matchesSearch regexMatch search v with
      | error stop => simp [tested]
      | ok matched => cases matched <;> simp [tested]
  rw [turn]
  rfl

theorem insertVariable_holds {vars : OrderedMap Bytes Variable} {v : Variable} {name : Bytes} :
    ((insertVariable vars v).lookup name).isSome ↔ (vars.lookup name).isSome ∨ v.toString = name := by
  rw [insertVariable]
  split
  · rename_i held
    exact ⟨.inl, fun either => either.elim id fun same => same ▸ held⟩
  · by_cases same : name = v.toString
    · simp [same, OrderedMap.lookup_set]
    · simp [OrderedMap.lookup_set_ne same, Ne.symm same]

/-- Each variable is found under what it is printed as. -/
def Printed (vars : OrderedMap Bytes Variable) : Prop := ∀ name v, vars.lookup name = some v → v.toString = name

theorem Printed.insertVariable {vars : OrderedMap Bytes Variable} (printed : Printed vars) (v : Variable) :
    Printed (insertVariable vars v) := by
  intro name other found
  rw [Server.insertVariable] at found
  split at found
  · exact printed name other found
  · by_cases same : name = v.toString
    · subst same
      rw [OrderedMap.lookup_set] at found
      cases found
      rfl
    · rw [OrderedMap.lookup_set_ne same] at found
      exact printed name other found

/-- A turn fails only where its key does. -/
theorem findStep_ok {vars next : OrderedMap Bytes Variable} {key : Bytes}
    (turn : findStep regexMatch search vars key = .ok next) :
    (shownBy regexMatch search key = .ok none ∧ next = vars) ∨
      ∃ v, shownBy regexMatch search key = .ok (some v) ∧ next = insertVariable vars v := by
  obtain ⟨shown, decided, rest⟩ := Fallible.bind_ok turn
  cases shown with
  | none => exact .inl ⟨decided, (Except.ok.inj rest).symm⟩
  | some v => exact .inr ⟨v, decided, (Except.ok.inj rest).symm⟩

theorem foldlM_findStep_ok_iff {keys : List Bytes} (vars : OrderedMap Bytes Variable) :
    (∃ found, keys.foldlM (findStep regexMatch search) vars = .ok found) ↔
      ∀ key ∈ keys, ∃ shown, shownBy regexMatch search key = .ok shown := by
  induction keys generalizing vars with
  | nil => exact iff_of_true ⟨vars, rfl⟩ nofun
  | cons key keys inductionHypothesis =>
    rw [List.foldlM_cons, List.forall_mem_cons]
    cases decided : shownBy regexMatch search key with
    | error stop =>
      have turn : findStep regexMatch search vars key = .error stop := by rw [findStep, decided]; rfl
      rw [turn]
      exact iff_of_false nofun fun both => nomatch both.1
    | ok shown =>
      have turn : ∃ next, findStep regexMatch search vars key = .ok next := by
        rw [findStep, decided]
        exact ⟨_, rfl⟩
      obtain ⟨next, turn⟩ := turn
      rw [turn, Fallible.ok_bind, inductionHypothesis next]
      exact ⟨fun rest => ⟨⟨shown, rfl⟩, rest⟩, And.right⟩

theorem foldlM_findStep {keys : List Bytes} {vars found : OrderedMap Bytes Variable}
    (run : keys.foldlM (findStep regexMatch search) vars = .ok found) (printed : Printed vars) :
    Printed found ∧ ∀ name, (found.lookup name).isSome ↔
      (vars.lookup name).isSome ∨
        ∃ key ∈ keys, ∃ v, shownBy regexMatch search key = .ok (some v) ∧ v.toString = name := by
  induction keys generalizing vars with
  | nil =>
    cases run
    exact ⟨printed, fun name => by simp⟩
  | cons key keys inductionHypothesis =>
    rw [List.foldlM_cons] at run
    obtain ⟨next, turn, rest⟩ := Fallible.bind_ok run
    rcases findStep_ok turn with ⟨decided, rfl⟩ | ⟨v, decided, rfl⟩
    · obtain ⟨printedLast, holds⟩ := inductionHypothesis rest printed
      exact ⟨printedLast, fun name => by simp [holds name, decided]⟩
    · obtain ⟨printedLast, holds⟩ := inductionHypothesis rest (printed.insertVariable v)
      exact ⟨printedLast, fun name => by simp [holds name, decided, insertVariable_holds, or_assoc]⟩

/-- The variables that are found are told apart by what they are printed as, in the order of that, and they are
those that some key shows. -/
theorem findVariables_spec {order : Iteration} {liveData : LiveData} {vars : List Variable}
    (found : findVariables regexMatch order liveData search = .ok vars) :
    (vars.map Variable.toString).Pairwise (· < ·) ∧ ∀ name, name ∈ vars.map Variable.toString ↔
      ∃ key ∈ liveData, ∃ v, shownBy regexMatch search key = .ok (some v) ∧ v.toString = name := by
  rw [findVariables_eq] at found
  obtain ⟨all, run, rest⟩ := Fallible.bind_ok found
  cases rest
  have none : Printed OrderedMap.empty := fun name v held => nomatch held
  obtain ⟨printed, holds⟩ := foldlM_findStep run none
  have names : (all.entries.map Prod.snd).map Variable.toString = all.entries.map Prod.fst := by
    rw [List.map_map]
    exact List.map_congr_left fun entry member => printed entry.1 entry.2 (OrderedMap.mem_entries.mp member)
  rw [names]
  refine ⟨List.pairwise_map.mpr all.sorted, fun name => ?_⟩
  have member : name ∈ all.entries.map Prod.fst ↔ (all.lookup name).isSome := by
    simp [Option.isSome_iff_exists, ← OrderedMap.mem_entries]
  have nothing : OrderedMap.lookup (OrderedMap.empty : OrderedMap Bytes Variable) name = Option.none := rfl
  simp [member, holds name, nothing, (order.perm liveData.keys).mem_iff, AList.mem_keys]

theorem findVariables_ok_iff (order : Iteration) {liveData : LiveData} :
    (∃ vars, findVariables regexMatch order liveData search = .ok vars) ↔
      ∀ key ∈ liveData, ∃ shown, shownBy regexMatch search key = .ok shown := by
  have visited : (∀ key ∈ order.order liveData.keys, ∃ shown, shownBy regexMatch search key = .ok shown) ↔
      ∀ key ∈ liveData, ∃ shown, shownBy regexMatch search key = .ok shown := by
    simp only [(order.perm liveData.keys).mem_iff, AList.mem_keys]
  rw [← visited, ← foldlM_findStep_ok_iff OrderedMap.empty, findVariables_eq]
  constructor
  · rintro ⟨vars, found⟩
    obtain ⟨all, run, -⟩ := Fallible.bind_ok found
    exact ⟨all, run⟩
  · rintro ⟨all, run⟩
    rw [run]
    exact ⟨_, rfl⟩

/-! ## What a recorded variable shows -/

theorem labelsMatch_congr {v other : Variable} (labels : v.labels = other.labels) (patterns : List (Bytes × Bytes)) :
    labelsMatch regexMatch v patterns = labelsMatch regexMatch other patterns := by
  induction patterns with
  | nil => rfl
  | cons entry patterns inductionHypothesis =>
    rw [labelsMatch, labelsMatch, inductionHypothesis, Variable.hasLabel, Variable.hasLabel, Variable.getLabel,
      Variable.getLabel, labels]

theorem matches_congr {v other : Variable} (name : v.name = other.name) (labels : v.labels = other.labels) :
    v.matches regexMatch search = other.matches regexMatch search := by
  rw [Variable.matches, Variable.matches, nameMatches, nameMatches, name, labelsMatch_congr labels]

/-- A key from which the variable is read back shows that variable exactly when it matches. -/
theorem shownBy_toString {v : Variable} (roundTrips : RoundTrips v) :
    ∃ parsed, parsed.toString = v.toString ∧
      ((∃ shown, shownBy regexMatch search v.toString = .ok shown) ↔
        ∃ matched, v.matches regexMatch search = .ok matched) ∧
      ∀ shown, shownBy regexMatch search v.toString = .ok (some shown) ↔
        shown = parsed ∧ v.matches regexMatch search = .ok true := by
  obtain ⟨parsed, read, name, labels, printed⟩ := roundTrips
  refine ⟨parsed, printed, ?_⟩
  rw [shownBy, parseKey, read, Fallible.ok_bind, matchesSearch, matches_congr name labels]
  cases decided : v.matches regexMatch search with
  | error what => simp
  | ok matched => cases matched <;> simp [eq_comm]

theorem mem_recordAll {store : DiskDatastore} {calls : List RecordCall} {key : Bytes} :
    key ∈ (store.recordAll calls).liveData ↔
      key ∈ store.liveData ∨ ∃ call ∈ calls, call.variable_.toString = key := by
  induction calls generalizing store with
  | nil => simp [DiskDatastore.recordAll]
  | cons call calls inductionHypothesis =>
    have later : key ∈ ((store.record call).recordAll calls).liveData ↔
        key ∈ (store.record call).liveData ∨ ∃ call ∈ calls, call.variable_.toString = key := inductionHypothesis
    have here : key ∈ (store.record call).liveData ↔ key = call.variable_.toString ∨ key ∈ store.liveData :=
      AList.mem_insert _
    rw [DiskDatastore.recordAll, List.foldl_cons]
    rw [DiskDatastore.recordAll] at later
    rw [later, here]
    simp [eq_comm, or_left_comm, or_assoc]

end Search

/-! ## Listing what was recorded -/

section Recorded

variable {regexMatch : RegexMatch} {calls : List RecordCall} {search : Variable}

/-- The printed form of a recorded variable that matches. -/
def IsListed (regexMatch : RegexMatch) (calls : List RecordCall) (search : Variable) (name : Bytes) : Prop :=
  ∃ call ∈ calls, call.variable_.toString = name ∧ call.variable_.matches regexMatch search = .ok true

theorem shownBy_recorded_iff (roundTrips : ∀ call ∈ calls, RoundTrips call.variable_) (name : Bytes) :
    (∃ key ∈ (DiskDatastore.empty.recordAll calls).liveData,
        ∃ v, shownBy regexMatch search key = .ok (some v) ∧ v.toString = name) ↔
      IsListed regexMatch calls search name := by
  constructor
  · rintro ⟨key, held, v, decided, rfl⟩
    rcases mem_recordAll.mp held with absent | ⟨call, member, rfl⟩
    · exact absurd absent (AList.notMem_empty _)
    · obtain ⟨parsed, printed, -, shows⟩ := shownBy_toString (roundTrips call member)
      obtain ⟨rfl, matched⟩ := (shows v).mp decided
      exact ⟨call, member, printed.symm, matched⟩
  · rintro ⟨call, member, rfl, matched⟩
    obtain ⟨parsed, printed, -, shows⟩ := shownBy_toString (roundTrips call member)
    exact ⟨_, mem_recordAll.mpr (.inr ⟨call, member, rfl⟩), parsed, (shows parsed).mpr ⟨rfl, matched⟩, printed⟩

theorem shownBy_recorded_ok_iff (roundTrips : ∀ call ∈ calls, RoundTrips call.variable_) :
    (∀ key ∈ (DiskDatastore.empty.recordAll calls).liveData, ∃ shown, shownBy regexMatch search key = .ok shown) ↔
      ∀ call ∈ calls, ∃ matched, call.variable_.matches regexMatch search = .ok matched := by
  constructor
  · intro all call member
    obtain ⟨shown, shows⟩ := all _ (mem_recordAll.mpr (.inr ⟨call, member, rfl⟩))
    obtain ⟨parsed, -, decided, -⟩ := shownBy_toString (roundTrips call member)
    exact decided.mp ⟨shown, shows⟩
  · intro all key held
    rcases mem_recordAll.mp held with absent | ⟨call, member, rfl⟩
    · exact absurd absent (AList.notMem_empty _)
    · obtain ⟨parsed, -, decided, -⟩ := shownBy_toString (roundTrips call member)
      exact decided.mpr (all call member)

end Recorded

/-- What the message of a variable is printed as. -/
theorem toValueStream_addedStream (v : Variable) : fromProtobuf (v.toValueStream addedStream).streamVariable = v := by
  have same : (v.toValueStream addedStream).streamVariable = v.toProtobuf := by
    simp [Variable.toValueStream, addedStream, Variable.toProtobuf]
  rw [same, fromProtobuf_toProtobuf]

/-- A request is answered exactly when the match of no recorded variable throws, and the answer lists the recorded
variables that match, each of them once and in their order, up to the limit, without any values. -/
theorem handleList_recorded (regexMatch : RegexMatch) (order : Iteration) {calls : List RecordCall}
    (roundTrips : ∀ call ∈ calls, RoundTrips call.variable_) {req : ListRequest}
    (named : req.getPrefix.name ≠ []) :
    ((∃ reply, handleList regexMatch order (DiskDatastore.empty.recordAll calls).liveData (some req) = .ok reply) ↔
        ∀ call ∈ calls, ∃ matched,
          call.variable_.matches regexMatch (fromProtobuf req.getPrefix) = .ok matched) ∧
      ∀ reply, handleList regexMatch order (DiskDatastore.empty.recordAll calls).liveData (some req) = .ok reply →
        ∃ vars : List Variable, (vars.map Variable.toString).Pairwise (· < ·) ∧
          (∀ name, name ∈ vars.map Variable.toString ↔
            IsListed regexMatch calls (fromProtobuf req.getPrefix) name) ∧
          ∃ streams, reply = .response { success := true, stream := streams } ∧
            (streams.map fun stream => fromProtobuf stream.streamVariable) = admitted req.getMaxVariables vars ∧
            ∀ stream ∈ streams, stream.value = [] := by
  have handled : handleList regexMatch order (DiskDatastore.empty.recordAll calls).liveData (some req) =
      (findVariables regexMatch order (DiskDatastore.empty.recordAll calls).liveData (fromProtobuf req.getPrefix) >>=
        fun vars => .ok (.response
          { success := true
            stream := (limitVariables req.getMaxVariables 0 vars).map fun v => v.toValueStream addedStream })) := by
    rw [handleList, if_neg named]
    rfl
  -- Behind the two tests of the request only `FindVariables` can throw.
  rw [handled, ← shownBy_recorded_ok_iff roundTrips, ← findVariables_ok_iff order]
  constructor
  · constructor
    · rintro ⟨reply, answered⟩
      obtain ⟨vars, found, -⟩ := Fallible.bind_ok answered
      exact ⟨vars, found⟩
    · rintro ⟨vars, found⟩
      rw [found]
      exact ⟨_, rfl⟩
  · intro reply answered
    obtain ⟨vars, found, rest⟩ := Fallible.bind_ok answered
    obtain ⟨sorted, names⟩ := findVariables_spec found
    cases rest
    refine ⟨vars, sorted, fun name => (names name).trans (shownBy_recorded_iff roundTrips name), _, rfl, ?_, ?_⟩
    · rw [List.map_map, limitVariables_eq]
      exact (List.map_congr_left fun v _ => toValueStream_addedStream v).trans (List.map_id _)
    · simp [Variable.toValueStream, addedStream]

def plainCall (name : Bytes) : RecordCall :=
  { variable_ := { name, labels := .empty, type := .gauge }
    timestamp := 1000
    value := { timestamp := 1000, endTimestamp := none, doubleValue := some 0, stringValue := none } }

theorem roundTrips_plainCall {name : Bytes} (unlabelled : splitBrace name = none) :
    RoundTrips (plainCall name).variable_ :=
  ⟨{ name, labels := .empty, type := .unknown }, by rw [plainCall, Variable.toString]; simp [fromString, unlabelled,
    OrderedMap.empty], rfl, rfl, rfl⟩

/-- The variables under `/a`, of three that were recorded. -/
def plainRequest : ListRequest :=
  { prefixVariable := some { name := ascii "/a*", label := [], type := none }, maxVariables := some 2 }

def threeCalls : List RecordCall := [plainCall (ascii "/b"), plainCall (ascii "/ab"), plainCall (ascii "/a")]

theorem handleList_recorded_three :
    plainRequest.getPrefix.name ≠ [] ∧
      ((∃ reply, handleList (fun _ _ => .ok false) .listed
          (DiskDatastore.empty.recordAll threeCalls).liveData (some plainRequest) = .ok reply) ↔
        ∀ call ∈ threeCalls, ∃ matched,
          call.variable_.matches (fun _ _ => .ok false) (fromProtobuf plainRequest.getPrefix) = .ok matched) ∧
      ∀ reply, handleList (fun _ _ => .ok false) .listed
          (DiskDatastore.empty.recordAll threeCalls).liveData (some plainRequest) = .ok reply →
        ∃ vars : List Variable, (vars.map Variable.toString).Pairwise (· < ·) ∧
          (∀ name, name ∈ vars.map Variable.toString ↔
            IsListed (fun _ _ => .ok false) threeCalls (fromProtobuf plainRequest.getPrefix) name) ∧
          ∃ streams, reply = .response { success := true, stream := streams } ∧
            (streams.map fun stream => fromProtobuf stream.streamVariable) =
              admitted plainRequest.getMaxVariables vars ∧
            ∀ stream ∈ streams, stream.value = [] := by
  have named : plainRequest.getPrefix.name ≠ [] := by decide
  refine ⟨named, handleList_recorded (fun _ _ => .ok false) .listed (fun call member => ?_) named⟩
  simp only [threeCalls, List.mem_cons, List.not_mem_nil, or_false] at member
  rcases member with rfl | rfl | rfl
  · exact roundTrips_plainCall (by decide)
  · exact roundTrips_plainCall (by decide)
  · exact roundTrips_plainCall (by decide)

end OpenInstrument.Server
