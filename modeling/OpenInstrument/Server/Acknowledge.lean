import OpenInstrument.Server.HandleAdd

/-! # What an answer to an add request promises

A request is answered with success when none of its streams was refused.  The calls that forward the
other streams come after that and have no say in the answer.  So a success promises that every value is
recorded, dropped by a policy or with its owner exactly when the calls that carry values succeeded.
-/

namespace OpenInstrument.Server

variable {hash32 : Bytes → UInt32} {regexMatch : RegexMatch} {server : StoreServer} {now : UInt64}
  {source : Bytes} {forwarded : Bool}

/-! ## The answer -/

/-- A value of a stream is recorded here, dropped by a policy, or part of a call that succeeded. -/
def Safe (hash32 : Bytes → UInt32) (regexMatch : RegexMatch) (server : StoreServer) (now : UInt64)
    (source : Bytes) (forwarded : Bool) (handled : Handled) (stream : ValueStream)
    (value : Value UInt64) : Prop :=
  recordCall (namedVariable source stream) value ∈ handled.records ∨
    (destination hash32 server forwarded (namedVariable source stream) = .ok none ∧
      keepValue regexMatch server now (namedVariable source stream) value = .ok false) ∨
    ∃ call ∈ handled.calls, call.success = true ∧
      ∃ sent ∈ call.request.stream,
        fromProtobuf sent.streamVariable = namedVariable source stream ∧ value ∈ sent.value

/-- If the answer is a success, every value of the request is safe. -/
def Acknowledges (hash32 : Bytes → UInt32) (regexMatch : RegexMatch) (server : StoreServer)
    (now : UInt64) (source : Bytes) (answer : Bytes → Option AddResponse) (request : AddRequest) : Prop :=
  ∀ response,
    (handleAdd hash32 regexMatch server now source answer (some request)).reply = .response response →
      response.success = true →
        ∀ stream ∈ request.stream, ∀ value ∈ stream.value,
          Safe hash32 regexMatch server now source request.forwarded
            (handleAdd hash32 regexMatch server now source answer (some request)) stream value

def Rejected (hash32 : Bytes → UInt32) (regexMatch : RegexMatch) (server : StoreServer) (now : UInt64)
    (source : Bytes) (request : AddRequest) : Prop :=
  ∃ stream ∈ request.stream,
    ¬StreamAccepted hash32 regexMatch server now source request.forwarded stream

/-- The node of every stream that has a value and is forwarded answers with success. -/
def ForwardsSucceed (hash32 : Bytes → UInt32) (server : StoreServer) (source : Bytes)
    (answer : Bytes → Option AddResponse) (request : AddRequest) : Prop :=
  ∀ stream ∈ request.stream, stream.value ≠ [] → ∀ node,
    destination hash32 server request.forwarded (namedVariable source stream) = .ok (some node) →
      storeClientAdd (answer node) = true

variable {answer : Bytes → Option AddResponse} {request : AddRequest}

theorem handleAdd_rejected (rejected : Rejected hash32 regexMatch server now source request)
    {response : AddResponse}
    (answered : (handleAdd hash32 regexMatch server now source answer (some request)).reply =
      .response response) : response.success = false := by
  obtain ⟨stream, member, refused⟩ := rejected
  have error : (addStreams hash32 regexMatch server now source request.forwarded .empty
      request.stream).2 ≠ none := by
    rw [Ne, addStreams_none]
    exact fun accepted => refused (accepted stream member)
  simp only [handleAdd, if_neg (List.ne_nil_of_mem member), AddReply.response.injEq] at answered
  rw [← answered]
  cases outcome : (addStreams hash32 regexMatch server now source request.forwarded .empty
      request.stream).2 with
  | none => exact absurd outcome error
  | some _ => rfl

/-- The values of a stream that is not forwarded are recorded or dropped. -/
theorem safe_of_local {handled : Handled} {stream : ValueStream} {value : Value UInt64}
    (records : handled.records = request.stream.flatMap
      (streamRecords hash32 regexMatch server now source request.forwarded))
    (member : stream ∈ request.stream) (memberValue : value ∈ stream.value)
    (here : destination hash32 server request.forwarded (namedVariable source stream) = .ok none)
    (accepted : Accepted regexMatch server now (namedVariable source stream) value) :
    Safe hash32 regexMatch server now source request.forwarded handled stream value := by
  obtain ⟨kept, verdict⟩ := accepted
  cases kept with
  | false => exact .inr (.inl ⟨here, verdict⟩)
  | true =>
    apply Or.inl
    rw [records, List.mem_flatMap]
    refine ⟨stream, member, ?_⟩
    rw [streamRecords, if_pos here, mem_recordsOf]
    exact ⟨value, memberValue, verdict, rfl⟩

/-- A value that is forwarded is safe only if its call succeeded. -/
theorem success_of_safe (answer : Bytes → Option AddResponse) {handled : Handled} {stream : ValueStream}
    {value : Value UInt64} {node : Bytes}
    (records : handled.records = request.stream.flatMap
      (streamRecords hash32 regexMatch server now source request.forwarded))
    (calls : handled.calls = forwardCalls answer
      (request.stream.foldl (streamForwards hash32 server source request.forwarded) ∅))
    (away : destination hash32 server request.forwarded (namedVariable source stream) = .ok (some node))
    (safe : Safe hash32 regexMatch server now source request.forwarded handled stream value) :
    storeClientAdd (answer node) = true := by
  obtain recorded | ⟨here, -⟩ | ⟨call, memberCall, success, sent, carried, same, -⟩ := safe
  · -- What is recorded has the variable of a stream that is not forwarded.
    rw [records, List.mem_flatMap] at recorded
    obtain ⟨other, -, recorded⟩ := recorded
    rw [streamRecords] at recorded
    split at recorded
    · rename_i here
      obtain ⟨otherValue, -, -, equal⟩ := mem_recordsOf.mp recorded
      have sameVariable : namedVariable source other = namedVariable source stream :=
        congrArg RecordCall.variable_ equal
      rw [sameVariable, away] at here
      cases here
    · cases recorded
  · rw [away] at here
    cases here
  · -- A call carries the streams of its own node only.
    rw [calls] at memberCall
    have answered : call.success = storeClientAdd (answer call.node) := by
      obtain ⟨entry, -, rfl⟩ := List.mem_map.mp memberCall
      rfl
    obtain ⟨other, -, sentAway, rfl⟩ :=
      (mem_forwardCalls answer).mp ⟨call, memberCall, rfl, answered, carried⟩
    rw [fromProtobuf_sentStream] at same
    rw [same, away, Except.ok.injEq, Option.some.injEq] at sentAway
    rw [sentAway, ← answered, success]

/-- A success promises that every value is safe exactly when a stream was refused or the calls that
carry values succeeded. -/
theorem handleAdd_acknowledges_iff (hash32 : Bytes → UInt32) (regexMatch : RegexMatch)
    (server : StoreServer) (now : UInt64) (source : Bytes) (answer : Bytes → Option AddResponse)
    (request : AddRequest) :
    Acknowledges hash32 regexMatch server now source answer request ↔
      Rejected hash32 regexMatch server now source request ∨
        ForwardsSucceed hash32 server source answer request := by
  by_cases rejected : Rejected hash32 regexMatch server now source request
  · have vacuous : Acknowledges hash32 regexMatch server now source answer request := by
      intro response answered success
      rw [handleAdd_rejected rejected answered] at success
      cases success
    exact iff_of_true vacuous (.inl rejected)
  have accepted : ∀ stream ∈ request.stream,
      StreamAccepted hash32 regexMatch server now source request.forwarded stream := by
    simpa [Rejected] using rejected
  simp only [rejected, false_or]
  constructor
  · intro acknowledges stream member valued node away
    have handled := handleAdd_accepted answer (List.ne_nil_of_mem member) accepted
    obtain ⟨value, memberValue⟩ := List.exists_mem_of_ne_nil _ valued
    have safe := acknowledges _ (congrArg Handled.reply handled) rfl stream member value memberValue
    rw [handled] at safe
    exact success_of_safe answer rfl rfl away safe
  · intro succeed response answered success stream member value memberValue
    rw [handleAdd_accepted answer (List.ne_nil_of_mem member) accepted]
    obtain ⟨node, sent, values⟩ := accepted stream member
    cases node with
    | none => exact safe_of_local rfl member memberValue sent (values rfl value memberValue)
    | some node =>
      have answers := succeed stream member (List.ne_nil_of_mem memberValue) node sent
      obtain ⟨call, memberCall, -, outcome, carried⟩ :=
        (mem_forwardCalls answer).mpr ⟨stream, member, sent, rfl⟩
      exact .inr (.inr ⟨call, memberCall, outcome.trans answers, sentStream source stream, carried,
        fromProtobuf_sentStream source stream, memberValue⟩)

/-- A server whose ring has one point, of another server. -/
def loneServer : StoreServer :=
  { address := ascii "a:8020"
    hashRing := { replicas := 2, ring := OrderedMap.empty.set 0 (ascii "b:8020") }
    retentionPolicy := [] }

def loneStream : ValueStream :=
  { streamVariable := { name := ascii "/a", label := [], type := none }
    value := [{ timestamp := 1, doubleValue := some 1, stringValue := none, endTimestamp := none }] }

/-- The only stream belongs to a server that cannot be reached. -/
theorem handleAdd_loses :
    ¬Acknowledges (fun _ => 0) (fun _ _ => .ok false) loneServer 1 (ascii "10.0.0.1") (fun _ => none)
      { stream := [loneStream], forwarded := false } := by
  intro acknowledges
  have away : destination (fun _ => 0) loneServer false (namedVariable (ascii "10.0.0.1") loneStream) =
      .ok (some (ascii "b:8020")) := by
    decide
  have accepted : ∀ stream ∈ [loneStream], StreamAccepted (fun _ => 0) (fun _ _ => .ok false) loneServer 1
      (ascii "10.0.0.1") false stream := by
    intro stream member
    rw [List.mem_singleton.mp member]
    exact ⟨_, away, nofun⟩
  have handled := @handleAdd_accepted _ _ _ _ _ (fun _ => none)
    { stream := [loneStream], forwarded := false } (List.cons_ne_nil _ []) accepted
  have safe := acknowledges _ (congrArg Handled.reply handled) rfl loneStream (List.mem_singleton_self _) _
    (List.mem_singleton_self _)
  rw [handled] at safe
  have success := success_of_safe (fun _ => none) rfl rfl away safe
  cases success

end OpenInstrument.Server
