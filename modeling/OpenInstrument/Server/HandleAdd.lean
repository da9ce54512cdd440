import OpenInstrument.Library.Keyed
import OpenInstrument.Server.DiskDatastore
import OpenInstrument.Server.StoreConfig

/-! # Adding values to the C++ store

`HandleAdd` records the streams that this server owns and forwards the others, in one request for each
server that owns some.  The first stream that is refused ends the loop; what was recorded before stays
recorded, and what was to be forwarded before is still forwarded.
-/

namespace OpenInstrument.Server

/-- The exceptions that are caught for a stream. -/
inductive AddError where
  /-- `at(0)` of an empty name. -/
  | emptyName
  /-- `Invalid variable name %s`. -/
  | invalidName (v : Bytes)
  /-- `Empty ring in consistent hash`. -/
  | emptyRing
  | regex (what : Bytes)
  /-- `Attempt to set value in the future (t=%0.3f, now=%0.3f)`. -/
  | inFuture (timestamp now : UInt64)
  deriving DecidableEq

structure AddRequest where
  stream : List ValueStream
  forwarded : Bool
  deriving DecidableEq

structure AddResponse where
  success : Bool
  errormessage : Option AddError
  deriving DecidableEq

/-- A bad request has a text for an answer. -/
inductive AddReply where
  | badRequest (body : Bytes)
  | response (response : AddResponse)
  deriving DecidableEq

/-- A server: its own address, and its configuration. -/
structure StoreServer where
  address : Bytes
  hashRing : HashRing Bytes
  retentionPolicy : List RetentionPolicyItem

variable (hash32 : Bytes → UInt32) (regexMatch : RegexMatch)

/-! ## One stream -/

def hostname : Bytes := ascii "hostname"

/-- The variable of a stream, with the source of the request for a host name if it has none. -/
def namedVariable (source : Bytes) (stream : ValueStream) : Variable :=
  let v := fromProtobuf stream.streamVariable
  if v.getLabel hostname = [] then v.setLabel hostname source else v

/-- `ToValueStream`: the type of the message is set only if it is known. -/
def Variable.toValueStream (v : Variable) (stream : ValueStream) : ValueStream :=
  { stream with
    streamVariable :=
      { v.toProtobuf with type := if v.type = .unknown then stream.streamVariable.type else some v.type } }

def isBlank (char : UInt8) : Bool := char == newline || char == 9 || char == 32

def checkName (v : Variable) : Except AddError Unit :=
  match v.name with
  | [] => .error .emptyName
  | first :: rest =>
    if first ≠ slash ∨ rest = [] ∨ v.name.any isBlank then .error (.invalidName v.toString) else .ok ()

/-- The server to which a stream is forwarded, or none if it is recorded here. -/
def destination (server : StoreServer) (forwarded : Bool) (v : Variable) :
    Except AddError (Option Bytes) :=
  match checkName v with
  | .error error => .error error
  | .ok () =>
    match server.hashRing.getNode hash32 v.toString with
    | none => .error .emptyRing
    | some node => .ok (if node ≠ server.address ∧ forwarded = false then some node else none)

/-- Whether a value is recorded rather than dropped. -/
def keepValue (server : StoreServer) (now : UInt64) (v : Variable) (value : Value UInt64) :
    Except AddError Bool :=
  match getPolicy regexMatch server.retentionPolicy v (now - value.timestamp) with
  | .error what => .error (.regex what)
  | .ok policy =>
    if shouldDrop policy then .ok false
    -- One second of clock drift is allowed.
    else if now + 1000 < value.timestamp then .error (.inFuture value.timestamp now)
    else .ok true

def recordCall (v : Variable) (value : Value UInt64) : RecordCall :=
  { variable_ := v, timestamp := value.timestamp, value }

/-- The loop over the values: the calls of `Record`, and the exception that ended it. -/
def addValues (server : StoreServer) (now : UInt64) (v : Variable) :
    List RecordCall → List (Value UInt64) → List RecordCall × Option AddError
  | records, [] => (records, none)
  | records, value :: rest =>
    match keepValue regexMatch server now v value with
    | .error error => (records, some error)
    | .ok false => addValues server now v records rest
    | .ok true => addValues server now v (records ++ [recordCall v value]) rest

/-! ## The request -/

/-- The calls of `Record` so far, and the requests to be forwarded. -/
structure AddState where
  records : List RecordCall
  forwardRequests : AList fun _ : Bytes => AddRequest

def AddState.empty : AddState := { records := [], forwardRequests := ∅ }

/-- `forward_requests[node]` with one more stream. -/
def forwardStream (forwardRequests : AList fun _ : Bytes => AddRequest) (node : Bytes)
    (stream : ValueStream) : AList fun _ : Bytes => AddRequest :=
  let request := (forwardRequests.lookup node).getD { stream := [], forwarded := false }
  forwardRequests.insert node { stream := request.stream ++ [stream], forwarded := true }

def addStream (server : StoreServer) (now : UInt64) (source : Bytes) (forwarded : Bool)
    (state : AddState) (stream : ValueStream) : AddState × Option AddError :=
  let v := namedVariable source stream
  match destination hash32 server forwarded v with
  | .error error => (state, some error)
  | .ok (some node) =>
    ({ state with forwardRequests := forwardStream state.forwardRequests node (v.toValueStream stream) },
      none)
  | .ok none =>
    let added := addValues regexMatch server now v state.records stream.value
    ({ state with records := added.1 }, added.2)

def addStreams (server : StoreServer) (now : UInt64) (source : Bytes) (forwarded : Bool) :
    AddState → List ValueStream → AddState × Option AddError
  | state, [] => (state, none)
  | state, stream :: rest =>
    match addStream hash32 regexMatch server now source forwarded state stream with
    | (state, some error) => (state, some error)
    | (state, none) => addStreams server now source forwarded state rest

/-- A call of `StoreClient::Add`; it failed if it threw an exception. -/
structure ForwardCall where
  node : Bytes
  request : AddRequest
  success : Bool

/-- `StoreClient::Add` throws when there is no response, and when the response is no success. -/
def storeClientAdd (answer : Option AddResponse) : Bool :=
  answer.elim false AddResponse.success

/-- What `HandleAdd` does: its answer, its calls of `Record`, and its calls of other servers. -/
structure Handled where
  reply : AddReply
  records : List RecordCall
  calls : List ForwardCall

/-- The forwarded requests, with what the servers answer. -/
def forwardCalls (answer : Bytes → Option AddResponse)
    (forwardRequests : AList fun _ : Bytes => AddRequest) : List ForwardCall :=
  (Keyed.pairs forwardRequests).map fun entry =>
    { node := entry.1, request := entry.2, success := storeClientAdd (answer entry.1) }

/-- `HandleAdd`, given the request that was parsed, or nothing when it could not be. -/
def handleAdd (server : StoreServer) (now : UInt64) (source : Bytes)
    (answer : Bytes → Option AddResponse) (request : Option AddRequest) : Handled :=
  match request with
  | none => { reply := .badRequest (ascii "Invalid request\n"), records := [], calls := [] }
  | some request =>
    if request.stream = [] then
      { reply := .badRequest (ascii "Empty proto::ValueStream\n"), records := [], calls := [] }
    else
      let added := addStreams hash32 regexMatch server now source request.forwarded .empty request.stream
      -- The outcome of a call is logged and counted; the response is not changed any more.
      { reply := .response { success := added.2.isNone, errormessage := added.2 }
        records := added.1.records
        calls := forwardCalls answer added.1.forwardRequests }

/-! ## The values of a stream -/

variable {hash32 : Bytes → UInt32} {regexMatch : RegexMatch} {server : StoreServer} {now : UInt64}
  {source : Bytes} {forwarded : Bool}

def Accepted (regexMatch : RegexMatch) (server : StoreServer) (now : UInt64) (v : Variable)
    (value : Value UInt64) : Prop :=
  ∃ kept, keepValue regexMatch server now v value = .ok kept

/-- The calls of `Record` for the values of a stream that is recorded here. -/
def recordsOf (regexMatch : RegexMatch) (server : StoreServer) (now : UInt64) (v : Variable)
    (values : List (Value UInt64)) : List RecordCall :=
  (values.filter fun value => decide (keepValue regexMatch server now v value = .ok true)).map
    (recordCall v)

theorem addValues_none {v : Variable} (records : List RecordCall) {values : List (Value UInt64)} :
    (addValues regexMatch server now v records values).2 = none ↔
      ∀ value ∈ values, Accepted regexMatch server now v value := by
  induction values generalizing records with
  | nil => simp [addValues]
  | cons value rest inductionHypothesis =>
    rw [List.forall_mem_cons, addValues, Accepted]
    cases verdict : keepValue regexMatch server now v value with
    | error error => simp
    | ok kept =>
      cases kept with
      | false => simpa using inductionHypothesis records
      | true => simpa using inductionHypothesis (records ++ [recordCall v value])

theorem addValues_records {v : Variable} (records : List RecordCall) {values : List (Value UInt64)}
    (accepted : ∀ value ∈ values, Accepted regexMatch server now v value) :
    (addValues regexMatch server now v records values).1 =
      records ++ recordsOf regexMatch server now v values := by
  induction values generalizing records with
  | nil => simp [addValues, recordsOf]
  | cons value rest inductionHypothesis =>
    obtain ⟨⟨kept, verdict⟩, acceptedRest⟩ := List.forall_mem_cons.mp accepted
    rw [addValues, verdict]
    cases kept with
    | false =>
      rw [show recordsOf regexMatch server now v (value :: rest) = recordsOf regexMatch server now v rest by
        simp [recordsOf, verdict]]
      exact inductionHypothesis records acceptedRest
    | true =>
      have first : recordsOf regexMatch server now v (value :: rest) =
          recordCall v value :: recordsOf regexMatch server now v rest := by
        simp [recordsOf, verdict]
      rw [first]
      simpa using inductionHypothesis (records ++ [recordCall v value]) acceptedRest

theorem mem_recordsOf {v : Variable} {values : List (Value UInt64)} {call : RecordCall} :
    call ∈ recordsOf regexMatch server now v values ↔
      ∃ value ∈ values, keepValue regexMatch server now v value = .ok true ∧ recordCall v value = call := by
  simp [recordsOf, and_assoc]

/-! ## The streams of a request -/

/-- The stream is forwarded, or all its values are recorded or dropped. -/
def StreamAccepted (hash32 : Bytes → UInt32) (regexMatch : RegexMatch) (server : StoreServer)
    (now : UInt64) (source : Bytes) (forwarded : Bool) (stream : ValueStream) : Prop :=
  ∃ node, destination hash32 server forwarded (namedVariable source stream) = .ok node ∧
    (node = none → ∀ value ∈ stream.value, Accepted regexMatch server now (namedVariable source stream) value)

/-- The calls of `Record` for a stream that is accepted. -/
def streamRecords (hash32 : Bytes → UInt32) (regexMatch : RegexMatch) (server : StoreServer)
    (now : UInt64) (source : Bytes) (forwarded : Bool) (stream : ValueStream) : List RecordCall :=
  if destination hash32 server forwarded (namedVariable source stream) = .ok none then
    recordsOf regexMatch server now (namedVariable source stream) stream.value
  else []

def sentStream (source : Bytes) (stream : ValueStream) : ValueStream :=
  (namedVariable source stream).toValueStream stream

/-- The requests to be forwarded after a stream that is accepted. -/
def streamForwards (hash32 : Bytes → UInt32) (server : StoreServer) (source : Bytes) (forwarded : Bool)
    (forwardRequests : AList fun _ : Bytes => AddRequest) (stream : ValueStream) :
    AList fun _ : Bytes => AddRequest :=
  match destination hash32 server forwarded (namedVariable source stream) with
  | .ok (some node) => forwardStream forwardRequests node (sentStream source stream)
  | _ => forwardRequests

theorem addStream_none (state : AddState) {stream : ValueStream} :
    (addStream hash32 regexMatch server now source forwarded state stream).2 = none ↔
      StreamAccepted hash32 regexMatch server now source forwarded stream := by
  rw [addStream, StreamAccepted]
  cases destination hash32 server forwarded (namedVariable source stream) with
  | error error => simp
  | ok node =>
    cases node with
    | some node => simp
    | none => simpa using addValues_none state.records

theorem addStream_accepted (state : AddState) {stream : ValueStream}
    (accepted : StreamAccepted hash32 regexMatch server now source forwarded stream) :
    addStream hash32 regexMatch server now source forwarded state stream =
      ({ records := state.records ++ streamRecords hash32 regexMatch server now source forwarded stream
         forwardRequests := streamForwards hash32 server source forwarded state.forwardRequests stream },
        none) := by
  have noError := (addStream_none state).mpr accepted
  obtain ⟨node, sent, values⟩ := accepted
  rw [addStream, sent] at noError ⊢
  cases node with
  | some node => simp [streamRecords, streamForwards, sentStream, sent]
  | none =>
    have records := addValues_records state.records (values rfl)
    simp only [streamRecords, streamForwards, sent, if_true] at noError ⊢
    rw [noError, records]

theorem addStreams_none (state : AddState) {streams : List ValueStream} :
    (addStreams hash32 regexMatch server now source forwarded state streams).2 = none ↔
      ∀ stream ∈ streams, StreamAccepted hash32 regexMatch server now source forwarded stream := by
  induction streams generalizing state with
  | nil => simp [addStreams]
  | cons stream rest inductionHypothesis =>
    rw [List.forall_mem_cons, ← addStream_none state, addStreams]
    cases added : addStream hash32 regexMatch server now source forwarded state stream with
    | mk after error =>
      cases error with
      | some error => simp
      | none => simpa using inductionHypothesis after

/-- What a request that is accepted records and forwards. -/
theorem addStreams_accepted (state : AddState) {streams : List ValueStream}
    (accepted : ∀ stream ∈ streams, StreamAccepted hash32 regexMatch server now source forwarded stream) :
    addStreams hash32 regexMatch server now source forwarded state streams =
      ({ records :=
          state.records ++ streams.flatMap (streamRecords hash32 regexMatch server now source forwarded)
         forwardRequests :=
          streams.foldl (streamForwards hash32 server source forwarded) state.forwardRequests },
        none) := by
  induction streams generalizing state with
  | nil => simp [addStreams]
  | cons stream rest inductionHypothesis =>
    obtain ⟨first, later⟩ := List.forall_mem_cons.mp accepted
    rw [addStreams, addStream_accepted state first]
    simp [inductionHypothesis _ later]

/-! ## The variable of a forwarded stream -/

/-- The receiver of a forwarded stream reads the variable that the sender computed. -/
theorem fromProtobuf_sentStream (source : Bytes) (stream : ValueStream) :
    fromProtobuf (sentStream source stream).streamVariable = namedVariable source stream := by
  have labels := congrArg Variable.labels (fromProtobuf_toProtobuf (namedVariable source stream))
  have known : (namedVariable source stream).type = stream.streamVariable.type.getD .unknown := by
    rw [namedVariable]
    split
    · rfl
    · rfl
  have type : (fromProtobuf (sentStream source stream).streamVariable).type =
      (namedVariable source stream).type := by
    simp only [fromProtobuf, sentStream, Variable.toValueStream]
    split
    · exact known.symm
    · rfl
  have parts : fromProtobuf (sentStream source stream).streamVariable =
      { name := (namedVariable source stream).name
        labels := (fromProtobuf (namedVariable source stream).toProtobuf).labels
        type := (fromProtobuf (sentStream source stream).streamVariable).type } := rfl
  rw [parts, labels, type]

/-! ## The forwarded streams -/

/-- The streams that are forwarded to a node. -/
def streamsFor (forwardRequests : AList fun _ : Bytes => AddRequest) (node : Bytes) : List ValueStream :=
  (forwardRequests.lookup node).elim [] AddRequest.stream

/-- The streams of a request that go to a node, as they are forwarded. -/
def sentTo (hash32 : Bytes → UInt32) (server : StoreServer) (source : Bytes) (forwarded : Bool)
    (node : Bytes) (streams : List ValueStream) : List ValueStream :=
  (streams.filter fun stream =>
    decide (destination hash32 server forwarded (namedVariable source stream) = .ok (some node))).map
      (sentStream source)

theorem streamsFor_forwardStream (forwardRequests : AList fun _ : Bytes => AddRequest)
    (node other : Bytes) (stream : ValueStream) :
    streamsFor (forwardStream forwardRequests node stream) other =
      streamsFor forwardRequests other ++ if node = other then [stream] else [] := by
  by_cases same : node = other
  · subst same
    cases found : forwardRequests.lookup node with
    | none => simp [streamsFor, forwardStream, found]
    | some request => simp [streamsFor, forwardStream, found]
  · have different : other ≠ node := Ne.symm same
    simp [streamsFor, forwardStream, AList.lookup_insert_ne different, same]

/-- The step: a stream joins the request of its destination, and no other. -/
theorem streamsFor_streamForwards (forwardRequests : AList fun _ : Bytes => AddRequest)
    (stream : ValueStream) (node : Bytes) :
    streamsFor (streamForwards hash32 server source forwarded forwardRequests stream) node =
      streamsFor forwardRequests node ++ sentTo hash32 server source forwarded node [stream] := by
  rw [streamForwards, sentTo]
  cases sent : destination hash32 server forwarded (namedVariable source stream) with
  | error error => simp [sent]
  | ok target =>
    cases target with
    | none => simp [sent]
    | some other =>
      rw [streamsFor_forwardStream]
      by_cases same : other = node
      · simp [sent, same]
      · simp [sent, same]

/-- The run over the streams of a request. -/
theorem streamsFor_foldl (forwardRequests : AList fun _ : Bytes => AddRequest)
    (streams : List ValueStream) (node : Bytes) :
    streamsFor (streams.foldl (streamForwards hash32 server source forwarded) forwardRequests) node =
      streamsFor forwardRequests node ++ sentTo hash32 server source forwarded node streams := by
  induction streams generalizing forwardRequests with
  | nil => simp [sentTo]
  | cons stream rest inductionHypothesis =>
    have split : sentTo hash32 server source forwarded node (stream :: rest) =
        sentTo hash32 server source forwarded node [stream] ++
          sentTo hash32 server source forwarded node rest := by
      simp only [sentTo, ← List.map_append, ← List.filter_append, List.singleton_append]
    rw [List.foldl_cons, inductionHypothesis, streamsFor_streamForwards, List.append_assoc, split]

theorem mem_sentTo {node : Bytes} {streams : List ValueStream} {sent : ValueStream} :
    sent ∈ sentTo hash32 server source forwarded node streams ↔
      ∃ stream ∈ streams,
        destination hash32 server forwarded (namedVariable source stream) = .ok (some node) ∧
          sentStream source stream = sent := by
  simp [sentTo, and_assoc]

/-- A stream is part of a call exactly when it is forwarded to the node of the call. -/
theorem mem_forwardCalls (answer : Bytes → Option AddResponse) {streams : List ValueStream}
    {node : Bytes} {sent : ValueStream} :
    (∃ call ∈ forwardCalls answer (streams.foldl (streamForwards hash32 server source forwarded) ∅),
        call.node = node ∧ call.success = storeClientAdd (answer node) ∧ sent ∈ call.request.stream) ↔
      ∃ stream ∈ streams,
        destination hash32 server forwarded (namedVariable source stream) = .ok (some node) ∧
          sentStream source stream = sent := by
  have held : streamsFor (streams.foldl (streamForwards hash32 server source forwarded) ∅) node =
      [] ++ sentTo hash32 server source forwarded node streams := streamsFor_foldl ∅ streams node
  rw [List.nil_append] at held
  rw [← mem_sentTo, ← held, streamsFor]
  constructor
  · rintro ⟨call, member, rfl, -, carried⟩
    obtain ⟨entry, memberEntry, rfl⟩ := List.mem_map.mp member
    rw [Keyed.mem_pairs.mp memberEntry]
    exact carried
  · intro carried
    cases found : (streams.foldl (streamForwards hash32 server source forwarded) ∅).lookup node with
    | none =>
      rw [found] at carried
      cases carried
    | some request =>
      rw [found] at carried
      exact ⟨_, List.mem_map_of_mem (Keyed.mem_pairs.mpr found), rfl, rfl, carried⟩

/-! ## The answer to a request that is accepted -/

theorem handleAdd_accepted (answer : Bytes → Option AddResponse) {request : AddRequest}
    (nonempty : request.stream ≠ [])
    (accepted : ∀ stream ∈ request.stream,
      StreamAccepted hash32 regexMatch server now source request.forwarded stream) :
    handleAdd hash32 regexMatch server now source answer (some request) =
      { reply := .response { success := true, errormessage := none }
        records := request.stream.flatMap
          (streamRecords hash32 regexMatch server now source request.forwarded)
        calls := forwardCalls answer
          (request.stream.foldl (streamForwards hash32 server source request.forwarded) ∅) } := by
  simp [handleAdd, nonempty, addStreams_accepted _ accepted, AddState.empty]

end OpenInstrument.Server
