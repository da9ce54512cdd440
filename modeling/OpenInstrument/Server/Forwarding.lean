import OpenInstrument.Library.Delivery
import OpenInstrument.Server.HandleAdd
import Mathlib.Data.List.Induction

/-! # Forwarding between servers

Servers with rings of their own send each other add requests, which are delivered in any order.  A
forwarded request is recorded by the server that receives it, whatever its ring says; so a stream makes
one hop at most and is recorded once.  The server has to look the stream up on its ring all the same,
which it cannot do when the ring is empty.
-/

namespace OpenInstrument.Server

variable {hash32 : Bytes → UInt32} {regexMatch : RegexMatch}

/-! ## The servers and their messages -/

/-- The text of the address of a socket, which is never empty. -/
structure SourceAddress where
  text : Bytes
  nonempty : text ≠ []

/-- The configuration of each server, under its address. -/
structure Cluster where
  hashRing : Bytes → HashRing Bytes
  retentionPolicy : Bytes → List RetentionPolicyItem

def Cluster.server (cluster : Cluster) (address : Bytes) : StoreServer :=
  { address, hashRing := cluster.hashRing address, retentionPolicy := cluster.retentionPolicy address }

/-- A request on its way to a server. -/
structure Forward where
  node : Bytes
  request : AddRequest

/-- What was recorded, each by which server. -/
abbrev AddNetwork := Network (Bytes × RecordCall) Forward

inductive AddEvent where
  /-- A client sends streams to a server. -/
  | client (address : Bytes) (now : UInt64) (source : SourceAddress) (answer : Bytes → Option AddResponse)
      (stream : List ValueStream)
  /-- One of the requests in flight reaches its server. -/
  | deliver (index : Nat) (now : UInt64) (source : SourceAddress) (answer : Bytes → Option AddResponse)

def handleAt (hash32 : Bytes → UInt32) (regexMatch : RegexMatch) (cluster : Cluster) (address : Bytes)
    (now : UInt64) (source : SourceAddress) (answer : Bytes → Option AddResponse) (request : AddRequest)
    (net : AddNetwork) : AddNetwork :=
  let handled := handleAdd hash32 regexMatch (cluster.server address) now source.text answer (some request)
  net.send (handled.records.map (address, ·))
    (handled.calls.map fun call => { node := call.node, request := call.request })

def addStep (hash32 : Bytes → UInt32) (regexMatch : RegexMatch) (cluster : Cluster) (net : AddNetwork) :
    AddEvent → Option AddNetwork
  | .client address now source answer stream =>
    some (handleAt hash32 regexMatch cluster address now source answer { stream, forwarded := false } net)
  | .deliver index now source answer =>
    (net.take index).map fun taken =>
      handleAt hash32 regexMatch cluster taken.1.node now source answer taken.1.request taken.2

/-- The stream passes the checks of the name and, where it is recorded, of age and retention. -/
def ChecksPass (hash32 : Bytes → UInt32) (regexMatch : RegexMatch) (server : StoreServer) (now : UInt64)
    (source : Bytes) (forwarded : Bool) (stream : ValueStream) : Prop :=
  checkName (namedVariable source stream) = .ok () ∧
    (destination hash32 server forwarded (namedVariable source stream) = .ok none →
      ∀ value ∈ stream.value, keepValue regexMatch server now (namedVariable source stream) value = .ok true)

/-- The streams of the request that is handled next pass the checks. -/
def Passes (hash32 : Bytes → UInt32) (regexMatch : RegexMatch) (cluster : Cluster) (net : AddNetwork) :
    AddEvent → Prop
  | .client address now source _ stream =>
    ∀ item ∈ stream, ChecksPass hash32 regexMatch (cluster.server address) now source.text false item
  | .deliver index now source _ =>
    ∀ taken, net.take index = some taken → ∀ item ∈ taken.1.request.stream,
      ChecksPass hash32 regexMatch (cluster.server taken.1.node) now source.text taken.1.request.forwarded
        item

instance decidableChecksPass (server : StoreServer) (now : UInt64) (source : Bytes) (forwarded : Bool)
    (stream : ValueStream) :
    Decidable (ChecksPass hash32 regexMatch server now source forwarded stream) :=
  inferInstanceAs (Decidable (_ ∧ (_ → ∀ value ∈ stream.value, _)))

instance decidablePasses (cluster : Cluster) (net : AddNetwork) (event : AddEvent) :
    Decidable (Passes hash32 regexMatch cluster net event) :=
  match event with
  | .client .. => inferInstanceAs (Decidable (∀ item ∈ _, _))
  | .deliver index .. =>
    match taken : net.take index with
    | none => .isTrue fun _ present => nomatch taken.symm.trans present
    | some held =>
      decidable_of_iff (∀ item ∈ held.1.request.stream, _)
        ⟨fun pass _ present => Option.some.inj (taken.symm.trans present) ▸ pass, fun pass => pass held taken⟩

/-- Runs of the servers from the start, all of whose streams pass the checks. -/
inductive AddRun (hash32 : Bytes → UInt32) (regexMatch : RegexMatch) (cluster : Cluster) :
    List AddEvent → AddNetwork → Prop
  | start : AddRun hash32 regexMatch cluster [] .empty
  | next {events : List AddEvent} {net after : AddNetwork} {event : AddEvent} :
      AddRun hash32 regexMatch cluster events net → Passes hash32 regexMatch cluster net event →
        addStep hash32 regexMatch cluster net event = some after →
          AddRun hash32 regexMatch cluster (events ++ [event]) after

/-- The events one after another, as long as they pass the checks. -/
def runEvents (hash32 : Bytes → UInt32) (regexMatch : RegexMatch) (cluster : Cluster)
    (events : List AddEvent) : Option AddNetwork :=
  events.foldlM
    (fun net event =>
      if Passes hash32 regexMatch cluster net event then addStep hash32 regexMatch cluster net event else none)
    .empty

theorem AddRun.of_runEvents {cluster : Cluster} {events : List AddEvent} {net : AddNetwork}
    (ran : runEvents hash32 regexMatch cluster events = some net) :
    AddRun hash32 regexMatch cluster events net := by
  induction events using List.reverseRecOn generalizing net with
  | nil =>
    obtain rfl := Option.some.inj ran
    exact .start
  | append_singleton events event inductionHypothesis =>
    rw [runEvents, List.foldlM_append] at ran
    obtain ⟨before, ranBefore, last⟩ := Option.bind_eq_some_iff.mp ran
    simp only [List.foldlM_cons, List.foldlM_nil, bind_pure] at last
    split at last
    · rename_i pass
      exact .next (inductionHypothesis ranBefore) pass last
    · cases last

/-! ## Where a stream is recorded -/

/-- The values of a stream, each recorded by a server under a variable. -/
def recordedAt (node : Bytes) (v : Variable) (values : List (Value UInt64)) :
    Multiset (Bytes × RecordCall) :=
  values.map fun value => (node, recordCall v value)

/-- Each value of a stream once: at the node that the ring of the first server names, under the variable
that the first server computes. -/
def streamOnce (hash32 : Bytes → UInt32) (cluster : Cluster) (address source : Bytes)
    (stream : ValueStream) : Multiset (Bytes × RecordCall) :=
  ((cluster.hashRing address).getNode hash32 (namedVariable source stream).toString).elim 0 fun node =>
    recordedAt node (namedVariable source stream) stream.value

def eventOnce (hash32 : Bytes → UInt32) (cluster : Cluster) : AddEvent → Multiset (Bytes × RecordCall)
  | .client address _ source _ stream => (stream.map (streamOnce hash32 cluster address source.text)).sum
  | .deliver .. => 0

/-- Every stream that clients sent is recorded once, and nothing else is. -/
def ExactlyOnce (hash32 : Bytes → UInt32) (cluster : Cluster) (events : List AddEvent)
    (net : AddNetwork) : Prop :=
  ↑net.output = (events.map (eventOnce hash32 cluster)).sum

/-! ## Forwarded requests -/

/-- A request between servers: it is marked as forwarded, and its streams have a host name. -/
def Sent (message : Forward) : Prop :=
  message.request.forwarded = true ∧ message.request.stream ≠ [] ∧
    ∀ stream ∈ message.request.stream, (fromProtobuf stream.streamVariable).getLabel hostname ≠ []

/-- What the server that receives a request is due to record. -/
def requestDue (node : Bytes) (request : AddRequest) : Multiset (Bytes × RecordCall) :=
  (request.stream.map fun stream =>
    recordedAt node (fromProtobuf stream.streamVariable) stream.value).sum

def due (message : Forward) : Multiset (Bytes × RecordCall) := requestDue message.node message.request

theorem namedVariable_hostname (source : SourceAddress) (stream : ValueStream) :
    (namedVariable source.text stream).getLabel hostname ≠ [] := by
  rw [namedVariable]
  split
  · rw [Variable.getLabel, Variable.setLabel, OrderedMap.lookup_set]
    exact source.nonempty
  · rename_i present
    exact present

/-- A host name that is there stays. -/
theorem namedVariable_of_hostname (source : Bytes) {stream : ValueStream}
    (present : (fromProtobuf stream.streamVariable).getLabel hostname ≠ []) :
    namedVariable source stream = fromProtobuf stream.streamVariable :=
  if_neg present

/-! ## One stream -/

variable {server : StoreServer} {now : UInt64} {source : Bytes} {forwarded : Bool}

def awayDue (hash32 : Bytes → UInt32) (server : StoreServer) (source : Bytes) (forwarded : Bool)
    (stream : ValueStream) : Multiset (Bytes × RecordCall) :=
  match destination hash32 server forwarded (namedVariable source stream) with
  | .ok (some node) => recordedAt node (namedVariable source stream) stream.value
  | _ => 0

theorem destination_ok (forwarded : Bool) {v : Variable} {node : Bytes} (named : checkName v = .ok ())
    (owner : server.hashRing.getNode hash32 v.toString = some node) :
    destination hash32 server forwarded v =
      .ok (if node ≠ server.address ∧ forwarded = false then some node else none) := by
  rw [destination, named, owner]

theorem exists_owner (hash32 : Bytes → UInt32) (ring : server.hashRing.ring.entries ≠ [])
    (v : Variable) :
    ∃ node, server.hashRing.getNode hash32 v.toString = some node := by
  cases owner : server.hashRing.getNode hash32 v.toString with
  | none => exact absurd (HashRing.getNode_eq_none.mp owner) ring
  | some node => exact ⟨node, rfl⟩

/-- A stream that passes the checks is accepted, and all its values are recorded where it is recorded. -/
theorem ChecksPass.accepted {stream : ValueStream} (ring : server.hashRing.ring.entries ≠ [])
    (pass : ChecksPass hash32 regexMatch server now source forwarded stream) :
    StreamAccepted hash32 regexMatch server now source forwarded stream := by
  obtain ⟨named, kept⟩ := pass
  obtain ⟨node, owner⟩ := exists_owner hash32 ring (namedVariable source stream)
  have sent := destination_ok forwarded named owner
  rw [sent] at kept
  refine ⟨_, sent, fun here value member => ⟨true, kept (congrArg Except.ok here) value member⟩⟩

theorem recordsOf_kept {v : Variable} {values : List (Value UInt64)}
    (kept : ∀ value ∈ values, keepValue regexMatch server now v value = .ok true) :
    recordsOf regexMatch server now v values = values.map (recordCall v) := by
  rw [recordsOf, List.filter_eq_self.mpr fun value member => decide_eq_true (kept value member)]

/-- A stream of a client is recorded here or forwarded, to the node that owns it. -/
theorem streamOnce_eq {cluster : Cluster} {address : Bytes} {stream : ValueStream}
    (ring : (cluster.hashRing address).ring.entries ≠ [])
    (pass : ChecksPass hash32 regexMatch (cluster.server address) now source false stream) :
    streamOnce hash32 cluster address source stream =
      ((streamRecords hash32 regexMatch (cluster.server address) now source false stream).map
          (address, ·) : Multiset (Bytes × RecordCall)) +
        awayDue hash32 (cluster.server address) source false stream := by
  obtain ⟨named, kept⟩ := pass
  obtain ⟨node, owner⟩ := @exists_owner (cluster.server address) hash32 ring (namedVariable source stream)
  have sent := destination_ok false named owner
  have once : streamOnce hash32 cluster address source stream =
      recordedAt node (namedVariable source stream) stream.value := by
    rw [streamOnce]
    exact congrArg (Option.elim · _ _) owner
  by_cases here : node = address
  · have stays : destination hash32 (cluster.server address) false (namedVariable source stream) = .ok none := by
      rw [sent, if_neg fun away => away.1 here]
    rw [once, streamRecords, awayDue, if_pos stays, stays, recordsOf_kept (kept stays), here]
    simp [recordedAt, Function.comp_def]
  · have leaves : destination hash32 (cluster.server address) false (namedVariable source stream) =
        .ok (some node) := by
      rw [sent, if_pos ⟨here, rfl⟩]
    rw [once, streamRecords, awayDue, leaves]
    simp

/-- A forwarded stream with a host name is recorded by the server that receives it. -/
theorem streamRecords_forwarded {stream : ValueStream} (ring : server.hashRing.ring.entries ≠ [])
    (hosted : (fromProtobuf stream.streamVariable).getLabel hostname ≠ [])
    (pass : ChecksPass hash32 regexMatch server now source true stream) :
    streamRecords hash32 regexMatch server now source true stream =
      stream.value.map (recordCall (fromProtobuf stream.streamVariable)) := by
  obtain ⟨named, kept⟩ := pass
  obtain ⟨node, owner⟩ := exists_owner hash32 ring (namedVariable source stream)
  have stays : destination hash32 server true (namedVariable source stream) = .ok none := by
    rw [destination_ok true named owner, if_neg (by simp)]
  rw [streamRecords, if_pos stays, recordsOf_kept (kept stays), namedVariable_of_hostname source hosted]

/-! ## The requests to be forwarded -/

/-- The step: what a stream adds to what the forwarded requests are due to lead to. -/
theorem total_streamForwards (forwardRequests : AList fun _ : Bytes => AddRequest)
    (stream : ValueStream) :
    Keyed.total requestDue (streamForwards hash32 server source forwarded forwardRequests stream) =
      Keyed.total requestDue forwardRequests + awayDue hash32 server source forwarded stream := by
  rw [streamForwards, awayDue]
  cases destination hash32 server forwarded (namedVariable source stream) with
  | error error => simp
  | ok target =>
    cases target with
    | none => simp
    | some node =>
      let old := (forwardRequests.lookup node).getD { stream := [], forwarded := false }
      let joined : AddRequest := { stream := old.stream ++ [sentStream source stream], forwarded := true }
      have added : Keyed.total requestDue (forwardRequests.insert node joined) +
          (forwardRequests.lookup node).elim 0 (requestDue node) =
            Keyed.total requestDue forwardRequests + requestDue node joined :=
        Keyed.total_insert_add forwardRequests node joined
      have carried : requestDue node joined =
          requestDue node old + recordedAt node (namedVariable source stream) stream.value := by
        simp only [joined, requestDue, List.map_append, List.sum_append, List.map_cons, List.map_nil,
          List.sum_cons, List.sum_nil, add_zero, fromProtobuf_sentStream]
        rfl
      have before : (forwardRequests.lookup node).elim 0 (requestDue node) = requestDue node old := by
        cases found : forwardRequests.lookup node with
        | none => simp [old, found, requestDue]
        | some request => simp [old, found]
      rw [before, carried, add_left_comm, add_comm] at added
      exact add_left_cancel added

/-- The run over the streams of a request. -/
theorem total_foldl (forwardRequests : AList fun _ : Bytes => AddRequest) (streams : List ValueStream) :
    Keyed.total requestDue (streams.foldl (streamForwards hash32 server source forwarded) forwardRequests) =
      Keyed.total requestDue forwardRequests +
        (streams.map (awayDue hash32 server source forwarded)).sum := by
  induction streams generalizing forwardRequests with
  | nil => simp
  | cons stream rest inductionHypothesis =>
    rw [List.foldl_cons, inductionHypothesis, total_streamForwards, List.map_cons, List.sum_cons, add_assoc]

/-- Every request to be forwarded is marked, and has a stream. -/
theorem forwardRequests_marked (streams : List ValueStream) {forwardRequests : AList fun _ : Bytes => AddRequest}
    (marked : ∀ node request, forwardRequests.lookup node = some request →
      request.forwarded = true ∧ request.stream ≠ []) :
    ∀ node request,
      (streams.foldl (streamForwards hash32 server source forwarded) forwardRequests).lookup node =
        some request → request.forwarded = true ∧ request.stream ≠ [] := by
  induction streams generalizing forwardRequests with
  | nil => exact marked
  | cons stream rest inductionHypothesis =>
    apply inductionHypothesis
    intro node request found
    rw [streamForwards] at found
    split at found
    · rename_i owner _
      by_cases same : node = owner
      · subst same
        rw [forwardStream, AList.lookup_insert, Option.some.injEq] at found
        subst found
        exact ⟨rfl, by simp⟩
      · rw [forwardStream, AList.lookup_insert_ne same] at found
        exact marked node request found
    · exact marked node request found

theorem addStream_forwarded (state : AddState) (stream : ValueStream) :
    (addStream hash32 regexMatch server now source true state stream).1.forwardRequests =
      state.forwardRequests := by
  rw [addStream]
  cases sent : destination hash32 server true (namedVariable source stream) with
  | error error => rfl
  | ok target =>
    cases target with
    | none => rfl
    | some node =>
      -- A node is the destination only of a request that is not marked.
      rw [destination] at sent
      split at sent
      · cases sent
      · split at sent
        · cases sent
        · simp at sent

theorem addStreams_forwarded (state : AddState) (streams : List ValueStream) :
    (addStreams hash32 regexMatch server now source true state streams).1.forwardRequests =
      state.forwardRequests := by
  induction streams generalizing state with
  | nil => rfl
  | cons stream rest inductionHypothesis =>
    have here : (addStream hash32 regexMatch server now source true state stream).1.forwardRequests =
        state.forwardRequests := addStream_forwarded state stream
    rw [addStreams]
    cases added : addStream hash32 regexMatch server now source true state stream with
    | mk after error =>
      rw [added] at here
      cases error with
      | some error => exact here
      | none => exact (inductionHypothesis after).trans here

/-- A request that was forwarded is not forwarded again. -/
theorem handleAdd_forwarded (server : StoreServer) (now : UInt64) (source : Bytes)
    (answer : Bytes → Option AddResponse) {request : AddRequest} (marked : request.forwarded = true) :
    (handleAdd hash32 regexMatch server now source answer (some request)).calls = [] := by
  rw [handleAdd]
  split
  · rfl
  · simp only [marked, addStreams_forwarded]
    rfl

/-! ## One request -/

variable {cluster : Cluster} {answer : Bytes → Option AddResponse} {net : AddNetwork}

/-- What was recorded for the streams one after another. -/
theorem records_sum (address : Bytes) (records : ValueStream → List RecordCall) (streams : List ValueStream) :
    ((streams.flatMap records).map (address, ·) : Multiset (Bytes × RecordCall)) =
      (streams.map fun stream =>
        ((records stream).map (address, ·) : Multiset (Bytes × RecordCall))).sum := by
  induction streams with
  | nil => rfl
  | cons stream rest inductionHypothesis =>
    rw [List.flatMap_cons, List.map_append, ← Multiset.coe_add, inductionHypothesis, List.map_cons,
      List.sum_cons]

theorem calls_due (answer : Bytes → Option AddResponse)
    (forwardRequests : AList fun _ : Bytes => AddRequest) :
    (((forwardCalls answer forwardRequests).map fun call => Forward.mk call.node call.request).map due).sum =
      Keyed.total requestDue forwardRequests := by
  rw [forwardCalls, List.map_map, List.map_map, Keyed.total_eq_pairs]
  rfl

/-- A client's request adds each of its streams once to what is owed. -/
theorem owed_handleAt_client {address : Bytes} {source : SourceAddress} {streams : List ValueStream}
    (ring : (cluster.hashRing address).ring.entries ≠ [])
    (pass : ∀ stream ∈ streams,
      ChecksPass hash32 regexMatch (cluster.server address) now source.text false stream) :
    (handleAt hash32 regexMatch cluster address now source answer { stream := streams, forwarded := false }
        net).owed due =
      net.owed due + (streams.map (streamOnce hash32 cluster address source.text)).sum := by
  by_cases none : streams = []
  · subst none
    rw [handleAt, Network.owed_send]
    simp [handleAdd]
  have handled := @handleAdd_accepted hash32 regexMatch (cluster.server address) now source.text answer
    { stream := streams, forwarded := false } none fun stream member => (pass stream member).accepted ring
  have once : streams.map (streamOnce hash32 cluster address source.text) =
      streams.map fun stream =>
        ((streamRecords hash32 regexMatch (cluster.server address) now source.text false stream).map
          (address, ·) : Multiset (Bytes × RecordCall)) +
            awayDue hash32 (cluster.server address) source.text false stream :=
    List.map_congr_left fun stream member => streamOnce_eq ring (pass stream member)
  rw [handleAt, handled, Network.owed_send, calls_due, total_foldl, records_sum, once, List.sum_map_add]
  simp

/-- A request that was forwarded is recorded as it is due. -/
theorem owed_handleAt_forwarded {message : Forward} {source : SourceAddress} (sent : Sent message)
    (ring : (cluster.hashRing message.node).ring.entries ≠ [])
    (pass : ∀ stream ∈ message.request.stream,
      ChecksPass hash32 regexMatch (cluster.server message.node) now source.text message.request.forwarded
        stream) :
    (handleAt hash32 regexMatch cluster message.node now source answer message.request net).owed due =
      net.owed due + due message := by
  obtain ⟨marked, nonempty, hosted⟩ := sent
  rw [marked] at pass
  have handled := @handleAdd_accepted hash32 regexMatch (cluster.server message.node) now source.text answer
    message.request nonempty (by
      rw [marked]
      exact fun stream member => (pass stream member).accepted ring)
  have none := @handleAdd_forwarded hash32 regexMatch (cluster.server message.node) now source.text answer
    message.request marked
  have recorded : message.request.stream.map (fun stream =>
      ((streamRecords hash32 regexMatch (cluster.server message.node) now source.text true stream).map
        (message.node, ·) : Multiset (Bytes × RecordCall))) =
      message.request.stream.map fun stream =>
        recordedAt message.node (fromProtobuf stream.streamVariable) stream.value := by
    apply List.map_congr_left
    intro stream member
    rw [streamRecords_forwarded ring (hosted stream member) (pass stream member), recordedAt, List.map_map]
    rfl
  rw [handleAt, none, Network.owed_send, handled, marked, records_sum, recorded]
  simp [due, requestDue]

/-! ## Runs -/

/-- What a client's request puts in flight was sent by a server. -/
theorem sent_handleAt_client {address : Bytes} {source : SourceAddress} {streams : List ValueStream}
    (ring : (cluster.hashRing address).ring.entries ≠ [])
    (pass : ∀ stream ∈ streams,
      ChecksPass hash32 regexMatch (cluster.server address) now source.text false stream)
    (sent : ∀ message ∈ net.inFlight, Sent message) :
    ∀ message ∈ (handleAt hash32 regexMatch cluster address now source answer
      { stream := streams, forwarded := false } net).inFlight, Sent message := by
  by_cases none : streams = []
  · subst none
    simpa [handleAt, handleAdd, Network.send] using sent
  have handled := @handleAdd_accepted hash32 regexMatch (cluster.server address) now source.text answer
    { stream := streams, forwarded := false } none fun stream member => (pass stream member).accepted ring
  rw [handleAt, handled]
  intro message member
  cases List.mem_append.mp member with
  | inl before => exact sent message before
  | inr added =>
    obtain ⟨call, memberCall, rfl⟩ := List.mem_map.mp added
    obtain ⟨entry, memberEntry, rfl⟩ := List.mem_map.mp memberCall
    have marked := forwardRequests_marked streams (by simp) entry.1 entry.2 (Keyed.mem_pairs.mp memberEntry)
    refine ⟨marked.1, marked.2, fun stream carried => ?_⟩
    obtain ⟨original, -, -, rfl⟩ :=
      (mem_forwardCalls answer).mp ⟨_, memberCall, rfl, rfl, carried⟩
    rw [fromProtobuf_sentStream]
    exact namedVariable_hostname source original

/-- What servers send each other, and that no value is lost or recorded twice. -/
structure Conserved (hash32 : Bytes → UInt32) (cluster : Cluster) (events : List AddEvent)
    (net : AddNetwork) : Prop where
  sent : ∀ message ∈ net.inFlight, Sent message
  balance : net.owed due = (events.map (eventOnce hash32 cluster)).sum

/-- The step: an event that passes the checks keeps the balance. -/
theorem Conserved.step {events : List AddEvent} {after : AddNetwork} {event : AddEvent}
    (rings : ∀ address, (cluster.hashRing address).ring.entries ≠ [])
    (conserved : Conserved hash32 cluster events net) (pass : Passes hash32 regexMatch cluster net event)
    (step : addStep hash32 regexMatch cluster net event = some after) :
    Conserved hash32 cluster (events ++ [event]) after := by
  cases event with
  | client address now source answer stream =>
    obtain rfl := Option.some.inj step
    constructor
    · exact sent_handleAt_client (rings address) pass conserved.sent
    · rw [owed_handleAt_client (rings address) pass, conserved.balance]
      simp [eventOnce]
  | deliver index now source answer =>
    obtain ⟨⟨message, rest⟩, taken, rfl⟩ := Option.map_eq_some_iff.mp step
    obtain ⟨member, others⟩ := Network.mem_of_take taken
    have sent := conserved.sent message member
    have none := @handleAdd_forwarded hash32 regexMatch (cluster.server message.node) now source.text answer
      message.request sent.1
    constructor
    · intro other memberOther
      rw [handleAt, none] at memberOther
      cases List.mem_append.mp memberOther with
      | inl before => exact conserved.sent other (others other before)
      | inr added => cases added
    · have balance := conserved.balance
      rw [Network.owed_take taken] at balance
      rw [owed_handleAt_forwarded sent (rings message.node) (pass _ taken), balance]
      simp [eventOnce]

/-- The run: it holds after any events that pass the checks. -/
theorem AddRun.conserved {events : List AddEvent}
    (rings : ∀ address, (cluster.hashRing address).ring.entries ≠ [])
    (run : AddRun hash32 regexMatch cluster events net) : Conserved hash32 cluster events net := by
  induction run with
  | start => exact ⟨by simp [Network.empty], rfl⟩
  | next _ pass step inductionHypothesis => exact inductionHypothesis.step rings pass step

/-- Where no ring is empty, a forwarded request is never forwarded again, and once all are delivered
every stream is recorded once: by the server that the ring of the first server names, and under the
variable that the first server computes. -/
theorem forwarding_exactlyOnce {events : List AddEvent} {net : AddNetwork}
    (rings : ∀ address, (cluster.hashRing address).ring.entries ≠ [])
    (run : AddRun hash32 regexMatch cluster events net) :
    (∀ message ∈ net.inFlight, message.request.forwarded = true) ∧
      (∀ server now source answer (request : AddRequest), request.forwarded = true →
        (handleAdd hash32 regexMatch server now source answer (some request)).calls = []) ∧
      (net.inFlight = [] → ExactlyOnce hash32 cluster events net) := by
  have conserved := run.conserved rings
  have once : net.inFlight = [] → ExactlyOnce hash32 cluster events net := by
    intro delivered
    rw [ExactlyOnce, ← Network.owed_of_delivered delivered]
    exact conserved.balance
  exact ⟨fun message member => (conserved.sent message member).1,
    fun server now source answer request marked => handleAdd_forwarded server now source answer marked, once⟩

/-- Two servers: the ring of the one names the other, whose ring may name itself or nobody. -/
def twoServers (secondRing : OrderedMap UInt32 Bytes) : Cluster :=
  { hashRing := fun address =>
      { replicas := 2
        ring := if address = ascii "b:8020" then secondRing else OrderedMap.empty.set 0 (ascii "b:8020") }
    retentionPolicy := fun _ =>
      [{ streamVariable := [{ name := ascii "/*", label := [], type := none }]
         policy := .keep
         minAge := none
         maxAge := none }] }

/-- A client sends a value to the first server, and the second one receives it. -/
def twoHops : List AddEvent :=
  let source : SourceAddress := ⟨ascii "10.0.0.1", by decide⟩
  let stream : ValueStream :=
    { streamVariable := { name := ascii "/a", label := [], type := none }
      value := [{ timestamp := 1, doubleValue := some 1, stringValue := none, endTimestamp := none }] }
  [.client (ascii "a:8020") 1 source (fun _ => none) [stream], .deliver 0 1 source fun _ => none]

/-- The ring of the second server names itself. -/
theorem forwarding_exactlyOnce_twoHops :
    ∃ net, AddRun (fun _ => 0) (fun _ _ => .ok false) (twoServers (OrderedMap.empty.set 0 (ascii "b:8020")))
        twoHops net ∧ net.inFlight = [] ∧
      ExactlyOnce (fun _ => 0) (twoServers (OrderedMap.empty.set 0 (ascii "b:8020"))) twoHops net := by
  have ran : (runEvents (fun _ => 0) (fun _ _ => .ok false)
      (twoServers (OrderedMap.empty.set 0 (ascii "b:8020"))) twoHops).map (·.inFlight.isEmpty) = some true := by
    decide
  obtain ⟨net, found, delivered⟩ := Option.map_eq_some_iff.mp ran
  have rings : ∀ address, ((twoServers (OrderedMap.empty.set 0 (ascii "b:8020"))).hashRing
      address).ring.entries ≠ [] := by
    intro address
    simp only [twoServers, ite_self]
    decide
  have run := AddRun.of_runEvents found
  have empty := List.isEmpty_iff.mp delivered
  exact ⟨net, run, empty, (forwarding_exactlyOnce rings run).2.2 empty⟩

/-- The ring of the second server is empty, and nothing is recorded. -/
theorem forwarding_loses :
    ¬∀ (cluster : Cluster) (events : List AddEvent) (net : AddNetwork),
      AddRun (fun _ => 0) (fun _ _ => .ok false) cluster events net → net.inFlight = [] →
        ExactlyOnce (fun _ => 0) cluster events net := by
  intro always
  have ran : (runEvents (fun _ => 0) (fun _ _ => .ok false) (twoServers .empty) twoHops).map
      (fun net => net.inFlight.isEmpty && net.output.isEmpty) = some true := by
    decide
  obtain ⟨net, found, outcome⟩ := Option.map_eq_some_iff.mp ran
  rw [Bool.and_eq_true, List.isEmpty_iff, List.isEmpty_iff] at outcome
  have once := always _ _ net (AddRun.of_runEvents found) outcome.1
  rw [ExactlyOnce, outcome.2] at once
  have recorded := congrArg Multiset.card once
  revert recorded
  decide

end OpenInstrument.Server
