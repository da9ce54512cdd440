import OpenInstrument.Go.HashRing
import OpenInstrument.Library.FanOut
import OpenInstrument.Server.Base64

/-! # The client of a cluster

A client sends a request to all servers that run, each in a goroutine of its own, and collects the answers from a
channel.  A server whose request fails is left out.  For the configuration one answer is enough.

Requests and answers are sent as text; what the handler of a server makes of a request is a parameter.
-/

namespace OpenInstrument.StoreClient

open Hashring Server

variable {Request Response : Type}

/-! ## The code -/

/-- The status and the body of a reply. -/
structure Reply where
  status : Nat
  body : Bytes

/-- What a server does with a request: its status, and its response. -/
abbrev Handler (Request Response : Type) := Request → Nat × Response

/-- How a server of the cluster replies: `parseRequest`, the handler, and `returnResponse`.  The bodies of errors are
not looked at. -/
def serve (request : Codec Request) (response : Codec Response) (handler : Handler Request Response) (body : Bytes) :
    Reply :=
  match parsedBody request body with
  | none => { status := 400, body := [] }
  | some message =>
    match sentBody response (handler message).2 with
    | none => { status := 500, body := [] }
    | some body => { status := (handler message).1, body }

/-- `doRequest`, given what the server at an address replies.  The texts of the errors are only logged. -/
def doRequest (request : Codec Request) (response : Codec Response) (post : GoString → Bytes → Option Reply)
    (hostport : GoString) (message : Request) : Option Response := do
  let body ← sentBody request message
  let reply ← post hostport body
  if reply.status ≠ 200 then none else parsedBody response reply.body

/-- The servers that are asked. -/
def isAsked (server : StoreServer) : Bool := server.state = .run

/-- What the goroutines of `List`, `Get` and `GetConfig` send. -/
def goroutines (post : StoreServer → Option Response) (servers : List StoreServer) : List (List Response) :=
  (servers.filter isAsked).map fun server => (post server).toList

def room (servers : List StoreServer) : Nat := servers.length

/-- `List` and `Get`, with no server to ask or with a run of the goroutines: what was received when they stopped. -/
def collect (post : StoreServer → Option Response) (servers : List StoreServer) (schedule : List FanOut.Action) :
    Option (FanOut.State Response) :=
  if (servers.filter isAsked).isEmpty then none
  else Runs.run (FanOut.State.step (room servers) FanOut.everything) (.new (goroutines post servers)) schedule

def isFound (configs : List Response) : Bool := !configs.isEmpty

/-- `GetConfig`, which takes the first answer. -/
def collectFirst (post : StoreServer → Option Response) (servers : List StoreServer)
    (schedule : List FanOut.Action) : Option (FanOut.State Response) :=
  if (servers.filter isAsked).isEmpty then none
  else Runs.run (FanOut.State.step (room servers) isFound) (.new (goroutines post servers)) schedule

/-! ## A cluster -/

/-- The handlers of the servers that can be reached. -/
abbrev Cluster (Request Response : Type) := GoString → Option (Handler Request Response)

def Cluster.post (cluster : Cluster Request Response) (request : Codec Request) (response : Codec Response)
    (hostport : GoString) (body : Bytes) : Option Reply :=
  (cluster hostport).map fun handler => serve request response handler body

/-- What a server answers, if it can be reached, is content with the request, and its response is not too large to be
sent. -/
def Cluster.answer (cluster : Cluster Request Response) (response : Codec Response) (message : Request)
    (server : StoreServer) : Option Response := do
  let handler ← cluster server.address
  if (handler message).1 = 200 ∧ (response.encode (handler message).2).length ≤ maxMarshalSize then
    some (handler message).2
  else none

theorem sentBody_eq {Message : Type} (codec : Codec Message) (message : Message) :
    sentBody codec message =
      if (codec.encode message).length ≤ maxMarshalSize then some (encodeToString (codec.encode message))
      else none := by
  rw [sentBody, Codec.marshal]
  split <;> rfl

theorem parsedBody_encodeToString {Message : Type} (codec : Codec Message) (message : Message) :
    parsedBody codec (encodeToString (codec.encode message)) = some message := by
  rw [parsedBody, decodeString_encodeToString]
  exact codec.decode_encode message

/-- A request gets the answer of its server. -/
theorem doRequest_eq (request : Codec Request) (response : Codec Response) (cluster : Cluster Request Response)
    (server : StoreServer) {message : Request} (small : (request.encode message).length ≤ maxMarshalSize) :
    doRequest request response (cluster.post request response) server.address message =
      cluster.answer response message server := by
  simp only [doRequest, Cluster.answer, Cluster.post, sentBody_eq, if_pos small, Option.bind_eq_bind, Option.bind_some]
  cases cluster server.address with
  | none => rfl
  | some handler =>
    simp only [Option.map_some, Option.bind_some, serve, parsedBody_encodeToString, sentBody_eq]
    by_cases fits : (response.encode (handler message).2).length ≤ maxMarshalSize
    · simp only [fits, and_true]
      by_cases content : (handler message).1 = 200
      · simp only [content, ne_eq, not_true_eq_false, if_false, if_true]
        exact parsedBody_encodeToString response _
      · simp only [content, ne_eq, not_false_eq_true, if_false, if_true]
    · simp only [fits, and_false, if_false]
      rfl

/-! ## Collecting answers -/

theorem flatten_goroutines (post : StoreServer → Option Response) (servers : List StoreServer) :
    (goroutines post servers).flatten = (servers.filter isAsked).filterMap post := by
  rw [goroutines]
  induction servers.filter isAsked with
  | nil => rfl
  | cons server servers inductionHypothesis =>
    rw [List.map_cons, List.flatten_cons, inductionHypothesis, List.filterMap_cons]
    cases post server <;> rfl

theorem room_pos {servers : List StoreServer} (asked : ¬(servers.filter isAsked).isEmpty = true) :
    0 < room servers := by
  rw [List.isEmpty_iff] at asked
  exact Nat.lt_of_lt_of_le (List.length_pos_iff.mpr asked) (List.length_filter_le _ _)

/-- A list of the whole cluster.  Nothing is sent on a closed channel, the goroutines stop after so many steps, and
when they do all have come to their end, and the answers of the servers that run have been collected, each once. -/
theorem collect_cluster {request : Codec Request} {response : Codec Response} {cluster : Cluster Request Response}
    {servers : List StoreServer} {message : Request} (small : (request.encode message).length ≤ maxMarshalSize)
    {schedule : List FanOut.Action} {s : FanOut.State Response}
    (ran : collect (fun server => doRequest request response (cluster.post request response) server.address message)
      servers schedule = some s) :
    s.panicked = false ∧
    (∃ bound, ∀ more last, Runs.run (FanOut.State.step (room servers) FanOut.everything) s more = some last →
      more.length ≤ bound) ∧
    (s.Stopped (room servers) FanOut.everything →
      s.Ended ∧ s.received.Perm ((servers.filter isAsked).filterMap (cluster.answer response message))) := by
  simp only [doRequest_eq request response cluster _ small, collect] at ran
  split at ran
  · cases ran
  · rename_i asked
    have sound := FanOut.sound_run ran
    refine ⟨sound.calm, ⟨s.work, fun more last ran => ?_⟩, fun stopped => ?_⟩
    · have bound := sound.run_length ran
      omega
    · obtain ⟨ended, merges⟩ := (sound.outcome stopped (room_pos asked)).2.resolve_right nofun
      exact ⟨ended, flatten_goroutines _ servers ▸ merges.perm⟩

/-- Two servers run, a third does not; one of the two cannot be reached. -/
def threeServers : List StoreServer := [⟨ascii "a", [], .run⟩, ⟨ascii "b", [], .load⟩, ⟨ascii "c", [], .run⟩]

/-- The server answers with the stream that it is sent. -/
def oneReachable : Cluster (Stream UInt64) (Stream UInt64) := fun address =>
  if address = ascii "c" then some fun message => (200, message) else none

def echo (server : StoreServer) : Option (Stream UInt64) :=
  doRequest protoRuntime.stream protoRuntime.stream (oneReachable.post protoRuntime.stream protoRuntime.stream)
    server.address (gauge "v" [5])

def schedule : List FanOut.Action := [.start, .start, .send 1, .done 0, .receive, .done 1, .close, .finish]

theorem collect_cluster_three : ∃ s : FanOut.State (Stream UInt64),
    collect echo
      threeServers schedule = some s ∧ s.received = [gauge "v" [5]] ∧
    s.panicked = false ∧
    (∃ bound, ∀ more last, Runs.run (FanOut.State.step (room threeServers) FanOut.everything) s more = some last →
      more.length ≤ bound) ∧
    (s.Stopped (room threeServers) FanOut.everything →
      s.Ended ∧ s.received.Perm ((threeServers.filter isAsked).filterMap (oneReachable.answer protoRuntime.stream (gauge "v" [5])))) :=
  ⟨_, rfl, rfl, collect_cluster (by decide)
    (show collect echo
      threeServers schedule = some _ from rfl)⟩

/-- The configuration of a cluster.  The goroutines come to their end although only the first answer is taken, which is
that of a server that runs; there is none only if no such server answers. -/
theorem collectFirst_cluster {request : Codec Request} {response : Codec Response}
    {cluster : Cluster Request Response} {servers : List StoreServer} {message : Request}
    (small : (request.encode message).length ≤ maxMarshalSize) {schedule : List FanOut.Action}
    {s : FanOut.State Response}
    (ran : collectFirst
      (fun server => doRequest request response (cluster.post request response) server.address message) servers
      schedule = some s) :
    s.panicked = false ∧
    (∃ bound, ∀ more last, Runs.run (FanOut.State.step (room servers) isFound) s more = some last →
      more.length ≤ bound) ∧
    (s.Stopped (room servers) isFound →
      s.Ended ∧
      (∀ config, s.received.head? = some config →
        config ∈ (servers.filter isAsked).filterMap (cluster.answer response message)) ∧
      (s.received.head? = none ↔ (servers.filter isAsked).filterMap (cluster.answer response message) = [])) := by
  simp only [doRequest_eq request response cluster _ small, collectFirst] at ran
  split at ran
  · cases ran
  · rename_i asked
    have sound := FanOut.sound_run ran
    refine ⟨sound.calm, ⟨s.work, fun more last ran => ?_⟩, fun stopped => ?_⟩
    · have bound := sound.run_length ran
      omega
    · have few : (goroutines (cluster.answer response message) servers).flatten.length ≤ room servers := by
        rw [flatten_goroutines]
        exact (List.length_filterMap_le _ _).trans (List.length_filter_le _ _)
      obtain ⟨rest, merges⟩ := sound.exists_rest
      have same := flatten_goroutines (cluster.answer response message) servers ▸ merges.perm
      refine ⟨sound.ended stopped few, fun config first => ?_, ?_⟩
      · exact same.mem_iff.mp (List.mem_append_left _ (List.mem_of_mem_head? first))
      · rw [List.head?_eq_none_iff]
        constructor
        · intro none_
          rcases (sound.outcome stopped (room_pos asked)).2 with ⟨_, all⟩ | found
          · rw [none_] at all
            exact List.perm_nil.mp (flatten_goroutines (cluster.answer response message) servers ▸ all.perm).symm
          · rw [none_] at found
            cases found
        · intro none_
          exact (List.append_eq_nil_iff.mp (List.perm_nil.mp (none_ ▸ same))).1

theorem collectFirst_cluster_three : ∃ s : FanOut.State (Stream UInt64),
    collectFirst echo
      threeServers schedule = some s ∧
    s.panicked = false ∧
    (∃ bound, ∀ more last, Runs.run (FanOut.State.step (room threeServers) isFound) s more = some last →
      more.length ≤ bound) ∧
    (s.Stopped (room threeServers) isFound →
      s.Ended ∧
      (∀ config, s.received.head? = some config →
        config ∈ (threeServers.filter isAsked).filterMap (oneReachable.answer protoRuntime.stream (gauge "v" [5]))) ∧
      (s.received.head? = none ↔
        (threeServers.filter isAsked).filterMap (oneReachable.answer protoRuntime.stream (gauge "v" [5])) = [])) :=
  ⟨_, rfl, collectFirst_cluster (by decide)
    (show collectFirst echo
      threeServers schedule = some _ from rfl)⟩

end OpenInstrument.StoreClient
