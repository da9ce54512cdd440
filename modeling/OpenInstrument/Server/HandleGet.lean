import OpenInstrument.Server.Aggregation

/-! # Get requests to the C++ server

The variables that match the request are read in their order, up to a number that the request gives.  Each
range is mutated, or returned as it is.  The streams of each variable name are then aggregated, if the request
asks for it.
-/

namespace OpenInstrument.Server

/-- `proto::GetRequest`. -/
structure GetRequest where
  variable_ : Option StreamVariable
  minTimestamp : Option UInt64
  maxTimestamp : Option UInt64
  mutation : List StreamMutation
  aggregation : List StreamAggregation
  maxVariables : Option UInt32

def GetRequest.getVariable (req : GetRequest) : StreamVariable :=
  req.variable_.getD { name := [], label := [], type := none }

def GetRequest.getMaxVariables (req : GetRequest) : UInt32 := req.maxVariables.getD 0

/-- `proto::GetResponse`. -/
structure GetResponse where
  success : Bool
  errormessage : Option Bytes
  stream : List ResponseStream
  deriving DecidableEq

inductive GetReply where
  | badRequest (text : Bytes)
  | response (response : GetResponse)
  deriving DecidableEq

/-! ## Searching -/

section Search

variable (regexMatch : RegexMatch) (order : Iteration) (liveData : LiveData)

/-- `Variable(key)`, or the exception of a text that cannot be split into tokens. -/
def parseKey (key : Bytes) : Except Stop Variable :=
  match fromString key with
  | .ok v => .ok v
  | .error _ => .error (.exception (ascii "escaped_list_error"))

def matchesSearch (search v : Variable) : Except Stop Bool :=
  match v.matches regexMatch search with
  | .ok matched => .ok matched
  | .error what => .error (.exception what)

/-- `set<Variable>::insert`: variables are told apart by what they are printed as. -/
def insertVariable (vars : OrderedMap Bytes Variable) (v : Variable) : OrderedMap Bytes Variable :=
  if (vars.lookup v.toString).isSome then vars else vars.set v.toString v

/-- `FindVariables`. -/
def findVariables (search : Variable) : Except Stop (List Variable) := do
  let vars ← (order.order liveData.keys).foldlM (fun vars key => do
    let v ← parseKey key
    let matched ← matchesSearch regexMatch search v
    return if matched then insertVariable vars v else vars) OrderedMap.empty
  return vars.entries.map Prod.snd

/-- `GetRange` into a new stream; a variable that is not found is caught there. -/
def getRangeStream (v : Variable) (start finish : UInt64) : ResponseStream :=
  match liveData.lookup v.toString with
  | none => .empty
  | some instream =>
    if instream.value = [] then .empty
    else { variable_ := some instream.streamVariable, value := getRange liveData v start finish }

end Search

/-! ## Reading -/

def GetRequest.start (req : GetRequest) (now : UInt64) : UInt64 := req.minTimestamp.getD (now - 86400 * 1000)

def GetRequest.finish (req : GetRequest) (now : UInt64) : UInt64 := req.maxTimestamp.getD now

/-- The variables that are read: `varcounter` counts them up to the limit. -/
def limitVariables (maxVariables : UInt32) : UInt32 → List Variable → List Variable
  | _, [] => []
  | varcounter, v :: vars =>
    if maxVariables < varcounter + 1 then [] else v :: limitVariables maxVariables (varcounter + 1) vars

section Handler

variable (arithmetic : Arithmetic UInt64) (turns : Nat)

def readVariable (liveData : LiveData) (now : UInt64) (req : GetRequest) (v : Variable) :
    Except Stop (List ResponseStream) :=
  let initialStream := getRangeStream liveData v (req.start now) (req.finish now)
  if req.mutation = [] then .ok [initialStream]
  else req.mutation.mapM (applyMutation arithmetic turns initialStream)

def namedStreams (streams : List ResponseStream) (varname : Bytes) : List ResponseStream :=
  streams.filter fun stream => stream.toVariable.name = varname

def uniqueNames (vars : List Variable) : List Bytes := sortStrings (vars.map Variable.name).dedup

/-- The aggregations of the streams of one variable name. -/
def aggregateName (req : GetRequest) (streams : List ResponseStream) (varname : Bytes) :
    Except Stop (List ResponseStream) := do
  let outputs ← req.aggregation.mapM (aggregate arithmetic turns (namedStreams streams varname))
  return outputs.flatten

/-- What the `try` block of `HandleGet` makes of the variables that were found. -/
def respond (liveData : LiveData) (now : UInt64) (req : GetRequest) (vars : List Variable) :
    Except Stop (List ResponseStream) := do
  let vars := limitVariables req.getMaxVariables 0 vars
  let streams ← vars.mapM (readVariable arithmetic turns liveData now req)
  if req.aggregation = [] then return streams.flatten
  else do
    let outputs ← (uniqueNames vars).mapM (aggregateName arithmetic turns req streams.flatten)
    return outputs.flatten

/-- `HandleGet`, given what was parsed from the body.  An exception of the search is not caught. -/
def handleGet (regexMatch : RegexMatch) (order : Iteration) (liveData : LiveData) (now : UInt64)
    (request : Option GetRequest) : Except Stop GetReply :=
  match request with
  | none => .ok (.badRequest (ascii "Invalid Request\n"))
  | some req =>
    if req.getVariable.name = [] then .ok (.badRequest (ascii "No variable specified\n"))
    else do
      let vars ← findVariables regexMatch order liveData (fromProtobuf req.getVariable)
      match respond arithmetic turns liveData now req vars with
      | .ok stream => .ok (.response { success := true, errormessage := none, stream })
      -- Streams are added to the response only when nothing can throw any more.
      | .error (.exception what) => .ok (.response { success := false, errormessage := some what, stream := [] })
      | .error stop => .error stop

end Handler

end OpenInstrument.Server
