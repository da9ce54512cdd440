import OpenInstrument.Server.Variable

/-! # The configuration of a store server

Which server owns a variable is read off a hash ring: the node at the first point of the ring that is
not below the hash of the variable, or at the first point of all.  Which of its values are kept is
decided by the first policy that matches the variable and the age of the value.

The hash function and the regular expressions of `boost` are parameters.
-/

namespace OpenInstrument.Server

def slash : UInt8 := 47

/-! ## The hash ring -/

structure HashRing (Node : Type) where
  replicas : UInt32
  ring : OrderedMap UInt32 Node

variable {Node Data : Type}

/-- `GetNode`; it throws when the ring is empty. -/
def HashRing.getNode (hash32 : Data → UInt32) (hashRing : HashRing Node) (data : Data) : Option Node :=
  match hashRing.ring.entries.find? fun entry => decide (hash32 data ≤ entry.1) with
  | some entry => some entry.2
  | none => hashRing.ring.entries.head?.map Prod.snd

theorem HashRing.getNode_eq_none {hash32 : Data → UInt32} {hashRing : HashRing Node} {data : Data} :
    hashRing.getNode hash32 data = none ↔ hashRing.ring.entries = [] := by
  rw [getNode]
  cases found : hashRing.ring.entries.find? fun entry => decide (hash32 data ≤ entry.1) with
  | none => simp
  | some entry =>
    have member := List.mem_of_find?_eq_some found
    simp [List.ne_nil_of_mem member]

/-! ## Searching -/

/-- What `boost::regex_match` says of a pattern and a text, or what the exception of a pattern that is
no regular expression says. -/
abbrev RegexMatch := Bytes → Bytes → Except Bytes Bool

/-- The name part of `Matches`; a trailing `*` stands for any rest. -/
def nameMatches (v search : Variable) : Bool :=
  if search.name.getLast? = some star then v.name.take (search.name.length - 1) == search.name.dropLast
  else search.name == v.name

/-- The label part of `Matches`. -/
def labelsMatch (regexMatch : RegexMatch) (v : Variable) : List (Bytes × Bytes) → Except Bytes Bool
  | [] => .ok true
  | (label, pattern) :: rest =>
    if pattern = [star] then
      if v.hasLabel label then labelsMatch regexMatch v rest else .ok false
    else if pattern.head? = some slash ∧ pattern.getLast? = some slash ∧ 2 < pattern.length then
      -- The pattern stands between the two slashes.
      match regexMatch pattern.tail.dropLast (v.getLabel label) with
      | .error what => .error what
      | .ok false => .ok false
      | .ok true => labelsMatch regexMatch v rest
    else if pattern = v.getLabel label then labelsMatch regexMatch v rest
    else .ok false

def Variable.matches (regexMatch : RegexMatch) (v search : Variable) : Except Bytes Bool :=
  if nameMatches v search then labelsMatch regexMatch v search.labels.entries else .ok false

/-! ## Retention -/

inductive Target where
  | keep
  | drop
  deriving DecidableEq

/-- `proto::RetentionPolicyItem`. -/
structure RetentionPolicyItem where
  streamVariable : List StreamVariable
  policy : Target
  minAge : Option UInt64
  maxAge : Option UInt64

def RetentionPolicyItem.getMinAge (item : RetentionPolicyItem) : UInt64 := item.minAge.getD 0

def RetentionPolicyItem.getMaxAge (item : RetentionPolicyItem) : UInt64 := item.maxAge.getD 0

def defaultPolicy : RetentionPolicyItem :=
  { streamVariable := [], policy := .drop, minAge := none, maxAge := none }

/-- The two loops of `GetPolicy`, over the items with each of their variables. -/
def findPolicy (regexMatch : RegexMatch) (v : Variable) (age : UInt64) :
    List (RetentionPolicyItem × StreamVariable) → Except Bytes RetentionPolicyItem
  | [] => .ok defaultPolicy
  | (item, search) :: rest =>
    match v.matches regexMatch (fromProtobuf search) with
    | .error what => .error what
    | .ok false => findPolicy regexMatch v age rest
    | .ok true =>
      if item.getMinAge ≠ 0 ∧ age < item.getMinAge then findPolicy regexMatch v age rest
      else if item.getMaxAge ≠ 0 ∧ item.getMaxAge < age then findPolicy regexMatch v age rest
      else .ok item

def getPolicy (regexMatch : RegexMatch) (policies : List RetentionPolicyItem) (v : Variable)
    (age : UInt64) : Except Bytes RetentionPolicyItem :=
  findPolicy regexMatch v age (policies.flatMap fun item => item.streamVariable.map (item, ·))

def shouldDrop (item : RetentionPolicyItem) : Bool := item.policy == .drop

end OpenInstrument.Server
