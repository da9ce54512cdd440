import OpenInstrument.Library.Circle
import OpenInstrument.Server.StoreConfig

/-! # Adding nodes to the hash ring

A node stands at several points of the ring, each the hash of the node's name and a number.  A point that two nodes
share belongs to the one that was added last.
-/

namespace OpenInstrument.Server

variable {Node Data : Type}

def HashRing.new (replicas : UInt32) : HashRing Node := { replicas, ring := .empty }

/-- What `%s` prints. -/
def cString (text : Bytes) : Bytes := text.takeWhile (· ≠ 0)

/-- `StringPrintf`, given the text that is to be printed.  The buffer grows for a text of more than 4095 bytes, but
the size that is passed does not, and the loop goes on for ever. -/
def stringPrintf (text : Bytes) : Option Bytes :=
  if 4095 < text.length then none else some (text.take 4094)

def replicaText (text : Bytes) (replica : Nat) : Bytes := cString text ++ ascii replica.repr

/-- `AddNode`, unless it does not come back. -/
def HashRing.addNode (hash32 : Bytes → UInt32) (lexicalCast : Node → Bytes) (hashRing : HashRing Node) (node : Node) :
    Option (HashRing Node) := do
  let ring ← (List.range hashRing.replicas.toNat).foldlM (fun ring replica => do
    let text ← stringPrintf (replicaText (lexicalCast node) replica)
    return ring.set (hash32 text) node) hashRing.ring
  return { hashRing with ring }

/-- `Clear`. -/
def HashRing.clear (hashRing : HashRing Node) : HashRing Node := { hashRing with ring := .empty }

/-- `UpdateHashRing`, with the addresses of the servers of the configuration. -/
def updateHashRing (hash32 : Bytes → UInt32) (hashRing : HashRing Bytes) (addresses : List Bytes) :
    Option (HashRing Bytes) :=
  addresses.foldlM (HashRing.addNode hash32 id) hashRing.clear

/-! ## The node of a key -/

theorem HashRing.getNode_eq (hash32 : Data → UInt32) (hashRing : HashRing Node) (data : Data) :
    hashRing.getNode hash32 data = (hashRing.ring.next (hash32 data)).map Prod.snd := by
  rw [getNode, OrderedMap.next]
  cases hashRing.ring.entries.find? fun entry => decide (hash32 data ≤ entry.1) with
  | none => rfl
  | some entry => rfl

/-- One replica more takes keys for the node, or leaves a key where it was. -/
theorem next_replicas {hash32 : Bytes → UInt32} {text : Bytes} {node : Node} {replicas : List Nat}
    {before after : OrderedMap UInt32 Node}
    (added : replicas.foldlM (fun ring replica => do
      let printed ← stringPrintf (replicaText text replica)
      return ring.set (hash32 printed) node) before = some after) (key : UInt32) :
    (after.next key).map Prod.snd = some node ∨ after.next key = before.next key := by
  induction replicas generalizing before with
  | nil =>
    cases Option.some.inj added
    exact .inr rfl
  | cons replica replicas inductionHypothesis =>
    rw [List.foldlM_cons] at added
    obtain ⟨between, here, rest⟩ := Option.bind_eq_some_iff.mp added
    obtain ⟨printed, -, same⟩ := Option.bind_eq_some_iff.mp here
    cases Option.some.inj same
    cases inductionHypothesis rest with
    | inl mine => exact .inl mine
    | inr unmoved =>
      rw [unmoved]
      cases before.next_set (hash32 printed) node key with
      | inl mine => exact .inl (by rw [mine]; rfl)
      | inr kept => exact .inr kept

theorem HashRing.addNode_ring {hash32 : Bytes → UInt32} {lexicalCast : Node → Bytes} {before after : HashRing Node}
    {node : Node} (added : before.addNode hash32 lexicalCast node = some after) (key : UInt32) :
    (after.ring.next key).map Prod.snd = some node ∨ after.ring.next key = before.ring.next key := by
  obtain ⟨ring, replicas, same⟩ := Option.bind_eq_some_iff.mp added
  cases Option.some.inj same
  exact next_replicas replicas key

/-- The node of a key is the one that was added, or what it was, which is nothing in an empty ring. -/
theorem HashRing.getNode_added {hash32 : Bytes → UInt32} {lexicalCast : Node → Bytes} {before after : HashRing Node}
    {node : Node} (added : before.addNode hash32 lexicalCast node = some after) (hashData : Data → UInt32)
    (key : Data) :
    after.getNode hashData key = some node ∨ after.getNode hashData key = before.getNode hashData key := by
  rw [getNode_eq, getNode_eq]
  exact (addNode_ring added (hashData key)).imp_right (congrArg (Option.map Prod.snd))

/-- A node that is added takes keys over, and no key moves between two other nodes. -/
theorem HashRing.getNode_addNode (hash32 : Bytes → UInt32) (hashData : Data → UInt32) (lexicalCast : Node → Bytes)
    {before after : HashRing Node} {node : Node} (nonempty : before.ring.entries ≠ [])
    (added : before.addNode hash32 lexicalCast node = some after) (key : Data) :
    ∃ old new, before.getNode hashData key = some old ∧ after.getNode hashData key = some new ∧
      (new = node ∨ new = old) := by
  cases found : before.getNode hashData key with
  | none => exact absurd (getNode_eq_none.mp found) nonempty
  | some old =>
    cases getNode_added added hashData key with
    | inl mine => exact ⟨old, node, rfl, mine, .inl rfl⟩
    | inr kept => exact ⟨old, old, rfl, kept.trans found, .inr rfl⟩

theorem HashRing.getNode_addNode_second :
    ∃ before after : HashRing Bytes,
      (HashRing.new 2).addNode (fun text => (text.foldl (· + ·) 0).toUInt32) id (ascii "a") = some before ∧
      before.addNode (fun text => (text.foldl (· + ·) 0).toUInt32) id (ascii "b") = some after ∧
      ∃ old new, before.getNode (fun text => (text.foldl (· + ·) 0).toUInt32) (ascii "key") = some old ∧
        after.getNode (fun text => (text.foldl (· + ·) 0).toUInt32) (ascii "key") = some new ∧
          (new = ascii "b" ∨ new = old) :=
  ⟨_, _, rfl, rfl,
    HashRing.getNode_addNode (fun text => (text.foldl (· + ·) 0).toUInt32) _ id (by decide) rfl _⟩

/-! ## When a node is added -/

theorem stringPrintf_eq_some {text : Bytes} : (∃ printed, stringPrintf text = some printed) ↔ text.length ≤ 4095 := by
  rw [stringPrintf]
  split
  · rename_i long
    simp [long]
  · rename_i short
    simp [not_lt.mp short]

/-- `AddNode` comes back when the names of all replicas fit into the buffer. -/
theorem HashRing.addNode_returns {hash32 : Bytes → UInt32} {lexicalCast : Node → Bytes} {hashRing : HashRing Node}
    {node : Node} :
    (∃ after, hashRing.addNode hash32 lexicalCast node = some after) ↔
      ∀ replica < hashRing.replicas.toNat, (replicaText (lexicalCast node) replica).length ≤ 4095 := by
  have loop : ∀ (replicas : List Nat) (ring : OrderedMap UInt32 Node),
      (∃ after, replicas.foldlM (fun ring replica => do
        let printed ← stringPrintf (replicaText (lexicalCast node) replica)
        return ring.set (hash32 printed) node) ring = some after) ↔
        ∀ replica ∈ replicas, (replicaText (lexicalCast node) replica).length ≤ 4095 := by
    intro replicas
    induction replicas with
    | nil => simp
    | cons replica replicas inductionHypothesis =>
      intro ring
      rw [List.forall_mem_cons, ← stringPrintf_eq_some, List.foldlM_cons]
      cases printed : stringPrintf (replicaText (lexicalCast node) replica) with
      | none => simp
      | some text => simpa using inductionHypothesis (ring.set (hash32 text) node)
  have members : (∀ replica ∈ List.range hashRing.replicas.toNat,
      (replicaText (lexicalCast node) replica).length ≤ 4095) ↔
      ∀ replica < hashRing.replicas.toNat, (replicaText (lexicalCast node) replica).length ≤ 4095 := by
    simp only [List.mem_range]
  rw [← members, ← loop _ hashRing.ring, addNode]
  simp only [Option.bind_eq_bind, Option.bind_eq_some_iff]
  constructor
  · intro added
    obtain ⟨after, ring, looped, -⟩ := added
    exact ⟨ring, looped⟩
  · intro added
    obtain ⟨ring, looped⟩ := added
    exact ⟨_, ring, looped, rfl⟩

/-- A server behind the others in the configuration takes variables over, and moves none between the others. -/
theorem getNode_updateHashRing {hash32 : Bytes → UInt32} {hashRing before after : HashRing Bytes}
    {addresses : List Bytes} {address : Bytes} (less : updateHashRing hash32 hashRing addresses = some before)
    (more : updateHashRing hash32 hashRing (addresses ++ [address]) = some after) (key : Bytes) :
    after.getNode hash32 key = some address ∨ after.getNode hash32 key = before.getNode hash32 key := by
  rw [updateHashRing, List.foldlM_append] at more
  obtain ⟨between, here, added⟩ := Option.bind_eq_some_iff.mp more
  rw [updateHashRing] at less
  rw [less] at here
  cases Option.some.inj here
  rw [List.foldlM_cons] at added
  obtain ⟨last, added, same⟩ := Option.bind_eq_some_iff.mp added
  cases Option.some.inj same
  exact HashRing.getNode_added added hash32 key

end OpenInstrument.Server
