import OpenInstrument.Go.Text
import OpenInstrument.Library.SortedCircle

/-! # The hash ring of the store manager

Each server stands at several ticks of a ring, each the hash of the server's name and a number.  `AddNode` puts the
ticks behind the others, and `Bake` sorts them; a key belongs to the server of the first tick from its hash on.

`sort.Sort` need not keep the order of ticks with one hash, and may put them in any.
-/

namespace OpenInstrument.Hashring

open SortedCircle

/-! ## The code -/

structure Tick where
  node : GoString
  hash : UInt64
  deriving DecidableEq, Repr

structure HashRing where
  defaultSpots : Int64
  ticks : List Tick
  length : Nat

/-- `sha1.Sum`. -/
abbrev Sha1 := GoString → Vector UInt8 20

/-- What is relied on of `sort.Sort`. -/
structure TickSort where
  sort : List Tick → List Tick
  perm : ∀ ticks, (sort ticks).Perm ticks
  sorted : ∀ ticks, (sort ticks).Pairwise fun tick other => tick.hash ≤ other.hash

variable (sha1 : Sha1) (sorting : TickSort)

/-- The last four bytes of a hash. -/
def place (text : GoString) : UInt64 :=
  let hashBytes := sha1 text
  hashBytes[19].toUInt64 ||| hashBytes[18].toUInt64 <<< 8 ||| hashBytes[17].toUInt64 <<< 16 |||
    hashBytes[16].toUInt64 <<< 24

def newRing (n : Int64) : HashRing := { defaultSpots := n, ticks := [], length := 0 }

def nodeTicks (defaultSpots : Int64) (n : GoString) (s : Int64) : List Tick :=
  (List.range (defaultSpots * s).toInt.toNat).map fun i =>
    { node := n, hash := place sha1 (n ++ ascii ":" ++ ascii (i + 1).repr) }

namespace HashRing

def addNode (h : HashRing) (n : GoString) (s : Int64) : HashRing :=
  { h with ticks := h.ticks ++ nodeTicks sha1 h.defaultSpots n s }

def bake (h : HashRing) : HashRing :=
  let ticks := sorting.sort h.ticks
  { h with ticks, length := ticks.length }

/-- `Hash`, unless it panics.  The search looks at the ticks that the last `Bake` has seen. -/
def hash (h : HashRing) (s : GoString) : Option GoString :=
  let v := place sha1 s
  let i := search h.length fun i => h.ticks[i]?.any fun tick => v ≤ tick.hash
  let i := if i = h.length then 0 else i
  h.ticks[i]?.map Tick.node

end HashRing

/-! ## The ring of a configuration -/

inductive ServerState where
  | unknown
  | load
  | run
  | drain
  | readonly
  | shutdown
  deriving DecidableEq, Repr

/-- What is read of a server of the configuration. -/
structure StoreServer where
  address : GoString
  name : GoString
  state : ServerState
  deriving DecidableEq, Repr

def StoreServer.inRing (server : StoreServer) : Bool := server.state ≠ .unknown && server.state ≠ .shutdown

/-- A server stands under its name, or else under its address. -/
def StoreServer.ringName (server : StoreServer) : GoString := if server.name = [] then server.address else server.name

/-- The ring that `Run` of the store manager creates. -/
def ringOf (servers : List StoreServer) : HashRing :=
  let running := servers.filter StoreServer.inRing
  (running.foldl (fun ring server => ring.addNode sha1 server.ringName 1)
    (newRing (.ofNat running.length * 100))).bake sorting

/-! ## Which server owns a key -/

inductive Call where
  | addNode (n : GoString) (s : Int64)
  | bake

def HashRing.call (h : HashRing) : Call → HashRing
  | .addNode n s => h.addNode sha1 n s
  | .bake => h.bake sorting

def after (spots : Int64) (calls : List Call) : HashRing := calls.foldl (HashRing.call sha1 sorting) (newRing spots)

def ticksOf (spots : Int64) (calls : List Call) : List Tick :=
  calls.flatMap fun
    | .addNode n s => nodeTicks sha1 spots n s
    | .bake => []

variable {sha1 sorting}

/-- No tick gets lost. -/
theorem ticks_foldl (calls : List Call) (h : HashRing) :
    (calls.foldl (HashRing.call sha1 sorting) h).ticks.Perm (h.ticks ++ ticksOf sha1 h.defaultSpots calls) := by
  induction calls generalizing h with
  | nil => exact List.Perm.of_eq (List.append_nil _).symm
  | cons call calls inductionHypothesis =>
    rw [List.foldl_cons]
    refine (inductionHypothesis _).trans ?_
    cases call with
    | addNode n s =>
      refine .of_eq ?_
      simp only [HashRing.call, HashRing.addNode, ticksOf, List.flatMap_cons, List.append_assoc]
    | bake => exact (sorting.perm h.ticks).append_right _

theorem ticks_after (spots : Int64) (calls : List Call) :
    (after sha1 sorting spots calls).ticks.Perm (ticksOf sha1 spots calls) := ticks_foldl calls (newRing spots)

/-- In a ring whose baked ticks are sorted the other ticks, behind them, do not count. -/
theorem hash_baked (sha1 : Sha1) {baked : List Tick} (sorted : baked.Pairwise fun tick other => tick.hash ≤ other.hash)
    (nonempty : baked ≠ []) (s : GoString) :
    ∃ tick, Answers Tick.hash baked (place sha1 s) tick ∧
      ∀ (h : HashRing) (late : List Tick), h.ticks = baked ++ late → h.length = baked.length →
        h.hash sha1 s = some tick.node := by
  have positive := List.length_pos_iff.mpr nonempty
  have reads : ∀ (ticks late : List Tick), ticks = baked ++ late → ∀ number (inside : number < baked.length),
      (ticks[number]?.any fun tick => place sha1 s ≤ tick.hash) = decide (place sha1 s ≤ baked[number].hash) := by
    rintro _ late rfl number inside
    rw [List.getElem?_append_left inside, List.getElem?_eq_getElem inside]
    rfl
  have own := reads baked [] (List.append_nil _).symm
  have found := answers_search sorted own
  have bound := (search_spec (found_mono sorted own)).2.2
  dsimp only at found
  have inside : (if search baked.length (fun i => baked[i]?.any fun tick => place sha1 s ≤ tick.hash) = baked.length
      then 0 else search baked.length fun i => baked[i]?.any fun tick => place sha1 s ≤ tick.hash) < baked.length := by
    split <;> omega
  refine ⟨_, found _ (List.getElem?_eq_getElem inside), fun h late ticks length => ?_⟩
  have same := search_congr (found_mono sorted own) fun number inside =>
    (own number inside).trans (reads h.ticks late ticks number inside).symm
  rw [HashRing.hash, length, ← same, ticks, List.getElem?_append_left inside, List.getElem?_eq_getElem inside,
    Option.map_some]

/-- A key belongs to the first tick from its hash on, of all nodes that were added before the last `Bake`. -/
theorem hash_owner (sorting : TickSort) {spots : Int64} {calls : List Call} (nonempty : ticksOf sha1 spots calls ≠ [])
    (s : GoString) :
    ∃ tick, Answers Tick.hash (ticksOf sha1 spots calls) (place sha1 s) tick ∧
      ((after sha1 sorting spots calls).bake sorting).hash sha1 s = some tick.node ∧
      ∀ n multiplier, (((after sha1 sorting spots calls).bake sorting).addNode sha1 n multiplier).hash sha1 s =
        some tick.node := by
  have same := (sorting.perm (after sha1 sorting spots calls).ticks).trans (ticks_after spots calls)
  obtain ⟨tick, answers, found⟩ := hash_baked sha1 (sorting.sorted (after sha1 sorting spots calls).ticks)
    (fun none_ => nonempty (List.perm_nil.mp (none_ ▸ same.symm))) s
  exact ⟨tick, answers.of_mem_iff fun _ => same.mem_iff.symm, found _ [] (List.append_nil _).symm rfl,
    fun n multiplier => found _ _ rfl rfl⟩

/-- A sort that keeps the order of ticks with one hash. -/
def stableSort : TickSort where
  sort := List.insertionSort fun tick other => tick.hash ≤ other.hash
  perm := List.perm_insertionSort _
  sorted := List.pairwise_insertionSort _

/-- In place of SHA-1: a hash that takes up all of a text. -/
def digits : Sha1 := fun text => Vector.replicate 20 (text.foldl (· * 31 + ·) 0)

/-- `Hash` panics in a ring without ticks. -/
theorem hash_nil (sorting : TickSort) {spots : Int64} {calls : List Call} (empty : ticksOf sha1 spots calls = [])
    (s : GoString) : ((after sha1 sorting spots calls).bake sorting).hash sha1 s = none := by
  have same := (sorting.perm (after sha1 sorting spots calls).ticks).trans (ticks_after spots calls)
  rw [empty] at same
  have none_ : ((after sha1 sorting spots calls).bake sorting).ticks = [] := List.perm_nil.mp same
  rw [HashRing.hash, none_]
  rfl

/-! ## Rings of one configuration -/

/-- The calls of `Run`. -/
def callsOf (servers : List StoreServer) : List Call :=
  (servers.filter StoreServer.inRing).map fun server => .addNode server.ringName 1

def spotsOf (servers : List StoreServer) : Int64 := .ofNat (servers.filter StoreServer.inRing).length * 100

theorem ringOf_eq (servers : List StoreServer) :
    ringOf sha1 sorting servers = (after sha1 sorting (spotsOf servers) (callsOf servers)).bake sorting := by
  rw [ringOf, after, callsOf, List.foldl_map]
  rfl

/-- Two managers agree on the server of each key when their configurations list the same servers, in whatever order,
and no two servers share a hash. -/
theorem ringOf_agrees {servers others : List StoreServer} (same : servers.Perm others)
    (apart : ∀ first ∈ ticksOf sha1 (spotsOf servers) (callsOf servers),
      ∀ second ∈ ticksOf sha1 (spotsOf servers) (callsOf servers), first.hash = second.hash → first.node = second.node)
    (other : TickSort) (s : GoString) :
    (ringOf sha1 sorting servers).hash sha1 s = (ringOf sha1 other others).hash sha1 s := by
  have calls : (callsOf servers).Perm (callsOf others) := (same.filter _).map _
  have spots : spotsOf servers = spotsOf others := by rw [spotsOf, spotsOf, (same.filter _).length_eq]
  have ticks : (ticksOf sha1 (spotsOf servers) (callsOf servers)).Perm
      (ticksOf sha1 (spotsOf others) (callsOf others)) := by
    rw [spots]
    exact calls.flatMap_right _
  rw [ringOf_eq, ringOf_eq]
  by_cases nonempty : ticksOf sha1 (spotsOf servers) (callsOf servers) = []
  · rw [hash_nil sorting nonempty, hash_nil other (List.perm_nil.mp (nonempty ▸ ticks).symm)]
  · obtain ⟨first, answers, found, -⟩ := hash_owner sorting nonempty s
    obtain ⟨second, answers', found', -⟩ :=
      hash_owner other (fun none_ => nonempty (List.perm_nil.mp (none_ ▸ ticks))) s
    replace answers' := answers'.of_mem_iff fun _ => ticks.mem_iff
    rw [found, found', apart first answers.member second answers'.member (answers.unique answers')]

/-- The sort that turns the ticks of one hash around. -/
def reverseSort : TickSort where
  sort ticks := ticks.reverse.insertionSort fun tick other => tick.hash ≤ other.hash
  perm ticks := (List.perm_insertionSort _ _).trans (List.reverse_perm ticks)
  sorted _ := List.pairwise_insertionSort _ _

def twoServers : List StoreServer := [⟨ascii "a:8020", [], .run⟩, ⟨ascii "b:8020", ascii "b", .load⟩]

/-- In place of SHA-1: a hash that takes up the first letter of a text. -/
def firstLetter : Sha1 := fun text => Vector.replicate 20 (text.headD 0)

theorem ringOf_agrees_two : (ringOf firstLetter stableSort twoServers).hash firstLetter (ascii "key") =
    (ringOf firstLetter reverseSort twoServers.reverse).hash firstLetter (ascii "key") := by
  have ticks : ∀ tick ∈ ticksOf firstLetter (spotsOf twoServers) (callsOf twoServers),
      tick = ⟨ascii "a:8020", 0x61616161⟩ ∨ tick = ⟨ascii "b", 0x62626262⟩ := by
    decide +kernel
  refine ringOf_agrees (List.reverse_perm twoServers).symm (fun first member second member' same => ?_) reverseSort _
  rcases ticks first member with rfl | rfl <;> rcases ticks second member' with rfl | rfl
  · rfl
  · exact absurd same (by decide)
  · exact absurd same (by decide)
  · rfl

end OpenInstrument.Hashring
