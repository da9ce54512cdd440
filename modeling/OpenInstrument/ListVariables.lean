import Mathlib.Data.Finset.Card
import OpenInstrument.Datastore.ConcurrentReader

/-! # List requests

`List` receives the streams of a reader that does not fetch values, collects their names in a map, and stops as soon as
it has as many as were asked for.  The goroutines of the reader may then wait for room for ever.

A block that only has index entries to tell of its streams selects the same streams as one that reads them.
-/

namespace OpenInstrument

variable {Double : Type}

/-! ## The code -/

structure ListRequest where
  variablePrefix : Option StreamVariable
  maxVariables : Option UInt32
  maxAge : Option UInt64

def ListRequest.getMaxVariables (request : ListRequest) : UInt32 := request.maxVariables.getD 0

def ListRequest.getMaxAge (request : ListRequest) : UInt64 := request.maxAge.getD 86400000

structure ListResponse where
  success : Bool
  errormessage : GoString
  streamVariable : List StreamVariable

/-- The time `now`, in nanoseconds, less the age in milliseconds, cut to whole seconds. -/
def minTimestamp (now : Int) (maxAge : UInt64) : UInt64 :=
  ((now + ((-maxAge).toInt64 * 1000000).toInt).fdiv 1000000000).toInt64.toUInt64 * 1000

def ListRequest.search (request : ListRequest) (now : Int) (v : Variable) : Search :=
  { v, minTimestamp := some (minTimestamp now request.getMaxAge), maxTimestamp := none }

/-- The map of the names of streams, each with the variable it was last seen with. -/
def listNames (streams : List (Stream Double)) :
    Except Panic (AList fun _ : GoString => Option StreamVariable) :=
  streams.foldlM (fun vars stream => do
    let name ← variableString stream.streamVariable
    return vars.insert name stream.streamVariable) ∅

/-- The loop is left.  A panic leaves it as well. -/
def ListRequest.isFull (request : ListRequest) (streams : List (Stream Double)) : Bool :=
  match listNames streams with
  | .ok vars => request.getMaxVariables > 0 ∧ vars.keys.length = request.getMaxVariables.toNat
  | .error _ => true

/-- `variable.NewFromString(varname).AsProto()`. -/
def namedVariable (varname : GoString) : Except Panic StreamVariable := do
  match ← newFromString varname with
  | none => .error .nilMessage
  | some v => return v.asProto

/-- `List` behind the loop. -/
def listResponse (maps : Iteration) (received : List (Stream Double)) : Except Panic (Nat × ListResponse) := do
  let vars ← listNames received
  let listed ← (maps.order vars.keys).mapM namedVariable
  return (200, { success := true, errormessage := [], streamVariable := listed })

/-- `List`.  It has not answered when it is still in the loop at the end of the schedule. -/
def Datastore.list (rt : Runtime Double) (now : Int) (orders : ReaderOrders Double) (maps : Iteration)
    (s : Datastore Double) (request : ListRequest) (schedule : List FanOut.Action) :
    Except Panic (Option (Nat × ListResponse)) := do
  let v ← newFromProto request.variablePrefix
  if v.name = [] then
    return some (400, { success := false, errormessage := ascii "No variable specified", streamVariable := [] })
  else
    match ← s.readerRun rt orders (request.search now v) false request.isFull schedule with
    | some state => if state.finished then some <$> listResponse maps state.received else return none
    | none => return none

/-! ## Names without values -/

section Names

variable {rt : Runtime Double} {s : Datastore Double} {disk : Disk} {block : DatastoreBlock Double} {search : Search}

/-- A stream without its values, as `Reader` sends it for an index entry. -/
def ValueStream.nameOnly (stream : Stream Double) : Stream Double :=
  { streamVariable := stream.streamVariable, value := [] }

/-- Without their values the streams of a block file are found by the index alone. -/
theorem DatastoreBlock.OnDisk.readIndex_names {file : List (Stream Double)} (onDisk : block.OnDisk rt disk.view file)
    (patterned : search.v.name ≠ [star]) :
    ∃ found, block.blockHeader.index.mapM (block.readIndex rt disk search false) = .ok found ∧
      found.flatten.Perm
        ((file.filter fun stream => search.Selects Value.timestamp stream).map ValueStream.nameOnly) := by
  have read : ∀ stream entry, IndexedAt rt block.blockHeader file stream entry →
      block.readIndex rt disk search false entry =
        .ok (if search.Selects Value.timestamp stream then [stream.nameOnly] else []) := by
    rintro stream entry ⟨before, after, rfl, rfl⟩
    rw [DatastoreBlock.readIndex, Search.wantsIndex_eq patterned (onDisk.stored (by simp)), Fallible.ok_bind]
    by_cases selected : search.Selects Value.timestamp stream
    · simp [selected]; rfl
    · simp [selected]; rfl
  obtain ⟨entries, perm, indexed⟩ : ∃ entries : List (Stream Double), entries.Perm file ∧
      List.Forall₂ (IndexedAt rt block.blockHeader file) entries block.blockHeader.index := by
    rcases onDisk with ⟨-, index, rfl⟩ | ⟨footer, -, layout⟩
    · exact ⟨[], .nil, index ▸ .nil⟩
    · exact layout.index
  refine ⟨_, Fallible.mapM_ok_of_forall₂ (indexed.imp read), ?_⟩
  rw [Selection.flatten_map_if]
  exact (perm.filter _).map _

/-- The names that a block sends without values are those that it sends with them. -/
theorem BlockSound.reader_names {file logged : List (Stream Double)}
    (sound : BlockSound rt disk.view block file logged) (reliable : disk.Reliable)
    (patterned : search.v.name ≠ [star]) :
    ∃ delivered, block.reader rt disk search false = .ok delivered ∧
      (delivered.map ValueStream.streamVariable).Perm ((if search.v.string ≤ block.endKey then
        (block.streams rt disk).filter fun stream => search.Selects Value.timestamp stream
        else []).map ValueStream.streamVariable) := by
  obtain ⟨found, run, indexed⟩ := sound.onDisk.readIndex_names patterned
  have logs : block.logs.mapM (maybeReturnStream Value.timestamp search) = .ok (block.logs.map _) :=
    Fallible.mapM_ok fun stream member =>
      maybeReturnStream_eq Value.timestamp patterned (sound.logs_named member)
  have pending := Fallible.mapM_ok fun stream member =>
    maybeReturnStream_eq Value.timestamp patterned (sound.pending stream member)
  rw [DatastoreBlock.logs] at logs
  rw [DatastoreBlock.reader]
  by_cases skipped : search.v.string > block.endKey
  · exact ⟨[], if_pos skipped, by rw [if_neg (not_le.mpr skipped)]⟩
  · simp only [if_neg skipped, if_pos (not_lt.mp skipped), logs, pending, run, Fallible.ok_bind]
    refine ⟨_, rfl, ?_⟩
    rw [DatastoreBlock.streams, sound.onDisk.fileStreams reliable, Selection.flatten_map_singleton,
      Selection.flatten_map_singleton, List.filter_append, List.filter_append, DatastoreBlock.logs]
    have names := indexed.map ValueStream.streamVariable
    rw [List.map_map] at names
    simp only [List.map_append]
    exact names.append_left _

/-- The streams of the store that `Reader` selects. -/
def Datastore.selectedStreams (rt : Runtime Double) (s : Datastore Double) (search : Search) : List (Stream Double) :=
  ((s.stored rt).filter fun item =>
    search.v.string ≤ item.1 ∧ search.Selects Value.timestamp item.2).map Prod.snd

theorem Datastore.selectedStreams_eq : s.selectedStreams rt search =
    ((Keyed.pairs s.blocks).map Prod.snd).flatMap fun block => if search.v.string ≤ block.endKey then
      (block.streams rt s.disk).filter fun stream => search.Selects Value.timestamp stream else [] := by
  rw [Datastore.selectedStreams, Datastore.stored, List.filter_flatMap, List.map_flatMap]
  refine List.flatMap_congr fun block _ => ?_
  rw [List.filter_map, List.map_map]
  by_cases below : search.v.string ≤ block.endKey <;> simp [below, Function.comp_def]

/-- `Reader` without values delivers the names of the streams that it delivers with values. -/
theorem Datastore.BlocksSound.reader_names (sound : s.BlocksSound rt) (arrival : Iteration)
    (patterned : search.v.name ≠ [star]) :
    ∃ delivered, s.reader rt arrival search false = .ok delivered ∧
      (delivered.map ValueStream.streamVariable).Perm
        ((s.selectedStreams rt search).map ValueStream.streamVariable) := by
  obtain ⟨results, run, related⟩ := Fallible.mapM_exists fun block member => by
    obtain ⟨file, logged, blockSound⟩ := sound.of_mem_pairs member
    exact blockSound.reader_names sound.reliable patterned
  refine ⟨arrival.order results.flatten, by rw [Datastore.reader, run]; rfl, ((arrival.perm _).map _).trans ?_⟩
  rw [Datastore.selectedStreams_eq, List.map_flatMap, List.flatMap_def, List.map_flatten]
  exact List.Perm.flatten_congr (List.forall₂_map_left_iff.mpr (List.forall₂_map_right_iff.mpr related.flip))

/-- Selected streams have a variable. -/
theorem Datastore.named_of_mem_selectedStreams {stream : Stream Double}
    (member : stream ∈ s.selectedStreams rt search) : stream.HasVariable := by
  obtain ⟨item, inside, rfl⟩ := List.mem_map.mp member
  have matching : search.Matches item.2.streamVariable := (of_decide_eq_true (List.mem_filter.mp inside).2).2.1
  rw [ValueStream.HasVariable]
  cases found : item.2.streamVariable with
  | none =>
    rw [found] at matching
    cases matching
  | some p => rfl

/-- The goroutines of a list request do not panic, whatever the orders of the maps. -/
theorem Datastore.BlocksSound.goroutines_names (sound : s.BlocksSound rt) (orders : ReaderOrders Double)
    (patterned : search.v.name ≠ [star]) :
    ∃ jobs, s.goroutines rt orders search false = .ok jobs ∧ (∀ stream ∈ jobs.flatten, stream.HasVariable) ∧
      (jobs.flatten.map ValueStream.key).Perm ((s.selectedStreams rt search).map ValueStream.key) := by
  obtain ⟨delivered, read, same⟩ := sound.reader_names .listed patterned
  obtain ⟨jobs, started, sent⟩ := Datastore.goroutines_of_reader read orders
  have sentVariables := (sent.map ValueStream.streamVariable).trans same
  refine ⟨jobs, started, fun stream member => ?_, ?_⟩
  · obtain ⟨other, inside, equal⟩ := List.mem_map.mp (sentVariables.mem_iff.mp (List.mem_map_of_mem member))
    have named := Datastore.named_of_mem_selectedStreams inside
    rw [ValueStream.HasVariable, equal] at named
    exact named
  · have keys := sentVariables.map variableKey
    rw [List.map_map, List.map_map] at keys
    exact keys

def Datastore.names (rt : Runtime Double) (s : Datastore Double) (search : Search) : List GoString :=
  ((s.selectedStreams rt search).map ValueStream.key).dedup

end Names

/-! ## The map of names -/

section Collected

variable {streams : List (Stream Double)}

theorem listNames_keys (named : ∀ stream ∈ streams, stream.HasVariable) :
    ∃ vars, listNames streams = .ok vars ∧ vars.keys.Perm (streams.map ValueStream.key).dedup := by
  suffices general : ∀ start : AList fun _ : GoString => Option StreamVariable,
      ∃ vars, streams.foldlM (fun vars stream => do
          let name ← variableString stream.streamVariable
          return vars.insert name stream.streamVariable) start = .ok vars ∧
        ∀ name, name ∈ vars ↔ name ∈ start ∨ name ∈ streams.map ValueStream.key by
    obtain ⟨vars, collected, members⟩ := general ∅
    refine ⟨vars, collected, (List.perm_ext_iff_of_nodup vars.keys_nodup (List.nodup_dedup _)).mpr fun name => ?_⟩
    rw [← AList.mem_keys, members, List.mem_dedup]
    exact or_iff_right (AList.notMem_empty name)
  induction streams with
  | nil => exact fun start => ⟨start, rfl, fun name => by simp⟩
  | cons stream streams inductionHypothesis =>
    intro start
    obtain ⟨vars, collected, members⟩ := inductionHypothesis
      (fun other member => named other (List.mem_cons_of_mem _ member)) (start.insert stream.key stream.streamVariable)
    refine ⟨vars, ?_, fun name => ?_⟩
    · rw [List.foldlM_cons, variableString_eq (named stream List.mem_cons_self), Fallible.ok_bind]
      exact collected
    · rw [members, AList.mem_insert, List.map_cons, List.mem_cons]
      tauto

theorem ListRequest.isFull_iff (request : ListRequest) (named : ∀ stream ∈ streams, stream.HasVariable) :
    request.isFull streams = true ↔ 0 < request.getMaxVariables.toNat ∧
      (streams.map ValueStream.key).dedup.length = request.getMaxVariables.toNat := by
  obtain ⟨vars, collected, same⟩ := listNames_keys named
  rw [ListRequest.isFull, collected, decide_eq_true_iff, same.length_eq]
  exact and_congr_left fun _ => UInt32.lt_iff_toNat_lt

/-- Whoever stops at a number of different items never has more. -/
theorem dedup_length_le {Entry Name : Type} [DecidableEq Name] {name : Entry → Name} {bound : Nat}
    (entries : List Entry) (patient : ∀ before, before <+: entries → before ≠ entries →
      (before.map name).dedup.length ≠ bound) : (entries.map name).dedup.length ≤ bound := by
  induction entries using List.reverseRecOn with
  | nil => exact Nat.zero_le _
  | append_singleton entries last inductionHypothesis =>
    have fewer := inductionHypothesis fun before start shorter =>
      patient before (start.trans (List.prefix_append _ _)) fun same => by
        have lengths := start.length_le
        rw [same, List.length_append, List.length_singleton] at lengths
        omega
    have different := patient entries (List.prefix_append _ _) fun same => by
      have lengths := congrArg List.length same
      rw [List.length_append, List.length_singleton] at lengths
      omega
    have grows : ((entries ++ [last]).map name).dedup.length ≤ (entries.map name).dedup.length + 1 := by
      rw [← List.card_toFinset, ← List.card_toFinset, List.map_append, List.toFinset_append, List.map_singleton]
      exact (Finset.card_union_le _ _).trans (by simp)
    omega

/-- How many names there are when the loop is left. -/
theorem ListRequest.names_length {request : ListRequest} {jobs : List (List (Stream Double))}
    {state : FanOut.State (Stream Double)} (run : FanOut.Sound request.isFull jobs state)
    (named : ∀ stream ∈ jobs.flatten, stream.HasVariable)
    (outcome : Interleaved jobs state.received ∨ request.isFull state.received = true) :
    (state.received.map ValueStream.key).dedup.length =
      if request.getMaxVariables = 0 then (jobs.flatten.map ValueStream.key).dedup.length
      else min request.getMaxVariables.toNat (jobs.flatten.map ValueStream.key).dedup.length := by
  obtain ⟨rest, merges⟩ := run.exists_rest
  have within : state.received ⊆ jobs.flatten := fun stream member =>
    merges.perm.mem_iff.mp (List.mem_append_left _ member)
  have received : ∀ stream ∈ state.received, stream.HasVariable := fun stream member => named stream (within member)
  have fewer : (state.received.map ValueStream.key).dedup.length ≤ (jobs.flatten.map ValueStream.key).dedup.length :=
    (List.nodup_dedup _).length_le_of_subset fun name member =>
      List.mem_dedup.mpr (List.map_subset _ within (List.mem_dedup.mp member))
  have zero : request.getMaxVariables = 0 ↔ request.getMaxVariables.toNat = 0 := UInt32.toNat_inj.symm
  rcases outcome with all | full
  · rw [(all.perm.map ValueStream.key).dedup.length_eq]
    split
    · rfl
    · -- The loop was not left before, so there was no point at which the names were as many as asked for.
      rename_i asked
      refine (min_eq_right ?_).symm
      rw [← (all.perm.map ValueStream.key).dedup.length_eq]
      refine dedup_length_le state.received fun before start shorter same => ?_
      have empty := run.patient before start shorter
      have inside : ∀ stream ∈ before, stream.HasVariable := fun stream member => received stream (start.subset member)
      rw [← Bool.not_eq_true, request.isFull_iff inside] at empty
      exact empty ⟨Nat.pos_of_ne_zero fun none_ => asked (zero.mpr none_), same⟩
  · obtain ⟨positive, enough⟩ := (request.isFull_iff received).mp full
    rw [if_neg fun none_ => positive.ne' (zero.mp none_), enough]
    exact (min_eq_left (enough ▸ fewer)).symm

end Collected

/-! ## Requests -/

/-- A list request to a sound store, under every schedule.  No goroutine panics, nothing is sent on the closed channel,
and so many steps later nobody can take another.  By then the request is answered with different names of streams that
a get request would find: with all of them, or with as many as were asked for.  A name that cannot be parsed panics. -/
theorem list_outcome {rt : Runtime Double} {s : Datastore Double} (sound : s.BlocksSound rt) {request : ListRequest}
    {p : StreamVariable} (asked : request.variablePrefix = some p) (named : p.parsed.name ≠ [])
    (patterned : p.parsed.name ≠ [star]) (now : Int) (orders : ReaderOrders Double) (maps : Iteration) :
    ∃ jobs, s.goroutines rt orders (request.search now p.parsed) false = .ok jobs ∧
      ∀ schedule state,
        Runs.run (FanOut.State.step readerRoom request.isFull) (.new jobs) schedule = some state →
        state.panicked = false ∧
        (∃ bound, ∀ more last, Runs.run (FanOut.State.step readerRoom request.isFull) state more = some last →
          more.length ≤ bound) ∧
        (state.Stopped readerRoom request.isFull →
          ∃ names : List GoString, names.Nodup ∧ names ⊆ s.names rt (request.search now p.parsed) ∧
            names.length = (if request.getMaxVariables = 0 then (s.names rt (request.search now p.parsed)).length
              else min request.getMaxVariables.toNat (s.names rt (request.search now p.parsed)).length) ∧
            s.list rt now orders maps request schedule = (do
              let listed ← names.mapM namedVariable
              return some (200, { success := true, errormessage := [], streamVariable := listed }))) := by
  obtain ⟨jobs, started, sentNamed, keys⟩ :=
    sound.goroutines_names orders (show (request.search now p.parsed).v.name ≠ [star] from patterned)
  refine ⟨jobs, started, fun schedule state ran => ?_⟩
  have run := FanOut.sound_run ran
  refine ⟨run.calm, ⟨state.work, fun more last ran => ?_⟩, fun stopped => ?_⟩
  · have bound := run.run_length ran
    omega
  obtain ⟨rest, merges⟩ := run.exists_rest
  have within : state.received ⊆ jobs.flatten := fun stream member =>
    merges.perm.mem_iff.mp (List.mem_append_left _ member)
  have named' : ∀ stream ∈ state.received, stream.HasVariable := fun stream member => sentNamed stream (within member)
  obtain ⟨vars, collected, distinct⟩ := listNames_keys named'
  obtain ⟨finished, outcome⟩ := run.outcome stopped (by decide)
  refine ⟨maps.order vars.keys, (maps.perm _).nodup_iff.mpr vars.keys_nodup, fun name member => ?_, ?_, ?_⟩
  · have listed := List.mem_dedup.mp (distinct.mem_iff.mp ((maps.perm _).mem_iff.mp member))
    exact List.mem_dedup.mpr (keys.mem_iff.mp (List.map_subset _ within listed))
  · -- The map of the names has an entry for each name that was received.
    rw [(maps.perm _).length_eq, distinct.length_eq, Datastore.names, ← keys.dedup.length_eq]
    exact ListRequest.names_length run sentNamed (outcome.imp_left And.right)
  · have answered : s.readerRun rt orders (request.search now p.parsed) false request.isFull schedule =
        .ok (some state) := by
      rw [Datastore.readerRun, started, Fallible.ok_bind, ran]
      rfl
    rw [Datastore.list, asked, newFromProto_some, Fallible.ok_bind, if_neg named, answered, Fallible.ok_bind]
    simp only [finished, if_true, listResponse, collected, Fallible.ok_bind]
    cases (maps.order vars.keys).mapM namedVariable <;> rfl

/-- One name that begins with a `b`, of any age. -/
def listB : ListRequest :=
  { variablePrefix := some { name := ascii "b*", label := [] }, maxVariables := some 1, maxAge := some 0 }

theorem list_outcome_searchRun :
    ∃ s, Datastore.run protoRuntime Datastore.empty searchRun = .ok s ∧
      ∃ jobs, s.goroutines protoRuntime .listed (listB.search 0 { name := ascii "b*", labels := ∅ }) false = .ok jobs ∧
        ∀ schedule state,
          Runs.run (FanOut.State.step readerRoom listB.isFull) (.new jobs) schedule = some state →
          state.panicked = false ∧
          (∃ bound, ∀ more last, Runs.run (FanOut.State.step readerRoom listB.isFull) state more = some last →
            more.length ≤ bound) ∧
          (state.Stopped readerRoom listB.isFull →
            ∃ names : List GoString, names.Nodup ∧
              names ⊆ s.names protoRuntime (listB.search 0 { name := ascii "b*", labels := ∅ }) ∧
              names.length = (if listB.getMaxVariables = 0
                then (s.names protoRuntime (listB.search 0 { name := ascii "b*", labels := ∅ })).length
                else min listB.getMaxVariables.toNat
                  (s.names protoRuntime (listB.search 0 { name := ascii "b*", labels := ∅ })).length) ∧
              s.list protoRuntime 0 .listed .listed listB schedule = (do
                let listed ← names.mapM namedVariable
                return some (200, { success := true, errormessage := [], streamVariable := listed }))) := by
  obtain ⟨s, reached⟩ := Fallible.failure_eq_none.mp
    (by decide : Fallible.failure (Datastore.run protoRuntime Datastore.empty searchRun) = none)
  have sound : s.Sound protoRuntime (drawnIds searchRun) :=
    (run_sound (by decide) (by decide) (by decide)).of_ok reached
  exact ⟨s, reached, list_outcome sound.blocksSound
    (show listB.variablePrefix = some { name := ascii "b*", label := [] } from rfl) (by decide) (by decide) 0 .listed
    .listed⟩

end OpenInstrument
