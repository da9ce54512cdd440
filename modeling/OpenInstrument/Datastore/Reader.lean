import OpenInstrument.Library.Selection
import OpenInstrument.Datastore.BlockRoundTrip
import OpenInstrument.Datastore.Steps

/-! # Reading streams

`Reader` delivers every stream of the log, of the pending list and of the block file that it selects.
It skips blocks whose end key is below the printed search, and it selects a stream by its variable and
by its first and last timestamp; for a stream in the block file these come from the index.

All blocks send to one channel from goroutines of their own, so the streams arrive in any order.
-/

namespace OpenInstrument

variable {Double Cell : Type}

/-- What is asked of `Reader`: a variable, or a pattern of variables, and bounds for the timestamps. -/
structure Search where
  v : Variable
  minTimestamp : Option UInt64
  maxTimestamp : Option UInt64

/-- `cv.Match(v)`, for the variable of a stream or an index entry. -/
def Search.isMatch (search : Search) (p : Option StreamVariable) : Except Panic Bool := do
  let cv ← newFromProto p
  cv.isMatch search.v

/-- `maybe_return_stream`: the stream, if it is sent. -/
def maybeReturnStream (timestamp : Cell → UInt64) (search : Search) (stream : ValueStream Cell) :
    Except Panic (List (ValueStream Cell)) := do
  if !(← search.isMatch stream.streamVariable) then return []
  else
    match stream.value.head?, stream.value.getLast? with
    | some first, some last =>
      if search.minTimestamp.any fun minTimestamp => timestamp last < minTimestamp then return []
      else if search.maxTimestamp.any fun maxTimestamp => timestamp first > maxTimestamp then return []
      else return [stream]
    | _, _ => return []

/-- The checks that `Reader` makes on an index entry. -/
def Search.wantsIndex (search : Search) (index : StoreFileHeaderIndex) : Except Panic Bool := do
  if !(← search.isMatch index.streamVariable) then return false
  else if index.getNumValues = 0 then return false
  else if search.minTimestamp.any fun minTimestamp => index.maxTimestamp.any (· < minTimestamp) then
    return false
  else if search.maxTimestamp.any fun maxTimestamp => index.minTimestamp.any (· > maxTimestamp) then
    return false
  else return true

/-- The loop body over the index; without `fetch_values` the stream has only its variable. -/
def DatastoreBlock.readIndex (rt : Runtime Double) (disk : Disk) (block : DatastoreBlock Double)
    (search : Search) (fetchValues : Bool) (index : StoreFileHeaderIndex) :
    Except Panic (List (Stream Double)) := do
  if !(← search.wantsIndex index) then return []
  else if fetchValues then block.getStreams rt disk index
  else return [{ streamVariable := index.streamVariable, value := [] }]

/-- The goroutine that `Reader` starts for one block. -/
def DatastoreBlock.reader (rt : Runtime Double) (disk : Disk) (block : DatastoreBlock Double)
    (search : Search) (fetchValues : Bool) : Except Panic (List (Stream Double)) :=
  if search.v.string > block.endKey then .ok []
  else do
    let logStreams ← ((Keyed.pairs block.logStreams).map Prod.snd).mapM
      (maybeReturnStream Value.timestamp search)
    let newStreams ← block.newStreams.mapM (maybeReturnStream Value.timestamp search)
    let indexed ← block.blockHeader.index.mapM (block.readIndex rt disk search fetchValues)
    return logStreams.flatten ++ newStreams.flatten ++ indexed.flatten

/-- `Reader`.  A panic in a goroutine ends the program. -/
def Datastore.reader (rt : Runtime Double) (arrival : Iteration) (s : Datastore Double) (search : Search)
    (fetchValues : Bool) : Except Panic (List (Stream Double)) := do
  let delivered ← ((Keyed.pairs s.blocks).map Prod.snd).mapM fun block =>
    block.reader rt s.disk search fetchValues
  return arrival.order delivered.flatten

/-! ## What is selected -/

/-- Decides a property of an optional item by looking at the item, not at all items there are. -/
instance decidableForallMemOption {Item : Type} (holds : Item → Prop) [DecidablePred holds] :
    ∀ bound : Option Item, Decidable (∀ item ∈ bound, holds item)
  | none => isTrue fun _ member => by cases member
  | some item => decidable_of_iff (holds item) (by simp)

def Search.Matches (search : Search) (p : Option StreamVariable) : Prop := search.isMatch p = .ok true

instance (search : Search) : DecidablePred search.Matches := fun p =>
  inferInstanceAs (Decidable (search.isMatch p = .ok true))

/-- The last timestamp is not too old and the first one not too new. -/
def Search.Overlaps (timestamp : Cell → UInt64) (search : Search) (stream : ValueStream Cell) : Prop :=
  (∀ minTimestamp ∈ search.minTimestamp, ∀ last ∈ stream.value.getLast?, minTimestamp ≤ timestamp last) ∧
    ∀ maxTimestamp ∈ search.maxTimestamp, ∀ first ∈ stream.value.head?, timestamp first ≤ maxTimestamp

instance (timestamp : Cell → UInt64) (search : Search) :
    DecidablePred fun stream : ValueStream Cell => search.Overlaps timestamp stream := fun stream =>
  inferInstanceAs (Decidable ((∀ minTimestamp ∈ search.minTimestamp, ∀ last ∈ stream.value.getLast?,
    minTimestamp ≤ timestamp last) ∧ ∀ maxTimestamp ∈ search.maxTimestamp, ∀ first ∈ stream.value.head?,
      timestamp first ≤ maxTimestamp))

/-- The streams that `Reader` sends from a block that it does not skip. -/
def Search.Selects (timestamp : Cell → UInt64) (search : Search) (stream : ValueStream Cell) : Prop :=
  search.Matches stream.streamVariable ∧ stream.value ≠ [] ∧ search.Overlaps timestamp stream

instance (timestamp : Cell → UInt64) (search : Search) :
    DecidablePred fun stream : ValueStream Cell => search.Selects timestamp stream := fun stream =>
  have : Decidable (stream.value ≠ []) := match stream.value with
    | [] => isFalse fun nonempty => nonempty rfl
    | _ :: _ => isTrue (List.cons_ne_nil _ _)
  inferInstanceAs (Decidable (search.Matches stream.streamVariable ∧ stream.value ≠ [] ∧
    search.Overlaps timestamp stream))

section Selection

variable {search : Search}

/-- The pattern `*` has no prefix to cut off: its slice expression panics. -/
theorem Search.isMatch_star (bare : search.v.name = [star]) (p : StreamVariable) :
    search.isMatch (some p) = .error .sliceOutOfRange := by
  rw [Search.isMatch, newFromProto_some, Fallible.ok_bind, Variable.isMatch, bare]
  rfl

theorem Search.isMatch_ok (patterned : search.v.name ≠ [star]) (p : StreamVariable) :
    search.isMatch (some p) = .ok (decide (search.Matches (some p))) := by
  obtain ⟨result, run⟩ : ∃ result, search.isMatch (some p) = .ok result := by
    rw [Search.isMatch, newFromProto_some, Fallible.ok_bind, Variable.isMatch]
    split
    · rename_i wild
      split
      · rename_i short
        obtain ⟨front, name⟩ := List.getLast?_eq_some_iff.mp wild
        cases front with
        | nil => exact absurd name patterned
        | cons byte front =>
          rw [name] at short
          simp only [List.cons_append, List.length_cons, List.length_append, List.length_nil] at short
          omega
      · exact ⟨_, rfl⟩
    · exact ⟨_, rfl⟩
  have same : search.Matches (some p) ↔ result = true := by
    rw [Search.Matches, run, Except.ok.injEq]
  rw [run]
  cases result <;> simp [same]

theorem any_lt_eq_true {bound : Option UInt64} {timestamp : UInt64} :
    (bound.any fun minTimestamp => timestamp < minTimestamp) = true ↔
      ¬ ∀ minTimestamp ∈ bound, minTimestamp ≤ timestamp := by
  cases bound <;> simp

theorem any_gt_eq_true {bound : Option UInt64} {timestamp : UInt64} :
    (bound.any fun maxTimestamp => timestamp > maxTimestamp) = true ↔
      ¬ ∀ maxTimestamp ∈ bound, timestamp ≤ maxTimestamp := by
  cases bound <;> simp

theorem maybeReturnStream_eq (timestamp : Cell → UInt64) (patterned : search.v.name ≠ [star])
    {stream : ValueStream Cell} (named : stream.HasVariable) :
    maybeReturnStream timestamp search stream =
      .ok (if search.Selects timestamp stream then [stream] else []) := by
  obtain ⟨p, found⟩ := Option.isSome_iff_exists.mp named
  rw [maybeReturnStream, found, Search.isMatch_ok patterned, Fallible.ok_bind]
  by_cases matching : search.Matches (some p)
  · cases values : stream.value with
    | nil => simp [matching, Search.Selects, values]; rfl
    | cons first rest =>
      obtain ⟨last, lastFound⟩ : ∃ last, (first :: rest).getLast? = some last :=
        Option.isSome_iff_exists.mp (by simp)
      have selects : search.Selects timestamp stream ↔
          (∀ minTimestamp ∈ search.minTimestamp, minTimestamp ≤ timestamp last) ∧
            ∀ maxTimestamp ∈ search.maxTimestamp, timestamp first ≤ maxTimestamp := by
        simp [Search.Selects, Search.Overlaps, found, matching, values, lastFound]
      simp only [matching, decide_true, Bool.not_true, Bool.false_eq_true, if_false, List.head?_cons,
        lastFound, any_lt_eq_true, any_gt_eq_true, selects]
      split_ifs <;> first | rfl | tauto
  · simp [matching, Search.Selects, found]; rfl

/-- The index tells of a stored stream what `maybe_return_stream` would look at. -/
theorem Search.wantsIndex_eq {rt : Runtime Double} (patterned : search.v.name ≠ [star])
    {stream : Stream Double} (stored : StoredStream rt stream) (offset : UInt64) :
    search.wantsIndex (indexEntry offset stream) =
      .ok (decide (search.Selects Value.timestamp stream)) := by
  obtain ⟨p, found⟩ := Option.isSome_iff_exists.mp stored.named
  have counted : (indexEntry offset stream).getNumValues ≠ 0 := by
    intro none
    have count := stored.count
    rw [show UInt32.ofNat stream.value.length = 0 from none] at count
    exact stored.valued (List.length_eq_zero_iff.mp count.symm)
  have sameVariable : (indexEntry offset stream).streamVariable = some p := found
  rw [Search.wantsIndex, sameVariable, Search.isMatch_ok patterned, Fallible.ok_bind]
  by_cases matching : search.Matches (some p)
  · obtain ⟨first, rest, values⟩ := List.exists_cons_of_ne_nil stored.valued
    obtain ⟨last, lastFound⟩ : ∃ last, (first :: rest).getLast? = some last :=
      Option.isSome_iff_exists.mp (by simp)
    have selects : search.Selects Value.timestamp stream ↔
        (∀ minTimestamp ∈ search.minTimestamp, minTimestamp ≤ last.timestamp) ∧
          ∀ maxTimestamp ∈ search.maxTimestamp, first.timestamp ≤ maxTimestamp := by
      simp [Search.Selects, Search.Overlaps, found, matching, values, lastFound]
    have bounds : (indexEntry offset stream).minTimestamp = some first.timestamp ∧
        (indexEntry offset stream).maxTimestamp = some last.timestamp := by
      simp [indexEntry, values, lastFound]
    simp only [matching, decide_true, Bool.not_true, Bool.false_eq_true, if_false, counted, bounds,
      Option.any_some, any_lt_eq_true, any_gt_eq_true, selects]
    split_ifs with recent early
    · exact congrArg Except.ok (decide_eq_true ⟨recent, early⟩).symm
    · exact congrArg Except.ok (decide_eq_false fun both => early both.2).symm
    · exact congrArg Except.ok (decide_eq_false fun both => recent both.1).symm
  · simp [matching, Search.Selects, found]; rfl

/-! ## What a block delivers -/

def DatastoreBlock.streams (rt : Runtime Double) (disk : Disk) (block : DatastoreBlock Double) :
    List (Stream Double) :=
  block.logs ++ block.newStreams ++
    match block.fileStreams rt disk with
    | .ok file => file
    | .error _ => []

/-- Reading a block file through its index finds every selected stream in it. -/
theorem DatastoreBlock.OnDisk.readIndex {rt : Runtime Double} {disk : Disk} {block : DatastoreBlock Double}
    {file : List (Stream Double)} (onDisk : block.OnDisk rt disk.view file) (reliable : disk.Reliable)
    (patterned : search.v.name ≠ [star]) :
    ∃ found, block.blockHeader.index.mapM (block.readIndex rt disk search true) = .ok found ∧
      found.flatten.Perm (file.filter fun stream => search.Selects Value.timestamp stream) := by
  have read : ∀ stream entry, IndexedAt rt block.blockHeader file stream entry →
      block.readIndex rt disk search true entry =
        .ok (if search.Selects Value.timestamp stream then [stream] else []) := by
    intro stream entry indexed
    have located := DatastoreBlock.getStreams_eq reliable onDisk indexed
    obtain ⟨before, after, rfl, rfl⟩ := indexed
    rw [DatastoreBlock.readIndex, Search.wantsIndex_eq patterned (onDisk.stored (by simp)),
      Fallible.ok_bind, located]
    by_cases selected : search.Selects Value.timestamp stream
    · simp [selected]
    · simp [selected]; rfl
  obtain ⟨entries, perm, indexed⟩ : ∃ entries : List (Stream Double), entries.Perm file ∧
      List.Forall₂ (IndexedAt rt block.blockHeader file) entries block.blockHeader.index := by
    rcases onDisk with ⟨-, index, rfl⟩ | ⟨footer, -, layout⟩
    · exact ⟨[], .nil, index ▸ .nil⟩
    · exact layout.index
  refine ⟨_, Fallible.mapM_ok_of_forall₂ (indexed.imp read), ?_⟩
  rw [Selection.flatten_map_singleton]
  exact perm.filter _

/-- What `Reader` sends from a block. -/
theorem BlockSound.reader {rt : Runtime Double} {disk : Disk} {block : DatastoreBlock Double}
    {file logged : List (Stream Double)} (sound : BlockSound rt disk.view block file logged)
    (reliable : disk.Reliable) (patterned : search.v.name ≠ [star]) :
    ∃ delivered, block.reader rt disk search true = .ok delivered ∧
      delivered.Perm (if search.v.string ≤ block.endKey then
        (block.streams rt disk).filter fun stream => search.Selects Value.timestamp stream else []) := by
  obtain ⟨found, run, indexed⟩ := sound.onDisk.readIndex reliable patterned
  have logs : block.logs.mapM (maybeReturnStream Value.timestamp search) = .ok (block.logs.map _) :=
    Fallible.mapM_ok fun stream member =>
      maybeReturnStream_eq Value.timestamp patterned (sound.logs_named member)
  have pending := Fallible.mapM_ok fun stream member =>
    maybeReturnStream_eq Value.timestamp patterned (sound.pending stream member)
  rw [DatastoreBlock.logs] at logs
  rw [DatastoreBlock.reader]
  by_cases skipped : search.v.string > block.endKey
  · exact ⟨[], if_pos skipped, by rw [if_neg (not_le.mpr skipped)]⟩
  · simp only [if_neg skipped, if_pos (not_lt.mp skipped), logs, pending, run, Fallible.ok_bind]
    refine ⟨_, rfl, ?_⟩
    rw [DatastoreBlock.streams, sound.onDisk.fileStreams reliable, Selection.flatten_map_singleton,
      Selection.flatten_map_singleton, List.filter_append, List.filter_append, DatastoreBlock.logs]
    exact indexed.append_left _

theorem maybeReturnStream_star (timestamp : Cell → UInt64) (bare : search.v.name = [star])
    {stream : ValueStream Cell} (named : stream.HasVariable) :
    maybeReturnStream timestamp search stream = .error .sliceOutOfRange := by
  obtain ⟨p, found⟩ := Option.isSome_iff_exists.mp named
  rw [maybeReturnStream, found, Search.isMatch_star bare]
  rfl

theorem DatastoreBlock.readIndex_star (rt : Runtime Double) (disk : Disk) (block : DatastoreBlock Double)
    (bare : search.v.name = [star]) {entry : StoreFileHeaderIndex} (named : entry.streamVariable.isSome) :
    block.readIndex rt disk search true entry = .error .sliceOutOfRange := by
  obtain ⟨p, found⟩ := Option.isSome_iff_exists.mp named
  rw [DatastoreBlock.readIndex, Search.wantsIndex, found, Search.isMatch_star bare]
  rfl

/-- The pattern `*` panics in a block that is not skipped and has a stream. -/
theorem BlockSound.reader_star {rt : Runtime Double} {disk : Disk} {block : DatastoreBlock Double}
    {file logged : List (Stream Double)} (sound : BlockSound rt disk.view block file logged)
    (reliable : disk.Reliable) (bare : search.v.name = [star]) :
    block.reader rt disk search true =
      if block.endKey < search.v.string ∨ block.streams rt disk = [] then .ok []
      else .error .sliceOutOfRange := by
  have noIndex : block.blockHeader.index = [] ↔ file = [] := by
    have lengths := sound.index_perm.length_eq
    rw [List.length_map, List.length_map] at lengths
    rw [← List.length_eq_zero_iff, lengths, List.length_eq_zero_iff]
  have logs : block.logs.mapM (maybeReturnStream Value.timestamp search) = _ :=
    Fallible.mapM_error fun stream member => maybeReturnStream_star _ bare (sound.logs_named member)
  have pending := Fallible.mapM_error fun stream member =>
    maybeReturnStream_star Value.timestamp bare (sound.pending stream member)
  have indexed := Fallible.mapM_error fun entry member =>
    block.readIndex_star rt disk bare (sound.named.index entry member)
  rw [DatastoreBlock.logs] at logs
  rw [DatastoreBlock.reader, DatastoreBlock.streams, sound.onDisk.fileStreams reliable]
  by_cases skipped : block.endKey < search.v.string
  · rw [if_pos skipped, if_pos (.inl skipped)]
  · simp only [skipped, false_or, logs, pending, indexed, noIndex, List.append_eq_nil_iff,
      DatastoreBlock.logs]
    by_cases noLogs : (Keyed.pairs block.logStreams).map Prod.snd = []
    · by_cases noPending : block.newStreams = []
      · by_cases noFile : file = []
        · simp [noLogs, noPending, noFile]
        · simp [noLogs, noPending, noFile]
      · simp [noLogs, noPending]
    · simp [noLogs]

end Selection

end OpenInstrument
