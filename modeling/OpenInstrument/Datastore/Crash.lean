import OpenInstrument.Datastore.BlockFile
import OpenInstrument.Datastore.Splitting
import OpenInstrument.ProtoWire

/-! # Which operations can crash the store

File calls may fail here in any way.  What an operation must not do is dereference a nil message or
index outside a slice; the only panic left is the one that closes a file which could not be opened.

A stream without a variable stops `Writer` at once.  A stream without values is accepted, flushed to
the log and merged, and stops `Write` when the block is compacted, unless the same variable has
values elsewhere in the block.
-/

namespace OpenInstrument

open Fallible (Ends)

variable {Double : Type}

/-- Neither a nil message nor an index outside a slice. -/
def Harmless (panic : Panic) : Prop := panic = .nilFile

/-- The streams read from a block file have variables, and together with the log streams every
variable has a value. -/
def Covered (logs : List (Stream Double)) : Except StoreError (List (Stream Double)) → Prop
  | .error _ => True
  | .ok file => (∀ stream ∈ file, stream.HasVariable) ∧
    ∀ stream ∈ file ++ logs, ∃ other ∈ file ++ logs, other.key = stream.key ∧ other.value ≠ []

instance (logs : List (Stream Double)) : ∀ file, Decidable (Covered logs file)
  | .error _ => inferInstanceAs (Decidable True)
  | .ok _ => inferInstanceAs (Decidable (_ ∧ _))

/-- Every stream that `Read` finds in the block has a variable, and every variable found has a value. -/
def DatastoreBlock.Compactable (rt : Runtime Double) (disk : Disk) (block : DatastoreBlock Double) : Prop :=
  Covered block.logs (block.fileStreams rt disk)

instance (rt : Runtime Double) (disk : Disk) (block : DatastoreBlock Double) :
    Decidable (block.Compactable rt disk) :=
  inferInstanceAs (Decidable (Covered _ _))

theorem variableString_ends {p : Option StreamVariable} (present : p.isSome) :
    Ends Harmless (fun _ => True) (variableString p) := by
  obtain ⟨p, rfl⟩ := Option.isSome_iff_exists.mp present
  exact trivial

/-! ## Reading and writing a block -/

theorem DatastoreBlock.readFile_ends {rt : Runtime Double} {disk : Disk} {block : DatastoreBlock Double}
    (compactable : block.Compactable rt disk) (streams : StreamMap Double) :
    Ends Harmless (fun _ => True) (block.readFile rt disk streams) := by
  rw [DatastoreBlock.readFile_eq_fileStreams]
  cases found : block.fileStreams rt disk with
  | error err => exact trivial
  | ok file =>
    rw [DatastoreBlock.Compactable, found] at compactable
    simp only [foldlM_appendStream compactable.1]
    exact trivial

theorem DatastoreBlock.read_ends {rt : Runtime Double} {disk : Disk} {block : DatastoreBlock Double}
    (named : block.Named) (compactable : block.Compactable rt disk) (order : Iteration) :
    Ends Harmless (fun result => ∀ streams, result = .ok streams → Filed streams ∧ Valued streams)
      (block.read rt order disk ∅) := by
  rw [DatastoreBlock.read, DatastoreBlock.readFile_eq_fileStreams]
  cases found : block.fileStreams rt disk with
  | error err => exact fun streams same => by cases same
  | ok file =>
    rw [DatastoreBlock.Compactable, found] at compactable
    obtain ⟨fileNamed, covered⟩ := compactable
    have logNamed : ∀ stream ∈ order.order block.logs, stream.HasVariable := fun stream member =>
      named.logs_hasVariable ((order.perm _).mem_iff.mp member)
    simp only [foldlM_appendStream fileNamed]
    change Ends Harmless _ ((order.order block.logs).foldlM appendStream (addStreams ∅ file) >>= _)
    rw [foldlM_appendStream logNamed, ← addStreams_append]
    rintro streams same
    obtain rfl := Except.ok.inj same
    constructor
    · refine Filed.empty.addStreams fun stream member => ?_
      rcases List.mem_append.mp member with inFile | inLog
      · exact fileNamed stream inFile
      · exact logNamed stream inLog
    · rw [valued_addStreams]
      simpa [(order.perm block.logs).mem_iff] using covered

theorem writeStreams_ends {rt : Runtime Double} {streams : List (Stream Double)}
    (named : ∀ stream ∈ streams, stream.HasVariable) (state : StreamWriter) :
    Ends Harmless (fun _ => True) (streams.foldlM (writeStream rt) state) :=
  Ends.foldlM (fun state stream member _ => by
    rw [writeStream]
    exact (variableString_ends (named stream member)).bind fun _ _ => trivial) trivial

theorem setOffsets_ends {entries : List StoreFileHeaderIndex}
    (named : ∀ entry ∈ entries, entry.streamVariable.isSome)
    (indexPos : AList fun _ : GoString => UInt64) :
    Ends Harmless (fun results => ∀ entry ∈ results, entry.streamVariable.isSome)
      (entries.mapM (setOffset indexPos)) :=
  Ends.mapM fun entry member =>
    (variableString_ends (named entry member)).bind fun _ _ => named entry member

/-- `Write`, on streams that have variables and values, changes nothing in memory but the header. -/
theorem DatastoreBlock.write_ends {rt : Runtime Double} {orders : Orders} {disk : Disk}
    {block : DatastoreBlock Double} {streams : StreamMap Double} (filed : Filed streams)
    (valued : Valued streams) :
    Ends Harmless
      (fun result => ∃ header, result.2.1 = { block with blockHeader := header } ∧
        ∀ entry ∈ header.index, entry.streamVariable.isSome)
      (block.write rt orders disk streams) := by
  have stored : ∀ entry ∈ sortedEntries rt streams, entry.2.HasVariable ∧ entry.2.value ≠ [] := by
    intro entry member
    obtain ⟨stream, found, same⟩ := mem_sortedEntries.mp member
    refine ⟨(sortedEntries_key filed member).2, ?_⟩
    rw [same, Ne, rt.sortStream_value_eq_nil]
    exact valued entry.1 stream found
  have indexPerm := orders.index.perm (sortedEntries rt streams)
  obtain ⟨summary, summarized, index, -⟩ := summarizeStreams_eq
    (fun entry member => (stored entry (indexPerm.mem_iff.mp member)).2)
    { minTimestamp := 0, maxTimestamp := 0, endKey := [], index := [] }
  have indexNamed : ∀ entry ∈ summary.index, entry.streamVariable.isSome := by
    intro entry member
    rw [index, List.nil_append, List.mem_map] at member
    obtain ⟨source, present, rfl⟩ := member
    exact (stored source (indexPerm.mem_iff.mp present)).1
  rw [DatastoreBlock.write, ← sortedEntries, summarized, Fallible.ok_bind]
  -- From here on only file calls can fail, and none of them panics.
  cases writeProtoFile disk (block.newFilename rt) with
  | mk opened newfile =>
    cases newfile with
    | none => exact rfl
    | some newfile =>
      refine (writeStreams_ends (fun stream member => ?_) _).bind fun state _ => ?_
      · obtain ⟨entry, present, rfl⟩ := List.mem_map.mp member
        exact (stored entry ((orders.streams.perm _).mem_iff.mp present)).1
      · refine (setOffsets_ends indexNamed _).bind fun index indexNamed => ?_
        simp only
        split
        · exact ⟨_, rfl, indexNamed⟩
        · exact ⟨_, rfl, indexNamed⟩

theorem DatastoreBlock.sortLogStreams_filed {rt : Runtime Double} {block : DatastoreBlock Double}
    (filed : Filed block.logStreams) (fromFile : StreamMap Double) :
    Filed (block.sortLogStreams rt fromFile).logStreams := by
  intro key stream found
  rcases Keyed.mem_of_lookup_insertAll found with old | member
  · cases old
  · obtain ⟨entry, present, same⟩ := List.mem_map.mp member
    simp only [Prod.mk.injEq] at same
    obtain ⟨rfl, rfl⟩ := same
    have stored := filed _ _ (Keyed.mem_pairs.mp present)
    split <;> exact stored

theorem DatastoreBlock.compactBlock_ends {rt : Runtime Double} (orders : Orders) (clog : CompactionLog)
    {disk : Disk} {block : DatastoreBlock Double} (named : block.Named)
    (compactable : block.Compactable rt disk) :
    Ends Harmless (fun result => result.2.1.Named) (block.compactBlock rt orders clog disk) := by
  rw [DatastoreBlock.compactBlock]
  refine (DatastoreBlock.readFile_ends compactable ∅).bind fun fromFile _ => ?_
  refine (DatastoreBlock.read_ends ⟨named.index, named.logs, named.pending⟩ compactable orders.logs).bind
    fun result read => ?_
  cases fromFile with
  | error err => exact ⟨named.index, named.logs, named.pending⟩
  | ok fromFile =>
    cases result with
    | error err => exact ⟨named.index, named.logs, named.pending⟩
    | ok streams =>
      obtain ⟨filed, valued⟩ := read streams rfl
      refine (DatastoreBlock.write_ends filed valued).bind ?_
      rintro ⟨after, written, err⟩ ⟨header, rfl, index⟩
      cases err with
      | none => exact ⟨index, Filed.empty, named.pending⟩
      | some err =>
        exact ⟨index, DatastoreBlock.sortLogStreams_filed named.logs fromFile, named.pending⟩

/-! ## The operations -/

def Datastore.Named (s : Datastore Double) : Prop :=
  ∀ key block, s.blocks.lookup key = some block → block.Named

theorem newBlock_named (endKey id : GoString) : (newBlock endKey id : DatastoreBlock Double).Named :=
  ⟨fun _ member => absurd member List.not_mem_nil, Filed.empty,
    fun _ member => absurd member List.not_mem_nil⟩

theorem Datastore.Named.insert {s : Datastore Double} (named : s.Named) {block : DatastoreBlock Double}
    (blockNamed : block.Named) (key : GoString) (disk : Disk) (blockKeys : List GoString) :
    Datastore.Named { disk, blocks := s.blocks.insert key block, blockKeys } := by
  intro other found lookup
  by_cases same : other = key
  · subst same
    rw [AList.lookup_insert, Option.some.injEq] at lookup
    exact lookup ▸ blockNamed
  · rw [AList.lookup_insert_ne same] at lookup
    exact named other found lookup

theorem Datastore.send_ends {s : Datastore Double} (named : s.Named) (uuid : Option GoString)
    {stream : Stream Double} (present : stream.HasVariable) :
    Ends Harmless Datastore.Named (s.send uuid stream) := by
  obtain ⟨v, parsed, -⟩ := present.newFromProto
  rw [Datastore.send, parsed, Fallible.ok_bind]
  have found : (s.findBlock uuid v).1.Named := by
    unfold Datastore.findBlock
    split
    · exact named
    · cases uuid with
      | none => exact named
      | some id => exact named.insert (newBlock_named _ _) _ _ _
  simp only
  split
  · exact found
  · rename_i block lookup
    obtain ⟨key, -, lookup⟩ := Option.bind_eq_some_iff.mp lookup
    have blockNamed := found key block lookup
    have appended : DatastoreBlock.Named { block with newStreams := block.newStreams ++ [stream] } := by
      refine ⟨blockNamed.index, blockNamed.logs, fun other member => ?_⟩
      rcases List.mem_append.mp member with old | new
      · exact blockNamed.pending other old
      · exact List.mem_singleton.mp new ▸ present
    exact found.insert appended _ _ _

theorem DatastoreBlock.flush_ends {rt : Runtime Double} (disk : Disk) {block : DatastoreBlock Double}
    (named : block.Named) : Ends Harmless (fun result => result.2.1.Named) (block.flush rt disk) := by
  unfold DatastoreBlock.flush
  split
  · exact named
  · split
    · exact named
    · split
      · exact named
      · rw [foldlM_appendStream named.pending]
        exact ⟨named.index, named.logs.addStreams named.pending,
          fun _ member => absurd member List.not_mem_nil⟩

theorem Datastore.flushBlocks_ends {rt : Runtime Double} (keys : List GoString) {s : Datastore Double}
    (named : s.Named) : Ends Harmless Datastore.Named (s.flushBlocks rt keys) := by
  induction keys generalizing s with
  | nil => exact named
  | cons key keys inductionHypothesis =>
    rw [Datastore.flushBlocks]
    cases found : s.blocks.lookup key with
    | none => exact inductionHypothesis named
    | some block =>
      refine (DatastoreBlock.flush_ends s.disk (named key block found)).bind fun result flushed => ?_
      have next := named.insert flushed key result.1 s.blockKeys
      simp only
      split
      · exact inductionHypothesis next
      · exact next

theorem Datastore.compactBlock_ends {rt : Runtime Double} {orders : Orders} {clog : CompactionLog}
    {s : Datastore Double} (named : s.Named) {key : GoString}
    (compactable : ∀ block ∈ s.blocks.lookup key, block.Compactable rt s.disk) :
    Ends Harmless (fun result => result.1.Named) (s.compactBlock rt orders clog key) := by
  rw [Datastore.compactBlock]
  cases found : s.blocks.lookup key with
  | none => exact named
  | some block =>
    exact (DatastoreBlock.compactBlock_ends orders clog (named key block found) (compactable block found)).bind
      fun _ compacted => named.insert compacted _ _ _

/-- The half of a split, once the block is compacted. -/
theorem Datastore.splitCompacted_ends {rt : Runtime Double} {choices : SplitChoices}
    {s : Datastore Double} (named : s.Named) {block : DatastoreBlock Double} (blockNamed : block.Named)
    (compactable : block.Compactable rt s.disk) {sortedKeys : List GoString}
    (several : 2 ≤ sortedKeys.length) :
    Ends Harmless (fun result => result.1.Named) (s.splitCompacted rt choices block sortedKeys) := by
  have middle : sortedKeys.length / 2 < sortedKeys.length := by omega
  have below : sortedKeys.length / 2 - 1 < sortedKeys.length := by omega
  rw [Datastore.splitCompacted, List.getElem?_eq_getElem middle, List.getElem?_eq_getElem below]
  refine (DatastoreBlock.read_ends blockNamed compactable choices.left.logs).bind fun result read => ?_
  cases result with
  | error err => exact named
  | ok streams =>
    obtain ⟨filed, valued⟩ := read streams rfl
    cases choices.uuid with
    | none => exact named
    | some id =>
      -- Both halves take their streams from the map that was read, where all have variables and values.
      obtain ⟨left, right, divided, lower, upper, -⟩ := divideStreams_pairs
        (sortedKeys[sortedKeys.length / 2 - 1]) filed
      have leftFiled : Filed left := fun key stream found => filed key stream ((lower key stream).mp found).1
      have rightFiled : Filed right := fun key stream found => filed key stream ((upper key stream).mp found).1
      simp only [divided, Fallible.ok_bind]
      refine (DatastoreBlock.write_ends leftFiled
        fun key stream found => valued key stream ((lower key stream).mp found).1).bind ?_
      rintro ⟨leftDisk, leftblock, leftErr⟩ ⟨leftHeader, rfl, leftIndex⟩
      simp only
      split
      · exact named
      · refine (DatastoreBlock.write_ends rightFiled
          fun key stream found => valued key stream ((upper key stream).mp found).1).bind ?_
        rintro ⟨rightDisk, rightblock, rightErr⟩ ⟨rightHeader, rfl, rightIndex⟩
        have rightNamed : DatastoreBlock.Named { block with blockHeader := rightHeader } :=
          ⟨rightIndex, blockNamed.logs, blockNamed.pending⟩
        have replaced := named.insert rightNamed block.endKey rightDisk s.blockKeys
        simp only
        split
        · exact replaced
        · exact replaced.insert ⟨leftIndex, Filed.empty, fun _ member => absurd member List.not_mem_nil⟩
            _ _ _

/-- A block that is still compactable after a compaction. -/
def CompactedSafely (rt : Runtime Double) :
    Except Panic (Disk × DatastoreBlock Double × Option StoreError) → Prop
  | .error _ => True
  | .ok (disk, block, _) => block.Compactable rt disk

instance (rt : Runtime Double) :
    ∀ result : Except Panic (Disk × DatastoreBlock Double × Option StoreError),
      Decidable (CompactedSafely rt result)
  | .error _ => inferInstanceAs (Decidable True)
  | .ok (disk, block, _) => inferInstanceAs (Decidable (block.Compactable rt disk))

/-- `splitBlock` reads a block twice: when it compacts the block, and once more after that. -/
def DatastoreBlock.SplitSafe (rt : Runtime Double) (choices : SplitChoices) (disk : Disk)
    (block : DatastoreBlock Double) : Prop :=
  block.Compactable rt disk ∧
    CompactedSafely rt (block.compactBlock rt choices.compaction choices.clog disk)

instance (rt : Runtime Double) (choices : SplitChoices) (disk : Disk) (block : DatastoreBlock Double) :
    Decidable (block.SplitSafe rt choices disk) :=
  inferInstanceAs (Decidable (_ ∧ _))

theorem Datastore.splitBlock_ends {rt : Runtime Double} {choices : SplitChoices} {s : Datastore Double}
    (named : s.Named) {key : GoString}
    (compactable : ∀ block ∈ s.blocks.lookup key, 2 ≤ block.keys.dedup.length →
      block.SplitSafe rt choices s.disk) :
    Ends Harmless (fun result => result.1.Named) (s.splitBlock rt choices key) := by
  rw [Datastore.splitBlock]
  cases found : s.blocks.lookup key with
  | none => exact named
  | some block =>
    have blockNamed := named key block found
    have length := (sortStrings_perm block.keys.dedup).length_eq
    simp only
    rw [DatastoreBlock.splitKeys_eq blockNamed, Fallible.ok_bind]
    split
    · exact named
    · rename_i several
      have several : 2 ≤ (sortStrings block.keys.dedup).length := by omega
      obtain ⟨before, after⟩ := compactable block found (by omega)
      have compaction :=
        DatastoreBlock.compactBlock_ends choices.compaction choices.clog blockNamed before
      cases compacted : block.compactBlock rt choices.compaction choices.clog s.disk with
      | error panic => exact compaction.of_error compacted
      | ok result =>
        obtain ⟨disk, block, err⟩ := result
        have blockNamed := compaction.of_ok compacted
        rw [compacted] at after
        exact Datastore.splitCompacted_ends (named.insert blockNamed key disk s.blockKeys) blockNamed
          after several

/-- What keeps one operation from crashing.  `splitBlock` leaves a block with fewer than two variables
alone. -/
def CrashSafe (rt : Runtime Double) (s : Datastore Double) : Operation Double → Prop
  | .send _ stream => stream.HasVariable
  | .flush _ => True
  | .compactBlock key _ _ => ∀ block ∈ s.blocks.lookup key, block.Compactable rt s.disk
  | .splitBlock key choices => ∀ block ∈ s.blocks.lookup key,
      2 ≤ block.keys.dedup.length → block.SplitSafe rt choices s.disk
  | .joinBlocks _ _ => False

instance (rt : Runtime Double) (s : Datastore Double) : ∀ operation, Decidable (CrashSafe rt s operation)
  | .send _ stream => inferInstanceAs (Decidable stream.HasVariable)
  | .flush _ => inferInstanceAs (Decidable True)
  | .compactBlock _ _ _ => inferInstanceAs (Decidable (∀ block ∈ _, _))
  | .splitBlock _ _ => inferInstanceAs (Decidable (∀ block ∈ _, _))
  | .joinBlocks _ _ => inferInstanceAs (Decidable False)

theorem Datastore.step_ends {rt : Runtime Double} {s : Datastore Double} (named : s.Named)
    {operation : Operation Double} (safe : CrashSafe rt s operation) :
    Ends Harmless Datastore.Named (s.step rt operation) := by
  cases operation with
  | send uuid stream => exact Datastore.send_ends named uuid safe
  | flush order => exact Datastore.flushBlocks_ends _ named
  | compactBlock key orders clog =>
    exact (Datastore.compactBlock_ends named safe).bind fun _ result => result
  | splitBlock key choices =>
    exact (Datastore.splitBlock_ends named safe).bind fun _ result => result
  | joinBlocks orders clog => exact safe.elim

/-- The streams of an `AddRequest`, as `Add` hands them to a `Writer` that flushes in the end. -/
def addRequest (streams : List (Option GoString × Stream Double)) (order : Iteration) :
    List (Operation Double) :=
  streams.map (fun entry => .send entry.1 entry.2) ++ [.flush order]

/-- A store opened on any directory, whose operations all meet `CrashSafe`, never dereferences a nil
message and never indexes outside a slice. -/
theorem run_never_crashes (rt : Runtime Double) (disk : Disk) (operations : List (Operation Double))
    (safe : Fallible.Along (Datastore.step rt) (fun _ s operation => CrashSafe rt s operation) []
      { disk, blocks := ∅, blockKeys := [] } operations) :
    ∀ panic ∈ [Panic.nilMessage, .indexOutOfRange, .sliceOutOfRange],
      Fallible.failure (Datastore.run rt { disk, blocks := ∅, blockKeys := [] } operations) ≠ some panic := by
  have start : Datastore.Named ({ disk, blocks := ∅, blockKeys := [] } : Datastore Double) :=
    fun _ _ found => by cases found
  have ends := safe.ends (fun _ _ _ named condition => Datastore.step_ends named condition) start
  intro panic member crashed
  have harmless : panic = .nilFile := ends.of_error (Fallible.failure_eq_some.mp crashed)
  subst harmless
  simp at member

def valuedRun : List (Operation UInt64) :=
  addRequest [(some (ascii "1"), gauge "b" [5, 3]), (none, gauge "a" [7])] .listed ++
    [.splitBlock (ascii "b")
      { uuid := some (ascii "2"), clog := { startTime := 0 }, compaction := .listed, left := .listed,
        right := .listed }]

theorem run_never_crashes_valued :
    Fallible.failure (Datastore.run protoRuntime Datastore.empty valuedRun) ≠ some .indexOutOfRange :=
  run_never_crashes protoRuntime Disk.empty valuedRun (by decide +kernel) .indexOutOfRange (by decide)

/-- A stream without a variable stops `Writer`; one without values stops the compaction of its block. -/
theorem addRequest_crashes :
    Fallible.failure (Datastore.run protoRuntime Datastore.empty
        (addRequest [(some (ascii "1"), { streamVariable := none, value := [] })] .listed)) =
      some .nilMessage ∧
    Fallible.failure (Datastore.run protoRuntime Datastore.empty
        (addRequest [(some (ascii "1"), gauge "a" [])] .listed ++
          [.compactBlock (ascii "a") .listed { startTime := 0 }])) = some .indexOutOfRange := by
  decide

end OpenInstrument
