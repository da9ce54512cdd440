import OpenInstrument.Datastore.LeftOver
import OpenInstrument.Datastore.Reader

/-! # Compactions that fail

`compactBlock` reads the old block file before it changes anything, so an error of `Read` leaves the store as it was.
`Write` replaces the header in memory before it touches the disk: when the new file cannot be renamed into place, the
index in memory describes a file that no reader opens.  When the new file cannot be opened at all, closing it
dereferences a nil writer while the lock of the log is held.
-/

namespace OpenInstrument

variable {Double : Type}

/-! ## What readers see -/

/-- Readers get the same streams from both stores, in some order, or panic in both. -/
def SameReads (rt : Runtime Double) (before after : Datastore Double) : Prop :=
  ∀ arrival search fetchValues,
    (∀ delivered, before.reader rt arrival search fetchValues = .ok delivered →
      ∃ other, after.reader rt arrival search fetchValues = .ok other ∧ other.Perm delivered) ∧
    ∀ delivered, after.reader rt arrival search fetchValues = .ok delivered →
      ∃ other, before.reader rt arrival search fetchValues = .ok other ∧ other.Perm delivered

/-- The same streams in another order, as far as the blocks of the two stores deliver them. -/
theorem Datastore.reader_perm {rt : Runtime Double} {before after : Datastore Double}
    {arrival : Iteration} {search : Search} {fetchValues : Bool}
    (blocks : List.Perm
      (((Keyed.pairs before.blocks).map Prod.snd).map fun block => block.reader rt before.disk search fetchValues)
      (((Keyed.pairs after.blocks).map Prod.snd).map fun block => block.reader rt after.disk search fetchValues))
    {delivered : List (Stream Double)} (read : before.reader rt arrival search fetchValues = .ok delivered) :
    ∃ other, after.reader rt arrival search fetchValues = .ok other ∧ other.Perm delivered := by
  obtain ⟨results, ran, returned⟩ := Fallible.bind_ok read
  obtain rfl := Except.ok.inj returned
  have listed : ∀ (blocks : List (DatastoreBlock Double)) disk,
      (blocks.mapM fun block => block.reader rt disk search fetchValues) =
        (blocks.map fun block => block.reader rt disk search fetchValues).mapM id := by
    intro blocks disk
    rw [List.mapM_map]
    rfl
  rw [listed] at ran
  obtain ⟨reordered, reran, perm⟩ := Fallible.mapM_perm blocks ran
  rw [← listed] at reran
  refine ⟨arrival.order reordered.flatten, by rw [Datastore.reader, reran]; rfl, ?_⟩
  exact (arrival.perm _).trans ((List.Perm.flatten perm).trans (arrival.perm _).symm)

/-- A block is replaced by one of which readers get the same. -/
theorem sameReads_replace {rt : Runtime Double} {s : Datastore Double} {key : GoString}
    {block replaced : DatastoreBlock Double} (found : s.blocks.lookup key = some block)
    (same : ∀ search fetchValues,
      replaced.reader rt s.disk search fetchValues = block.reader rt s.disk search fetchValues) :
    SameReads rt s { s with blocks := s.blocks.insert key replaced } := by
  intro arrival search fetchValues
  have blocks : List.Perm
      (((Keyed.pairs s.blocks).map Prod.snd).map fun block => block.reader rt s.disk search fetchValues)
      (((Keyed.pairs (s.blocks.insert key replaced)).map Prod.snd).map
        fun block => block.reader rt s.disk search fetchValues) := by
    rw [Keyed.pairs_insert, List.map_cons, List.map_cons, same]
    exact ((Keyed.pairs_erase found).map _).map _
  exact ⟨fun _ read => Datastore.reader_perm blocks read, fun _ read => Datastore.reader_perm blocks.symm read⟩

/-! ## What a failed `Write` touches -/

theorem ProtoFileWriter.write_touches {Message : Type} {codec : Codec Message} {writer moved : ProtoFileWriter}
    {disk after : Disk} {message : Message} {complete : Bool}
    (written : writer.write codec disk message = (moved, after, complete)) :
    moved.filename = writer.filename ∧ ∀ other, other ≠ writer.filename → after.view other = disk.view other := by
  unfold ProtoFileWriter.write at written
  split at written
  · simp only [Prod.mk.injEq] at written
    obtain ⟨rfl, rfl, -⟩ := written
    exact ⟨rfl, fun _ _ => rfl⟩
  · simp only [ProtoFileWriter.put, Prod.mk.injEq] at written
    obtain ⟨rfl, rfl, -⟩ := written
    refine ⟨rfl, fun other different => ?_⟩
    exact (congrFun (Disk.view_store _ _ _) other).trans (Function.update_of_ne different _ _)

theorem writeStreams_touches {rt : Runtime Double} {streams : List (Stream Double)} {state final : StreamWriter}
    (written : streams.foldlM (writeStream rt) state = .ok final) :
    final.newfile.filename = state.newfile.filename ∧
      ∀ other, other ≠ state.newfile.filename → final.disk.view other = state.disk.view other := by
  induction streams generalizing state with
  | nil =>
    obtain rfl := Except.ok.inj written
    exact ⟨rfl, fun _ _ => rfl⟩
  | cons stream streams inductionHypothesis =>
    rw [List.foldlM_cons] at written
    obtain ⟨next, first, rest⟩ := Fallible.bind_ok written
    obtain ⟨v, -, returned⟩ := Fallible.bind_ok first
    obtain ⟨filename, others⟩ := ProtoFileWriter.write_touches
      (Prod.mk.eta (p := state.newfile.write rt.stream state.disk stream)).symm
    have nextName : next.newfile.filename = state.newfile.filename := by
      rw [← Except.ok.inj returned]
      exact filename
    have nextOthers : ∀ other, other ≠ state.newfile.filename → next.disk.view other = state.disk.view other := by
      rw [← Except.ok.inj returned]
      exact others
    obtain ⟨finalName, later⟩ := inductionHypothesis rest
    rw [nextName] at finalName later
    exact ⟨finalName, fun other different => (later other different).trans (nextOthers other different)⟩

/-- A `Write` that reports an error has changed no file but the temporary one, and in memory only the header. -/
theorem DatastoreBlock.write_failed {rt : Runtime Double} {orders : Orders} {disk after : Disk}
    {block written : DatastoreBlock Double} {streams : StreamMap Double} {err : StoreError}
    (failed : block.write rt orders disk streams = .ok (after, written, some err)) :
    err = .rename ∧ (∃ header, written = { block with blockHeader := header }) ∧
      ∀ other, other ≠ block.newFilename rt → after.view other = disk.view other := by
  obtain ⟨summary, -, rest⟩ := Fallible.bind_ok failed
  obtain ⟨opened, file, open_⟩ : ∃ opened file, writeProtoFile disk (block.newFilename rt) = (opened, file) :=
    ⟨_, _, rfl⟩
  rw [open_] at rest
  cases file with
  | none => cases rest
  | some file =>
    obtain ⟨state, streamsRun, rest⟩ := Fallible.bind_ok rest
    obtain ⟨index, -, rest⟩ := Fallible.bind_ok rest
    -- Every call up to the last write works on the temporary file only.
    obtain ⟨openName, openOthers⟩ : file.filename = block.newFilename rt ∧
        ∀ other, other ≠ block.newFilename rt → opened.view other = disk.view other := by
      unfold writeProtoFile at open_
      split at open_
      · simp only [Prod.mk.injEq, Option.some.injEq] at open_
        obtain ⟨rfl, rfl⟩ := open_
        exact ⟨rfl, fun other different =>
          (congrFun (Disk.view_store _ _ _) other).trans (Function.update_of_ne different _ _)⟩
      · cases open_
    obtain ⟨startName, startOthers⟩ := ProtoFileWriter.write_touches
      (Prod.mk.eta (p := file.write rt.header opened _)).symm
    obtain ⟨stateName, stateOthers⟩ := writeStreams_touches streamsRun
    obtain ⟨footName, footOthers⟩ := ProtoFileWriter.write_touches
      (Prod.mk.eta (p := state.newfile.write rt.footer state.disk block.blockFooter)).symm
    simp only at rest
    split at rest
    · have parts := Except.ok.inj rest
      simp only [Prod.mk.injEq, Option.some.injEq] at parts
      obtain ⟨rfl, rfl, rfl⟩ := parts
      refine ⟨rfl, ⟨_, rfl⟩, fun other different => ?_⟩
      have names : state.newfile.filename = block.newFilename rt := stateName.trans (startName.trans openName)
      obtain ⟨_, lastOthers⟩ := ProtoFileWriter.write_touches
        (Prod.mk.eta (p := ProtoFileWriter.writeAt rt.header
          (state.newfile.write rt.footer state.disk block.blockFooter).1
          (state.newfile.write rt.footer state.disk block.blockFooter).2.1 0 _)).symm
      have opens := openOthers other different
      have starts := startOthers other fun same => different (same.trans openName)
      have states := stateOthers other fun same => different (same.trans (startName.trans openName))
      have foots := footOthers other fun same => different (same.trans names)
      have lasts := lastOthers other fun same => different (same.trans (footName.trans names))
      exact lasts.trans (foots.trans (states.trans (starts.trans opens)))
    · cases rest

/-- A `Write` that cannot open the temporary file panics. -/
theorem DatastoreBlock.write_unopened {rt : Runtime Double} (orders : Orders) {disk : Disk}
    (block : DatastoreBlock Double) (streams : StreamMap Double)
    (closed : (disk.fault (.openWrite (block.newFilename rt))).isSome) :
    ∃ panic, block.write rt orders disk streams = .error panic := by
  obtain ⟨count, fault⟩ := Option.isSome_iff_exists.mp closed
  cases result : block.write rt orders disk streams with
  | error panic => exact ⟨panic, rfl⟩
  | ok written =>
    obtain ⟨summary, -, rest⟩ := Fallible.bind_ok result
    have open_ : writeProtoFile disk (block.newFilename rt) = (disk, none) := by
      simp only [writeProtoFile, fault]
    rw [open_] at rest
    cases rest

/-! ## What a failed compaction leaves -/

/-- The same variables with the same values, in some order. -/
def SameStreams (first second : StreamMap Double) : Prop :=
  ∀ key, (key ∈ first ↔ key ∈ second) ∧ (valuesAt first key).Perm (valuesAt second key)

theorem SameStreams.refl (streams : StreamMap Double) : SameStreams streams streams :=
  fun _ => ⟨Iff.rfl, .refl _⟩

theorem DatastoreBlock.sortLogStreams_same (rt : Runtime Double) (block : DatastoreBlock Double)
    (fromFile : StreamMap Double) : SameStreams block.logStreams (block.sortLogStreams rt fromFile).logStreams := by
  intro key
  have keys : ((Keyed.pairs block.logStreams).map fun entry =>
      (entry.1, if entry.1 ∈ fromFile then entry.2 else rt.sortStream entry.2)).map Prod.fst =
        block.logStreams.keys := by
    rw [← Keyed.pairs_keys, List.map_map]
    rfl
  cases found : block.logStreams.lookup key with
  | none =>
    have absent : key ∉ block.logStreams := AList.lookup_eq_none.mp found
    have sorted : (block.sortLogStreams rt fromFile).logStreams.lookup key = none :=
      Keyed.lookup_insertAll_of_notMem (by rw [keys]; exact absent) ∅
    refine ⟨iff_of_false absent (AList.lookup_eq_none.mp sorted), ?_⟩
    rw [valuesAt, valuesAt, found, sorted]
  | some stream =>
    have sorted : (block.sortLogStreams rt fromFile).logStreams.lookup key =
        some (if key ∈ fromFile then stream else rt.sortStream stream) := by
      refine Keyed.lookup_insertAll_of_mem (by rw [keys]; exact block.logStreams.keys_nodup) ?_ ∅
      exact List.mem_map.mpr ⟨(key, stream), Keyed.mem_pairs.mpr found, rfl⟩
    refine ⟨iff_of_true (Keyed.mem_iff_lookup.mpr ⟨_, found⟩) (Keyed.mem_iff_lookup.mpr ⟨_, sorted⟩), ?_⟩
    have one : valuesAt block.logStreams key = stream.value := by rw [valuesAt, found]
    have other : valuesAt (block.sortLogStreams rt fromFile).logStreams key =
        (if key ∈ fromFile then stream else rt.sortStream stream).value := by rw [valuesAt, sorted]
    rw [one, other]
    by_cases inFile : key ∈ fromFile
    · rw [if_pos inFile]
    · rw [if_neg inFile]
      exact (rt.sort_perm stream.value).symm

section

variable {rt : Runtime Double} {orders : Orders} {clog : CompactionLog}

/-- An error of `Read` ends the compaction before anything but its record has changed. -/
theorem DatastoreBlock.compactBlock_unread {disk : Disk} {block : DatastoreBlock Double} {err : StoreError}
    (failed : block.fileStreams rt disk = .error err) :
    block.compactBlock rt orders clog disk =
      .ok (disk, { block with blockFooter := { compactionLog := block.blockFooter.compactionLog ++ [clog] } },
        some err) := by
  have logged : ({ block with blockFooter := { compactionLog := block.blockFooter.compactionLog ++ [clog] } } :
      DatastoreBlock Double).fileStreams rt disk = .error err := failed
  simp only [DatastoreBlock.compactBlock, DatastoreBlock.read, DatastoreBlock.readFile_eq_fileStreams, logged,
    Fallible.ok_bind]
  rfl

theorem DatastoreBlock.fileStreams_of_readFile {disk : Disk} {block : DatastoreBlock Double}
    {streams : StreamMap Double} {err : StoreError} (failed : block.readFile rt disk streams = .ok (.error err)) :
    block.fileStreams rt disk = .error err := by
  rw [DatastoreBlock.readFile_eq_fileStreams] at failed
  cases found : block.fileStreams rt disk with
  | error other =>
    simp only [found, Except.ok.injEq, Except.error.injEq] at failed
    rw [failed]
  | ok file =>
    rw [found] at failed
    cases filed : file.foldlM appendStream streams with
    | error panic =>
      simp only [filed] at failed
      cases failed
    | ok map =>
      simp only [filed] at failed
      cases failed

theorem DatastoreBlock.fileStreams_of_read {disk : Disk} {block : DatastoreBlock Double} {order : Iteration}
    {streams : StreamMap Double} {err : StoreError} (failed : block.read rt order disk streams = .ok (.error err)) :
    block.fileStreams rt disk = .error err := by
  obtain ⟨fromFile, first, rest⟩ := Fallible.bind_ok failed
  cases fromFile with
  | error other =>
    obtain rfl := Except.error.inj (Except.ok.inj rest)
    exact DatastoreBlock.fileStreams_of_readFile first
  | ok streams =>
    obtain ⟨merged, -, returned⟩ := Fallible.bind_ok rest
    cases returned

/-- A compaction that returns an error, which is one of `Read` or that of the renaming, has changed no file but the
temporary one, and no stream of the log. -/
theorem DatastoreBlock.compactBlock_failed {disk after : Disk} {block compacted : DatastoreBlock Double}
    {err : StoreError} (failed : block.compactBlock rt orders clog disk = .ok (after, compacted, some err)) :
    (block.fileStreams rt disk = .error err ∨ err = .rename) ∧ SameStreams block.logStreams compacted.logStreams ∧
      ∀ other, other ≠ block.newFilename rt → after.view other = disk.view other := by
  obtain ⟨fromFile, first, rest⟩ := Fallible.bind_ok failed
  obtain ⟨read, second, rest⟩ := Fallible.bind_ok rest
  cases fromFile with
  | error _ =>
    have parts := Except.ok.inj rest
    simp only [Prod.mk.injEq, Option.some.injEq] at parts
    obtain ⟨rfl, rfl, rfl⟩ := parts
    exact ⟨.inl (DatastoreBlock.fileStreams_of_readFile first), .refl _, fun _ _ => rfl⟩
  | ok fromFile =>
    cases read with
    | error _ =>
      have parts := Except.ok.inj rest
      simp only [Prod.mk.injEq, Option.some.injEq] at parts
      obtain ⟨rfl, rfl, rfl⟩ := parts
      exact ⟨.inl (DatastoreBlock.fileStreams_of_read second), .refl _, fun _ _ => rfl⟩
    | ok streams =>
      obtain ⟨⟨written, replaced, error⟩, wrote, rest⟩ := Fallible.bind_ok rest
      cases error with
      | none => cases rest
      | some error =>
        have parts := Except.ok.inj rest
        simp only [Prod.mk.injEq, Option.some.injEq] at parts
        obtain ⟨rfl, rfl, rfl⟩ := parts
        obtain ⟨rfl, ⟨header, rfl⟩, others⟩ := DatastoreBlock.write_failed wrote
        exact ⟨.inr rfl, DatastoreBlock.sortLogStreams_same rt _ fromFile, others⟩

/-- A compaction that gets as far as `Write` panics when the temporary file cannot be opened. -/
theorem DatastoreBlock.compactBlock_unopened {disk : Disk} {block : DatastoreBlock Double} {file : List (Stream Double)}
    (read : block.fileStreams rt disk = .ok file)
    (closed : (disk.fault (.openWrite (block.newFilename rt))).isSome) :
    ∃ panic, block.compactBlock rt orders clog disk = .error panic := by
  cases result : block.compactBlock rt orders clog disk with
  | error panic => exact ⟨panic, rfl⟩
  | ok compacted =>
    obtain ⟨fromFile, first, rest⟩ := Fallible.bind_ok result
    obtain ⟨both, second, rest⟩ := Fallible.bind_ok rest
    have logged : ({ block with blockFooter := { compactionLog := block.blockFooter.compactionLog ++ [clog] } } :
        DatastoreBlock Double).fileStreams rt disk = .ok file := read
    rw [DatastoreBlock.read, DatastoreBlock.readFile_eq_fileStreams, logged] at second
    rw [DatastoreBlock.readFile_eq_fileStreams, logged] at first
    cases collected : file.foldlM appendStream (∅ : StreamMap Double) with
    | error panic =>
      simp only [collected] at first
      cases first
    | ok streams =>
      simp only [collected] at first second
      obtain rfl := Except.ok.inj first
      obtain ⟨fromFile, same, second⟩ := Fallible.bind_ok second
      obtain rfl := Except.ok.inj same
      obtain ⟨merged, _, returned⟩ := Fallible.bind_ok second
      obtain rfl := Except.ok.inj returned
      obtain ⟨written, wrote, _⟩ := Fallible.bind_ok rest
      obtain ⟨panic, fails⟩ := DatastoreBlock.write_unopened orders
        { block with blockFooter := { compactionLog := block.blockFooter.compactionLog ++ [clog] } } merged closed
      rw [fails] at wrote
      cases wrote

/-- What a compaction that fails is to leave of a block: its files and its log streams, and what readers see. -/
structure Untouched (rt : Runtime Double) (s after : Datastore Double) (key : GoString)
    (block : DatastoreBlock Double) : Prop where
  blockFile : after.disk.view block.filename = s.disk.view block.filename
  log : after.disk.view block.logFilename = s.disk.view block.logFilename
  logStreams : ∃ kept, after.blocks.lookup key = some kept ∧ SameStreams block.logStreams kept.logStreams
  reads : SameReads rt s after

/-- A compaction leaves everything untouched when it is `Read` that fails, and it panics when it is the temporary file
that cannot be opened.  It returns no other error than these of `Read` and that of the renaming, and whenever it returns
one, only readers can notice. -/
theorem Datastore.compactBlock_failing (rt : Runtime Double) (orders : Orders) (clog : CompactionLog)
    {s : Datastore Double} {key : GoString} {block : DatastoreBlock Double}
    (found : s.blocks.lookup key = some block) :
    (∀ err, block.fileStreams rt s.disk = .error err →
        ∃ after, s.compactBlock rt orders clog key = .ok (after, some err) ∧ Untouched rt s after key block) ∧
      (∀ file, block.fileStreams rt s.disk = .ok file →
        (s.disk.fault (.openWrite (block.newFilename rt))).isSome →
        ∃ panic, s.compactBlock rt orders clog key = .error panic) ∧
      ∀ after err, s.compactBlock rt orders clog key = .ok (after, some err) →
        (block.fileStreams rt s.disk = .error err ∨ err = .rename) ∧
          (Untouched rt s after key block ↔ SameReads rt s after) := by
  refine ⟨fun err failed => ?_, fun file read closed => ?_, fun after err returned => ?_⟩
  · refine ⟨_, by simp only [Datastore.compactBlock, found, DatastoreBlock.compactBlock_unread failed]; rfl, ?_⟩
    exact ⟨rfl, rfl, ⟨_, AList.lookup_insert _, .refl _⟩, sameReads_replace found fun _ _ => rfl⟩
  · obtain ⟨panic, fails⟩ := @DatastoreBlock.compactBlock_unopened Double rt orders clog _ _ _ read closed
    exact ⟨panic, by simp only [Datastore.compactBlock, found, fails]; rfl⟩
  · simp only [Datastore.compactBlock, found] at returned
    obtain ⟨⟨disk, compacted, error⟩, failed, rest⟩ := Fallible.bind_ok returned
    have parts := Except.ok.inj rest
    simp only [Prod.mk.injEq] at parts
    obtain ⟨rfl, rfl⟩ := parts
    obtain ⟨reported, logStreams, others⟩ := DatastoreBlock.compactBlock_failed failed
    refine ⟨reported, Untouched.reads, fun reads => ?_⟩
    exact ⟨others _ (newFilename_ne rt block).symm, others _ (block.newFilename_ne_logFilename rt).symm,
      ⟨compacted, AList.lookup_insert _, logStreams⟩, reads⟩

end

/-- A block with a stream in its file and another one in its log, whose file calls fail in some way. -/
def compactedStore (fault : FileCall → Option Nat) : Except Panic (Datastore UInt64) := do
  let s ← Datastore.run protoRuntime Datastore.empty
    [.send (some (ascii "1")) (gauge "b" [5]), .flush .listed, .compactBlock (ascii "b") .listed { startTime := 0 },
      .send none (gauge "a" [7]), .flush .listed]
  return { s with disk := { s.disk with fault } }

/-- The streams of a variable that readers get before a compaction and after it, and its error. -/
def readAround (fault : FileCall → Option Nat) (name : String) :
    Except Panic (List (Stream UInt64) × Option StoreError × List (Stream UInt64)) := do
  let s ← compactedStore fault
  let search := { v := { name := ascii name, labels := ∅ }, minTimestamp := none, maxTimestamp := none }
  let before ← s.reader protoRuntime .listed search true
  let (after, err) ← s.compactBlock protoRuntime .listed { startTime := 0 } (ascii "b")
  let delivered ← after.reader protoRuntime .listed search true
  return (before, err, delivered)

def readFails : FileCall → Option Nat
  | .openRead _ => some 0
  | _ => none

def createFails : FileCall → Option Nat
  | .openWrite _ => some 0
  | _ => none

/-- What `Read` finds in the block file, if the store has the block. -/
def oldStreams (fault : FileCall → Option Nat) :
    Except Panic (Option (Except StoreError (List (Stream UInt64)))) := do
  let s ← compactedStore fault
  return (s.blocks.lookup (ascii "b")).map fun block => block.fileStreams protoRuntime s.disk

theorem exists_of_oldStreams {fault : FileCall → Option Nat} {found : Except StoreError (List (Stream UInt64))}
    (run : oldStreams fault = .ok (some found)) :
    ∃ (s : Datastore UInt64) (block : DatastoreBlock UInt64), s.blocks.lookup (ascii "b") = some block ∧
      s.disk.fault = fault ∧ block.fileStreams protoRuntime s.disk = found := by
  obtain ⟨s, built, returned⟩ := Fallible.bind_ok run
  obtain ⟨block, present, read⟩ := Option.map_eq_some_iff.mp (Except.ok.inj returned)
  obtain ⟨whole, -, faulty⟩ := Fallible.bind_ok built
  refine ⟨s, block, present, ?_, read⟩
  rw [← Except.ok.inj faulty]

theorem not_sameReads_of_readAround {fault : FileCall → Option Nat} {name : String} {err : Option StoreError}
    {before delivered : List (Stream UInt64)} (run : readAround fault name = .ok (before, err, delivered))
    (different : before.length ≠ delivered.length) :
    ∃ s after, compactedStore fault = .ok s ∧
      s.compactBlock protoRuntime .listed { startTime := 0 } (ascii "b") = .ok (after, err) ∧
      ¬SameReads protoRuntime s after := by
  obtain ⟨s, built, rest⟩ := Fallible.bind_ok run
  obtain ⟨_, first, rest⟩ := Fallible.bind_ok rest
  obtain ⟨⟨after, _⟩, failed, rest⟩ := Fallible.bind_ok rest
  obtain ⟨_, second, returned⟩ := Fallible.bind_ok rest
  have parts := Except.ok.inj returned
  simp only [Prod.mk.injEq] at parts
  obtain ⟨rfl, rfl, rfl⟩ := parts
  refine ⟨s, after, built, failed, fun same => ?_⟩
  obtain ⟨other, read, perm⟩ := (same .listed _ true).1 _ first
  rw [second] at read
  obtain rfl := Except.ok.inj read
  exact different perm.length_eq.symm

/-- One store whose old file cannot be opened, one whose new file cannot be opened, and one whose new file cannot be
renamed. -/
theorem compactBlock_failing_threeStores :
    (∃ (s : Datastore UInt64) (block : DatastoreBlock UInt64) (after : Datastore UInt64),
      s.blocks.lookup (ascii "b") = some block ∧
      s.compactBlock protoRuntime .listed { startTime := 0 } (ascii "b") = .ok (after, some .unreadable) ∧
        Untouched protoRuntime s after (ascii "b") block) ∧
      (∃ (s : Datastore UInt64) (block : DatastoreBlock UInt64) (panic : Panic),
        s.blocks.lookup (ascii "b") = some block ∧
        block.fileStreams protoRuntime s.disk = .ok [gauge "b" [5]] ∧
        s.compactBlock protoRuntime .listed { startTime := 0 } (ascii "b") = .error panic) ∧
      ∃ (s : Datastore UInt64) (block : DatastoreBlock UInt64) (after : Datastore UInt64),
        s.blocks.lookup (ascii "b") = some block ∧
        s.compactBlock protoRuntime .listed { startTime := 0 } (ascii "b") = .ok (after, some .rename) ∧
          ¬Untouched protoRuntime s after (ascii "b") block := by
  refine ⟨?_, ?_, ?_⟩
  · obtain ⟨s, block, found, -, unread⟩ := exists_of_oldStreams
      (show oldStreams readFails = .ok (some (.error .unreadable)) by decide +kernel)
    obtain ⟨after, failed, untouched⟩ :=
      (Datastore.compactBlock_failing protoRuntime .listed { startTime := 0 } found).1 _ unread
    exact ⟨s, block, after, found, failed, untouched⟩
  · obtain ⟨s, block, found, fault, read⟩ := exists_of_oldStreams
      (show oldStreams createFails = .ok (some (.ok [gauge "b" [5]])) by decide +kernel)
    obtain ⟨panic, failed⟩ :=
      (Datastore.compactBlock_failing protoRuntime .listed { startTime := 0 } found).2.1 _ read (by rw [fault]; rfl)
    exact ⟨s, block, panic, found, read, failed⟩
  · obtain ⟨s, after, built, failed, differ⟩ := not_sameReads_of_readAround
      (show readAround renameFails "b" = .ok ([gauge "b" [5]], some .rename, []) by decide +kernel) (by decide)
    obtain ⟨block, found⟩ : ∃ block, s.blocks.lookup (ascii "b") = some block := by
      have present : (compactedStore renameFails).map (fun s => (s.blocks.lookup (ascii "b")).isSome) = .ok true := by
        decide +kernel
      rw [built] at present
      exact Option.isSome_iff_exists.mp (Except.ok.inj present)
    have kept := (Datastore.compactBlock_failing protoRuntime .listed { startTime := 0 } found).2.2 _ _ failed
    exact ⟨s, block, after, found, failed, fun untouched => differ (kept.2.mp untouched)⟩

/-- When the new file cannot be renamed, readers no longer get the stream of the old one.  When it cannot be opened,
the compaction panics. -/
theorem compactBlock_breaks_reads :
    readAround renameFails "b" = .ok ([gauge "b" [5]], some .rename, []) ∧
      (∃ s after, s.compactBlock protoRuntime .listed { startTime := 0 } (ascii "b") = .ok (after, some .rename) ∧
        ¬SameReads protoRuntime s after) ∧
      readAround (fun call => if call = .openWrite (ascii "block.1.new.1") then some 0 else none) "b" =
        .error .nilFile := by
  have run : readAround renameFails "b" = .ok ([gauge "b" [5]], some .rename, []) := by decide +kernel
  obtain ⟨s, after, -, failed, differ⟩ := not_sameReads_of_readAround run (by decide)
  exact ⟨run, ⟨s, after, failed, differ⟩, by decide +kernel⟩

end OpenInstrument
