import OpenInstrument.Datastore.BlockRoundTrip
import OpenInstrument.Datastore.Invariant
import OpenInstrument.ProtoFileLog

/-! # Flushing again

A `Flush` that cannot write a stream returns and keeps all pending streams, and the next one appends all of
them to whatever the log holds by then.  What the failed attempt has left there is not taken back: the frames of
the streams before the one that failed, and a part of the frame of that one.

`replay` is what `readBlockLog` makes of a log.
-/

namespace OpenInstrument

variable {Double : Type}

/-- The greatest variable and the streams that `readBlockLog` finds in a log. -/
def replay (rt : Runtime Double) (content : Bytes) : Except Panic (GoString × StreamMap Double) :=
  (valueStreamReader rt content).foldlM readLogStream ([], ∅)

/-- `readBlockLog`, for a log without a block file. -/
theorem Datastore.readBlockLog_replay {rt : Runtime Double} {s : Datastore Double} {name : GoString} {content : Bytes}
    {endKey : GoString} {logStreams : StreamMap Double}
    (opened : s.disk.readProtoFile (newBlock [] (blockIdFromFilename name) : DatastoreBlock Double).logFilename =
      .opened content)
    (alone : (Keyed.pairs s.blocks).find? (fun entry => entry.2.id == blockIdFromFilename name) = none)
    (replayed : replay rt content = .ok (endKey, logStreams)) :
    s.readBlockLog rt name =
      .ok (s.insertBlock { newBlock [] (blockIdFromFilename name) with endKey, logStreams }) := by
  rw [replay] at replayed
  have same : (newBlock [] (blockIdFromFilename name) : DatastoreBlock Double).id = blockIdFromFilename name := rfl
  simp only [Datastore.readBlockLog, opened, replayed, same, alone, Fallible.ok_bind]
  rfl

def valuesUnder (streams : List (Stream Double)) (key : GoString) : List (Value Double) :=
  streams.flatMap fun stream => if stream.key = key then stream.value else []

@[simp] theorem valuesUnder_append (first second : List (Stream Double)) (key : GoString) :
    valuesUnder (first ++ second) key = valuesUnder first key ++ valuesUnder second key :=
  List.flatMap_append

theorem valuesUnder_eq_nil {streams : List (Stream Double)} :
    (∀ key, valuesUnder streams key = []) ↔ ∀ stream ∈ streams, stream.value = [] := by
  constructor
  · intro none stream member
    have here := List.flatMap_eq_nil_iff.mp (none stream.key) stream member
    rwa [if_pos rfl] at here
  · intro valueless key
    refine List.flatMap_eq_nil_iff.mpr fun stream member => ?_
    rw [valueless stream member, ite_self]

/-- The later log replays what the earlier one does and, under each variable, the pending values once. -/
def ReplaysOnce (rt : Runtime Double) (before after : Bytes) (pending : List (Stream Double)) : Prop :=
  ∃ old new, replay rt before = .ok old ∧ replay rt after = .ok new ∧
    ∀ key, (valuesAt new.2 key).Perm (valuesAt old.2 key ++ valuesUnder pending key)

/-! ## Replaying whole frames -/

theorem readLogStreams_eq {streams : List (Stream Double)} (named : ∀ stream ∈ streams, stream.HasVariable)
    (state : GoString × StreamMap Double) :
    streams.foldlM readLogStream state =
      .ok ((streams.map ValueStream.key).foldl max state.1, addStreams state.2 streams) := by
  induction streams generalizing state with
  | nil => rfl
  | cons stream streams inductionHypothesis =>
    have first := named stream List.mem_cons_self
    have greater : (if stream.key > state.1 then stream.key else state.1) = max state.1 stream.key := by
      split
      · exact (max_eq_right (le_of_lt ‹_›)).symm
      · exact (max_eq_left (not_lt.mp ‹_›)).symm
    have rest := inductionHypothesis (fun other member => named other (List.mem_cons_of_mem _ member))
      (max state.1 stream.key, addStream state.2 stream)
    rw [← greater] at rest
    rw [List.foldlM_cons, readLogStream, variableString_eq first, appendStream_eq first]
    rw [List.map_cons, List.foldl_cons, ← greater]
    exact rest

theorem valueStreamReader_frames (rt : Runtime Double) {streams : List (Stream Double)}
    (small : ∀ stream ∈ streams, (rt.stream.encode stream).length < 2 ^ 31) :
    valueStreamReader rt (frames rt.stream streams) = streams := by
  have few := frames_length_ge rt.stream streams
  have whole : (frames rt.stream streams).drop 0 = frames rt.stream streams ++ [] := by simp
  refine readMessages_frames whole (fun stream member => ?_) (.inr ⟨rfl, rfl⟩) (Nat.zero_le _) (by omega)
  have fits := small stream member
  omega

/-- A log of whole frames replays its streams, and the greatest of their keys. -/
theorem replay_frames {rt : Runtime Double} {streams : List (Stream Double)}
    (logged : ∀ stream ∈ streams, LoggedStream rt stream) :
    replay rt (frames rt.stream streams) =
      .ok (greatestKey (streams.map ValueStream.key), addStreams ∅ streams) := by
  rw [replay, valueStreamReader_frames rt fun stream member => (logged stream member).small]
  exact readLogStreams_eq (fun stream member => (logged stream member).named) ([], ∅)

theorem valuesAt_replayed (streams : List (Stream Double)) (key : GoString) :
    valuesAt (addStreams ∅ streams) key = valuesUnder streams key := by
  rw [valuesAt_addStreams]
  rfl

/-- With whole frames between the old streams and the pending ones, these must be without values. -/
theorem replaysOnce_iff {rt : Runtime Double} {old between pending : List (Stream Double)}
    (logged : ∀ stream ∈ old ++ between ++ pending, LoggedStream rt stream) :
    ReplaysOnce rt (frames rt.stream old) (frames rt.stream (old ++ between ++ pending)) pending ↔
      ∀ stream ∈ between, stream.value = [] := by
  have before := replay_frames fun stream member =>
    logged stream (List.mem_append_left _ (List.mem_append_left _ member))
  have after := replay_frames logged
  rw [← valuesUnder_eq_nil]
  constructor
  · rintro ⟨_, _, first, second, once⟩ key
    rw [before] at first
    rw [after] at second
    obtain rfl := Except.ok.inj first
    obtain rfl := Except.ok.inj second
    have lengths := (once key).length_eq
    simp only [valuesAt_replayed, valuesUnder_append, List.length_append] at lengths
    exact List.length_eq_zero_iff.mp (by omega)
  · intro none
    refine ⟨_, _, before, after, fun key => ?_⟩
    rw [valuesAt_replayed, valuesAt_replayed, valuesUnder_append, valuesUnder_append, none key, List.append_nil]

/-! ## What an attempt leaves in the log -/

/-- A write that fails has put the beginning of the frame behind the file, or nothing. -/
theorem ProtoFileWriter.AtEnd.write_torn {Message : Type} {codec : Codec Message} {writer moved : ProtoFileWriter}
    {disk after : Disk} {message : Message} (atEnd : writer.AtEnd disk)
    (written : writer.write codec disk message = (moved, after, false)) :
    ∃ torn, torn <+: frame (codec.encode message) ∧
      after.content writer.filename = disk.content writer.filename ++ torn := by
  unfold ProtoFileWriter.write at written
  split at written
  · simp only [Prod.mk.injEq] at written
    obtain ⟨-, rfl, -⟩ := written
    exact ⟨[], List.nil_prefix, (List.append_nil _).symm⟩
  · rename_i data marshalled
    obtain ⟨rfl, -⟩ := Codec.marshal_eq_some marshalled
    simp only [ProtoFileWriter.put, Prod.mk.injEq] at written
    obtain ⟨-, rfl, -⟩ := written
    have content : ∀ bytes, ((disk.store writer.filename
        (overwrite (disk.content writer.filename) writer.position bytes)).content writer.filename) =
          disk.content writer.filename ++ bytes := fun bytes => by
      rw [Disk.content_store, atEnd, overwrite_end]
    refine ⟨_, ?_, content _⟩
    split
    · exact List.take_prefix _ _
    · exact List.take_prefix _ _

/-- The loop goes on behind a stream that is written whole, and stops at one that is not. -/
theorem flushStreams_cons {rt : Runtime Double} {stream : Stream Double} {streams : List (Stream Double)}
    {file : ProtoFileWriter} {disk after : Disk} {complete : Bool}
    (flushed : flushStreams rt file disk (stream :: streams) = (after, complete)) :
    (∃ moved written, file.write rt.stream disk stream = (moved, written, true) ∧
        flushStreams rt moved written streams = (after, complete)) ∨
      complete = false ∧ ∃ moved, file.write rt.stream disk stream = (moved, after, false) := by
  obtain ⟨moved, written, whole, result⟩ : ∃ moved written whole,
      file.write rt.stream disk stream = (moved, written, whole) := ⟨_, _, _, rfl⟩
  rw [flushStreams, result] at flushed
  cases whole with
  | true => exact .inl ⟨moved, written, result, flushed⟩
  | false =>
    obtain ⟨rfl, rfl⟩ := Prod.mk.inj flushed
    exact .inr ⟨rfl, moved, result⟩

theorem flushStreams_complete {rt : Runtime Double} {streams : List (Stream Double)} {file : ProtoFileWriter}
    {disk after : Disk} (atEnd : file.AtEnd disk) (flushed : flushStreams rt file disk streams = (after, true)) :
    after.content file.filename = disk.content file.filename ++ frames rt.stream streams ∧
      ∀ stream ∈ streams, (rt.stream.encode stream).length < 2 ^ 31 := by
  induction streams generalizing file disk with
  | nil =>
    obtain rfl := (Prod.mk.inj flushed).1
    simp
  | cons stream streams inductionHypothesis =>
    obtain ⟨moved, written, result, later⟩ | ⟨stopped, -⟩ := flushStreams_cons flushed
    · obtain ⟨nextAtEnd, filename, content, small⟩ := atEnd.write result
      obtain ⟨all, smalls⟩ := inductionHypothesis nextAtEnd later
      rw [filename] at all
      refine ⟨by rw [all, content, frames_cons, List.append_assoc], fun other member => ?_⟩
      cases List.mem_cons.mp member with
      | inl same => exact same ▸ small
      | inr later => exact smalls other later
    · cases stopped

theorem flushStreams_stopped {rt : Runtime Double} {streams : List (Stream Double)} {file : ProtoFileWriter}
    {disk after : Disk} (atEnd : file.AtEnd disk) (flushed : flushStreams rt file disk streams = (after, false)) :
    ∃ whole stream torn, whole ++ [stream] <+: streams ∧ torn <+: frame (rt.stream.encode stream) ∧
      after.content file.filename = disk.content file.filename ++ (frames rt.stream whole ++ torn) := by
  induction streams generalizing file disk with
  | nil => cases flushed
  | cons stream streams inductionHypothesis =>
    obtain ⟨moved, written, result, later⟩ | ⟨-, moved, result⟩ := flushStreams_cons flushed
    · obtain ⟨nextAtEnd, filename, content, -⟩ := atEnd.write result
      obtain ⟨whole, last, torn, first, part, all⟩ := inductionHypothesis nextAtEnd later
      refine ⟨stream :: whole, last, torn, (List.cons_prefix_cons.mpr ⟨rfl, first⟩), part, ?_⟩
      rw [filename] at all
      rw [all, content, frames_cons]
      simp only [List.append_assoc]
    · obtain ⟨torn, part, content⟩ := atEnd.write_torn result
      exact ⟨[], stream, torn, ⟨streams, rfl⟩, part, content⟩

/-- What a failed attempt has left behind the log: the frames of the first pending streams, and the beginning of
the frame of the next one. -/
structure Remains (Double : Type) where
  whole : List (Stream Double)
  torn : Bytes

def Remains.bytes (rt : Runtime Double) (remains : Remains Double) : Bytes :=
  frames rt.stream remains.whole ++ remains.torn

/-- No value stands in the whole frames. -/
def Remains.Valueless (remains : Remains Double) : Prop := ∀ stream ∈ remains.whole, stream.value = []

def Remains.Of (rt : Runtime Double) (pending : List (Stream Double)) (remains : Remains Double) : Prop :=
  ∃ stream, remains.whole ++ [stream] <+: pending ∧ remains.torn <+: frame (rt.stream.encode stream)

theorem Remains.Of.pending {rt : Runtime Double} {pending : List (Stream Double)} {remains : Remains Double}
    (part : remains.Of rt pending) {stream : Stream Double} (member : stream ∈ remains.whole) : stream ∈ pending := by
  obtain ⟨_, first, _⟩ := part
  exact first.subset (List.mem_append_left _ member)

variable {rt : Runtime Double} {disk after : Disk} {block flushed : DatastoreBlock Double}

/-- The file that a flush opens, at its end. -/
theorem atEnd_writeProtoFile {filename : GoString} {opened : Disk} {file : ProtoFileWriter}
    (open_ : writeProtoFile disk filename = (opened, some file)) :
    file.AtEnd opened ∧ file.filename = filename ∧ opened.content filename = disk.content filename := by
  unfold writeProtoFile at open_
  split at open_
  · simp only [Prod.mk.injEq, Option.some.injEq] at open_
    obtain ⟨rfl, rfl⟩ := open_
    have same := Disk.content_store disk filename (disk.content filename)
    exact ⟨by rw [ProtoFileWriter.AtEnd, same], rfl, same⟩
  · cases open_

/-- A `Flush` that fails keeps the block as it is. -/
theorem DatastoreBlock.flush_stopped (failed : block.flush rt disk = .ok (after, flushed, false)) :
    flushed = block ∧ ∃ remains : Remains Double, remains.Of rt block.newStreams ∧
      after.content block.logFilename = disk.content block.logFilename ++ remains.bytes rt := by
  rw [DatastoreBlock.flush] at failed
  by_cases empty : block.newStreams = []
  · rw [if_pos empty] at failed
    cases failed
  · rw [if_neg empty] at failed
    obtain ⟨opened, file, open_⟩ : ∃ opened file, writeProtoFile disk block.logFilename = (opened, file) := ⟨_, _, rfl⟩
    rw [open_] at failed
    cases file with
    | none =>
      simp only [Except.ok.injEq, Prod.mk.injEq, and_true] at failed
      obtain ⟨rfl, rfl⟩ := failed
      -- The log could not be opened: nothing remains of the attempt.
      have unchanged : opened = disk := by
        unfold writeProtoFile at open_
        split at open_
        · cases open_
        · exact (Prod.mk.inj open_).1.symm
      obtain ⟨stream, streams, pending⟩ := List.exists_cons_of_ne_nil empty
      refine ⟨rfl, { whole := [], torn := [] }, ⟨stream, ?_, List.nil_prefix⟩, by simp [unchanged, Remains.bytes]⟩
      rw [pending]
      exact ⟨streams, rfl⟩
    | some file =>
      obtain ⟨atEnd, filename, same⟩ := atEnd_writeProtoFile open_
      obtain ⟨written, complete, result⟩ : ∃ written complete,
          flushStreams rt file opened block.newStreams = (written, complete) := ⟨_, _, rfl⟩
      simp only [result] at failed
      cases complete with
      | false =>
        simp only [Except.ok.injEq, Prod.mk.injEq, and_true] at failed
        obtain ⟨rfl, rfl⟩ := failed
        -- Some streams are in the log, and perhaps a part of the next one.
        obtain ⟨whole, stream, torn, first, part, content⟩ := flushStreams_stopped atEnd result
        rw [filename, same] at content
        exact ⟨rfl, { whole, torn }, ⟨stream, first, part⟩, content⟩
      | true =>
        obtain ⟨logStreams, -, kept⟩ := Fallible.bind_ok failed
        cases kept

theorem hasVariable_of_foldlM {streams : List (Stream Double)} {logStreams final : StreamMap Double}
    (filed : streams.foldlM appendStream logStreams = .ok final) : ∀ stream ∈ streams, stream.HasVariable := by
  induction streams generalizing logStreams with
  | nil => exact fun _ member => absurd member List.not_mem_nil
  | cons stream streams inductionHypothesis =>
    rw [List.foldlM_cons] at filed
    obtain ⟨next, first, rest⟩ := Fallible.bind_ok filed
    obtain ⟨key, printed, -⟩ := Fallible.bind_ok first
    intro other member
    cases List.mem_cons.mp member with
    | inl same => exact same ▸ (key_of_variableString printed).2
    | inr later => exact inductionHypothesis rest other later

/-- A `Flush` that succeeds has put whole frames of all pending streams behind the log. -/
theorem DatastoreBlock.flush_completed (done : block.flush rt disk = .ok (after, flushed, true)) :
    after.content block.logFilename = disk.content block.logFilename ++ frames rt.stream block.newStreams ∧
      ∀ stream ∈ block.newStreams, LoggedStream rt stream := by
  rw [DatastoreBlock.flush] at done
  by_cases empty : block.newStreams = []
  · rw [if_pos empty] at done
    simp only [Except.ok.injEq, Prod.mk.injEq, and_true] at done
    obtain ⟨rfl, rfl⟩ := done
    simp [empty]
  · rw [if_neg empty] at done
    obtain ⟨opened, file, open_⟩ : ∃ opened file, writeProtoFile disk block.logFilename = (opened, file) := ⟨_, _, rfl⟩
    rw [open_] at done
    cases file with
    | none => cases done
    | some file =>
      obtain ⟨atEnd, filename, same⟩ := atEnd_writeProtoFile open_
      obtain ⟨written, complete, result⟩ : ∃ written complete,
          flushStreams rt file opened block.newStreams = (written, complete) := ⟨_, _, rfl⟩
      simp only [result] at done
      cases complete with
      | false => cases done
      | true =>
        obtain ⟨logStreams, filed, kept⟩ := Fallible.bind_ok done
        have unchanged : after = written := (congrArg Prod.fst (Except.ok.inj kept)).symm
        obtain ⟨content, small⟩ := flushStreams_complete atEnd result
        rw [filename, same] at content
        exact ⟨by rw [unchanged, content], fun stream member =>
          ⟨hasVariable_of_foldlM filed stream member, small stream member⟩⟩

/-! ## Attempts -/

/-- Attempts to flush a block that fail, with streams that arrive behind each of them, and what each has left in
the log.  The file calls can fail differently each time. -/
inductive FailedFlushes (rt : Runtime Double) :
    Disk → DatastoreBlock Double → List (Remains Double) → Disk → DatastoreBlock Double → Prop
  | none (disk : Disk) (block : DatastoreBlock Double) : FailedFlushes rt disk block [] disk block
  | attempt {disk after last : Disk} {block lastBlock : DatastoreBlock Double} {fault : FileCall → Option Nat}
      {remains : Remains Double} {sent : List (Stream Double)} {left : List (Remains Double)}
      (failed : block.flush rt { disk with fault } = .ok (after, block, false))
      (part : remains.Of rt block.newStreams)
      (content : after.content block.logFilename = disk.content block.logFilename ++ remains.bytes rt)
      (later : FailedFlushes rt after { block with newStreams := block.newStreams ++ sent } left last lastBlock) :
      FailedFlushes rt disk block (remains :: left) last lastBlock

/-- Every attempt that fails is one of these. -/
theorem FailedFlushes.of_flush {fault : FileCall → Option Nat} (sent : List (Stream Double))
    (failed : block.flush rt { disk with fault } = .ok (after, flushed, false)) :
    ∃ remains, FailedFlushes rt disk block [remains] after { block with newStreams := block.newStreams ++ sent } := by
  obtain ⟨rfl, remains, part, content⟩ := DatastoreBlock.flush_stopped failed
  exact ⟨remains, .attempt failed part content (.none _ _)⟩

/-- When no attempt has torn a frame, the log has grown by whole frames of streams that are still pending. -/
theorem FailedFlushes.whole {last : Disk} {lastBlock : DatastoreBlock Double}
    {left : List (Remains Double)} (attempts : FailedFlushes rt disk block left last lastBlock)
    (untorn : ∀ remains ∈ left, remains.torn = []) :
    lastBlock.logFilename = block.logFilename ∧
      last.content block.logFilename = disk.content block.logFilename ++ frames rt.stream (left.flatMap Remains.whole) ∧
      block.newStreams ⊆ lastBlock.newStreams ∧ left.flatMap Remains.whole ⊆ lastBlock.newStreams := by
  induction attempts with
  | none disk block => exact ⟨rfl, by simp, fun _ member => member, by simp⟩
  | @attempt disk after last block lastBlock fault remains sent left failed part content later inductionHypothesis =>
    obtain ⟨filename, grown, kept, pending⟩ :=
      inductionHypothesis fun one member => untorn one (List.mem_cons_of_mem _ member)
    have clean : remains.torn = [] := untorn _ List.mem_cons_self
    have keeps : block.newStreams ⊆ lastBlock.newStreams :=
      fun stream member => kept (List.mem_append_left _ member)
    refine ⟨filename, ?_, keeps, ?_⟩
    · change last.content block.logFilename = after.content block.logFilename ++ _ at grown
      rw [grown, content, Remains.bytes, clean, List.append_nil, List.flatMap_cons, frames_append, List.append_assoc]
    · rw [List.flatMap_cons]
      exact List.append_subset.mpr ⟨fun stream member => keeps (part.pending member), pending⟩

/-- A log of whole frames, behind attempts that fail and one that does not, replays each pending value once if
nothing is left of the failed ones but whole frames without values; and only then, if they have torn no frame. -/
theorem flush_retried {old : List (Stream Double)} (log : disk.content block.logFilename = frames rt.stream old)
    (logged : ∀ stream ∈ old, LoggedStream rt stream) {last final : Disk} {lastBlock flushed : DatastoreBlock Double}
    {left : List (Remains Double)} (attempts : FailedFlushes rt disk block left last lastBlock)
    {fault : FileCall → Option Nat} (done : lastBlock.flush rt { last with fault } = .ok (final, flushed, true)) :
    ((∀ remains ∈ left, remains.torn = [] ∧ remains.Valueless) →
        ReplaysOnce rt (disk.content block.logFilename) (final.content block.logFilename) lastBlock.newStreams) ∧
      ((∀ remains ∈ left, remains.torn = []) →
        ReplaysOnce rt (disk.content block.logFilename) (final.content block.logFilename) lastBlock.newStreams →
        ∀ remains ∈ left, remains.Valueless) := by
  obtain ⟨written, pending⟩ := DatastoreBlock.flush_completed done
  have exactly : (∀ remains ∈ left, remains.torn = []) →
      (ReplaysOnce rt (disk.content block.logFilename) (final.content block.logFilename) lastBlock.newStreams ↔
        ∀ stream ∈ left.flatMap Remains.whole, stream.value = []) := by
    intro untorn
    obtain ⟨filename, grown, -, between⟩ := attempts.whole untorn
    -- The log holds the old streams, what each failed attempt wrote, and then all pending streams.
    have content : final.content block.logFilename =
        frames rt.stream (old ++ left.flatMap Remains.whole ++ lastBlock.newStreams) := by
      rw [← filename, written, filename, frames_append, frames_append, ← log]
      change last.content block.logFilename ++ _ = _
      rw [grown]
    rw [content, log]
    apply replaysOnce_iff
    intro stream member
    cases List.mem_append.mp member with
    | inl earlier =>
      cases List.mem_append.mp earlier with
      | inl before => exact logged stream before
      | inr retried => exact pending stream (between retried)
    | inr later => exact pending stream later
  constructor
  · intro valueless
    refine (exactly fun one member => (valueless one member).1).mpr fun stream member => ?_
    obtain ⟨one, present, here⟩ := List.mem_flatMap.mp member
    exact (valueless one present).2 stream here
  · intro untorn once one member stream here
    exact (exactly untorn).mp once stream (List.mem_flatMap.mpr ⟨one, member, here⟩)

def pendingBlock : DatastoreBlock UInt64 :=
  { newBlock (ascii "b") (ascii "1") with newStreams := [gauge "a" [1], gauge "b" [2]] }

/-- Writing fails at a position of the log, with some bytes written there. -/
def failsAt (position count : Nat) : FileCall → Option Nat := fun call =>
  if call = .write pendingBlock.logFilename position then some count else none

/-- The log after an attempt that fails and after one that does not, and whether they return early. -/
def retriedLog (position count : Nat) : Except Panic (Bool × Bytes × Bool × Bytes) := do
  let (failed, block, first) ← pendingBlock.flush protoRuntime { Disk.empty with fault := failsAt position count }
  let (done, _, second) ← block.flush protoRuntime { failed with fault := fun _ => none }
  return (first, failed.content pendingBlock.logFilename, second, done.content pendingBlock.logFilename)

theorem flush_retried_pendingBlock :
    ∃ final : Disk,
      ((∀ remains ∈ [({ whole := [], torn := [] } : Remains UInt64)], remains.torn = [] ∧ remains.Valueless) →
        ReplaysOnce protoRuntime (Disk.empty.content pendingBlock.logFilename)
          (final.content pendingBlock.logFilename) pendingBlock.newStreams) ∧
      ((∀ remains ∈ [({ whole := [], torn := [] } : Remains UInt64)], remains.torn = []) →
        ReplaysOnce protoRuntime (Disk.empty.content pendingBlock.logFilename)
          (final.content pendingBlock.logFilename) pendingBlock.newStreams →
        ∀ remains ∈ [({ whole := [], torn := [] } : Remains UInt64)], remains.Valueless) := by
  have run : retriedLog 0 0 =
      .ok (false, [], true, frames protoRuntime.stream [gauge "a" [1], gauge "b" [2]]) := by decide
  obtain ⟨⟨after, block, first⟩, failed, rest⟩ := Fallible.bind_ok run
  obtain ⟨⟨final, flushed, second⟩, done, returned⟩ := Fallible.bind_ok rest
  obtain ⟨rfl, nothing, rfl, -⟩ : first = false ∧ after.content pendingBlock.logFilename = [] ∧ second = true ∧ _ := by
    simpa only [Prod.mk.injEq] using Except.ok.inj returned
  obtain ⟨rfl, -⟩ := DatastoreBlock.flush_stopped failed
  have part : Remains.Of protoRuntime pendingBlock.newStreams { whole := [], torn := [] } :=
    ⟨gauge "a" [1], ⟨[gauge "b" [2]], rfl⟩, List.nil_prefix⟩
  have attempts := @FailedFlushes.attempt UInt64 protoRuntime Disk.empty after after pendingBlock pendingBlock
    (failsAt 0 0) _ [] [] failed part nothing (.none _ _)
  have empty : Disk.empty.content pendingBlock.logFilename = frames protoRuntime.stream [] := rfl
  exact ⟨final, flush_retried empty (by simp) attempts done⟩

/-- The timestamps that a log replays under a variable. -/
def replayedAt (name : String) (content : Bytes) : Except Panic (List UInt64) := do
  let (_, logStreams) ← replay protoRuntime content
  return (valuesAt logStreams (ascii name)).map Value.timestamp

/-- The first frame is written and the second is not: the value of the first stream is replayed twice.  One byte of
the first frame is written: the value is not replayed at all. -/
theorem flush_retry_replays_wrongly :
    (∃ left log, retriedLog 26 0 = .ok (false, left, true, log) ∧ replayedAt "a" log = .ok [1, 1] ∧
        ¬ReplaysOnce protoRuntime [] log pendingBlock.newStreams) ∧
      ∃ left log, retriedLog 0 1 = .ok (false, left, true, log) ∧ replayedAt "a" log = .ok [] := by
  constructor
  · refine ⟨frames protoRuntime.stream [gauge "a" [1]],
      frames protoRuntime.stream ([] ++ [gauge "a" [1]] ++ pendingBlock.newStreams), ?_, ?_, ?_⟩
    · decide +kernel
    · decide +kernel
    · have logged : ∀ stream ∈ [] ++ [gauge "a" [1]] ++ pendingBlock.newStreams, LoggedStream protoRuntime stream := by
        have all : ∀ stream ∈ [] ++ [gauge "a" [1]] ++ pendingBlock.newStreams,
            stream.HasVariable ∧ (protoRuntime.stream.encode stream).length < 2 ^ 31 := by decide +kernel
        exact fun stream member => ⟨(all stream member).1, (all stream member).2⟩
      intro once
      have valueless := (replaysOnce_iff logged).mp once (gauge "a" [1]) (List.mem_singleton_self _)
      cases valueless
  · refine ⟨(frame (protoRuntime.stream.encode (gauge "a" [1]))).take 1,
      (frame (protoRuntime.stream.encode (gauge "a" [1]))).take 1 ++ frames protoRuntime.stream pendingBlock.newStreams,
      ?_, ?_⟩
    · decide
    · decide

end OpenInstrument
