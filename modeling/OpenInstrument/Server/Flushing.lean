import OpenInstrument.Server.Messages
import OpenInstrument.Server.ProtoStream

/-! # Flushing the record log

The streams in memory are appended to the record log one after another.  A write that fails ends the loop, and the
streams that were written are taken out of memory.  What `Flush` returns does not depend on the loop.
-/

namespace OpenInstrument.Server

variable {Message : Type} (crc : Bytes → UInt16) (codec : Codec Message)

/-- What a call of `Flush` leaves behind, with what it returns. -/
structure Flushed (Message : Type) where
  file : Option File
  log : List Message
  result : Bool

/-- The loop over the streams: the file behind it, and `done_streams`. -/
def flushStreams : File → List Message → File × Nat
  | file, [] => (file, 0)
  | file, stream :: rest =>
    match protoStreamWrite crc codec file stream with
    | (file, false) => (file, 0)
    | (file, true) =>
      let later := flushStreams file rest
      (later.1, later.2 + 1)

/-- `Flush`, where the record log can be opened for appending or not. -/
def flush (opened : Option File) (log : List Message) : Flushed Message :=
  if log.isEmpty then { file := opened, log, result := true }
  else
    match opened with
    | none => { file := none, log, result := false }
    | some file =>
      let written := flushStreams crc codec file log
      { file := some written.1, log := log.drop written.2, result := true }

/-! ## What is left -/

/-- The streams from the first one on that cannot be written. -/
def unwrittenIn : File → List Message → List Message
  | _, [] => []
  | file, stream :: rest =>
    match protoStreamWrite crc codec file stream with
    | (_, false) => stream :: rest
    | (file, true) => unwrittenIn file rest

def unwritten (opened : Option File) (log : List Message) : List Message :=
  opened.elim log fun file => unwrittenIn crc codec file log

/-- A call that returns true has left nothing, and any other call has left what could not be written. -/
def FlushTruthful (opened : Option File) (log : List Message) : Prop :=
  ((flush crc codec opened log).result = true ↔
      unwritten crc codec opened log = [] ∧ (flush crc codec opened log).log = []) ∧
    ((flush crc codec opened log).result = false → (flush crc codec opened log).log = unwritten crc codec opened log)

variable {crc codec}

theorem drop_flushStreams (file : File) (log : List Message) :
    log.drop (flushStreams crc codec file log).2 = unwrittenIn crc codec file log := by
  induction log generalizing file with
  | nil => rfl
  | cons stream rest inductionHypothesis =>
    rw [flushStreams, unwrittenIn]
    cases protoStreamWrite crc codec file stream with
    | mk after written =>
      cases written with
      | false => rfl
      | true => exact inductionHypothesis after

/-- What is left is right in any case; it is only the returned value that can be wrong. -/
theorem flush_log (opened : Option File) (log : List Message) :
    (flush crc codec opened log).log = unwritten crc codec opened log := by
  cases log with
  | nil => cases opened <;> rfl
  | cons stream rest =>
    cases opened with
    | none => rfl
    | some file => exact drop_flushStreams file (stream :: rest)

theorem flushStreams_written (file : File) (log : List Message) :
    (protoStreamWriteAll crc codec file (log.take (flushStreams crc codec file log).2)).2 = true := by
  induction log generalizing file with
  | nil => rfl
  | cons stream rest inductionHypothesis =>
    rw [flushStreams]
    cases written : protoStreamWrite crc codec file stream with
    | mk after success =>
      cases success with
      | false => rfl
      | true =>
        rw [List.take_succ_cons, protoStreamWriteAll, written]
        simpa using inductionHypothesis after

/-- The streams that are gone from memory have been written, in their order, and the others are as they were. -/
theorem flush_conserves (file : File) (log : List Message) :
    ∃ gone,
      log = gone ++ (flush crc codec (some file) log).log ∧ (protoStreamWriteAll crc codec file gone).2 = true := by
  rw [flush_log, unwritten, Option.elim_some, ← drop_flushStreams]
  exact ⟨_, (List.take_append_drop _ log).symm, flushStreams_written file log⟩

theorem unwrittenIn_eq_nil {file : File} {log : List Message} :
    unwrittenIn crc codec file log = [] ↔ (protoStreamWriteAll crc codec file log).2 = true := by
  induction log generalizing file with
  | nil => simp [unwrittenIn, protoStreamWriteAll]
  | cons stream rest inductionHypothesis =>
    rw [unwrittenIn, protoStreamWriteAll]
    cases protoStreamWrite crc codec file stream with
    | mk after written =>
      cases written with
      | false => simp
      | true => simpa using inductionHypothesis

/-! ## What is returned -/

/-- `Flush` is truthful when there is nothing to write, when the file cannot be opened, and when every write
succeeds. -/
theorem flush_truthful_iff (opened : Option File) (log : List Message) :
    FlushTruthful crc codec opened log ↔
      log = [] ∨ opened = none ∨ ∃ file, opened = some file ∧ (protoStreamWriteAll crc codec file log).2 = true := by
  rw [FlushTruthful, flush_log]
  cases log with
  | nil =>
    cases opened with
    | none => simp [flush, unwritten]
    | some file => simp [flush, unwritten, unwrittenIn]
  | cons stream rest =>
    cases opened with
    | none => simp [flush, unwritten]
    | some file =>
      have returned : (flush crc codec (some file) (stream :: rest)).result = true := rfl
      rw [returned]
      simp [unwritten, ← unwrittenIn_eq_nil]

/-- The second write of two falls short. -/
def fullDisk : File := { content := [], position := 0, short := fun position => if position < 20 then none else some 0 }

theorem flush_untruthful :
    ∃ first second : ValueStream, first ≠ second ∧
      (flush crc16 valueStreamCodec (some fullDisk) [first, second]).result = true ∧
      (flush crc16 valueStreamCodec (some fullDisk) [first, second]).log = [second] ∧
      ¬ FlushTruthful crc16 valueStreamCodec (some fullDisk) [first, second] := by
  have returned : (flush crc16 valueStreamCodec (some fullDisk)
      [⟨⟨ascii "a", [], none⟩, []⟩, ⟨⟨ascii "b", [], none⟩, []⟩]).result = true := rfl
  have left : (flush crc16 valueStreamCodec (some fullDisk)
      [⟨⟨ascii "a", [], none⟩, []⟩, ⟨⟨ascii "b", [], none⟩, []⟩]).log = [⟨⟨ascii "b", [], none⟩, []⟩] := by
    decide
  refine ⟨_, _, by decide, returned, left, fun truthful => ?_⟩
  have nothing := (truthful.1.mp returned).2
  rw [left] at nothing
  cases nothing

end OpenInstrument.Server
