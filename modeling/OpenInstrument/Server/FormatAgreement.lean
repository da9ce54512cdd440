import OpenInstrument.ProtoFileLog
import OpenInstrument.Server.Damage

/-! # Frames of the Go programs and records of the C++ server

The two formats have the same magic number and the same length field.  In place of the checksum of a
record a frame has two zero bytes, which the Go reader does not check.  So the Go reader reads every
file of records, and the C++ reader reads a file of frames when all checksums are zero, and then only.
-/

namespace OpenInstrument.Server

variable {Message : Type} {crc : Bytes → UInt16} {codec : Codec Message}

/-! ## Go reads records -/

theorem protoRead_record {content after : Bytes} {position : Nat} {message : Message}
    (written : content.drop position = record crc (codec.encode message) ++ after)
    (small : (codec.encode message).length < 2 ^ 32) :
    protoRead codec content position =
      .message message (position + (record crc (codec.encode message)).length) := by
  have layout : content.drop position =
      LittleEndian.encode 2 protoMagic ++ (LittleEndian.encode 4 (codec.encode message).length ++
        (codec.encode message ++
          (LittleEndian.encode 2 (crc (codec.encode message)).toNat ++ after))) := by
    rw [written]
    simp [record, protomagic, protoMagic]
  have turn := readFrame_layout codec layout (LittleEndian.encode_length 2 _) small
  rw [codec.decode_encode] at turn
  rw [protoRead_eq, Scan.run_stop turn, record_length]
  simp only [ReadResult.message.injEq, true_and]
  omega

theorem go_collects_records {content : Bytes} {position : Nat} {messages : List Message}
    (written : content.drop position = records crc codec messages)
    (small : ∀ message ∈ messages, (codec.encode message).length < 2 ^ 32) :
    Scan.Collects (protoNext codec content) position messages := by
  induction messages generalizing position with
  | nil =>
    refine .stop ((protoNext_eq_none codec content position).mpr ?_)
    rintro ⟨turns, data, -, stands, -⟩
    have within := stands.within
    rw [records_nil, List.drop_eq_nil_iff] at written
    omega
  | cons message messages inductionHypothesis =>
    rw [records_cons] at written
    refine .item (protoNext_eq_some.mpr (protoRead_record written (small message List.mem_cons_self)))
      (inductionHypothesis ?_ fun other member => small other (List.mem_cons_of_mem _ member))
    rw [← List.drop_drop, written, List.drop_left]

/-! ## The C++ server reads frames -/

section Frame

variable {content data after : Bytes} {position : Nat}

/-- A frame is a record but for its checksum. -/
theorem frame_eq (data : Bytes) : frame data = record (fun _ => 0) data := by
  simp [frame, record, protomagic, protoMagic]

theorem frames_eq (messages : List Message) :
    frames codec messages = records (fun _ => 0) codec messages := by
  simp only [frames, records, frame_eq]

theorem frame_recordAt (written : content.drop position = frame data ++ after)
    (small : data.length ≤ maxMessageSize) : RecordAt (fun _ => 0) content position data :=
  recordAt_of_drop (frame_eq data ▸ written) small

theorem recordAt_frame (written : content.drop position = frame data ++ after)
    (small : data.length ≤ maxMessageSize) (zero : crc data = 0) :
    RecordAt crc content position data := by
  have stands := frame_recordAt written small
  exact ⟨stands.magic, stands.size, stands.small, stands.payload, by rw [stands.checksum, zero]⟩

/-- Behind a frame with another checksum the reader looks for a header one byte further on. -/
theorem nextTurn_frame (written : content.drop position = frame data ++ after)
    (small : data.length ≤ maxMessageSize) (nonzero : crc data ≠ 0) :
    nextTurn crc codec content position = resynchronise content (position + 1) := by
  have stands := frame_recordAt written small
  refine nextTurn_mismatch stands.magic stands.size small stands.checksum fun same => nonzero ?_
  rw [stands.payload] at same
  exact (UInt16.toNat_inj.mp same).symm

end Frame

/-- Messages that are read take up at least the space of their records, if no message has an encoding
shorter than the one that is written. -/
theorem collects_length {content : Bytes} {position : Nat} {messages : List Message}
    (shortest : ∀ data message, codec.decode data = some message →
      (codec.encode message).length ≤ data.length)
    (inside : position ≤ content.length)
    (reads : Scan.Collects (next crc codec content) position messages) :
    position + (records crc codec messages).length ≤ content.length := by
  induction reads with
  | stop last => simpa using inside
  | @item position after message messages found rest inductionHypothesis =>
    obtain ⟨start, data, behind, stands, decoded, rfl⟩ := next_some found
    have within := stands.within
    have atLeast := shortest data message decoded
    have later := inductionHypothesis within
    rw [records_cons, List.length_append, record_length]
    omega

theorem collects_frames_iff {content : Bytes} {position : Nat} {messages : List Message}
    (shortest : ∀ data message, codec.decode data = some message →
      (codec.encode message).length ≤ data.length)
    (written : content.drop position = frames codec messages)
    (small : ∀ message ∈ messages, (codec.encode message).length ≤ maxMessageSize)
    (reads : Scan.Collects (next crc codec content) position messages) :
    ∀ message ∈ messages, crc (codec.encode message) = 0 := by
  induction messages generalizing position with
  | nil => simp
  | cons message messages inductionHypothesis =>
    rw [frames_cons] at written
    have fits := small message List.mem_cons_self
    by_cases zero : crc (codec.encode message) = 0
    · have turn := nextTurn_record codec (recordAt_frame written fits zero)
      rw [codec.decode_encode] at turn
      cases reads with
      | item found rest =>
        have same := (Scan.run_stop turn).symm.trans found
        simp only [Option.some.injEq, Prod.mk.injEq, true_and] at same
        subst same
        -- Read as a record, the frame ends where the next one begins.
        have next : content.drop (position + 6 + (codec.encode message).length + 2) =
            frames codec messages := by
          have width : position + 6 + (codec.encode message).length + 2 =
              position + (frame (codec.encode message)).length := by
            rw [frame_length]
            omega
          rw [width, ← List.drop_drop, written, List.drop_left]
        intro other member
        cases List.mem_cons.mp member with
        | inl same => exact same ▸ zero
        | inr later =>
          exact inductionHypothesis next (fun other member => small other (List.mem_cons_of_mem _ member))
            rest other later
    · -- Everything would have to be read from behind the first byte of the frame: there is no room.
      have resumes := (collects_resynchronise (nextTurn_frame written fits zero)).mp reads
      cases found : findNextHeader content (position + 1) with
      | none =>
        rw [Resumes, found] at resumes
        cases resumes
      | some header =>
        rw [Resumes, found] at resumes
        obtain ⟨behind, within, -⟩ := findNextHeader_some found
        have room := collects_length shortest (by omega) resumes
        have sizes := congrArg List.length written
        rw [List.length_drop, ← frames_cons, frames_eq] at sizes
        simp only [records, List.length_flatMap, record_length] at room sizes
        omega

theorem collects_frames_zero {content : Bytes} {position : Nat} {messages : List Message}
    (written : content.drop position = frames codec messages)
    (small : ∀ message ∈ messages, (codec.encode message).length ≤ maxMessageSize)
    (zero : ∀ message ∈ messages, crc (codec.encode message) = 0) :
    Scan.Collects (next crc codec content) position messages := by
  have same : frames codec messages = records crc codec messages := by
    rw [frames_eq]
    exact List.flatMap_congr fun message member => by simp [record, zero message member]
  have reads := collects_takeWhile (written.trans same) fun message member => by
    have fits := small message member
    simp only [maxMessageSize] at fits
    omega
  rwa [List.takeWhile_eq_self_iff.mpr (by simpa using small)] at reads

/-- Files of the C++ writer are read by the Go reader; files of the Go writer are read by the C++
reader if the checksum of every message is zero, and, where encodings are shortest, only if it is. -/
theorem formats_agree {filename : GoString} {disk after : Disk} {writer : ProtoFileWriter}
    {short : Nat → Option Nat} {file : File} {messages : List Message}
    (fresh : disk.content filename = [])
    (writtenGo : ProtoFileWriter.writeAll codec { filename, position := 0 } disk messages =
      (writer, after, true))
    (writtenServer : protoStreamWriteAll crc codec (File.create short) messages = (file, true))
    (small : ∀ message ∈ messages, (codec.encode message).length ≤ maxMessageSize) :
    Scan.Collects (protoNext codec file.content) 0 messages ∧
      ((∀ message ∈ messages, crc (codec.encode message) = 0) →
        Scan.Collects (next crc codec (after.content filename)) 0 messages) ∧
      ((∀ data message, codec.decode data = some message →
          (codec.encode message).length ≤ data.length) →
        Scan.Collects (next crc codec (after.content filename)) 0 messages →
        ∀ message ∈ messages, crc (codec.encode message) = 0) := by
  have atEnd : ProtoFileWriter.AtEnd { filename, position := 0 } disk := by
    simp [ProtoFileWriter.AtEnd, fresh]
  obtain ⟨content, -⟩ := atEnd.writeAll writtenGo
  simp only [fresh, List.nil_append] at content
  obtain ⟨server, fits⟩ := (File.create_atEnd short).protoStreamWriteAll writtenServer
  rw [content, server]
  refine ⟨?_, collects_frames_zero rfl small, fun shortest => collects_frames_iff shortest rfl small⟩
  exact go_collects_records rfl fun message member => by
    have bound := fits message member
    omega

/-- A stream whose encoding has the checksum zero. -/
def zeroChecksum : Stream UInt64 := gauge "a" [139, 243]

theorem formats_agree_zeroChecksum :
    Scan.Collects (next crc16 protoRuntime.stream (logContent [zeroChecksum])) 0 [zeroChecksum] := by
  have server : (protoStreamWriteAll crc16 protoRuntime.stream (File.create fun _ => none)
      [zeroChecksum]).2 = true := by
    decide
  have complete : (logOf [zeroChecksum]).2.2 = true := by decide
  have fresh : Disk.empty.content (ascii "log") = [] := rfl
  have agree := formats_agree fresh (Prod.ext rfl (Prod.ext rfl complete) : logOf _ = (_, _, true))
    (Prod.ext rfl server : protoStreamWriteAll _ _ _ _ = (_, true)) (by decide)
  exact agree.2.1 (by decide +kernel)

/-- The C++ reader delivers nothing from a Go file with a message whose checksum is not zero. -/
theorem formats_disagree :
    (logOf [gauge "a" [1]]).2.2 = true ∧
      (protoRuntime.stream.encode (gauge "a" [1])).length ≤ maxMessageSize ∧
      ¬Scan.Collects (next crc16 protoRuntime.stream (logContent [gauge "a" [1]])) 0 [gauge "a" [1]] := by
  refine ⟨by decide, by decide, fun reads => ?_⟩
  have nothing : protoStreamRead crc16 protoRuntime.stream (logContent [gauge "a" [1]]) = [] := by
    decide +kernel
  have same := reads.unique (protoStreamRead_collects _)
  rw [nothing] at same
  cases same

end OpenInstrument.Server
