import OpenInstrument.Library.Scan
import OpenInstrument.ProtoFileRoundTrip
import OpenInstrument.ProtoWire

/-! # Logs

A log is a file to which messages are written one after another.  Its reader always comes to an end.
When the end of the log is missing, the reader delivers the messages that are all there, and then goes
on looking for a frame within the torn one whenever the length in the torn header is not below the
size of the file: six bytes further on at each turn.
-/

namespace OpenInstrument

variable {Message : Type} {codec : Codec Message}

/-- Messages written one after another, and whether every `Write` succeeded. -/
def ProtoFileWriter.writeAll (codec : Codec Message) :
    ProtoFileWriter → Disk → List Message → ProtoFileWriter × Disk × Bool
  | writer, disk, [] => (writer, disk, true)
  | writer, disk, message :: messages =>
    let (writer, disk, written) := writer.write codec disk message
    let (writer, disk, rest) := writer.writeAll codec disk messages
    (writer, disk, written && rest)

def ProtoFileWriter.AtEnd (writer : ProtoFileWriter) (disk : Disk) : Prop :=
  writer.position = (disk.content writer.filename).length

theorem Disk.content_store (disk : Disk) (name : GoString) (content : Bytes) :
    (disk.store name content).content name = content := by
  simp [Disk.content, Disk.store]

theorem ProtoFileWriter.AtEnd.write {writer moved : ProtoFileWriter} {disk after : Disk}
    {message : Message} (atEnd : writer.AtEnd disk)
    (written : writer.write codec disk message = (moved, after, true)) :
    moved.AtEnd after ∧ moved.filename = writer.filename ∧
      after.content writer.filename = disk.content writer.filename ++ frame (codec.encode message) ∧
      (codec.encode message).length < 2 ^ 31 := by
  unfold ProtoFileWriter.write at written
  split at written
  · cases written
  · rename_i data marshalled
    obtain ⟨rfl, small⟩ := Codec.marshal_eq_some marshalled
    simp only [ProtoFileWriter.put, Prod.mk.injEq, Bool.and_eq_true, Option.isNone_iff_eq_none,
      decide_eq_true_eq] at written
    obtain ⟨rfl, rfl, works, fits⟩ := written
    have whole : (frame (codec.encode message)).take (maxFileSize - writer.position) =
        frame (codec.encode message) := List.take_of_length_le (by omega)
    have content : ((disk.store writer.filename (overwrite (disk.content writer.filename) writer.position
        (frame (codec.encode message)))).content writer.filename) =
          disk.content writer.filename ++ frame (codec.encode message) := by
      rw [Disk.content_store, atEnd, overwrite_end]
    simp only [ProtoFileWriter.AtEnd, works, whole, true_and]
    have moved : writer.position + (frame (codec.encode message)).length =
        (disk.content writer.filename ++ frame (codec.encode message)).length := by
      rw [atEnd, List.length_append]
    exact ⟨moved.trans (congrArg List.length content).symm, content, small⟩

theorem ProtoFileWriter.AtEnd.writeAll {writer moved : ProtoFileWriter} {disk after : Disk}
    {messages : List Message} (atEnd : writer.AtEnd disk)
    (written : writer.writeAll codec disk messages = (moved, after, true)) :
    after.content writer.filename = disk.content writer.filename ++ frames codec messages ∧
      ∀ message ∈ messages, (codec.encode message).length < 2 ^ 31 := by
  induction messages generalizing writer disk with
  | nil =>
    simp only [ProtoFileWriter.writeAll, Prod.mk.injEq, and_true] at written
    obtain ⟨-, rfl⟩ := written
    simp
  | cons message messages inductionHypothesis =>
    simp only [ProtoFileWriter.writeAll, Prod.mk.injEq, Bool.and_eq_true] at written
    obtain ⟨closing, same, here, rest⟩ := written
    obtain ⟨stillAtEnd, named, content, fits⟩ := atEnd.write (Prod.ext rfl (Prod.ext rfl here))
    obtain ⟨all, small⟩ := inductionHypothesis stillAtEnd (Prod.ext closing (Prod.ext same rest))
    refine ⟨by rw [← named, all, named, content, List.append_assoc, frames_cons], ?_⟩
    intro other member
    cases List.mem_cons.mp member with
    | inl same => exact same ▸ fits
    | inr later => exact small other later

/-! ## The reader comes to an end -/

theorem readFrame_advances (codec : Codec Message) (content : Bytes) :
    Scan.Advances (readFrame codec content) content.length := by
  intro position after turn
  simp only [readFrame] at turn
  split at turn
  · cases turn
  · split at turn
    · cases turn
    · rename_i enough
      rw [List.length_drop] at enough
      split at turn
      · cases turn
        omega
      · split at turn
        · cases turn
          omega
        · split at turn
          · cases turn
          · split at turn
            · cases turn
              omega
            · split at turn <;> cases turn

theorem readFrom_eq_run (codec : Codec Message) (content : Bytes) (fuel position : Nat) :
    readFrom codec content fuel position = Scan.run (readFrame codec content) .endOfFile fuel position := by
  induction fuel generalizing position with
  | zero => rfl
  | succ fuel inductionHypothesis =>
    rw [readFrom, Scan.run]
    cases readFrame codec content position with
    | inl result => rfl
    | inr next => exact inductionHypothesis next

/-- The loop of `Read` ends with the result that `protoRead` computes. -/
theorem protoRead_ends (codec : Codec Message) (content : Bytes) (position : Nat) :
    Scan.Ends (readFrame codec content) position (protoRead codec content position) := by
  rw [protoRead, readFrom_eq_run]
  exact (readFrame_advances codec content).ends position

/-- A call of `Read` as an item of a scan. -/
def protoNext (codec : Codec Message) (content : Bytes) (position : Nat) : Option (Message × Nat) :=
  match protoRead codec content position with
  | .message message next => some (message, next)
  | _ => none

theorem readMessages_eq_collect (codec : Codec Message) (content : Bytes) (fuel position : Nat) :
    readMessages codec content none fuel position =
      Scan.collect (protoNext codec content) fuel position := by
  induction fuel generalizing position with
  | zero => rfl
  | succ fuel inductionHypothesis =>
    rw [readMessages, Scan.collect, protoNext]
    cases protoRead codec content position with
    | message message next => simp only [Option.all_none, if_true, inductionHypothesis next]
    | endOfFile => rfl
    | failed => rfl

/-! ## Frames in a file -/

/-- A complete frame stands at a position. -/
structure FrameAt (content : Bytes) (position : Nat) (data : Bytes) : Prop where
  magic : LittleEndian.decode ((content.drop position).take 2) = protoMagic
  length : LittleEndian.decode (((content.drop position).drop 2).take 4) = data.length
  payload : ((content.drop position).drop 6).take data.length = data
  within : position + 6 + data.length + 2 ≤ content.length

/-- The reader takes what stands at a position for no frame header, and goes on six bytes further. -/
def PassedOver (content : Bytes) (position : Nat) : Prop :=
  position + 6 ≤ content.length ∧
    (LittleEndian.decode ((content.drop position).take 2) ≠ protoMagic ∨
      content.length ≤ LittleEndian.decode (((content.drop position).drop 2).take 4))

section Turn

variable {content : Bytes} {position : Nat}

theorem readFrame_passedOver (passed : PassedOver content position) :
    readFrame codec content position = .inr (position + 6) := by
  obtain ⟨inside, header⟩ := passed
  have nonempty : content.drop position ≠ [] := by
    rw [← List.length_pos_iff, List.length_drop]
    omega
  simp only [readFrame, nonempty, if_false, List.length_drop]
  rw [if_neg (by omega)]
  by_cases magic : LittleEndian.decode ((content.drop position).take 2) ≠ protoMagic
  · rw [if_pos magic]
  · rw [if_neg magic, if_pos (header.resolve_left magic)]

theorem readFrame_frameAt (codec : Codec Message) {data : Bytes} (stands : FrameAt content position data) :
    readFrame codec content position =
      (codec.decode data).elim (.inl .failed)
        fun message => .inl (.message message (position + 6 + data.length + 2)) := by
  have within := stands.within
  have nonempty : content.drop position ≠ [] := by
    rw [← List.length_pos_iff, List.length_drop]
    omega
  simp only [readFrame, nonempty, if_false, List.length_drop, stands.magic, stands.length, stands.payload]
  rw [if_neg (by omega), if_neg (by simp), if_neg (by omega), if_neg (by simp), if_neg (by omega)]
  cases codec.decode data <;> rfl

/-- Where nothing is passed over and no frame stands, the reader ends without a message. -/
theorem readFrame_stop (codec : Codec Message) (stays : ¬PassedOver content position)
    (noFrame : ∀ data, ¬FrameAt content position data) :
    readFrame codec content position = .inl .endOfFile ∨ readFrame codec content position = .inl .failed ∨
      readFrame codec content position = .inr content.length := by
  simp only [readFrame]
  split
  · exact .inl rfl
  · split
    · exact .inr (.inl rfl)
    · rename_i enough
      rw [List.length_drop] at enough
      split
      · rename_i magic
        exact absurd ⟨by omega, .inl magic⟩ stays
      · rename_i magic
        split
        · rename_i large
          exact absurd ⟨by omega, .inr large⟩ stays
        · split
          · exact .inl rfl
          · rename_i whole
            split
            · exact .inr (.inr rfl)
            · rename_i complete
              rw [List.length_drop] at complete
              rw [not_not] at magic whole
              exact absurd ⟨magic, whole.symm, by rw [whole], by omega⟩ (noFrame _)

/-- A message comes from a frame. -/
theorem readFrame_message {message : Message} {after : Nat}
    (last : readFrame codec content position = .inl (.message message after)) :
    ∃ data, FrameAt content position data ∧ codec.decode data = some message ∧
      after = position + 6 + data.length + 2 := by
  by_cases passed : PassedOver content position
  · rw [readFrame_passedOver passed] at last
    cases last
  · by_cases stands : ∃ data, FrameAt content position data
    · obtain ⟨data, stands⟩ := stands
      rw [readFrame_frameAt codec stands] at last
      cases decoded : codec.decode data with
      | none =>
        rw [decoded] at last
        cases last
      | some found =>
        rw [decoded] at last
        cases last
        exact ⟨data, stands, decoded, rfl⟩
    · rcases readFrame_stop codec passed (not_exists.mp stands) with eof | failed | atEnd
      · rw [eof] at last
        cases last
      · rw [failed] at last
        cases last
      · rw [atEnd] at last
        cases last

/-- The reader goes on behind a header that it passes over, or at the end of the file. -/
theorem readFrame_inr {after : Nat} (goes : readFrame codec content position = .inr after) :
    PassedOver content position ∧ after = position + 6 ∨ after = content.length := by
  by_cases passed : PassedOver content position
  · rw [readFrame_passedOver passed] at goes
    exact .inl ⟨passed, (Sum.inr.inj goes).symm⟩
  · by_cases stands : ∃ data, FrameAt content position data
    · obtain ⟨data, stands⟩ := stands
      rw [readFrame_frameAt codec stands] at goes
      cases decoded : codec.decode data with
      | none =>
        rw [decoded] at goes
        cases goes
      | some message =>
        rw [decoded] at goes
        cases goes
    · rcases readFrame_stop codec passed (not_exists.mp stands) with eof | failed | atEnd
      · rw [eof] at goes
        cases goes
      · rw [failed] at goes
        cases goes
      · rw [atEnd] at goes
        exact .inr (Sum.inr.inj goes).symm

end Turn

/-- A frame that the reader comes to from a position on, passing over what stands in between. -/
def Hides (codec : Codec Message) (content : Bytes) (position : Nat) : Prop :=
  ∃ turns data, (∀ earlier < turns, PassedOver content (position + 6 * earlier)) ∧
    FrameAt content (position + 6 * turns) data ∧ (codec.decode data).isSome

theorem Hides.passOver {content : Bytes} {position : Nat} (passed : PassedOver content position)
    (hides : Hides codec content (position + 6)) : Hides codec content position := by
  obtain ⟨turns, data, passedLater, stands, decodes⟩ := hides
  refine ⟨turns + 1, data, fun earlier before => ?_, ?_, decodes⟩
  · cases earlier with
    | zero => exact passed
    | succ earlier =>
      have same : position + 6 * (earlier + 1) = position + 6 + 6 * earlier := by omega
      rw [same]
      exact passedLater earlier (by omega)
  · have same : position + 6 * (turns + 1) = position + 6 + 6 * turns := by omega
    rw [same]
    exact stands

/-- A loop of `Read` that ends with a message has come to its frame. -/
theorem hides_of_ends {content : Bytes} {position after : Nat} {message : Message}
    (ends : Scan.Ends (readFrame codec content) position (.message message after)) :
    Hides codec content position ∧ position < after ∧ after ≤ content.length := by
  generalize outcome : ReadResult.message message after = result at ends
  induction ends with
  | @stop position _ last =>
    subst outcome
    obtain ⟨data, stands, decoded, rfl⟩ := readFrame_message last
    have within := stands.within
    exact ⟨⟨0, data, by simp, stands, by simp [decoded]⟩, by omega, within⟩
  | @turn position next _ goes _ inductionHypothesis =>
    obtain ⟨later, behind, inside⟩ := inductionHypothesis outcome
    obtain ⟨forward, -⟩ := readFrame_advances codec content position next goes
    rcases readFrame_inr goes with ⟨passed, rfl⟩ | rfl
    · exact ⟨later.passOver passed, by omega, inside⟩
    · -- Nothing is read behind the end of the file.
      omega

theorem protoRead_eq (codec : Codec Message) (content : Bytes) (position : Nat) :
    protoRead codec content position =
      Scan.run (readFrame codec content) .endOfFile (content.length + 1) position :=
  readFrom_eq_run codec content _ position

theorem protoNext_eq_some {content : Bytes} {position after : Nat} {message : Message} :
    protoNext codec content position = some (message, after) ↔
      protoRead codec content position = .message message after := by
  unfold protoNext
  cases protoRead codec content position <;> simp

/-- A message is delivered from a frame to which the reader comes. -/
theorem Hides.delivers {content : Bytes} {position : Nat} (hides : Hides codec content position) :
    ∃ message after, protoRead codec content position = .message message after := by
  obtain ⟨turns, data, passed, stands, decodes⟩ := hides
  induction turns generalizing position with
  | zero =>
    obtain ⟨message, decoded⟩ := Option.isSome_iff_exists.mp decodes
    have turn := readFrame_frameAt codec stands
    rw [decoded] at turn
    exact ⟨message, _, by rw [protoRead_eq]; exact Scan.run_stop turn⟩
  | succ turns inductionHypothesis =>
    have first : PassedOver content position := passed 0 (by omega)
    have goes : Scan.run (readFrame codec content) .endOfFile (content.length + 1) position =
        Scan.run (readFrame codec content) .endOfFile (content.length + 1) (position + 6) :=
      (readFrame_advances codec content).run_turn (readFrame_passedOver first)
    rw [protoRead_eq, goes, ← protoRead_eq]
    refine inductionHypothesis (fun earlier before => ?_) ?_
    · have same : position + 6 + 6 * earlier = position + 6 * (earlier + 1) := by omega
      rw [same]
      exact passed (earlier + 1) (by omega)
    · have same : position + 6 + 6 * turns = position + 6 * (turns + 1) := by omega
      rw [same]
      exact stands

theorem protoNext_eq_none (codec : Codec Message) (content : Bytes) (position : Nat) :
    protoNext codec content position = none ↔ ¬Hides codec content position := by
  constructor
  · intro nothing hides
    obtain ⟨message, after, delivers⟩ := hides.delivers
    rw [protoNext_eq_some.mpr delivers] at nothing
    cases nothing
  · intro free
    by_contra delivers
    obtain ⟨⟨message, after⟩, found⟩ := Option.ne_none_iff_exists'.mp delivers
    have ends := protoRead_ends codec content position
    rw [protoNext_eq_some.mp found] at ends
    exact free (hides_of_ends ends).1

/-- Every message that `Read` delivers ends behind the place from which it was read. -/
theorem protoNext_progresses (codec : Codec Message) (content : Bytes) :
    Scan.Progresses (protoNext codec content) content.length := by
  intro position message after found
  have ends := protoRead_ends codec content position
  rw [protoNext_eq_some.mp found] at ends
  exact (hides_of_ends ends).2

/-! ## The torn end -/

/-- Frames in a file are read as their messages, before whatever is read behind them. -/
theorem collects_frames {content after : Bytes} {position : Nat} {messages rest : List Message}
    (written : content.drop position = frames codec messages ++ after)
    (small : ∀ message ∈ messages, (codec.encode message).length < 2 ^ 32)
    (behind : Scan.Collects (protoNext codec content) (position + (frames codec messages).length) rest) :
    Scan.Collects (protoNext codec content) position (messages ++ rest) := by
  induction messages generalizing position with
  | nil => simpa using behind
  | cons message messages inductionHypothesis =>
    obtain ⟨here, next⟩ := drop_frames_cons written
    refine .item (protoNext_eq_some.mpr (protoRead_frame here (small message List.mem_cons_self)))
      (inductionHypothesis next ?_ ?_)
    · exact fun other member => small other (List.mem_cons_of_mem _ member)
    · rw [Nat.add_assoc, ← List.length_append, ← frames_cons]
      exact behind

/-- The messages whose frames lie within the first bytes of a log. -/
def wholeMessages (codec : Codec Message) : Nat → List Message → List Message
  | _, [] => []
  | kept, message :: messages =>
    if (frame (codec.encode message)).length ≤ kept then
      message :: wholeMessages codec (kept - (frame (codec.encode message)).length) messages
    else []

theorem mem_wholeMessages {kept : Nat} {message : Message} {messages : List Message}
    (member : message ∈ wholeMessages codec kept messages) : message ∈ messages := by
  induction messages generalizing kept with
  | nil => cases member
  | cons first messages inductionHypothesis =>
    rw [wholeMessages] at member
    split at member
    · cases List.mem_cons.mp member with
      | inl same => exact same ▸ List.mem_cons_self
      | inr later => exact List.mem_cons_of_mem _ (inductionHypothesis later)
    · cases member

/-- A cut log is its whole frames and a rest. -/
theorem exists_take_frames (codec : Codec Message) (kept : Nat) (messages : List Message) :
    ∃ rest, (frames codec messages).take kept = frames codec (wholeMessages codec kept messages) ++ rest := by
  induction messages generalizing kept with
  | nil => exact ⟨[], by simp [wholeMessages]⟩
  | cons message messages inductionHypothesis =>
    rw [wholeMessages]
    split
    · rename_i whole
      obtain ⟨rest, cut⟩ := inductionHypothesis (kept - (frame (codec.encode message)).length)
      refine ⟨rest, ?_⟩
      rw [frames_cons, frames_cons, List.take_append, List.take_of_length_le whole, cut, List.append_assoc]
    · exact ⟨_, rfl⟩

/-- What the reader of a cut log delivers, in terms of the frames to which it comes in the rest. -/
theorem collects_cut {kept : Nat} {messages : List Message}
    (small : ∀ message ∈ messages, (codec.encode message).length < 2 ^ 32) :
    Scan.Collects (protoNext codec ((frames codec messages).take kept)) 0
        (wholeMessages codec kept messages) ↔
      ¬Hides codec ((frames codec messages).take kept)
        (frames codec (wholeMessages codec kept messages)).length := by
  obtain ⟨rest, cut⟩ := exists_take_frames codec kept messages
  have reads : ∀ delivered, Scan.Collects (protoNext codec ((frames codec messages).take kept))
      (frames codec (wholeMessages codec kept messages)).length delivered →
        Scan.Collects (protoNext codec ((frames codec messages).take kept)) 0
          (wholeMessages codec kept messages ++ delivered) := by
    intro delivered behind
    exact collects_frames cut (fun message member => small message (mem_wholeMessages member))
      (by simpa using behind)
  rw [← protoNext_eq_none]
  constructor
  · intro delivered
    have behind := (protoNext_progresses codec ((frames codec messages).take kept)).collects
      (frames codec (wholeMessages codec kept messages)).length
    have same := (reads _ behind).unique delivered
    rw [List.append_right_eq_self.mp same] at behind
    cases behind with
    | stop last => exact last
  · intro nothing
    simpa using reads [] (.stop nothing)

theorem valueStreamReader_eq {Double : Type} (rt : Runtime Double) (content : Bytes) :
    valueStreamReader rt content = Scan.collect (protoNext rt.stream content) (content.length + 1) 0 :=
  readMessages_eq_collect rt.stream content _ 0

/-- Reading a log whose end is missing: the loops come to an end, and exactly the streams that are all
there are delivered if and only if the reader comes to no frame within the torn one. -/
theorem valueStreamReader_cut {Double : Type} (rt : Runtime Double) {filename : GoString}
    {disk after : Disk} {writer : ProtoFileWriter} {streams : List (Stream Double)}
    (fresh : disk.content filename = [])
    (written : ProtoFileWriter.writeAll rt.stream { filename, position := 0 } disk streams =
      (writer, after, true)) (kept : Nat) :
    (∀ position, Scan.Ends (readFrame rt.stream ((after.content filename).take kept)) position
        (protoRead rt.stream ((after.content filename).take kept) position)) ∧
      Scan.Collects (protoNext rt.stream ((after.content filename).take kept)) 0
        (valueStreamReader rt ((after.content filename).take kept)) ∧
      (valueStreamReader rt ((after.content filename).take kept) = wholeMessages rt.stream kept streams ↔
        ¬Hides rt.stream ((after.content filename).take kept)
          (frames rt.stream (wholeMessages rt.stream kept streams)).length) := by
  have atEnd : ProtoFileWriter.AtEnd { filename, position := 0 } disk := by
    simp [ProtoFileWriter.AtEnd, fresh]
  obtain ⟨content, fits⟩ := atEnd.writeAll written
  simp only [fresh, List.nil_append] at content
  have delivers := (protoNext_progresses rt.stream ((after.content filename).take kept)).collects 0
  refine ⟨protoRead_ends rt.stream _, ?_, ?_⟩
  · rw [valueStreamReader_eq]
    exact delivers
  · rw [valueStreamReader_eq, content, ← collects_cut fun message member => by have := fits message member; omega]
    rw [content] at delivers
    exact ⟨fun same => same ▸ delivers, fun collects => delivers.unique collects⟩

def logOf (streams : List (Stream UInt64)) : ProtoFileWriter × Disk × Bool :=
  ProtoFileWriter.writeAll protoRuntime.stream { filename := ascii "log", position := 0 } Disk.empty streams

def logContent (streams : List (Stream UInt64)) : Bytes := (logOf streams).2.1.content (ascii "log")

theorem valueStreamReader_cut_gauges :
    valueStreamReader protoRuntime ((logContent [gauge "a" [1], gauge "b" [2, 3]]).take 40) =
      [gauge "a" [1]] := by
  have fresh : Disk.empty.content (ascii "log") = [] := rfl
  have complete : (logOf [gauge "a" [1], gauge "b" [2, 3]]).2.2 = true := by decide
  obtain ⟨-, -, exactly⟩ := valueStreamReader_cut protoRuntime fresh
    (Prod.ext rfl (Prod.ext rfl complete) : logOf _ = (_, _, true)) 40
  have whole : wholeMessages protoRuntime.stream 40 [gauge "a" [1], gauge "b" [2, 3]] = [gauge "a" [1]] := by
    decide
  rw [← whole]
  exact exactly.mpr ((protoNext_eq_none _ _ _).mp (by decide))

/-- A stream with a string that starts with a frame. -/
def framedString : Stream UInt64 :=
  { streamVariable := none
    value :=
      [{ timestamp := 1
         doubleValue := none
         stringValue := some (frame (protoRuntime.stream.encode (gauge "a" [1])) ++ List.replicate 40 0)
         endTimestamp := none }] }

/-- The frame in the string is delivered when the log ends behind it. -/
theorem valueStreamReader_cut_invents :
    (logOf [framedString]).2.2 = true ∧
      wholeMessages protoRuntime.stream 44 [framedString] = [] ∧
      valueStreamReader protoRuntime ((logContent [framedString]).take 44) = [gauge "a" [1]] := by
  decide

end OpenInstrument
