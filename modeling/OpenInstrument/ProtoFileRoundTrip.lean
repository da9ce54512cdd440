import OpenInstrument.ProtoFile

/-! # Reading back what was written

A frame is read back where it was written, whatever follows it, so a file of frames reads back as the
list of its messages.  On the writing side, a writer whose calls succeed has put exactly one frame at
its position and has moved behind it.
-/

namespace OpenInstrument

variable {Message : Type} {codec : Codec Message}

def frames (codec : Codec Message) (messages : List Message) : Bytes :=
  messages.flatMap fun message => frame (codec.encode message)

@[simp] theorem frame_length (data : Bytes) : (frame data).length = data.length + 8 := by
  simp [frame]
  omega

@[simp] theorem frames_nil : frames codec [] = [] := rfl

@[simp] theorem frames_cons (message : Message) (messages : List Message) :
    frames codec (message :: messages) = frame (codec.encode message) ++ frames codec messages :=
  rfl

@[simp] theorem frames_append (first second : List Message) :
    frames codec (first ++ second) = frames codec first ++ frames codec second := by
  simp [frames]

theorem frames_length_ge (codec : Codec Message) (messages : List Message) :
    messages.length ≤ (frames codec messages).length := by
  induction messages with
  | nil => simp
  | cons message messages inductionHypothesis => simp; omega

/-! ## Reading -/

section Layout

variable {content data check after : Bytes} {position : Nat}

/-- The header of a frame, in front of whatever follows it. -/
theorem readFrame_header
    (written : content.drop position =
      LittleEndian.encode 2 protoMagic ++ (LittleEndian.encode 4 data.length ++ after))
    (small : data.length < 2 ^ 32) :
    LittleEndian.decode ((content.drop position).take 2) = protoMagic ∧
      LittleEndian.decode (((content.drop position).drop 2).take 4) = data.length ∧
      (content.drop position).drop 6 = after := by
  have width : (LittleEndian.encode 2 protoMagic ++ LittleEndian.encode 4 data.length).length = 6 := by
    simp
  refine ⟨?_, ?_, ?_⟩
  · rw [written, List.take_left' (LittleEndian.encode_length 2 protoMagic)]
    exact LittleEndian.decode_encode_of_lt (by decide)
  · rw [written, List.drop_left' (LittleEndian.encode_length 2 protoMagic),
      List.take_left' (LittleEndian.encode_length 4 _)]
    exact LittleEndian.decode_encode_of_lt small
  · rw [written, ← List.append_assoc, List.drop_left' width]

/-- A whole frame is read whatever its checksum is. -/
theorem readFrame_layout (codec : Codec Message)
    (written : content.drop position =
      LittleEndian.encode 2 protoMagic ++ (LittleEndian.encode 4 data.length ++ (data ++ (check ++ after))))
    (width : check.length = 2) (small : data.length < 2 ^ 32) :
    readFrame codec content position =
      (codec.decode data).elim (.inl .failed)
        fun message => .inl (.message message (position + 6 + data.length + 2)) := by
  have sizes := congrArg List.length written
  simp only [List.length_drop, List.length_append, LittleEndian.encode_length, width] at sizes
  obtain ⟨magic, length, rest⟩ := readFrame_header written small
  have payload : ((content.drop position).drop 6).take data.length = data := by
    rw [rest, List.take_left]
  have nonempty : content.drop position ≠ [] := by
    rw [← List.length_pos_iff, List.length_drop]
    omega
  simp only [readFrame, nonempty, if_false, List.length_drop, magic, length, payload]
  rw [if_neg (by omega), if_neg (by simp), if_neg (by omega), if_neg (by simp), if_neg (by omega)]
  cases codec.decode data <;> rfl

end Layout

theorem readFrame_frame {content after : Bytes} {position : Nat} {message : Message}
    (written : content.drop position = frame (codec.encode message) ++ after)
    (small : (codec.encode message).length < 2 ^ 32) :
    readFrame codec content position =
      .inl (.message message (position + (frame (codec.encode message)).length)) := by
  have layout : content.drop position =
      LittleEndian.encode 2 protoMagic ++ (LittleEndian.encode 4 (codec.encode message).length ++
        (codec.encode message ++ (LittleEndian.encode 2 0 ++ after))) := by
    rw [written]
    simp [frame]
  rw [readFrame_layout codec layout (LittleEndian.encode_length 2 0) small, codec.decode_encode, frame_length]
  simp only [Option.elim_some, Sum.inl.injEq, ReadResult.message.injEq, true_and]
  omega

theorem protoRead_frame {content after : Bytes} {position : Nat} {message : Message}
    (written : content.drop position = frame (codec.encode message) ++ after)
    (small : (codec.encode message).length < 2 ^ 32) :
    protoRead codec content position =
      .message message (position + (frame (codec.encode message)).length) := by
  rw [protoRead, readFrom, readFrame_frame written small]

theorem protoRead_end {content : Bytes} : protoRead codec content content.length = .endOfFile := by
  simp [protoRead, readFrom, readFrame]

/-- The frame of the first message stands at the position, and those of the others behind it. -/
theorem drop_frames_cons {content after : Bytes} {position : Nat} {message : Message} {messages : List Message}
    (written : content.drop position = frames codec (message :: messages) ++ after) :
    content.drop position = frame (codec.encode message) ++ (frames codec messages ++ after) ∧
      content.drop (position + (frame (codec.encode message)).length) = frames codec messages ++ after := by
  rw [frames_cons, List.append_assoc] at written
  exact ⟨written, by rw [← List.drop_drop, written, List.drop_left]⟩

/-- Reading up to the end of the frames yields their messages. -/
theorem readMessages_frames {content after : Bytes} {limit : Option Nat} {messages : List Message}
    {fuel position : Nat} (written : content.drop position = frames codec messages ++ after)
    (small : ∀ message ∈ messages, (codec.encode message).length < 2 ^ 32)
    (stops : limit = some (position + (frames codec messages).length) ∨ limit = none ∧ after = [])
    (inside : position ≤ content.length)
    (enough : messages.length < fuel) :
    readMessages codec content limit fuel position = messages := by
  induction messages generalizing fuel position with
  | nil =>
    obtain ⟨fuel, rfl⟩ := Nat.exists_eq_add_of_lt enough
    rcases stops with rfl | ⟨rfl, rfl⟩
    · simp [readMessages]
    · have stop : position = content.length := by
        have sizes := congrArg List.length written
        simp at sizes
        omega
      subst stop
      simp [readMessages, protoRead_end]
  | cons message messages inductionHypothesis =>
    obtain ⟨fuel, rfl⟩ : ∃ previous, fuel = previous + 1 := ⟨fuel - 1, by simp at enough; omega⟩
    obtain ⟨here, next⟩ := drop_frames_cons written
    have within : position + (frame (codec.encode message)).length ≤ content.length := by
      have sizes := congrArg List.length here
      simp only [List.length_drop, List.length_append, frame_length] at sizes ⊢
      omega
    have goes : limit.all (fun maxPosition => decide (position < maxPosition)) = true := by
      rcases stops with rfl | ⟨rfl, -⟩
      · simp
      · rfl
    rw [readMessages, goes, if_pos rfl, protoRead_frame here (small message List.mem_cons_self)]
    simp only [List.cons.injEq, true_and]
    refine inductionHypothesis next (fun other member => small other (List.mem_cons_of_mem _ member))
      ?_ within (by simpa using enough)
    rcases stops with rfl | ⟨rfl, rfl⟩
    · exact .inl (by simp [Nat.add_assoc])
    · exact .inr ⟨rfl, rfl⟩

/-! ## The directory -/

/-- The directory as a function of the file name. -/
def Disk.view (disk : Disk) (name : GoString) : Option Bytes := disk.files.lookup name

theorem Disk.content_eq (disk : Disk) (name : GoString) : disk.content name = (disk.view name).getD [] :=
  rfl

theorem Disk.view_store (disk : Disk) (name : GoString) (content : Bytes) :
    (disk.store name content).view = Function.update disk.view name (some content) := by
  funext other
  by_cases same : other = name
  · subst same
    simp [Disk.view, Disk.store]
  · simp [Disk.view, Disk.store, same]

theorem Disk.Reliable.store {disk : Disk} (reliable : disk.Reliable) (name : GoString) (content : Bytes) :
    (disk.store name content).Reliable :=
  reliable

theorem Disk.Reliable.view_remove {disk : Disk} (reliable : disk.Reliable) (name : GoString) :
    (disk.remove name).view = Function.update disk.view name none := by
  funext other
  simp only [Disk.remove, reliable (.remove name)]
  by_cases same : other = name
  · subst same
    simp [Disk.view]
  · simp [Disk.view, same]

@[simp] theorem Disk.remove_incomplete (disk : Disk) (name : GoString) :
    (disk.remove name).incomplete = disk.incomplete := by
  unfold Disk.remove
  split <;> rfl

theorem Disk.Reliable.remove {disk : Disk} (reliable : disk.Reliable) (name : GoString) :
    (disk.remove name).Reliable := by
  unfold Disk.remove
  split <;> exact reliable

theorem Disk.Reliable.rename {disk : Disk} (reliable : disk.Reliable) (source target : GoString) :
    ∃ after, disk.rename source target = some after ∧ after.Reliable ∧
      after.incomplete = disk.incomplete ∧
      after.view = Function.update (Function.update disk.view source none) target
        (some (disk.content source)) := by
  refine ⟨{ disk with files := (disk.files.erase source).insert target (disk.content source) },
    by simp only [Disk.rename, reliable (.rename source target)], reliable, rfl, ?_⟩
  funext other
  by_cases atTarget : other = target
  · subst atTarget
    simp [Disk.view]
  · by_cases atSource : other = source
    · subst atSource
      simp [Disk.view, atTarget]
    · simp [Disk.view, atTarget, atSource]

theorem Disk.Reliable.readProtoFile {disk : Disk} (reliable : disk.Reliable) (name : GoString) :
    disk.readProtoFile name =
      match disk.view name with
      | none => .missing
      | some content => .opened content := by
  rw [Disk.readProtoFile, reliable (.openRead name)]
  cases found : disk.files.lookup name <;> simp [Disk.view, found]

/-! ## Writing -/

theorem Disk.Reliable.writeProtoFile {disk : Disk} (reliable : disk.Reliable) (filename : GoString) :
    writeProtoFile disk filename =
      (disk.store filename (disk.content filename),
        some { filename, position := (disk.content filename).length }) := by
  simp [OpenInstrument.writeProtoFile, reliable (.openWrite filename)]

/-- What `ProtoFileWriter.Write` does on a disk whose calls do not fail: either the disk records an
error, or a whole frame went to the writer's position. -/
theorem ProtoFileWriter.write_eq {disk after : Disk} {writer moved : ProtoFileWriter} {message : Message}
    {complete : Bool} (reliable : disk.Reliable)
    (written : writer.write codec disk message = (moved, after, complete)) :
    after.Reliable ∧ (after.incomplete = false →
      disk.incomplete = false ∧ complete = true ∧ (codec.encode message).length < 2 ^ 31 ∧
        moved = { writer with position := writer.position + (frame (codec.encode message)).length } ∧
        moved.position ≤ maxFileSize ∧
        after.view = Function.update disk.view writer.filename (some
          (overwrite (disk.content writer.filename) writer.position (frame (codec.encode message))))) := by
  unfold ProtoFileWriter.write at written
  cases marshalled : codec.marshal message with
  | none =>
    rw [marshalled] at written
    obtain ⟨-, rfl, -⟩ := written
    exact ⟨reliable, fun success => by cases success⟩
  | some data =>
    obtain ⟨rfl, small⟩ := Codec.marshal_eq_some marshalled
    rw [marshalled] at written
    simp only [ProtoFileWriter.put, reliable (.write _ _), Option.isNone_none, Bool.true_and] at written
    obtain ⟨rfl, rfl, rfl⟩ := written
    refine ⟨reliable, fun success => ?_⟩
    simp only [Bool.or_eq_false_iff, Bool.not_eq_false', decide_eq_true_eq] at success
    obtain ⟨earlier, fits⟩ := success
    have whole : (frame (codec.encode message)).take (maxFileSize - writer.position) =
        frame (codec.encode message) := List.take_of_length_le (by omega)
    rw [whole]
    exact ⟨earlier, decide_eq_true fits, small, rfl, fits, Disk.view_store _ _ _⟩

/-- On a disk whose calls do not fail, a message that can be marshalled and fits into the file is written whole. -/
theorem ProtoFileWriter.write_complete {disk after : Disk} {writer moved : ProtoFileWriter} {message : Message}
    {complete : Bool} (reliable : disk.Reliable)
    (written : writer.write codec disk message = (moved, after, complete))
    (small : (codec.encode message).length < 2 ^ 31)
    (fits : writer.position + (frame (codec.encode message)).length ≤ maxFileSize) :
    after.incomplete = disk.incomplete ∧
      moved.position = writer.position + (frame (codec.encode message)).length := by
  have marshalled : codec.marshal message = some (codec.encode message) := by
    rw [Codec.marshal, if_pos]
    rw [maxMarshalSize]
    omega
  have whole : (frame (codec.encode message)).take (maxFileSize - writer.position) =
      frame (codec.encode message) := List.take_of_length_le (by omega)
  rw [ProtoFileWriter.write, marshalled] at written
  simp only [ProtoFileWriter.put, reliable (.write _ _), whole, fits, decide_true, Option.isNone_none,
    Bool.true_and, Bool.not_true, Bool.or_false] at written
  obtain ⟨rfl, rfl, -⟩ := written
  exact ⟨rfl, rfl⟩

/-- A write that succeeds records no error. -/
theorem ProtoFileWriter.write_incomplete {disk after : Disk} {writer moved : ProtoFileWriter}
    {message : Message} (written : writer.write codec disk message = (moved, after, true)) :
    after.incomplete = disk.incomplete := by
  unfold ProtoFileWriter.write at written
  split at written
  · cases written
  · simp only [ProtoFileWriter.put, Prod.mk.injEq] at written
    obtain ⟨-, rfl, complete⟩ := written
    simp only [complete, Bool.not_true, Bool.or_false]

@[simp] theorem overwrite_end (content data : Bytes) :
    overwrite content content.length data = content ++ data := by
  simp [overwrite]

theorem overwrite_start {data old rest : Bytes} (width : data.length = old.length) :
    overwrite (old ++ rest) 0 data = data ++ rest := by
  simp [overwrite, width]

end OpenInstrument
