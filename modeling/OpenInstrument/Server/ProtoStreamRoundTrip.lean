import OpenInstrument.Server.ProtoStream
import OpenInstrument.ProtoFileRoundTrip
import OpenInstrument.ProtoWire
import Mathlib.Data.List.TakeWhile

/-! # Reading back the records of the C++ server

A record of at most four megabytes is read back where it was written, whatever follows it; at a larger
one the reader gives up.  So a file of records reads back as its messages up to the first large one.
-/

namespace OpenInstrument.Server

variable {Message : Type} {crc : Bytes → UInt16} {codec : Codec Message}

/-! ## Reading fields -/

theorem read_length (content : Bytes) (position length : Nat) :
    (read content position length).length = min length (content.length - position) := by
  rw [read, List.length_take, List.length_drop]

theorem readMagic_eq_none {content : Bytes} {position : Nat} :
    readMagic content position = none ↔ content.length < position + 2 := by
  simp only [readMagic, read_length, ite_eq_right_iff, reduceCtorEq, imp_false]
  omega

theorem readSize_eq_none {content : Bytes} {position : Nat} :
    readSize content position = none ↔ content.length < position + 4 := by
  simp only [readSize, read_length, ite_eq_right_iff, reduceCtorEq, imp_false]
  omega

theorem readCrc_eq_none {content : Bytes} {position : Nat} :
    readCrc content position = none ↔ content.length < position + 2 :=
  readMagic_eq_none

theorem readMagic_bound {content : Bytes} {position magic : Nat}
    (found : readMagic content position = some magic) : position + 2 ≤ content.length := by
  by_contra short
  rw [readMagic_eq_none.mpr (by omega)] at found
  cases found

theorem readSize_bound {content : Bytes} {position : Nat} {size : Int}
    (found : readSize content position = some size) : position + 4 ≤ content.length := by
  by_contra short
  rw [readSize_eq_none.mpr (by omega)] at found
  cases found

theorem readCrc_bound {content : Bytes} {position stored : Nat}
    (found : readCrc content position = some stored) : position + 2 ≤ content.length :=
  readMagic_bound found

/-! ## Moving forward -/

theorem findNextHeaderTurn_inr {content : Bytes} {startpos after : Nat}
    (turn : findNextHeaderTurn content startpos = .inr after) :
    after = startpos + 1 ∧ startpos + 2 ≤ content.length := by
  unfold findNextHeaderTurn at turn
  split at turn
  · cases turn
  · rename_i magic found
    refine ⟨?_, readMagic_bound found⟩
    split at turn
    · exact (Sum.inr.inj turn).symm
    · split at turn
      · cases turn
      · split at turn
        · exact (Sum.inr.inj turn).symm
        · cases turn

theorem findNextHeaderTurn_inl {content : Bytes} {startpos header : Nat}
    (turn : findNextHeaderTurn content startpos = .inl (some header)) :
    header = startpos ∧ readMagic content startpos = some protomagic ∧
      ∃ size, readSize content (startpos + 2) = some size ∧ size < content.length - 2 := by
  unfold findNextHeaderTurn at turn
  split at turn
  · cases turn
  · rename_i magic found
    split at turn
    · cases turn
    · rename_i isMagic
      split at turn
      · cases turn
      · rename_i size sized
        split at turn
        · cases turn
        · rename_i fits
          exact ⟨(Option.some.inj (Sum.inl.inj turn)).symm, by rw [found, not_not.mp isMagic], size, sized,
            not_le.mp fits⟩

theorem findNextHeader_advances (content : Bytes) :
    Scan.Advances (findNextHeaderTurn content) content.length := by
  intro position after turn
  obtain ⟨rfl, within⟩ := findNextHeaderTurn_inr turn
  omega

theorem findNextHeader_ends (content : Bytes) (position : Nat) :
    Scan.Ends (findNextHeaderTurn content) position (findNextHeader content position) :=
  (findNextHeader_advances content).ends position

/-- A header that is found stands at or behind the place from which it was looked for. -/
theorem findNextHeader_some {content : Bytes} {position header : Nat}
    (found : findNextHeader content position = some header) :
    position ≤ header ∧ header + 6 ≤ content.length ∧
      readMagic content header = some protomagic ∧
      ∃ size, readSize content (header + 2) = some size ∧ size < content.length - 2 := by
  have ends := findNextHeader_ends content position
  rw [found] at ends
  generalize result : some header = outcome at ends
  induction ends with
  | stop last =>
    subst result
    obtain ⟨rfl, magic, size, sized, fits⟩ := findNextHeaderTurn_inl last
    exact ⟨le_rfl, readSize_bound sized, magic, size, sized, fits⟩
  | turn goes _ inductionHypothesis =>
    obtain ⟨rfl, -⟩ := findNextHeaderTurn_inr goes
    obtain ⟨behind, facts⟩ :=
      inductionHypothesis (result ▸ (findNextHeader_advances content).run_eq (by assumption)) result
    exact ⟨by omega, facts⟩

theorem resynchronise_inr {content : Bytes} {position after : Nat}
    (turn : (resynchronise content position : Option (Message × Nat) ⊕ Nat) = .inr after) :
    position ≤ after ∧ after < content.length := by
  unfold resynchronise at turn
  split at turn
  · cases turn
  · rename_i header found
    obtain rfl := Sum.inr.inj turn
    obtain ⟨behind, within, -⟩ := findNextHeader_some found
    omega

/-! ## Records -/

/-- A complete record that the reader takes for sound stands at a position. -/
structure RecordAt (crc : Bytes → UInt16) (content : Bytes) (position : Nat) (data : Bytes) : Prop where
  magic : readMagic content position = some protomagic
  size : readSize content (position + 2) = some (data.length : Int)
  small : data.length ≤ maxMessageSize
  payload : read content (position + 6) data.length = data
  checksum : readCrc content (position + 6 + data.length) = some (crc data).toNat

theorem RecordAt.within {content data : Bytes} {position : Nat}
    (stands : RecordAt crc content position data) :
    position + 6 + data.length + 2 ≤ content.length :=
  readCrc_bound stands.checksum

theorem nextTurn_otherMagic {content : Bytes} {startpos magic : Nat}
    (found : readMagic content startpos = some magic) (other : magic ≠ protomagic) :
    nextTurn crc codec content startpos = resynchronise content (startpos + 1) := by
  simp only [nextTurn, found, other, ne_eq, not_false_eq_true, if_true]

section Header

variable {content : Bytes} {startpos : Nat}

theorem nextTurn_large {size : Int} (magic : readMagic content startpos = some protomagic)
    (sized : readSize content (startpos + 2) = some size) (large : size ≥ content.length) :
    nextTurn crc codec content startpos = resynchronise content (startpos + 1) := by
  simp only [nextTurn, magic, sized, large, ne_eq, not_true_eq_false, if_false, if_true]

theorem nextTurn_refused {size : Int} (magic : readMagic content startpos = some protomagic)
    (sized : readSize content (startpos + 2) = some size) (fits : size < content.length)
    (refused : size < 0 ∨ size > maxMessageSize) :
    nextTurn crc codec content startpos = .inl none := by
  simp only [nextTurn, magic, sized, not_le.mpr fits, refused, ne_eq, not_true_eq_false, if_false, if_true]

theorem nextTurn_sized {size : Nat} (magic : readMagic content startpos = some protomagic)
    (sized : readSize content (startpos + 2) = some (size : Int)) (fits : size < content.length)
    (small : size ≤ maxMessageSize) :
    nextTurn crc codec content startpos = nextPayload crc codec content startpos size := by
  have accepted : ¬((size : Int) < 0 ∨ (size : Int) > maxMessageSize) := by omega
  have below : ¬(size : Int) ≥ content.length := by omega
  simp only [nextTurn, magic, sized, accepted, below, ne_eq, not_true_eq_false, if_false, Int.toNat_natCast]

/-- A payload or a checksum that the file cuts off ends the reading. -/
theorem nextTurn_short {size : Nat} (magic : readMagic content startpos = some protomagic)
    (sized : readSize content (startpos + 2) = some (size : Int)) (fits : size < content.length)
    (small : size ≤ maxMessageSize) (short : content.length < startpos + 6 + size + 2) :
    nextTurn crc codec content startpos = .inl none := by
  simp only [nextTurn_sized magic sized fits small, nextPayload, readCrc_eq_none.mpr short, ite_self]

theorem nextTurn_mismatch {size stored : Nat} (magic : readMagic content startpos = some protomagic)
    (sized : readSize content (startpos + 2) = some (size : Int)) (small : size ≤ maxMessageSize)
    (found : readCrc content (startpos + 6 + size) = some stored)
    (differs : stored ≠ (crc (read content (startpos + 6) size)).toNat) :
    nextTurn crc codec content startpos = resynchronise content (startpos + 1) := by
  have within := readCrc_bound found
  have whole : (read content (startpos + 6) size).length = size := by
    rw [read_length]
    omega
  simp only [nextTurn_sized magic sized (by omega) small, nextPayload, found, whole, ne_eq, not_true_eq_false,
    if_false, differs, not_false_eq_true, if_true]

theorem nextTurn_record (codec : Codec Message) {data : Bytes} (stands : RecordAt crc content startpos data) :
    nextTurn crc codec content startpos =
      (codec.decode data).elim (resynchronise content (startpos + 6 + data.length + 2))
        fun message => .inl (some (message, startpos + 6 + data.length + 2)) := by
  have within := stands.within
  simp only [nextTurn_sized stands.magic stands.size (by omega) stands.small, nextPayload, stands.payload,
    stands.checksum, ne_eq, not_true_eq_false, if_false]
  cases codec.decode data <;> rfl

/-- What one turn of `Next` can do. -/
theorem nextTurn_cases (crc : Bytes → UInt16) (codec : Codec Message) (content : Bytes) (startpos : Nat) :
    nextTurn crc codec content startpos = .inl none ∨
      startpos + 2 ≤ content.length ∧
        nextTurn crc codec content startpos = resynchronise content (startpos + 1) ∨
      ∃ data, RecordAt crc content startpos data := by
  cases magic : readMagic content startpos with
  | none => exact .inl (by simp only [nextTurn, magic])
  | some found =>
    have behind := readMagic_bound magic
    by_cases other : found = protomagic
    · subst other
      cases sized : readSize content (startpos + 2) with
      | none =>
        exact .inl (by simp only [nextTurn, magic, sized, ne_eq, not_true_eq_false, if_false])
      | some size =>
        by_cases large : size ≥ content.length
        · exact .inr (.inl ⟨behind, nextTurn_large magic sized large⟩)
        · have fits := not_le.mp large
          by_cases refused : size < 0 ∨ size > maxMessageSize
          · exact .inl (nextTurn_refused magic sized fits refused)
          · obtain ⟨size, rfl⟩ := Int.eq_ofNat_of_zero_le (a := size) (by omega)
            have small : size ≤ maxMessageSize := by omega
            cases found : readCrc content (startpos + 6 + size) with
            | none =>
              exact .inl (nextTurn_short magic sized (by omega) small (readCrc_eq_none.mp found))
            | some stored =>
              -- All the fields are there: a record stands here exactly if the checksum agrees.
              by_cases matching : stored = (crc (read content (startpos + 6) size)).toNat
              · have within := readCrc_bound found
                have whole : (read content (startpos + 6) size).length = size := by
                  rw [read_length]
                  omega
                exact .inr (.inr ⟨read content (startpos + 6) size, magic, by rw [whole, sized],
                  by rw [whole]; exact small, by rw [whole], by rw [whole, found, matching]⟩)
              · exact .inr (.inl ⟨behind, nextTurn_mismatch magic sized small found matching⟩)
    · exact .inr (.inl ⟨behind, nextTurn_otherMagic magic other⟩)

end Header

theorem next_advances (crc : Bytes → UInt16) (codec : Codec Message) (content : Bytes) :
    Scan.Advances (nextTurn crc codec content) content.length := by
  intro position after turn
  rcases nextTurn_cases crc codec content position with
    stops | ⟨-, resumes⟩ | ⟨data, stands⟩
  · rw [stops] at turn
    cases turn
  · obtain ⟨behind, within⟩ := resynchronise_inr (resumes ▸ turn)
    omega
  · rw [nextTurn_record codec stands] at turn
    cases decoded : codec.decode data with
    | none =>
      rw [decoded] at turn
      obtain ⟨behind, within⟩ := resynchronise_inr turn
      omega
    | some message =>
      rw [decoded] at turn
      cases turn

theorem next_ends (crc : Bytes → UInt16) (codec : Codec Message) (content : Bytes) (position : Nat) :
    Scan.Ends (nextTurn crc codec content) position (next crc codec content position) :=
  (next_advances crc codec content).ends position

/-- A message that `Next` delivers comes from a record at or behind its position. -/
theorem next_some {content : Bytes} {position after : Nat} {message : Message}
    (found : next crc codec content position = some (message, after)) :
    ∃ start data, position ≤ start ∧ RecordAt crc content start data ∧
      codec.decode data = some message ∧ after = start + 6 + data.length + 2 := by
  have ends := next_ends crc codec content position
  rw [found] at ends
  clear found
  generalize result : some (message, after) = outcome at ends
  induction ends with
  | @stop start _ last =>
    subst result
    rcases nextTurn_cases crc codec content start with
      stops | ⟨-, resumes⟩ | ⟨data, stands⟩
    · rw [stops] at last
      cases last
    · rw [resumes, resynchronise] at last
      split at last <;> cases last
    · rw [nextTurn_record codec stands] at last
      cases decoded : codec.decode data with
      | none =>
        rw [decoded, Option.elim_none, resynchronise] at last
        split at last <;> cases last
      | some found =>
        rw [decoded] at last
        cases last
        exact ⟨start, data, le_rfl, stands, decoded, rfl⟩
  | turn goes _ inductionHypothesis =>
    obtain ⟨start, data, behind, facts⟩ := inductionHypothesis result
    have forward := next_advances crc codec content _ _ goes
    exact ⟨start, data, by omega, facts⟩

theorem next_progresses (crc : Bytes → UInt16) (codec : Codec Message) (content : Bytes) :
    Scan.Progresses (next crc codec content) content.length := by
  intro position message after found
  obtain ⟨start, data, behind, stands, -, rfl⟩ := next_some found
  have within := stands.within
  omega

theorem protoStreamRead_collects (content : Bytes) :
    Scan.Collects (next crc codec content) 0 (protoStreamRead crc codec content) :=
  (next_progresses crc codec content).collects 0

/-! ## Bytes of records -/

def record (crc : Bytes → UInt16) (data : Bytes) : Bytes :=
  LittleEndian.encode 2 protomagic ++ (LittleEndian.encode 4 data.length ++
    (data ++ LittleEndian.encode 2 (crc data).toNat))

def records (crc : Bytes → UInt16) (codec : Codec Message) (messages : List Message) : Bytes :=
  messages.flatMap fun message => record crc (codec.encode message)

@[simp] theorem record_length (crc : Bytes → UInt16) (data : Bytes) :
    (record crc data).length = data.length + 8 := by
  simp [record]
  omega

@[simp] theorem records_nil : records crc codec [] = [] := rfl

@[simp] theorem records_cons (message : Message) (messages : List Message) :
    records crc codec (message :: messages) =
      record crc (codec.encode message) ++ records crc codec messages :=
  rfl

@[simp] theorem records_append (first second : List Message) :
    records crc codec (first ++ second) = records crc codec first ++ records crc codec second := by
  simp [records]

theorem signed_of_lt {number : Nat} (small : number < 2 ^ 31) : signed number = number :=
  if_pos small

section Layout

variable {content data after : Bytes} {position : Nat}

theorem readMagic_record (written : content.drop position = record crc data ++ after) :
    readMagic content position = some protomagic := by
  have magic : read content position 2 = LittleEndian.encode 2 protomagic := by
    rw [read, written, record, List.append_assoc]
    exact List.take_left' (LittleEndian.encode_length 2 protomagic)
  rw [readMagic, magic, if_pos (LittleEndian.encode_length 2 protomagic)]
  exact congrArg some (LittleEndian.decode_encode_of_lt (by decide))

theorem readSize_record (written : content.drop position = record crc data ++ after)
    (small : data.length < 2 ^ 31) : readSize content (position + 2) = some (data.length : Int) := by
  have size : read content (position + 2) 4 = LittleEndian.encode 4 data.length := by
    rw [read, ← List.drop_drop, written, record, List.append_assoc,
      List.drop_left' (LittleEndian.encode_length 2 protomagic), List.append_assoc]
    exact List.take_left' (LittleEndian.encode_length 4 data.length)
  rw [readSize, size, if_pos (LittleEndian.encode_length 4 data.length),
    LittleEndian.decode_encode_of_lt (by omega), signed_of_lt small]

theorem recordAt_of_drop (written : content.drop position = record crc data ++ after)
    (small : data.length ≤ maxMessageSize) : RecordAt crc content position data := by
  have header : (LittleEndian.encode 2 protomagic ++ LittleEndian.encode 4 data.length).length = 6 := by
    simp
  have layout : content.drop (position + 6) =
      data ++ (LittleEndian.encode 2 (crc data).toNat ++ after) := by
    rw [← List.drop_drop, written, record, ← List.append_assoc (LittleEndian.encode 2 protomagic),
      List.append_assoc, List.drop_left' header, List.append_assoc]
  have checksum : read content (position + 6 + data.length) 2 = LittleEndian.encode 2 (crc data).toNat := by
    rw [read, ← List.drop_drop, layout, List.drop_left]
    exact List.take_left' (LittleEndian.encode_length 2 _)
  exact
    { magic := readMagic_record written
      size := readSize_record written (by simp only [maxMessageSize] at small; omega)
      small
      payload := by rw [read, layout, List.take_left]
      checksum := by
        rw [readCrc, checksum, if_pos (LittleEndian.encode_length 2 _),
          LittleEndian.decode_encode_of_lt (crc data).toNat_lt] }

end Layout

/-! ## The round trip -/

theorem next_record {content after : Bytes} {position : Nat} {message : Message}
    (written : content.drop position = record crc (codec.encode message) ++ after)
    (small : (codec.encode message).length ≤ maxMessageSize) :
    next crc codec content position =
      some (message, position + (record crc (codec.encode message)).length) := by
  have turn := nextTurn_record codec (recordAt_of_drop written small)
  rw [codec.decode_encode] at turn
  rw [next, Scan.run_stop turn, record_length]
  simp only [Option.some.injEq, Prod.mk.injEq, true_and]
  omega

/-- At a record that is too large the reader gives up. -/
theorem next_largeRecord {content after : Bytes} {position : Nat} {message : Message}
    (written : content.drop position = record crc (codec.encode message) ++ after)
    (large : maxMessageSize < (codec.encode message).length)
    (fits : (codec.encode message).length < 2 ^ 31) : next crc codec content position = none := by
  have sizes := congrArg List.length written
  simp only [List.length_drop, List.length_append, record_length] at sizes
  exact Scan.run_stop (nextTurn_refused (readMagic_record written) (readSize_record written fits)
    (by omega) (.inr (by omega)))

/-- Records in a file are read as their messages, before whatever is read behind them. -/
theorem collects_records {content after : Bytes} {position : Nat} {messages rest : List Message}
    (written : content.drop position = records crc codec messages ++ after)
    (small : ∀ message ∈ messages, (codec.encode message).length ≤ maxMessageSize)
    (behind : Scan.Collects (next crc codec content)
      (position + (records crc codec messages).length) rest) :
    Scan.Collects (next crc codec content) position (messages ++ rest) := by
  induction messages generalizing position with
  | nil => simpa using behind
  | cons message messages inductionHypothesis =>
    have here : content.drop position =
        record crc (codec.encode message) ++ (records crc codec messages ++ after) := by
      rw [written, records_cons, List.append_assoc]
    refine .item (next_record here (small message List.mem_cons_self)) (inductionHypothesis ?_ ?_ ?_)
    · rw [← List.drop_drop, here, List.drop_left]
    · exact fun other member => small other (List.mem_cons_of_mem _ member)
    · rw [Nat.add_assoc, ← List.length_append, ← records_cons]
      exact behind

/-- A list with a message that is too large is longer than the part that is read. -/
theorem takeWhile_length_lt {messages : List Message}
    (large : ∃ message ∈ messages, maxMessageSize < (codec.encode message).length) :
    (messages.takeWhile fun message => (codec.encode message).length ≤ maxMessageSize).length <
      messages.length := by
  obtain ⟨message, member, above⟩ := large
  refine lt_of_le_of_ne (List.takeWhile_prefix _).length_le fun same => ?_
  have all := List.takeWhile_eq_self_iff.mp ((List.takeWhile_prefix _).eq_of_length same) message member
  exact absurd above (not_lt.mpr (of_decide_eq_true all))

theorem next_end (content : Bytes) {position : Nat} (outside : content.length ≤ position) :
    next crc codec content position = none := by
  have none : readMagic content position = none := readMagic_eq_none.mpr (by omega)
  exact Scan.run_stop (by simp only [nextTurn, none])

/-! ## Writing -/

/-- Nothing has been written behind the place where the file is written next. -/
def File.AtEnd (file : File) : Prop := file.position = file.content.length

theorem File.transferred_eq {file : File} {data : Bytes}
    (whole : (file.transferred data).length = data.length) : file.transferred data = data := by
  unfold File.transferred at whole ⊢
  split at whole
  · rfl
  · rw [List.length_take] at whole
    exact List.take_of_length_le (by omega)

theorem File.AtEnd.write {file after : File} {data : Bytes} (atEnd : file.AtEnd)
    (written : file.write data = (after, true)) :
    after.AtEnd ∧ after.content = file.content ++ data := by
  simp only [File.write, Prod.mk.injEq, decide_eq_true_eq] at written
  obtain ⟨rfl, whole⟩ := written
  rw [File.AtEnd] at atEnd ⊢
  simp only [File.transferred_eq whole, atEnd, overwrite_end, List.length_append, and_self]

theorem File.AtEnd.writeParts {file after : File} {parts : List Bytes} (atEnd : file.AtEnd)
    (written : file.writeParts parts = (after, true)) :
    after.AtEnd ∧ after.content = file.content ++ parts.flatten := by
  induction parts generalizing file with
  | nil =>
    simp only [File.writeParts, Prod.mk.injEq, and_true] at written
    subst written
    exact ⟨atEnd, by simp⟩
  | cons part parts inductionHypothesis =>
    unfold File.writeParts at written
    split at written
    · rename_i middle here
      obtain ⟨stillAtEnd, first⟩ := atEnd.write here
      obtain ⟨closing, rest⟩ := inductionHypothesis stillAtEnd written
      exact ⟨closing, by rw [rest, first, List.append_assoc, List.flatten_cons]⟩
    · cases written

theorem File.AtEnd.protoStreamWrite {file after : File} {message : Message} (atEnd : file.AtEnd)
    (written : protoStreamWrite crc codec file message = (after, true)) :
    after.AtEnd ∧ after.content = file.content ++ record crc (codec.encode message) ∧
      (codec.encode message).length < 2 ^ 31 := by
  unfold Server.protoStreamWrite at written
  split at written
  · cases written
  · rename_i buf marshalled
    obtain ⟨rfl, small⟩ := Codec.marshal_eq_some marshalled
    obtain ⟨stillAtEnd, content⟩ := atEnd.writeParts written
    exact ⟨stillAtEnd, by simpa [record] using content, small⟩

theorem File.AtEnd.protoStreamWriteAll {file after : File} {messages : List Message}
    (atEnd : file.AtEnd) (written : protoStreamWriteAll crc codec file messages = (after, true)) :
    after.content = file.content ++ records crc codec messages ∧
      ∀ message ∈ messages, (codec.encode message).length < 2 ^ 31 := by
  induction messages generalizing file with
  | nil =>
    simp only [Server.protoStreamWriteAll, Prod.mk.injEq, and_true] at written
    subst written
    simp
  | cons message messages inductionHypothesis =>
    simp only [Server.protoStreamWriteAll, Prod.mk.injEq, Bool.and_eq_true] at written
    obtain ⟨closing, here, rest⟩ := written
    obtain ⟨stillAtEnd, content, fits⟩ := atEnd.protoStreamWrite (Prod.ext rfl here)
    obtain ⟨all, small⟩ := inductionHypothesis stillAtEnd (Prod.ext closing rest)
    refine ⟨by rw [all, content, List.append_assoc, records_cons], ?_⟩
    intro other member
    cases List.mem_cons.mp member with
    | inl same => exact same ▸ fits
    | inr later => exact small other later

theorem File.write_reliable {file : File} (reliable : ∀ position, file.short position = none)
    (data : Bytes) : (file.write data).2 = true := by
  simp [File.write, File.transferred, reliable]

theorem File.writeParts_reliable {file : File} (reliable : ∀ position, file.short position = none)
    (parts : List Bytes) : (file.writeParts parts).2 = true := by
  induction parts generalizing file with
  | nil => rfl
  | cons part parts inductionHypothesis =>
    unfold File.writeParts
    split
    · rename_i middle here
      apply inductionHypothesis
      obtain ⟨rfl, -⟩ := Prod.mk.inj here
      exact reliable
    · rename_i middle here
      have whole := File.write_reliable reliable part
      rw [here] at whole
      cases whole

theorem File.writeParts_short (file : File) (parts : List Bytes) :
    (file.writeParts parts).1.short = file.short := by
  induction parts generalizing file with
  | nil => rfl
  | cons part parts inductionHypothesis =>
    unfold File.writeParts
    split
    · rename_i middle here
      obtain ⟨rfl, -⟩ := Prod.mk.inj here
      exact inductionHypothesis _
    · rename_i middle here
      obtain ⟨rfl, -⟩ := Prod.mk.inj here
      rfl

/-- Where no `write` falls short, only a message that cannot be encoded makes `Write` fail. -/
theorem protoStreamWriteAll_reliable {file : File} {messages : List Message}
    (reliable : ∀ position, file.short position = none)
    (fits : ∀ message ∈ messages, (codec.encode message).length < 2 ^ 31) :
    (protoStreamWriteAll crc codec file messages).2 = true := by
  induction messages generalizing file with
  | nil => rfl
  | cons message messages inductionHypothesis =>
    have marshalled : codec.marshal message = some (codec.encode message) := by
      have small := fits message List.mem_cons_self
      exact if_pos (by simp only [maxMarshalSize]; omega)
    simp only [protoStreamWriteAll, protoStreamWrite, marshalled, Bool.and_eq_true]
    refine ⟨File.writeParts_reliable reliable _, inductionHypothesis ?_ ?_⟩
    · rw [File.writeParts_short]
      exact reliable
    · exact fun other member => fits other (List.mem_cons_of_mem _ member)

theorem File.create_atEnd (short : Nat → Option Nat) : (File.create short).AtEnd := rfl

/-- The reader gets as far as the first record that is too large. -/
theorem collects_untilLarge {content after : Bytes} {position : Nat} {messages : List Message}
    (written : content.drop position = records crc codec messages ++ after)
    (fits : ∀ message ∈ messages, (codec.encode message).length < 2 ^ 31)
    (large : ∃ message ∈ messages, maxMessageSize < (codec.encode message).length) :
    Scan.Collects (next crc codec content) position
      (messages.takeWhile fun message => (codec.encode message).length ≤ maxMessageSize) := by
  induction messages generalizing position with
  | nil =>
    obtain ⟨message, member, -⟩ := large
    cases member
  | cons message messages inductionHypothesis =>
    rw [records_cons, List.append_assoc] at written
    by_cases small : (codec.encode message).length ≤ maxMessageSize
    · rw [List.takeWhile_cons, if_pos (decide_eq_true small)]
      refine .item (next_record written small) (inductionHypothesis ?_ ?_ ?_)
      · rw [← List.drop_drop, written, List.drop_left]
      · exact fun other member => fits other (List.mem_cons_of_mem _ member)
      · obtain ⟨other, member, above⟩ := large
        cases List.mem_cons.mp member with
        | inl same => exact absurd (same ▸ above) (not_lt.mpr small)
        | inr later => exact ⟨other, later, above⟩
    · rw [List.takeWhile_cons, if_neg (by simpa using small)]
      exact .stop (next_largeRecord written (not_le.mp small) (fits message List.mem_cons_self))

/-- A file of records is read as its messages up to the first one that is larger than four megabytes. -/
theorem collects_takeWhile {content : Bytes} {position : Nat} {messages : List Message}
    (written : content.drop position = records crc codec messages)
    (fits : ∀ message ∈ messages, (codec.encode message).length < 2 ^ 31) :
    Scan.Collects (next crc codec content) position
      (messages.takeWhile fun message => (codec.encode message).length ≤ maxMessageSize) := by
  rw [← List.append_nil (records crc codec messages)] at written
  by_cases large : ∃ message ∈ messages, maxMessageSize < (codec.encode message).length
  · exact collects_untilLarge written fits large
  · have small : ∀ message ∈ messages, (codec.encode message).length ≤ maxMessageSize :=
      fun message member => not_lt.mp fun above => large ⟨message, member, above⟩
    have sizes := congrArg List.length written
    simp only [List.length_drop, List.append_nil] at sizes
    rw [List.takeWhile_eq_self_iff.mpr (by simpa using small), ← List.append_nil messages]
    exact collects_records written small (.stop (next_end content (by omega)))

theorem protoStream_roundTrip {short : Nat → Option Nat} {file : File} {messages : List Message}
    (written : protoStreamWriteAll crc codec (File.create short) messages = (file, true)) :
    Scan.Collects (next crc codec file.content) 0
      (messages.takeWhile fun message => (codec.encode message).length ≤ maxMessageSize) := by
  obtain ⟨content, fits⟩ := (File.create_atEnd short).protoStreamWriteAll written
  exact collects_takeWhile (by simpa [File.create] using content) fits

def twoGauges : File × Bool :=
  protoStreamWriteAll crc16 protoRuntime.stream (File.create fun _ => none) [gauge "a" [1], gauge "b" [2, 3]]

theorem protoStream_roundTrip_twoGauges :
    Scan.Collects (next crc16 protoRuntime.stream twoGauges.1.content) 0
      [gauge "a" [1], gauge "b" [2, 3]] := by
  have complete : twoGauges.2 = true := by decide
  have reads := protoStream_roundTrip (Prod.ext rfl complete : twoGauges = (_, true))
  have small : ([gauge "a" [1], gauge "b" [2, 3]].takeWhile fun message =>
      (protoRuntime.stream.encode message).length ≤ maxMessageSize) =
        [gauge "a" [1], gauge "b" [2, 3]] := by
    decide
  rw [small] at reads
  exact reads

def zeroValue : Value UInt64 :=
  { timestamp := 0, doubleValue := some 0, stringValue := none, endTimestamp := none }

/-- A stream of more than four million values. -/
def largeStream : Stream UInt64 :=
  { streamVariable := none, value := List.replicate (maxMessageSize + 1) zeroValue }

theorem largeStream_length : (protoRuntime.stream.encode largeStream).length = (maxMessageSize + 1) * 13 := by
  have each : (Wire.encodeField (4, (Wire.embedded valueFormat).put zeroValue)).length = 13 := by
    decide
  change (Wire.encodeFields (streamFormat.toFields largeStream)).length = _
  simp only [streamFormat, largeStream, Wire.Scalar.fields, Wire.encodeFields, Option.toList_none,
    List.map_nil, List.nil_append, List.map_replicate, List.flatMap_replicate, List.length_flatten,
    List.map_replicate, List.sum_replicate_nat, each]

theorem exists_written (crc : Bytes → UInt16) {message : Message} (fits : (codec.encode message).length < 2 ^ 31) :
    ∃ file, protoStreamWriteAll crc codec (File.create fun _ => none) [message] = (file, true) :=
  ⟨_, Prod.ext rfl (protoStreamWriteAll_reliable (fun _ => rfl) (by simpa using fits))⟩

theorem not_collects_large {file : File} {message : Message}
    (written : protoStreamWriteAll crc codec (File.create fun _ => none) [message] = (file, true))
    (large : maxMessageSize < (codec.encode message).length) :
    ¬Scan.Collects (next crc codec file.content) 0 [message] := by
  intro reads
  obtain ⟨content, fits⟩ := (File.create_atEnd fun _ => none).protoStreamWriteAll written
  have delivers := reads.unique (collects_takeWhile (by simpa [File.create] using content) fits)
  rw [List.takeWhile_cons, if_neg (by simpa using large)] at delivers
  cases delivers

theorem protoStream_loses_large :
    ∃ file, protoStreamWriteAll crc16 protoRuntime.stream (File.create fun _ => none) [largeStream] =
        (file, true) ∧
      ¬Scan.Collects (next crc16 protoRuntime.stream file.content) 0 [largeStream] := by
  have fits : (protoRuntime.stream.encode largeStream).length < 2 ^ 31 := by
    rw [largeStream_length, maxMessageSize]
    omega
  have large : maxMessageSize < (protoRuntime.stream.encode largeStream).length := by
    rw [largeStream_length, maxMessageSize]
    omega
  obtain ⟨file, written⟩ := exists_written crc16 fits
  exact ⟨file, written, not_collects_large written large⟩

end OpenInstrument.Server
