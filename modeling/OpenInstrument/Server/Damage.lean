import OpenInstrument.Server.ProtoStreamRoundTrip

/-! # Damage to one record of a file

The bytes of one record are overwritten.  The reader still delivers the records before it, and then it
looks for a header at one place after another.  A place can make it give up, when the size that stands
there is refused or reaches behind the end of the file, and it can lead it out of the damaged record,
when a whole record seems to stand there.  If no place does either, the reader comes to the end of the
damaged record and delivers everything behind it.
-/

namespace OpenInstrument.Server

variable {Message : Type} {crc : Bytes → UInt16} {codec : Codec Message}

/-- No part of some bytes is a record that the reader would deliver. -/
def NoRecord (crc : Bytes → UInt16) (codec : Codec Message) (bytes : Bytes) : Prop :=
  ∀ position data, RecordAt crc bytes position data → codec.decode data = none

/-- The places at which the reader looks for a header, from a position on: each next byte, or the
place behind a record that it cannot decode. -/
inductive Visited (crc : Bytes → UInt16) (codec : Codec Message) (content : Bytes) (start : Nat) :
    Nat → Prop where
  | start : Visited crc codec content start start
  | step {position : Nat} (visited : Visited crc codec content start position)
      (noRecord : ∀ data, ¬RecordAt crc content position data) :
      Visited crc codec content start (position + 1)
  | skip {position : Nat} {data : Bytes} (visited : Visited crc codec content start position)
      (stands : RecordAt crc content position data) (undecodable : codec.decode data = none) :
      Visited crc codec content start (position + 6 + data.length + 2)

/-- From this size on a header is passed over.  `Next` and `FindNextHeader` differ in it; only the
first place is met by `Next` alone. -/
def sizeLimit (content : Bytes) (start position : Nat) : Int :=
  if position = start then content.length else content.length - 2

/-- A header that is not passed over has a size that `Next` refuses, or that reaches behind the end. -/
def GivesUp (content : Bytes) (start position : Nat) : Prop :=
  readMagic content position = some protomagic ∧ ∃ size, readSize content (position + 2) = some size ∧
    size < sizeLimit content start position ∧
    (size < 0 ∨ size > maxMessageSize ∨ (content.length : Int) < position + 6 + size + 2)

/-- A record that seems to stand at a place reaches behind the damaged one. -/
def Swallows (crc : Bytes → UInt16) (content : Bytes) (finish position : Nat) : Prop :=
  ∃ data, RecordAt crc content position data ∧ finish < position + 6 + data.length + 2

/-- No place between two positions makes the reader give up or leads it out. -/
def Harmless (crc : Bytes → UInt16) (codec : Codec Message) (content : Bytes) (start finish : Nat) :
    Prop :=
  ∀ position, Visited crc codec content start position → position < finish →
    ¬GivesUp content start position ∧ ¬Swallows crc content finish position

/-- The loops of the reader come to an end, and so do its calls. -/
structure Terminates (crc : Bytes → UInt16) (codec : Codec Message) (content : Bytes) : Prop where
  findNextHeader : ∀ position,
    Scan.Ends (findNextHeaderTurn content) position (findNextHeader content position)
  next : ∀ position, Scan.Ends (nextTurn crc codec content) position (next crc codec content position)
  calls : ∃ messages, Scan.Collects (Server.next crc codec content) 0 messages

theorem terminates (crc : Bytes → UInt16) (codec : Codec Message) (content : Bytes) :
    Terminates crc codec content where
  findNextHeader := findNextHeader_ends content
  next := next_ends crc codec content
  calls := ⟨_, protoStreamRead_collects content⟩

/-! ## Going on at a place -/

/-- What is delivered after looking for a header from a position on. -/
def Resumes (crc : Bytes → UInt16) (codec : Codec Message) (content : Bytes) (position : Nat)
    (messages : List Message) : Prop :=
  match findNextHeader content position with
  | none => messages = []
  | some header => Scan.Collects (next crc codec content) header messages

section Resuming

variable {content : Bytes} {position : Nat} {messages : List Message}

theorem collects_stop (last : next crc codec content position = none) :
    Scan.Collects (next crc codec content) position messages ↔ messages = [] :=
  ⟨fun collects => collects.unique (.stop last), fun empty => empty ▸ .stop last⟩

theorem collects_congr {other : Nat}
    (same : next crc codec content position = next crc codec content other) :
    Scan.Collects (next crc codec content) position messages ↔
      Scan.Collects (next crc codec content) other messages := by
  constructor
  · intro collects
    cases collects with
    | stop last => exact .stop (same ▸ last)
    | item found rest => exact .item (same ▸ found) rest
  · intro collects
    cases collects with
    | stop last => exact .stop (same ▸ last)
    | item found rest => exact .item (same ▸ found) rest

theorem collects_resynchronise {resume : Nat}
    (turn : nextTurn crc codec content position = resynchronise content resume) :
    Scan.Collects (next crc codec content) position messages ↔
      Resumes crc codec content resume messages := by
  unfold Resumes
  cases found : findNextHeader content resume with
  | none =>
    simp only [resynchronise, found] at turn
    exact collects_stop (Scan.run_stop turn)
  | some header =>
    simp only [resynchronise, found] at turn
    exact collects_congr ((next_advances crc codec content).run_turn turn)

theorem resumes_next (goes : findNextHeaderTurn content position = .inr (position + 1)) :
    Resumes crc codec content position messages ↔
      Resumes crc codec content (position + 1) messages := by
  have same : findNextHeader content position = findNextHeader content (position + 1) :=
    (findNextHeader_advances content).run_turn goes
  rw [Resumes, Resumes, same]

theorem findNextHeaderTurn_otherMagic {magic : Nat} (found : readMagic content position = some magic)
    (other : magic ≠ protomagic) : findNextHeaderTurn content position = .inr (position + 1) := by
  simp only [findNextHeaderTurn, found, other, ne_eq, not_false_eq_true, if_true]

theorem findNextHeaderTurn_large {size : Int} (magic : readMagic content position = some protomagic)
    (sized : readSize content (position + 2) = some size) (large : size ≥ content.length - 2) :
    findNextHeaderTurn content position = .inr (position + 1) := by
  simp only [findNextHeaderTurn, magic, sized, large, ne_eq, not_true_eq_false, if_false, if_true]

theorem findNextHeader_here {size : Int} (magic : readMagic content position = some protomagic)
    (sized : readSize content (position + 2) = some size) (fits : size < content.length - 2) :
    findNextHeader content position = some position := by
  apply Scan.run_stop
  simp only [findNextHeaderTurn, magic, sized, ge_iff_le, not_le.mpr fits, ne_eq, not_true_eq_false,
    if_false]

theorem resumes_here {size : Int} (magic : readMagic content position = some protomagic)
    (sized : readSize content (position + 2) = some size) (fits : size < content.length - 2) :
    Resumes crc codec content position messages ↔
      Scan.Collects (next crc codec content) position messages := by
  rw [Resumes, findNextHeader_here magic sized fits]

end Resuming

/-! ## The damaged record -/

section Walk

variable {content : Bytes} {start finish position : Nat} {messages : List Message}

/-- A place that does not stop the reader and where no record stands sends it one byte on. -/
theorem turn_step (codec : Codec Message) (messages : List Message)
    (inside : position + 6 ≤ content.length) (goesOn : ¬GivesUp content start position)
    (noRecord : ∀ data, ¬RecordAt crc content position data) :
    (position = start → nextTurn crc codec content position = resynchronise content (position + 1)) ∧
      (position ≠ start → (Resumes crc codec content position messages ↔
        Resumes crc codec content (position + 1) messages)) := by
  cases magic : readMagic content position with
  | none =>
    have short := readMagic_eq_none.mp magic
    omega
  | some found =>
    by_cases other : found ≠ protomagic
    · exact ⟨fun _ => nextTurn_otherMagic magic other,
        fun _ => resumes_next (findNextHeaderTurn_otherMagic magic other)⟩
    · obtain rfl := not_not.mp other
      cases sized : readSize content (position + 2) with
      | none =>
        have short := readSize_eq_none.mp sized
        omega
      | some size =>
        by_cases fits : size < sizeLimit content start position
        · -- The size is in range and the record is all there, so its checksum must differ.
          have inRange : ¬(size < 0 ∨ size > maxMessageSize ∨
              (content.length : Int) < position + 6 + size + 2) :=
            fun stops => goesOn ⟨magic, size, sized, fits, stops⟩
          obtain ⟨size, rfl⟩ := Int.eq_ofNat_of_zero_le (a := size) (by omega)
          have resync : nextTurn crc codec content position = resynchronise content (position + 1) := by
            rcases nextTurn_cases crc codec content position with
              stops | ⟨-, resumes⟩ | ⟨data, stands⟩
            · cases found : readCrc content (position + 6 + size) with
              | none =>
                have short := readCrc_eq_none.mp found
                omega
              | some stored =>
                refine nextTurn_mismatch magic sized (by omega) found fun matching => ?_
                have whole : (read content (position + 6) size).length = size := by
                  rw [read_length]
                  omega
                exact noRecord (read content (position + 6) size)
                  ⟨magic, by rw [whole, sized], by omega, by rw [whole], by rw [whole, found, matching]⟩
            · exact resumes
            · exact absurd stands (noRecord data)
          refine ⟨fun _ => resync, fun later => ?_⟩
          rw [sizeLimit, if_neg later] at fits
          rw [resumes_here magic sized fits, collects_resynchronise resync]
        · refine ⟨fun first => ?_, fun later => ?_⟩
          · rw [sizeLimit, if_pos first] at fits
            exact nextTurn_large magic sized (not_lt.mp fits)
          · rw [sizeLimit, if_neg later] at fits
            exact resumes_next (findNextHeaderTurn_large magic sized (not_lt.mp fits))

/-- What is delivered from the start on is what is delivered from any place that is visited, as long
as no place before it stops the reader. -/
theorem Visited.collects_iff (messages : List Message)
    (visited : Visited crc codec content start position)
    (inside : position + 5 ≤ content.length)
    (goesOn : ∀ earlier, Visited crc codec content start earlier → earlier < position →
      ¬GivesUp content start earlier) :
    start ≤ position ∧ (position = start ∨
      (Scan.Collects (next crc codec content) start messages ↔
        Resumes crc codec content position messages)) := by
  induction visited with
  | start => exact ⟨le_rfl, .inl rfl⟩
  | @step position visited noRecord inductionHypothesis =>
    obtain ⟨behind, earlier⟩ := inductionHypothesis (by omega)
      fun earlier visited before => goesOn earlier visited (by omega)
    obtain ⟨first, later⟩ := turn_step codec messages (by omega) (goesOn position visited (by omega)) noRecord
    refine ⟨by omega, .inr ?_⟩
    by_cases atStart : position = start
    · rw [← atStart]
      exact collects_resynchronise (first atStart)
    · exact (earlier.resolve_left atStart).trans (later atStart)
  | @skip position data visited stands undecodable inductionHypothesis =>
    obtain ⟨behind, earlier⟩ := inductionHypothesis (by omega)
      fun earlier visited before => goesOn earlier visited (by omega)
    have turn := nextTurn_record codec stands
    rw [undecodable] at turn
    refine ⟨by omega, .inr ?_⟩
    by_cases atStart : position = start
    · rw [← atStart]
      exact collects_resynchronise turn
    · have within := stands.within
      rw [earlier.resolve_left atStart, resumes_here stands.magic stands.size (by omega),
        collects_resynchronise turn]

/-- A place that gives up ends the reading. -/
theorem GivesUp.collects (visited : Visited crc codec content start position)
    (inside : position + 5 ≤ content.length)
    (goesOn : ∀ earlier, Visited crc codec content start earlier → earlier < position →
      ¬GivesUp content start earlier)
    (stops : GivesUp content start position) : Scan.Collects (next crc codec content) start [] := by
  obtain ⟨magic, size, sized, fits, refused⟩ := stops
  have below : size < content.length := by
    rw [sizeLimit] at fits
    split at fits <;> omega
  have turn : nextTurn crc codec content position = .inl none := by
    by_cases outOfRange : size < 0 ∨ size > maxMessageSize
    · exact nextTurn_refused magic sized below outOfRange
    · obtain ⟨size, rfl⟩ := Int.eq_ofNat_of_zero_le (a := size) (by omega)
      exact nextTurn_short magic sized (by omega) (by omega) (by omega)
  have here : Scan.Collects (next crc codec content) position [] := .stop (Scan.run_stop turn)
  obtain ⟨-, first | later⟩ := visited.collects_iff [] inside goesOn
  · exact first ▸ here
  · by_cases atStart : position = start
    · exact atStart ▸ here
    · rw [sizeLimit, if_neg atStart] at fits
      exact later.mpr ((resumes_here magic sized fits).mpr here)

end Walk

/-! ## The whole file -/

theorem read_middle {before damaged behind : Bytes} {position length : Nat}
    (lower : before.length ≤ position) (upper : position + length ≤ before.length + damaged.length) :
    read (before ++ (damaged ++ behind)) position length =
      read damaged (position - before.length) length := by
  have inside : length ≤ (damaged.drop (position - before.length)).length := by
    rw [List.length_drop]
    omega
  rw [read, read, List.drop_append, List.drop_eq_nil_of_le lower, List.nil_append,
    List.drop_append_of_le_length (by omega), List.take_append_of_le_length inside]

/-- A record that stands within the damaged bytes is one of theirs. -/
theorem RecordAt.inside {before damaged behind data : Bytes} {position : Nat}
    (stands : RecordAt crc (before ++ (damaged ++ behind)) position data)
    (lower : before.length ≤ position)
    (upper : position + 6 + data.length + 2 ≤ before.length + damaged.length) :
    RecordAt crc damaged (position - before.length) data := by
  have magic := stands.magic
  have size := stands.size
  have payload := stands.payload
  have checksum := stands.checksum
  rw [readMagic, read_middle lower (by omega), ← readMagic] at magic
  rw [readSize, read_middle (by omega) (by omega), ← readSize] at size
  rw [read_middle (by omega) (by omega)] at payload
  rw [readCrc, read_middle (by omega) (by omega), ← readCrc] at checksum
  rw [Nat.sub_add_comm lower] at size payload
  rw [Nat.add_assoc, Nat.sub_add_comm lower, ← Nat.add_assoc] at checksum
  exact ⟨magic, size, stands.small, payload, checksum⟩

section File

variable {before damaged behind : Bytes} {position : Nat}

/-- A reader that no place leads out of the damaged bytes comes to their end. -/
theorem Visited.finish {content : Bytes} (whole : content = before ++ (damaged ++ behind))
    (noRecord : NoRecord crc codec damaged)
    (stays : ∀ position, Visited crc codec content before.length position →
      position < before.length + damaged.length →
      ¬Swallows crc content (before.length + damaged.length) position)
    (visited : Visited crc codec content before.length position) (lower : before.length ≤ position)
    (upper : position ≤ before.length + damaged.length) :
    Visited crc codec content before.length (before.length + damaged.length) := by
  generalize distance : before.length + damaged.length - position = remaining
  induction remaining using Nat.strong_induction_on generalizing position with
  | h remaining inductionHypothesis =>
    by_cases there : position = before.length + damaged.length
    · exact there ▸ visited
    · by_cases stands : ∃ data, RecordAt crc content position data
      · obtain ⟨data, stands⟩ := stands
        have within : position + 6 + data.length + 2 ≤ before.length + damaged.length :=
          not_lt.mp fun out => stays position visited (by omega) ⟨data, stands, out⟩
        have undecodable : codec.decode data = none :=
          noRecord _ data (RecordAt.inside (whole ▸ stands) lower within)
        exact inductionHypothesis _ (by omega) (visited.skip stands undecodable) (by omega) within rfl
      · exact inductionHypothesis _ (by omega) (visited.step (not_exists.mp stands)) (by omega)
          (by omega) rfl

end File

/-- Either no place within the damaged bytes gives up, or there is a first one that does. -/
theorem exists_first_givesUp {content : Bytes} {start finish : Nat}
    (harmful : ∃ position, Visited crc codec content start position ∧ position < finish ∧
      GivesUp content start position) :
    ∃ position, Visited crc codec content start position ∧ position < finish ∧
      GivesUp content start position ∧
      ∀ earlier, Visited crc codec content start earlier → earlier < position →
        ¬GivesUp content start earlier := by
  classical
  obtain ⟨visited, before, stops⟩ := Nat.find_spec harmful
  refine ⟨Nat.find harmful, visited, before, stops, fun earlier earlierVisited smaller earlierStops => ?_⟩
  exact Nat.find_min harmful smaller ⟨earlierVisited, by omega, earlierStops⟩

/-- At the end of the damaged bytes the reader is in front of the records behind them. -/
theorem resumes_records {content : Bytes} {position : Nat} {message : Message}
    {messages delivered : List Message}
    (written : content.drop position = records crc codec (message :: messages))
    (fits : (codec.encode message).length < 2 ^ 31) :
    Resumes crc codec content position delivered ↔
      Scan.Collects (next crc codec content) position delivered := by
  rw [records_cons] at written
  have sizes := congrArg List.length written
  simp only [List.length_drop, List.length_append, record_length] at sizes
  exact resumes_here (readMagic_record written) (readSize_record written fits) (by omega)

/-! ## What the damage does -/

/-- A file of records, one of which is overwritten. -/
def damagedFile (crc : Bytes → UInt16) (codec : Codec Message) (before : List Message) (damaged : Bytes)
    (after : List Message) : Bytes :=
  records crc codec before ++ (damaged ++ records crc codec after)

/-- The calls of `Next` deliver the messages before the damaged record, and as the last ones those
behind it. -/
def Delivers (crc : Bytes → UInt16) (codec : Codec Message) (before : List Message) (damaged : Bytes)
    (after : List Message) : Prop :=
  ∃ extra, Scan.Collects (next crc codec (damagedFile crc codec before damaged after)) 0
    (before ++ (extra ++ after))

/-- The other messages are not too large, and no place within the damaged record keeps the reader from
what is behind it, if anything is. -/
def Contained (crc : Bytes → UInt16) (codec : Codec Message) (before : List Message) (damaged : Bytes)
    (after : List Message) : Prop :=
  (∀ message ∈ before ++ after, (codec.encode message).length ≤ maxMessageSize) ∧
    (after = [] ∨ Harmless crc codec (damagedFile crc codec before damaged after)
      (records crc codec before).length ((records crc codec before).length + damaged.length))

section Damaged

variable {before after : List Message} {damaged : Bytes}

theorem damagedFile_drop :
    (damagedFile crc codec before damaged after).drop ((records crc codec before).length + damaged.length) =
      records crc codec after := by
  rw [damagedFile, ← List.drop_drop, List.drop_left, List.drop_left]

theorem damagedFile_drop_nil :
    (damagedFile crc codec before damaged after).drop ((records crc codec before).length + damaged.length) =
      records crc codec after ++ [] := by
  rw [damagedFile_drop, List.append_nil]

theorem damagedFile_length :
    (damagedFile crc codec before damaged after).length =
      (records crc codec before).length + damaged.length + (records crc codec after).length := by
  simp [damagedFile, Nat.add_assoc]

/-- Behind the messages before the damaged record comes what is read from its start on. -/
theorem collects_damaged {messages : List Message}
    (small : ∀ message ∈ before, (codec.encode message).length ≤ maxMessageSize)
    (collects : Scan.Collects (next crc codec (damagedFile crc codec before damaged after))
      (records crc codec before).length messages) :
    Scan.Collects (next crc codec (damagedFile crc codec before damaged after)) 0 (before ++ messages) :=
  collects_records (show _ = records crc codec before ++ (damaged ++ records crc codec after) from rfl) small
    (by simpa using collects)

/-- A reader that nothing stops reads what is behind the damaged record. -/
theorem collects_behind {messages : List Message} (nonempty : after ≠ []) (wide : 0 < damaged.length)
    (noRecord : NoRecord crc codec damaged)
    (fits : ∀ message ∈ after, (codec.encode message).length < 2 ^ 31)
    (harmless : Harmless crc codec (damagedFile crc codec before damaged after)
      (records crc codec before).length ((records crc codec before).length + damaged.length)) :
    Scan.Collects (next crc codec (damagedFile crc codec before damaged after))
        (records crc codec before).length messages ↔
      Scan.Collects (next crc codec (damagedFile crc codec before damaged after))
        ((records crc codec before).length + damaged.length) messages := by
  obtain ⟨message, later, rfl⟩ := List.exists_cons_of_ne_nil nonempty
  have visited : Visited crc codec (damagedFile crc codec before damaged (message :: later))
      (records crc codec before).length ((records crc codec before).length + damaged.length) :=
    Visited.finish rfl noRecord (fun position visited inside => (harmless position visited inside).2)
      .start le_rfl (Nat.le_add_right _ _)
  have inside : (records crc codec before).length + damaged.length + 5 ≤
      (damagedFile crc codec before damaged (message :: later)).length := by
    rw [damagedFile_length, records_cons, List.length_append, record_length]
    omega
  obtain ⟨-, first | same⟩ := visited.collects_iff messages inside
    fun earlier visited inside => (harmless earlier visited inside).1
  · omega
  · rw [same, resumes_records damagedFile_drop (fits message List.mem_cons_self)]

theorem contained_delivers (wide : 0 < damaged.length) (noRecord : NoRecord crc codec damaged)
    (fits : ∀ message ∈ after, (codec.encode message).length < 2 ^ 31)
    (contained : Contained crc codec before damaged after) :
    Delivers crc codec before damaged after := by
  obtain ⟨small, harmless⟩ := contained
  have smallBefore : ∀ message ∈ before, (codec.encode message).length ≤ maxMessageSize :=
    fun message member => small message (List.mem_append_left _ member)
  by_cases last : after = []
  · subst last
    have collects := (next_progresses crc codec
      (damagedFile crc codec before damaged [])).collects (records crc codec before).length
    exact ⟨_, by simpa using collects_damaged smallBefore collects⟩
  · refine ⟨[], collects_damaged smallBefore ?_⟩
    rw [collects_behind last wide noRecord fits (harmless.resolve_left last), List.nil_append]
    have stop : Scan.Collects (next crc codec (damagedFile crc codec before damaged after))
        ((records crc codec before).length + damaged.length + (records crc codec after).length) [] :=
      .stop (next_end _ (by rw [damagedFile_length]))
    have behind := collects_records damagedFile_drop_nil
      (fun message member => small message (List.mem_append_right _ member)) stop
    rwa [List.append_nil] at behind

theorem delivers_contained (wide : 0 < damaged.length) (noRecord : NoRecord crc codec damaged)
    (fits : ∀ message ∈ before ++ after, (codec.encode message).length < 2 ^ 31)
    (stays : ∀ position, Visited crc codec (damagedFile crc codec before damaged after)
        (records crc codec before).length position →
      position < (records crc codec before).length + damaged.length →
      ¬Swallows crc (damagedFile crc codec before damaged after)
        ((records crc codec before).length + damaged.length) position)
    (delivers : Delivers crc codec before damaged after) :
    Contained crc codec before damaged after := by
  obtain ⟨extra, reads⟩ := delivers
  have smallBefore : ∀ message ∈ before, (codec.encode message).length ≤ maxMessageSize := by
    by_contra large
    push Not at large
    have written : (damagedFile crc codec before damaged after).drop 0 =
        records crc codec before ++ (damaged ++ records crc codec after) := rfl
    have stops := reads.unique (collects_untilLarge written
      (fun message member => fits message (by simp [member])) large)
    have shorter := takeWhile_length_lt large
    rw [← stops, List.length_append] at shorter
    omega
  -- From the start of the damaged record on, exactly the rest is delivered.
  have rest : Scan.Collects (next crc codec (damagedFile crc codec before damaged after))
      (records crc codec before).length (extra ++ after) := by
    have collects := (next_progresses crc codec
      (damagedFile crc codec before damaged after)).collects (records crc codec before).length
    have same := reads.unique (collects_damaged smallBefore collects)
    rw [List.append_cancel_left same]
    exact collects
  have harmless : after = [] ∨ Harmless crc codec (damagedFile crc codec before damaged after)
      (records crc codec before).length ((records crc codec before).length + damaged.length) := by
    by_contra neither
    obtain ⟨nonempty, harmful⟩ := not_or.mp neither
    have stops : ∃ position, Visited crc codec (damagedFile crc codec before damaged after)
        (records crc codec before).length position ∧
        position < (records crc codec before).length + damaged.length ∧
        GivesUp (damagedFile crc codec before damaged after) (records crc codec before).length
          position := by
      by_contra none
      push Not at none
      exact harmful fun position visited inside =>
        ⟨none position visited inside, stays position visited inside⟩
    obtain ⟨position, visited, inside, givesUp, earlier⟩ := exists_first_givesUp stops
    have nothing := rest.unique (GivesUp.collects visited ?_ earlier givesUp)
    · exact nonempty (List.append_eq_nil_iff.mp nothing).2
    · obtain ⟨message, later, rfl⟩ := List.exists_cons_of_ne_nil nonempty
      rw [damagedFile_length, records_cons, List.length_append, record_length]
      omega
  refine ⟨fun message member => ?_, harmless⟩
  cases List.mem_append.mp member with
  | inl member => exact smallBefore message member
  | inr member =>
    by_contra large
    have behind := rest
    rw [collects_behind (List.ne_nil_of_mem member) wide noRecord
      (fun message member => fits message (by simp [member]))
      (harmless.resolve_left (List.ne_nil_of_mem member))] at behind
    have large : ∃ message ∈ after, maxMessageSize < (codec.encode message).length :=
      ⟨message, member, not_le.mp large⟩
    have stops := behind.unique (collects_untilLarge damagedFile_drop_nil
      (fun message member => fits message (by simp [member])) large)
    have shorter := takeWhile_length_lt large
    rw [← stops, List.length_append] at shorter
    omega

end Damaged

theorem overwrite_record {before after : List Message} {victim : Message} {damaged : Bytes}
    (width : damaged.length = (record crc (codec.encode victim)).length) :
    overwrite (records crc codec (before ++ victim :: after)) (records crc codec before).length damaged =
      damagedFile crc codec before damaged after := by
  rw [overwrite, records_append, records_cons, List.take_left, width, ← List.drop_drop, List.drop_left,
    List.drop_left, damagedFile, List.append_assoc]

/-- What is read from a file of records after one of them was overwritten. -/
theorem protoStream_damage {short : Nat → Option Nat} {file : File} {before after : List Message}
    {victim : Message} {damaged : Bytes}
    (written : protoStreamWriteAll crc codec (File.create short) (before ++ victim :: after) = (file, true))
    (width : damaged.length = (record crc (codec.encode victim)).length)
    (noRecord : NoRecord crc codec damaged) :
    overwrite file.content (records crc codec before).length damaged =
        damagedFile crc codec before damaged after ∧
      Terminates crc codec (damagedFile crc codec before damaged after) ∧
      (Contained crc codec before damaged after → Delivers crc codec before damaged after) ∧
      ((∀ position, Visited crc codec (damagedFile crc codec before damaged after)
            (records crc codec before).length position →
          position < (records crc codec before).length + damaged.length →
          ¬Swallows crc (damagedFile crc codec before damaged after)
            ((records crc codec before).length + damaged.length) position) →
        Delivers crc codec before damaged after → Contained crc codec before damaged after) := by
  obtain ⟨content, fits⟩ := (File.create_atEnd short).protoStreamWriteAll written
  have wide : 0 < damaged.length := by
    rw [width, record_length]
    omega
  refine ⟨?_, terminates crc codec _, ?_, ?_⟩
  · rw [content, File.create, List.nil_append, overwrite_record width]
  · exact contained_delivers wide noRecord fun message member => fits message (by simp [member])
  · refine delivers_contained wide noRecord fun message member => fits message ?_
    cases List.mem_append.mp member with
    | inl member => simp [member]
    | inr member => simp [member]

/-- The record of a stream with the first byte of its magic number cleared. -/
def clearedMagic : Bytes :=
  overwrite (record crc16 (protoRuntime.stream.encode (gauge "a" [1]))) 0 [0]

theorem clearedMagic_noMagic (position : Nat) :
    readMagic (damagedFile crc16 protoRuntime.stream [] clearedMagic [gauge "b" [2, 3]]) position =
      some protomagic → clearedMagic.length ≤ position := by
  intro magic
  have inside := readMagic_bound magic
  by_contra before
  have none : ∀ position < 30,
      readMagic (damagedFile crc16 protoRuntime.stream [] clearedMagic [gauge "b" [2, 3]]) position ≠
        some protomagic ∨ clearedMagic.length ≤ position := by
    decide +kernel
  have short : clearedMagic.length ≤ 30 := by decide
  exact (none position (by omega)).elim (fun other => other magic) fun behind => before behind

theorem protoStream_damage_clearedMagic :
    Delivers crc16 protoRuntime.stream [] clearedMagic [gauge "b" [2, 3]] := by
  have noRecord : NoRecord crc16 protoRuntime.stream clearedMagic := by
    intro position data stands
    have none : ∀ position < 30, readMagic clearedMagic position ≠ some protomagic := by decide +kernel
    have inside := readMagic_bound stands.magic
    have short : clearedMagic.length ≤ 30 := by decide
    exact absurd stands.magic (none position (by omega))
  have complete : twoGauges.2 = true := by decide
  have written : protoStreamWriteAll crc16 protoRuntime.stream (File.create fun _ => none)
      ([] ++ gauge "a" [1] :: [gauge "b" [2, 3]]) = (twoGauges.1, true) := Prod.ext rfl complete
  obtain ⟨-, -, delivers, -⟩ := protoStream_damage written (by decide) noRecord
  refine delivers ⟨by decide, .inr fun position _ inside => ⟨fun stops => ?_, fun leads => ?_⟩⟩
  · have behind := clearedMagic_noMagic position stops.1
    simp at inside
    omega
  · obtain ⟨data, stands, -⟩ := leads
    have behind := clearedMagic_noMagic position stands.magic
    simp at inside
    omega

/-- The record of a stream with the number minus one written over its size. -/
def negativeSize : Bytes :=
  overwrite (record crc16 (protoRuntime.stream.encode (gauge "a" [1]))) 2 [0xFF, 0xFF, 0xFF, 0xFF]

/-- The reader gives up at the negative size and does not deliver the record behind it. -/
theorem protoStream_damage_stops :
    twoGauges.2 = true ∧
      overwrite twoGauges.1.content 2 [0xFF, 0xFF, 0xFF, 0xFF] =
        damagedFile crc16 protoRuntime.stream [] negativeSize [gauge "b" [2, 3]] ∧
      NoRecord crc16 protoRuntime.stream negativeSize ∧
      ¬Delivers crc16 protoRuntime.stream [] negativeSize [gauge "b" [2, 3]] := by
  refine ⟨by decide +kernel, by decide +kernel, ?_, ?_⟩
  · intro position data stands
    have first : ∀ position < 30, readMagic negativeSize position = some protomagic → position = 0 := by
      decide +kernel
    have inside := readMagic_bound stands.magic
    have short : negativeSize.length ≤ 30 := by decide
    obtain rfl := first position (by omega) stands.magic
    have size : readSize negativeSize (0 + 2) = some (-1) := by decide
    have other := Option.some.inj (size.symm.trans stands.size)
    omega
  · intro delivers
    obtain ⟨extra, reads⟩ := delivers
    have nothing : protoStreamRead crc16 protoRuntime.stream
        (damagedFile crc16 protoRuntime.stream [] negativeSize [gauge "b" [2, 3]]) = [] := by
      decide
    have same := reads.unique (protoStreamRead_collects _)
    rw [nothing] at same
    simp at same

end OpenInstrument.Server
