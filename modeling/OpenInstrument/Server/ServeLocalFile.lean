import OpenInstrument.Server.CordLines

/-! # Serving a file

`ServeLocalFile` reserves space in the body of the reply, reads into it, and goes on until it has read the whole
file.  All the space counts as part of the body, whatever the read returns.

`results` are the results of the reads, in their order, and `memory` is what stands in the space of a read before it.
-/

namespace OpenInstrument.Server

/-- What `read` returns.  No more bytes are transferred than there is space for. -/
inductive FileRead where
  | error
  | count (bytes : Nat)
  deriving DecidableEq

/-- The loop of `ServeLocalFile` at its beginning: the bytes that have been read, and the body. -/
structure Serving where
  done : Nat
  body : Cord
  deriving DecidableEq

namespace Serving

def start : Serving := { done := 0, body := .empty 1024 16 }

def avail (file : Bytes) (serving : Serving) : Nat := min 4096 (file.length - serving.done)

def room (file : Bytes) (serving : Serving) : Nat := (serving.body.getAppendBuf (serving.avail file)).2

/-- How many bytes a read transfers. -/
def transferred (room : Nat) : FileRead → Nat
  | .error => 0
  | .count bytes => min bytes room

/-- The space after a read: the next bytes of the file, and behind them what was there. -/
def readInto (file : Bytes) (memory : Nat → UInt8) (done room bytes : Nat) : Bytes :=
  (file.drop done).take bytes ++ (List.range' bytes (room - bytes)).map memory

def read (file : Bytes) (memory : Nat → UInt8) (result : FileRead) (serving : Serving) : Option Serving :=
  let bytes := transferred (serving.room file) result
  ((serving.body.getAppendBuf (serving.avail file)).1.write
    (readInto file memory serving.done (serving.room file) bytes)).map fun body =>
      { done := serving.done + bytes, body }

/-- The loop, in a number of turns.  The reads are numbered. -/
def loop (file : Bytes) (memory : Nat → Nat → UInt8) (results : Nat → FileRead) :
    Nat → Nat → Serving → Option Serving
  | 0, _, _ => none
  | turns + 1, number, serving =>
    if file.length ≤ serving.done then some serving
    -- Without any space there is no read.
    else if serving.room file = 0 then
      loop file memory results turns number
        { serving with body := (serving.body.getAppendBuf (serving.avail file)).1 }
    else
      (serving.read file (memory number) (results number)).bind fun next =>
        -- An error is no reason to stop.
        if results number = .count 0 then some next else loop file memory results turns (number + 1) next

end Serving

/-- The loop of `ServeLocalFile` comes to its end, and when it has read the whole file, that is the body. -/
def Serves (file : Bytes) (memory : Nat → Nat → UInt8) (results : Nat → FileRead) : Prop :=
  ∃ bound, ∀ turns, bound ≤ turns → ∃ serving, Serving.loop file memory results turns 0 .start = some serving ∧
    (serving.done = file.length → serving.body.content = file)

/-- A read fills the space that was asked for. -/
def FullRead (file : Bytes) (results : Nat → FileRead) (number : Nat) : Prop :=
  ∃ bytes, results number = .count bytes ∧ min 4096 (file.length - 4096 * number) ≤ bytes

namespace Serving

/-! ## One read -/

/-- The body has the sizes that it starts with. -/
structure Usual (serving : Serving) : Prop where
  default : serving.body.defaultBufferSize = 1024
  minimum : serving.body.minimumAppendSize = 16

theorem transferred_le (room : Nat) (result : FileRead) : transferred room result ≤ room := by
  cases result with
  | error => exact Nat.zero_le _
  | count bytes => exact Nat.min_le_right _ _

theorem length_readInto {file : Bytes} (memory : Nat → UInt8) {done room bytes : Nat} (fits : bytes ≤ room)
    (inside : room ≤ file.length - done) : (readInto file memory done room bytes).length = room := by
  rw [readInto, List.length_append, List.length_take, List.length_drop, List.length_map, List.length_range']
  omega

/-- Space can be reserved, and as much as there is can be written. -/
theorem write_getAppendBuf {body : Cord} (default : body.defaultBufferSize = 1024)
    (minimum : body.minimumAppendSize = 16) {reqsize : Nat} (positive : 0 < reqsize) (small : reqsize ≤ 4096) :
    0 < (body.getAppendBuf reqsize).2 ∧ (body.getAppendBuf reqsize).2 ≤ reqsize ∧
      ∀ data : Bytes, data.length = (body.getAppendBuf reqsize).2 →
        ((body.getAppendBuf reqsize).1.write data).isSome := by
  have pushed : ∀ data : Bytes, data.length = reqsize → ((body.pushAlloc reqsize).write data).isSome := by
    intro data length
    subst length
    refine (Cord.write_pushAlloc_isSome (List.ne_nil_of_length_pos positive) (by omega)).mpr ⟨?_, by omega⟩
    rw [default]
    decide
  have fitting : ∀ {back : CordBuffer}, body.buffers.getLast? = some back → 0 < back.available →
      ∀ data : Bytes, data.length ≤ back.available → (body.write data).isSome := by
    intro back last some_ data fits
    rw [CordBuffer.available] at fits some_
    rw [Cord.write, last]
    have owned := Cord.dealloc_of_available some_
    simp [show back.bytes.length + data.length ≤ back.capacity by omega, owned]
  rw [Cord.getAppendBuf]
  cases last : body.buffers.getLast? with
  | none => exact ⟨positive, Nat.le_refl _, pushed⟩
  | some back =>
    dsimp only
    split
    · rename_i whole
      exact ⟨positive, Nat.le_refl _, fun data length => fitting last (by omega) data (by omega)⟩
    · rename_i short
      split
      · rename_i part
        rw [minimum] at part
        have sixteen : (16 : UInt32).toNat = 16 := rfl
        exact ⟨by omega, by omega, fun data length => fitting last (by omega) data (by omega)⟩
      · exact ⟨positive, Nat.le_refl _, pushed⟩

theorem read_eq {file : Bytes} {serving : Serving} (usual : serving.Usual) (more : serving.done < file.length)
    (memory : Nat → UInt8) (result : FileRead) :
    0 < serving.room file ∧ serving.room file ≤ file.length - serving.done ∧
      ∃ next, serving.read file memory result = some next ∧ next.Usual ∧
        next.done = serving.done + transferred (serving.room file) result ∧
        next.body.content = serving.body.content ++
          readInto file memory serving.done (serving.room file) (transferred (serving.room file) result) := by
  have positive : 0 < serving.avail file := by
    rw [avail]
    omega
  obtain ⟨some_, fewer, writes⟩ := write_getAppendBuf usual.default usual.minimum positive (Nat.min_le_left _ _)
  have inside : serving.room file ≤ file.length - serving.done := Nat.le_trans fewer (Nat.min_le_right _ _)
  have isSome : ((serving.body.getAppendBuf (serving.avail file)).1.write (readInto file memory serving.done
      (serving.room file) (transferred (serving.room file) result))).isSome :=
    writes _ (length_readInto memory (transferred_le (serving.room file) result) inside)
  obtain ⟨body, wrote⟩ := Option.isSome_iff_exists.mp isSome
  obtain ⟨content, -, default, minimum⟩ := Cord.content_getAppendBuf serving.body (serving.avail file)
  obtain ⟨content', -, default', minimum'⟩ := Cord.write_eq_some wrote
  refine ⟨some_, inside, { done := _, body }, ?_, ⟨?_, ?_⟩, rfl, content'.trans (by rw [content])⟩
  · rw [read, wrote]
    rfl
  · exact default'.trans (default.trans usual.default)
  · exact minimum'.trans (minimum.trans usual.minimum)

/-! ## The reads in their order -/

section Reads

variable (file : Bytes) (memory : Nat → Nat → UInt8) (results : Nat → FileRead)

/-- The state in front of a read, as long as there is anything to read. -/
def before : Nat → Serving
  | 0 => .start
  | number + 1 =>
    ((before number).read file (memory number) (results number)).getD (before number)

/-- The loop ends in front of the read, or with it. -/
def Stops (number : Nat) : Prop :=
  file.length ≤ (before file memory results number).done ∨ results number = .count 0

variable {file memory results}

theorem before_usual (number : Nat)
    (more : ∀ earlier < number, (before file memory results earlier).done < file.length) :
    (before file memory results number).Usual := by
  induction number with
  | zero => exact ⟨rfl, rfl⟩
  | succ number inductionHypothesis =>
    have usual := inductionHypothesis fun earlier below => more earlier (by omega)
    obtain ⟨-, -, next, read, usual', -⟩ :=
      read_eq usual (more number (Nat.lt_succ_self _)) (memory number) (results number)
    rw [before, read]
    exact usual'

/-- What a read does to the state in front of it. -/
theorem before_succ {number : Nat}
    (more : ∀ earlier ≤ number, (before file memory results earlier).done < file.length) :
    let serving := before file memory results number
    let next := before file memory results (number + 1)
    let bytes := transferred (serving.room file) (results number)
    serving.read file (memory number) (results number) = some next ∧ 0 < serving.room file ∧
      serving.room file ≤ file.length - serving.done ∧ next.done = serving.done + bytes ∧
      next.body.content = serving.body.content ++
        readInto file (memory number) serving.done (serving.room file) bytes := by
  have usual := before_usual number fun earlier below => more earlier (Nat.le_of_lt below)
  obtain ⟨some_, inside, next, read, -, done, content⟩ :=
    read_eq usual (more number (Nat.le_refl _)) (memory number) (results number)
  have same : before file memory results (number + 1) = next := by rw [before, read]; rfl
  dsimp only
  rw [same]
  exact ⟨read, some_, inside, done, content⟩

/-- The loop goes from read to read until it stops. -/
theorem loop_eq (turns number : Nat) (goes : ∀ earlier < number, ¬ Stops file memory results earlier) :
    loop file memory results (turns + number) 0 .start =
      loop file memory results turns number (before file memory results number) := by
  induction number generalizing turns with
  | zero => rfl
  | succ number inductionHypothesis =>
    have more : ∀ earlier ≤ number, (before file memory results earlier).done < file.length :=
      fun earlier below => not_le.mp fun whole => goes earlier (by omega) (.inl whole)
    obtain ⟨read, some_, -⟩ := before_succ more
    have here := goes number (Nat.lt_succ_self _)
    rw [Stops, not_or] at here
    rw [← Nat.add_assoc, Nat.add_right_comm,
      inductionHypothesis (turns + 1) fun earlier below => goes earlier (by omega),
      loop, if_neg here.1, if_neg (by omega), read, Option.bind_some, if_neg here.2]

/-- A loop that stops nowhere does not end. -/
theorem loop_none (goes : ∀ number, ¬ Stops file memory results number) (turns : Nat) :
    loop file memory results turns 0 .start = none := by
  have unrolled := @loop_eq file memory results 0 turns fun earlier _ => goes earlier
  rw [Nat.zero_add] at unrolled
  rw [unrolled]
  rfl

/-- How the loop ends where it stops first. -/
theorem loop_stops {number : Nat} (goes : ∀ earlier < number, ¬ Stops file memory results earlier)
    (stops : Stops file memory results number) {turns : Nat} (enough : number + 1 ≤ turns) :
    loop file memory results turns 0 .start =
      some (if file.length ≤ (before file memory results number).done then before file memory results number
        else before file memory results (number + 1)) := by
  obtain ⟨spare, rfl⟩ := Nat.exists_eq_add_of_le' enough
  have turns : spare + (number + 1) = spare + 1 + number := by omega
  rw [turns, loop_eq (spare + 1) number goes, loop]
  split
  · rfl
  · rename_i more
    have all : ∀ earlier ≤ number, (before file memory results earlier).done < file.length := by
      intro earlier below
      cases Nat.lt_or_eq_of_le below with
      | inl earlier_ => exact not_le.mp fun whole => goes earlier earlier_ (.inl whole)
      | inr same => exact same ▸ not_le.mp more
    obtain ⟨read, some_, -⟩ := before_succ all
    rw [if_neg (by omega), read, Option.bind_some, if_pos (stops.resolve_left more)]

theorem done_succ (number : Nat) :
    (before file memory results number).done ≤ (before file memory results (number + 1)).done := by
  rw [before]
  cases read : (before file memory results number).read file (memory number) (results number) with
  | none => exact Nat.le_refl _
  | some next =>
    obtain ⟨body, -, same⟩ := Option.map_eq_some_iff.mp read
    rw [← same]
    exact Nat.le_add_right _ _

theorem done_mono {first second : Nat} (order : first ≤ second) :
    (before file memory results first).done ≤ (before file memory results second).done :=
  monotone_nat_of_le_succ (f := fun number => (before file memory results number).done) done_succ order

/-- No more is counted as read than the body is long, and no more than the file is long. -/
theorem done_le {number : Nat} (more : ∀ earlier < number, (before file memory results earlier).done < file.length) :
    (before file memory results number).done ≤ (before file memory results number).body.content.length ∧
      (before file memory results number).done ≤ file.length := by
  induction number with
  | zero => exact ⟨Nat.le_refl _, Nat.zero_le _⟩
  | succ number inductionHypothesis =>
    obtain ⟨counted, -⟩ := inductionHypothesis fun earlier below => more earlier (by omega)
    obtain ⟨-, -, inside, done, content⟩ := before_succ fun earlier below => more earlier (Nat.lt_succ_of_le below)
    have fewer := transferred_le ((before file memory results number).room file) (results number)
    have here := more number (Nat.lt_succ_self _)
    rw [content, List.length_append, length_readInto _ fewer inside, done]
    omega

def Spoiled (serving : Serving) : Prop := serving.done < serving.body.content.length

theorem spoiled_succ {number : Nat} (more : ∀ earlier ≤ number, (before file memory results earlier).done < file.length)
    (spoils : Spoiled (before file memory results number) ∨
      transferred ((before file memory results number).room file) (results number) <
        (before file memory results number).room file) : Spoiled (before file memory results (number + 1)) := by
  obtain ⟨-, -, inside, done, content⟩ := before_succ more
  have fewer := transferred_le ((before file memory results number).room file) (results number)
  have counted := (done_le fun earlier below => more earlier (Nat.le_of_lt below)).1
  rw [Spoiled] at spoils ⊢
  rw [content, List.length_append, length_readInto _ fewer inside, done]
  omega

/-- What stands in the body between the bytes of the file stays there. -/
theorem spoiled_later {first second : Nat} (order : first ≤ second)
    (more : ∀ earlier < second, (before file memory results earlier).done < file.length)
    (spoiled : Spoiled (before file memory results first)) : Spoiled (before file memory results second) := by
  induction second, order using Nat.le_induction with
  | base => exact spoiled
  | succ second order inductionHypothesis =>
    exact spoiled_succ (fun earlier below => more earlier (Nat.lt_succ_of_le below))
      (.inl (inductionHypothesis fun earlier below => more earlier (by omega)))

/-- A read that gets all it asks for adds the next bytes of the file. -/
theorem content_succ {number : Nat} (more : ∀ earlier ≤ number, (before file memory results earlier).done < file.length)
    (exact_ : (before file memory results number).body.content = file.take (before file memory results number).done)
    (full : transferred ((before file memory results number).room file) (results number) =
      (before file memory results number).room file) :
    (before file memory results (number + 1)).body.content =
      file.take (before file memory results (number + 1)).done := by
  obtain ⟨-, -, -, done, content⟩ := before_succ more
  rw [content, done, exact_, full, readInto, Nat.sub_self, List.range'_zero, List.map_nil, List.append_nil,
    List.take_add]

/-! ## Full reads -/

/-- There is no room in the last block. -/
def Packed (body : Cord) : Prop := ∀ back, body.buffers.getLast? = some back → back.available = 0

theorem getAppendBuf_packed {body : Cord} (packed : Packed body) (minimum : body.minimumAppendSize = 16)
    {reqsize : Nat} (positive : 0 < reqsize) : body.getAppendBuf reqsize = (body.pushAlloc reqsize, reqsize) := by
  rw [Cord.getAppendBuf]
  cases last : body.buffers.getLast? with
  | none => rfl
  | some back =>
    have sixteen : (16 : UInt32).toNat = 16 := rfl
    dsimp only
    rw [packed back last, if_neg (by omega), minimum, if_neg (by omega)]

/-- Behind packed blocks there is all the space that is asked for. -/
theorem room_packed {file : Bytes} {serving : Serving} (usual : serving.Usual) (packed : Packed serving.body)
    (more : serving.done < file.length) :
    serving.body.getAppendBuf (serving.avail file) =
        (serving.body.pushAlloc (serving.avail file), serving.avail file) ∧
      serving.room file = min 4096 (file.length - serving.done) := by
  have positive : 0 < serving.avail file := by
    rw [avail]
    omega
  have space := getAppendBuf_packed packed usual.minimum positive
  exact ⟨space, by rw [room, space, avail]⟩

/-- A block of 4096 bytes has no room for more. -/
theorem packed_write {body next : Cord} (default : body.defaultBufferSize = 1024) {data : Bytes}
    (length : data.length = 4096) (wrote : (body.pushAlloc 4096).write data = some next) : Packed next := by
  have capacity : (CordBuffer.alloc (max body.defaultBufferSize (.ofNat 4096))).capacity = 4096 := by
    rw [default]
    decide
  intro back last
  rw [Cord.write, Cord.pushAlloc] at wrote
  simp only [List.getLast?_concat, List.dropLast_concat] at wrote
  split at wrote
  · cases wrote
    rw [List.getLast?_concat, Option.some.injEq] at last
    subst last
    have none_ : (CordBuffer.alloc (max body.defaultBufferSize (.ofNat 4096))).capacity - data.length = 0 := by
      rw [capacity, length]
    exact none_
  · cases wrote

theorem before_full {number : Nat} (whole : ∀ earlier < number, 4096 * earlier < file.length)
    (full : ∀ earlier < number, FullRead file results earlier) :
    (before file memory results number).done = min (4096 * number) file.length ∧
      (before file memory results number).body.content = file.take (before file memory results number).done ∧
      (4096 * number < file.length → Packed (before file memory results number).body) := by
  induction number with
  | zero => exact ⟨by simp [before, start], rfl, fun _ back last => by cases last⟩
  | succ number inductionHypothesis =>
    obtain ⟨done, content, packed⟩ := inductionHypothesis (fun earlier below => whole earlier (by omega))
      fun earlier below => full earlier (by omega)
    have here := whole number (Nat.lt_succ_self _)
    rw [Nat.min_eq_left (Nat.le_of_lt here)] at done
    have more : ∀ earlier ≤ number, (before file memory results earlier).done < file.length :=
      fun earlier below => Nat.lt_of_le_of_lt (done_mono below) (by omega)
    have usual := before_usual number fun earlier below => more earlier (Nat.le_of_lt below)
    obtain ⟨space, room_⟩ := room_packed usual (packed here) (more number (Nat.le_refl _))
    rw [done] at room_
    have all : transferred ((before file memory results number).room file) (results number) =
        (before file memory results number).room file := by
      obtain ⟨bytes, result, enough⟩ := full number (Nat.lt_succ_self _)
      rw [result, room_]
      exact Nat.min_eq_right enough
    obtain ⟨read, -, inside, done', -⟩ := before_succ more
    refine ⟨?_, content_succ more content all, fun further => ?_⟩
    · rw [done', all, done, room_]
      omega
    · have whole_ : (before file memory results number).avail file = 4096 := by
        rw [avail, done]
        omega
      rw [Serving.read, space] at read
      obtain ⟨body, wrote, same⟩ := Option.map_eq_some_iff.mp read
      rw [whole_] at wrote
      rw [← same]
      refine packed_write usual.default ?_ wrote
      rw [length_readInto _ (Nat.le_of_eq all) inside, room_]
      omega

/-- The first read that is not full spoils the body. -/
theorem spoiled_of_not_full {number : Nat} (whole : ∀ earlier ≤ number, 4096 * earlier < file.length)
    (full : ∀ earlier < number, FullRead file results earlier) (short : ¬ FullRead file results number) :
    (before file memory results number).done < file.length ∧ Spoiled (before file memory results (number + 1)) := by
  have here := whole number (Nat.le_refl _)
  obtain ⟨done, -, packed⟩ :=
    @before_full file memory results number (fun earlier below => whole earlier (Nat.le_of_lt below)) full
  rw [Nat.min_eq_left (Nat.le_of_lt here)] at done
  have more : ∀ earlier ≤ number, (before file memory results earlier).done < file.length :=
    fun earlier below => Nat.lt_of_le_of_lt (done_mono below) (by omega)
  have usual := before_usual number fun earlier below => more earlier (Nat.le_of_lt below)
  obtain ⟨-, room_⟩ := room_packed usual (packed here) (more number (Nat.le_refl _))
  rw [done] at room_
  refine ⟨by omega, spoiled_succ more (.inr ?_)⟩
  rw [room_]
  cases result : results number with
  | error =>
    rw [transferred]
    omega
  | count bytes =>
    have fewer : bytes < min 4096 (file.length - 4096 * number) :=
      not_le.mp fun enough => short ⟨bytes, result, enough⟩
    rw [transferred]
    omega

end Reads

end Serving

open Serving

/-- A read finds the end of the file before all of it has been read. -/
def EndsEarly (file : Bytes) (memory : Nat → Nat → UInt8) (results : Nat → FileRead) : Prop :=
  ∃ number, (before file memory results number).done < file.length ∧ results number = .count 0

theorem serves_of_full {file : Bytes} (memory : Nat → Nat → UInt8) {results : Nat → FileRead}
    (full : ∀ number, 4096 * number < file.length → FullRead file results number) : Serves file memory results := by
  -- The number of reads.
  let reads := (file.length + 4095) / 4096
  have whole : ∀ earlier < reads, 4096 * earlier < file.length := by
    intro earlier below
    have quotient : earlier < (file.length + 4095) / 4096 := below
    omega
  have all : file.length ≤ 4096 * reads := by
    change file.length ≤ 4096 * ((file.length + 4095) / 4096)
    omega
  have state {number : Nat} (reached : number ≤ reads) := @before_full file memory results number
    (fun earlier below => whole earlier (by omega)) fun earlier below => full earlier (whole earlier (by omega))
  obtain ⟨done, content, -⟩ := state (Nat.le_refl reads)
  rw [Nat.min_eq_right all] at done
  have goes : ∀ earlier < reads, ¬ Stops file memory results earlier := by
    intro earlier below stops
    obtain ⟨before_, -⟩ := state (Nat.le_of_lt below)
    have here := whole earlier below
    obtain ⟨bytes, result, enough⟩ := full earlier here
    cases stops with
    | inl finished => omega
    | inr nothing =>
      rw [result, FileRead.count.injEq] at nothing
      omega
  refine ⟨reads + 1, fun turns enough => ⟨before file memory results reads, ?_, fun _ => ?_⟩⟩
  · rw [loop_stops goes (.inl (Nat.le_of_eq done.symm)) enough, if_pos (Nat.le_of_eq done.symm)]
  · rw [content, done, List.take_length]

theorem serves_of_endsEarly {file : Bytes} {memory : Nat → Nat → UInt8} {results : Nat → FileRead}
    (ends : EndsEarly file memory results) : Serves file memory results := by
  obtain ⟨number, more, nothing⟩ := ends
  have some_ : ∃ number, Stops file memory results number := ⟨number, .inr nothing⟩
  classical
  have goes : ∀ earlier < Nat.find some_, ¬ Stops file memory results earlier := fun earlier => Nat.find_min some_
  have stops := Nat.find_spec some_
  have first : Nat.find some_ ≤ number := Nat.find_min' some_ (.inr nothing)
  have unfinished : (before file memory results (Nat.find some_)).done < file.length :=
    Nat.lt_of_le_of_lt (done_mono first) more
  have all : ∀ earlier ≤ Nat.find some_, (before file memory results earlier).done < file.length :=
    fun earlier below => Nat.lt_of_le_of_lt (done_mono below) unfinished
  have last := stops.resolve_left (not_le.mpr unfinished)
  obtain ⟨-, -, -, done, -⟩ := before_succ all
  refine ⟨Nat.find some_ + 1, fun turns enough => ⟨_, loop_stops goes stops enough, fun finished => ?_⟩⟩
  rw [if_neg (not_le.mpr unfinished), done, last, transferred, Nat.zero_min] at finished
  omega

/-- When the whole file has been read and nothing else is in the body, all reads were full. -/
theorem full_of_content {file : Bytes} {memory : Nat → Nat → UInt8} {results : Nat → FileRead} {reads : Nat}
    (more : ∀ earlier < reads, (before file memory results earlier).done < file.length)
    (finished : file.length ≤ (before file memory results reads).done)
    (content : (before file memory results reads).body.content = file) {number : Nat}
    (inside : 4096 * number < file.length) : FullRead file results number := by
  by_contra short
  -- The first read that is not full.
  have somewhere : ∃ number, 4096 * number < file.length ∧ ¬ FullRead file results number := ⟨number, inside, short⟩
  classical
  obtain ⟨here, missing⟩ := Nat.find_spec somewhere
  have full : ∀ earlier < Nat.find somewhere, FullRead file results earlier := by
    intro earlier below
    by_contra other
    exact Nat.find_min somewhere below ⟨by omega, other⟩
  obtain ⟨unfinished, spoiled⟩ := @spoiled_of_not_full file memory results _ (fun earlier below => by omega)
    full missing
  have order : Nat.find somewhere + 1 ≤ reads := by
    by_contra behind
    have mono : (before file memory results reads).done ≤ (before file memory results (Nat.find somewhere)).done :=
      done_mono (by omega)
    omega
  have later := spoiled_later order more spoiled
  rw [Spoiled, content] at later
  omega

/-- The file is served when each read is full, or when a read finds the end of the file too early. -/
theorem serves_iff (file : Bytes) (memory : Nat → Nat → UInt8) (results : Nat → FileRead) :
    Serves file memory results ↔
      (∀ number, 4096 * number < file.length → FullRead file results number) ∨ EndsEarly file memory results := by
  constructor
  · intro serves
    obtain ⟨bound, ends⟩ := serves
    by_cases some_ : ∃ number, Stops file memory results number
    · classical
      have goes : ∀ earlier < Nat.find some_, ¬ Stops file memory results earlier :=
        fun earlier => Nat.find_min some_
      have stops := Nat.find_spec some_
      obtain ⟨last, ended, right⟩ := ends (max bound (Nat.find some_ + 1)) (Nat.le_max_left _ _)
      rw [loop_stops goes stops (Nat.le_max_right _ _), Option.some.injEq] at ended
      by_cases finished : file.length ≤ (before file memory results (Nat.find some_)).done
      · have more : ∀ earlier < Nat.find some_, (before file memory results earlier).done < file.length :=
          fun earlier below => not_le.mp fun whole => goes earlier below (.inl whole)
        rw [if_pos finished] at ended
        subst ended
        have content := right (Nat.le_antisymm (done_le more).2 finished)
        exact .inl fun number inside => full_of_content more finished content inside
      · exact .inr ⟨Nat.find some_, not_le.mp finished, stops.resolve_left finished⟩
    · obtain ⟨last, ended, -⟩ := ends bound (Nat.le_refl _)
      rw [loop_none (fun number stops => some_ ⟨number, stops⟩)] at ended
      cases ended
  · intro either
    cases either with
    | inl full => exact serves_of_full memory full
    | inr early => exact serves_of_endsEarly early

/-- Two reads of one byte each leave a byte that was never read between them. -/
theorem not_serves :
    (Serving.loop (ascii "ab") (fun _ _ => 0) (fun _ => .count 1) 3 0 .start).map (·.body.content) =
        some (ascii "a" ++ [0] ++ ascii "b") ∧
      ¬ Serves (ascii "ab") (fun _ _ => 0) fun _ => .count 1 := by
  refine ⟨by decide, fun serves => ?_⟩
  obtain ⟨bound, ends⟩ := serves
  have goes : ∀ earlier < 2, ¬ Stops (ascii "ab") (fun _ _ => 0) (fun _ => .count 1) earlier := by
    unfold Stops
    decide
  have stops : Stops (ascii "ab") (fun _ _ => 0) (fun _ => .count 1) 2 := .inl (by decide)
  obtain ⟨last, ended, right⟩ := ends (max bound 3) (Nat.le_max_left _ _)
  rw [loop_stops goes stops (Nat.le_max_right _ _), Option.some.injEq] at ended
  subst ended
  exact absurd (right (by decide)) (by decide)

end OpenInstrument.Server
