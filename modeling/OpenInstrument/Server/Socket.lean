import OpenInstrument.Library.Runs
import OpenInstrument.Server.CordContent

/-! # Sockets

A `Socket` keeps what is written to it in a cord until the system takes it, and what it has read in another.  The system
may take any part of what it is offered, put a call off, or fail; a failure, and the end of what there is to read, clear
both cords.

What a poll comes to is an input here, and so are the answers of `send` and `recv`.
-/

namespace OpenInstrument.Server

/-! ## The code -/

inductive Polled where
  | ready
  /-- The time is over, or the other side has hung up. -/
  | notReady
  | failed
  deriving DecidableEq

inductive SendResult where
  | took (count : Nat)
  | again
  | failed
  deriving DecidableEq

inductive Received where
  /-- At the end there are no bytes. -/
  | data (bytes : Bytes)
  | again
  | failed
  deriving DecidableEq

/-- What the system is going to answer. -/
structure Answers where
  polls : List Polled
  sends : List SendResult
  receipts : List Received

/-- What happens to the bytes of a socket. -/
inductive SocketEvent where
  | written (data : Bytes)
  /-- The system took the bytes, and was told whether more are to come. -/
  | sent (data : Bytes) (more : Bool)
  deriving DecidableEq

/-- `Socket`.  The last two fields are not in the program: the events since both cords were last cleared, and those
before. -/
structure Socket where
  connected : Bool
  writeBuffer : Cord
  readBuffer : Cord
  events : List SocketEvent
  past : List (List SocketEvent)

/-- How a call ends. -/
inductive Ending where
  | returned
  | threw
  | undefined
  /-- The system has not answered yet. -/
  | waiting
  deriving DecidableEq

structure Call where
  ending : Ending
  answers : Answers
  socket : Socket

def Call.andThen (call : Call) (next : Answers → Socket → Call) : Call :=
  match call.ending with
  | .returned => next call.answers call.socket
  | _ => call

/-- The loop over the bytes of one block.  `size` is the size of the whole cord. -/
def sendBlock (size : UInt64) : List SendResult → Bytes → Ending × List SendResult × List SocketEvent
  | sends, [] => (.returned, sends, [])
  | [], _ :: _ => (.waiting, [], [])
  | .again :: sends, byte :: left => sendBlock size sends (byte :: left)
  | .failed :: sends, _ :: _ => (.threw, sends, [])
  | .took count :: sends, byte :: left =>
    let rest := sendBlock size sends ((byte :: left).drop count)
    (rest.1, rest.2.1, .sent ((byte :: left).take count) (size.toNat > (byte :: left).length) :: rest.2.2)

namespace Socket

def new (connected : Bool) : Socket :=
  { connected, writeBuffer := .empty 1024 16, readBuffer := .empty 1024 16, events := [], past := [] }

def abort (socket : Socket) : Socket :=
  { connected := false, writeBuffer := socket.writeBuffer.clear, readBuffer := socket.readBuffer.clear, events := []
    past := socket.past ++ [socket.events] }

def log (socket : Socket) (events : List SocketEvent) : Socket := { socket with events := socket.events ++ events }

/-- The loop of `AttemptFlush`. -/
def flushLoop (receipts : List Received) : List Polled → List SendResult → Socket → Call
  | [], sends, socket =>
    { ending := if socket.writeBuffer.size = 0 then .returned else .waiting, answers := ⟨[], sends, receipts⟩, socket }
  | polled :: polls, sends, socket =>
    if socket.writeBuffer.size = 0 then { ending := .returned, answers := ⟨polled :: polls, sends, receipts⟩, socket }
    else
      match polled with
      | .notReady => { ending := .returned, answers := ⟨polls, sends, receipts⟩, socket }
      | .failed => { ending := .threw, answers := ⟨polls, sends, receipts⟩, socket }
      | .ready =>
        match socket.writeBuffer.buffers, socket.writeBuffer.popFront with
        | front :: _, some writeBuffer =>
          if front.size = 0 then flushLoop receipts polls sends { socket with writeBuffer }
          else
            match sendBlock socket.writeBuffer.size sends front.unread with
            | (.returned, sends, events) => flushLoop receipts polls sends ({ socket with writeBuffer }.log events)
            | (.threw, sends, events) =>
              { ending := .threw, answers := ⟨polls, sends, receipts⟩, socket := (socket.log events).abort }
            | (ending, sends, events) =>
              { ending, answers := ⟨polls, sends, receipts⟩, socket := socket.log events }
        | _, _ => { ending := .undefined, answers := ⟨polls, sends, receipts⟩, socket }

def attemptFlush (answers : Answers) (socket : Socket) : Call :=
  if socket.connected then flushLoop answers.receipts answers.polls answers.sends socket
  else { ending := .returned, answers, socket }

def close (answers : Answers) (socket : Socket) : Call :=
  (socket.attemptFlush answers).andThen fun answers socket => { ending := .returned, answers, socket := socket.abort }

/-- The loop of `Read`. -/
def readLoop (sends : List SendResult) : List Polled → List Received → Socket → Call
  | [], receipts, socket => { ending := .waiting, answers := ⟨[], sends, receipts⟩, socket }
  | .notReady :: polls, receipts, socket => { ending := .returned, answers := ⟨polls, sends, receipts⟩, socket }
  | .failed :: polls, receipts, socket => { ending := .threw, answers := ⟨polls, sends, receipts⟩, socket }
  | .ready :: polls, [], socket => { ending := .waiting, answers := ⟨polls, sends, []⟩, socket }
  | .ready :: polls, .again :: receipts, socket => readLoop sends polls receipts socket
  | .ready :: polls, .failed :: receipts, socket =>
    (socket.close ⟨polls, sends, receipts⟩).andThen fun answers socket => { ending := .threw, answers, socket }
  | .ready :: polls, .data [] :: receipts, socket =>
    { ending := .returned, answers := ⟨polls, sends, receipts⟩, socket := socket.abort }
  | .ready :: polls, .data (byte :: bytes) :: receipts, socket =>
    match socket.readBuffer.copyFrom (byte :: bytes) with
    | none => { ending := .undefined, answers := ⟨polls, sends, receipts⟩, socket }
    | some readBuffer =>
      { ending := .returned, answers := ⟨polls, sends, receipts⟩, socket := { socket with readBuffer } }

def read (answers : Answers) (socket : Socket) : Call :=
  if socket.connected then readLoop answers.sends answers.polls answers.receipts socket
  else { ending := .returned, answers, socket }

/-- The three functions `Write`: the bytes are copied to the cord, which is flushed, and whatever is there is read. -/
def write (data : Bytes) (copied : Option Cord) (answers : Answers) (socket : Socket) : Call :=
  match copied with
  | none => { ending := .undefined, answers, socket }
  | some writeBuffer =>
    (({ socket with writeBuffer }.log [.written data]).attemptFlush answers).andThen read

/-- `Connect` to one address.  A socket is made even if there is no connection in the end. -/
def connect (succeeds : Bool) (answers : Answers) (socket : Socket) : Call :=
  (if socket.connected then socket.close answers else { ending := .returned, answers, socket }).andThen
    fun answers socket =>
      { ending := if succeeds then .returned else .threw, answers, socket := { socket with connected := true } }

end Socket

/-! ## Runs -/

inductive SocketOp where
  | write (data : Bytes)
  | writeCord (src : Cord)
  | flush
  | read
  /-- The owner does something to the cord that `read_buffer` hands out. -/
  | take (op : CordOp)
  | abort
  | close
  | connect (succeeds : Bool)

def Socket.call (socket : Socket) (answers : Answers) : SocketOp → Call
  | .write data => socket.write data (socket.writeBuffer.copyFrom data) answers
  | .writeCord src => socket.write src.content (socket.writeBuffer.copyBlocks src.buffers) answers
  | .flush => socket.attemptFlush answers
  | .read => socket.read answers
  | .take op =>
    { ending := .returned, answers, socket := { socket with readBuffer := (socket.readBuffer.apply op).2 } }
  | .abort => { ending := .returned, answers, socket := socket.abort }
  | .close => socket.close answers
  | .connect succeeds => socket.connect succeeds answers

/-- The next call, once the last one has come to an end. -/
def Socket.step (socket : Socket) (action : SocketOp × Answers) : Option Socket :=
  let call := socket.call action.2 action.1
  if call.ending = .returned ∨ call.ending = .threw then some call.socket else none

/-! ## What becomes of the bytes -/

def SocketEvent.sentData : SocketEvent → Bytes
  | .sent data _ => data
  | .written _ => []

def SocketEvent.writtenData : SocketEvent → Bytes
  | .sent _ _ => []
  | .written data => data

/-- What the system took. -/
def sentOf (events : List SocketEvent) : Bytes := events.flatMap SocketEvent.sentData

def writtenOf (events : List SocketEvent) : Bytes := events.flatMap SocketEvent.writtenData

@[simp] theorem sentOf_append (first second : List SocketEvent) :
    sentOf (first ++ second) = sentOf first ++ sentOf second := List.flatMap_append

@[simp] theorem writtenOf_append (first second : List SocketEvent) :
    writtenOf (first ++ second) = writtenOf first ++ writtenOf second := List.flatMap_append

@[simp] theorem sentOf_written (data : Bytes) : sentOf [.written data] = [] := rfl

@[simp] theorem writtenOf_written (data : Bytes) : writtenOf [.written data] = data := List.append_nil data

/-- Blocks can be allocated for a cord. -/
structure Cord.Ready (cord : Cord) : Prop where
  usable : cord.Usable
  blocks : cord.defaultBufferSize.toNat ≤ 2 ^ 31

/-- Of the bytes written since the cords were cleared, the first ones were sent, in order, and the cord has the others.
`data` is what was written from the beginning. -/
structure Socket.Sound (data : Bytes) (socket : Socket) : Prop where
  current : sentOf socket.events ++ socket.writeBuffer.content = writtenOf socket.events
  past : ∀ events ∈ socket.past, sentOf events <+: writtenOf events
  all : writtenOf (socket.past.flatten ++ socket.events) = data
  counted : socket.writeBuffer.SizeIsLength
  writes : socket.writeBuffer.Ready
  reads : socket.readBuffer.Ready

/-- `recv` is given room for 4096 bytes. -/
def FitReceipts (receipts : List Received) : Prop := ∀ bytes, Received.data bytes ∈ receipts → bytes.length ≤ 4096

/-- A call that comes to an end leaves the socket sound. -/
structure Call.Fine (data : Bytes) (call : Call) : Prop where
  sound : call.ending = .returned ∨ call.ending = .threw → call.socket.Sound data
  defined : call.ending ≠ .undefined
  fit : FitReceipts call.answers.receipts

namespace Cord

variable {cord next : Cord}

theorem ready_empty : (Cord.empty 1024 16).Ready := ⟨⟨by decide, nofun⟩, by decide⟩

theorem Ready.clear (ready : cord.Ready) : cord.clear.Ready := ⟨usable_apply ready.usable .clear, ready.blocks⟩

theorem copyBlocks_default {buffers : List CordBuffer} (copied : cord.copyBlocks buffers = some next) :
    next.defaultBufferSize = cord.defaultBufferSize := by
  induction buffers generalizing cord with
  | nil =>
    cases copied
    rfl
  | cons buffer buffers inductionHypothesis =>
    rw [copyBlocks] at copied
    split at copied
    · obtain ⟨middle, first, rest⟩ := Option.bind_eq_some_iff.mp copied
      exact (inductionHypothesis rest).trans (copyBytes_eq_some first).2.2.1
    · have later := inductionHypothesis copied
      exact later

theorem apply_default (cord : Cord) (op : CordOp) : (cord.apply op).2.defaultBufferSize = cord.defaultBufferSize := by
  cases op with
  | copyFrom data =>
    show (cord.outcomeOf (cord.copyFrom data)).2.defaultBufferSize = _
    cases copied : cord.copyFrom data with
    | none => rfl
    | some next => exact (copyBytes_eq_some copied).2.2.1
  | copyFromCord src =>
    show (cord.outcomeOf (cord.copyBlocks src.buffers)).2.defaultBufferSize = _
    cases copied : cord.copyBlocks src.buffers with
    | none => rfl
    | some next => exact copyBlocks_default copied
  | append data => rfl
  | consume bytes =>
    show (cord.consume bytes).2.defaultBufferSize = _
    unfold consume
    split
    · rfl
    · split
      · rfl
      · dsimp only
        split <;> rfl
  | popFront =>
    show (cord.outcomeOf cord.popFront).2.defaultBufferSize = _
    unfold popFront
    split <;> rfl
  | popBack =>
    show (cord.outcomeOf cord.popBack).2.defaultBufferSize = _
    unfold popBack
    cases cord.buffers.getLast? <;> rfl
  | clear => rfl

theorem Ready.apply (ready : cord.Ready) (op : CordOp) : (cord.apply op).2.Ready :=
  ⟨usable_apply ready.usable op, by rw [apply_default]; exact ready.blocks⟩

/-- Whatever is copied to a cord is there in the end, if it is no more than a block can hold. -/
theorem Ready.copyFrom (ready : cord.Ready) {data : Bytes} (small : data.length ≤ 2 ^ 31) :
    ∃ next, cord.copyFrom data = some next := by
  rw [Cord.copyFrom, Nat.mod_eq_of_lt (by omega), List.take_length]
  by_cases nonempty : data = []
  · subst nonempty
    exact ⟨cord, rfl⟩
  · exact Option.isSome_iff_exists.mp
      ((copyBytes_isSome_iff ready.usable nonempty (by omega) (Nat.le_refl _)).mpr ⟨ready.blocks, by omega⟩)

end Cord

namespace Socket

variable {data : Bytes} {socket : Socket} {answers : Answers} {call : Call}

theorem sound_new (connected : Bool) : (new connected).Sound [] where
  current := rfl
  past := nofun
  all := rfl
  counted := rfl
  writes := Cord.ready_empty
  reads := Cord.ready_empty

/-- Both cords are cleared, with more sent than the cord knows perhaps. -/
theorem Sound.abort (sound : socket.Sound data) {events : List SocketEvent}
    (sent : sentOf events <+: socket.writeBuffer.content) (silent : writtenOf events = []) :
    (socket.log events).abort.Sound data where
  current := rfl
  past earlier member := by
    rcases List.mem_append.mp member with before | now
    · exact sound.past earlier before
    · obtain rfl := List.mem_singleton.mp now
      show sentOf (socket.events ++ events) <+: writtenOf (socket.events ++ events)
      rw [sentOf_append, writtenOf_append, silent, List.append_nil, ← sound.current]
      exact (List.prefix_append_right_inj _).mpr sent
  all := by
    show writtenOf ((socket.past ++ [socket.events ++ events]).flatten ++ []) = data
    rw [List.flatten_append, List.flatten_singleton, List.append_nil, ← List.append_assoc, writtenOf_append, silent,
      List.append_nil, sound.all]
  counted := rfl
  writes := sound.writes.clear
  reads := sound.reads.clear

theorem Sound.clear (sound : socket.Sound data) : socket.abort.Sound data := by
  have aborted := sound.abort (show sentOf [] <+: _ from List.nil_prefix) rfl
  simpa [Socket.log] using aborted

/-- A call that has only to end. -/
theorem Sound.ends (sound : socket.Sound data) (fit : FitReceipts answers.receipts) {ending : Ending}
    (defined : ending ≠ .undefined) : Call.Fine data { ending, answers, socket } := ⟨fun _ => sound, defined, fit⟩

end Socket

/-- Two calls, one after the other. -/
theorem Call.Fine.andThen {data : Bytes} {call : Call} (fine : call.Fine data) {next : Answers → Socket → Call}
    (then_ : ∀ answers socket, FitReceipts answers.receipts → socket.Sound data → (next answers socket).Fine data) :
    (call.andThen next).Fine data := by
  rw [Call.andThen]
  split
  · rename_i returned
    exact then_ _ _ fine.fit (fine.sound (.inl returned))
  · exact fine

/-- The loop over a block sends the first bytes of it, and all when it comes to its end. -/
theorem sendBlock_spec (size : UInt64) (sends : List SendResult) (left : Bytes) :
    sentOf (sendBlock size sends left).2.2 <+: left ∧
      ((sendBlock size sends left).1 = .returned → sentOf (sendBlock size sends left).2.2 = left) ∧
      writtenOf (sendBlock size sends left).2.2 = [] ∧ (sendBlock size sends left).1 ≠ .undefined := by
  induction sends generalizing left with
  | nil =>
    cases left with
    | nil => exact ⟨List.prefix_rfl, fun _ => rfl, rfl, nofun⟩
    | cons byte left => exact ⟨List.nil_prefix, nofun, rfl, nofun⟩
  | cons answer sends inductionHypothesis =>
    cases left with
    | nil => exact ⟨List.prefix_rfl, fun _ => rfl, rfl, by cases answer <;> nofun⟩
    | cons byte left =>
      cases answer with
      | again => exact inductionHypothesis (byte :: left)
      | failed => exact ⟨List.nil_prefix, nofun, rfl, nofun⟩
      | took count =>
        obtain ⟨first, all, silent, defined⟩ := inductionHypothesis ((byte :: left).drop count)
        have whole := List.take_append_drop count (byte :: left)
        refine ⟨?_, fun returned => ?_, silent, defined⟩
        · have longer := (List.prefix_append_right_inj ((byte :: left).take count)).mpr first
          rw [whole] at longer
          exact longer
        · exact (congrArg ((byte :: left).take count ++ ·) (all returned)).trans whole

namespace Socket

variable {data : Bytes} {socket : Socket} {answers : Answers}

/-- What is behind the first block is left when that is taken off. -/
theorem content_of_popFront {front : CordBuffer} {rest : List CordBuffer} {popped : Cord}
    (buffers : socket.writeBuffer.buffers = front :: rest) (pops : socket.writeBuffer.popFront = some popped) :
    popped.buffers = rest ∧ socket.writeBuffer.content = front.unread ++ popped.content := by
  rw [Cord.popFront, buffers, Option.some.injEq] at pops
  rw [← pops, Cord.content, buffers]
  exact ⟨rfl, rfl⟩

/-- The first block is taken off the cord when its bytes have been sent. -/
theorem Sound.popFront (sound : socket.Sound data) {front : CordBuffer} {rest : List CordBuffer} {popped : Cord}
    (buffers : socket.writeBuffer.buffers = front :: rest) (pops : socket.writeBuffer.popFront = some popped)
    {events : List SocketEvent} (sent : sentOf events = front.unread) (silent : writtenOf events = []) :
    (({ socket with writeBuffer := popped } : Socket).log events).Sound data := by
  have correct := (Cord.correct_popFront_iff sound.counted).mpr (fun none_ => nomatch buffers.symm.trans none_)
  have same : socket.writeBuffer.apply .popFront = (.returned [], popped) := by
    rw [Cord.apply, pops]
    rfl
  have ready := sound.writes.apply .popFront
  rw [Cord.Correct, same] at correct
  rw [same] at ready
  refine ⟨?_, sound.past, ?_, correct.1, ready, sound.reads⟩
  · show sentOf (socket.events ++ events) ++ popped.content = writtenOf (socket.events ++ events)
    rw [sentOf_append, writtenOf_append, silent, List.append_nil, ← sound.current,
      (content_of_popFront buffers pops).2, sent, List.append_assoc]
  · show writtenOf (socket.past.flatten ++ (socket.events ++ events)) = data
    rw [← List.append_assoc, writtenOf_append, silent, List.append_nil, sound.all]

/-- A cord that is not empty has a first block. -/
theorem Sound.exists_front (sound : socket.Sound data) (nonempty : socket.writeBuffer.size ≠ 0) :
    ∃ front rest popped, socket.writeBuffer.buffers = front :: rest ∧ socket.writeBuffer.popFront = some popped := by
  match buffers : socket.writeBuffer.buffers with
  | front :: rest => exact ⟨front, rest, _, rfl, by rw [Cord.popFront, buffers]⟩
  | [] =>
    have counted : socket.writeBuffer.size.toNat = socket.writeBuffer.content.length := sound.counted
    rw [Cord.content, buffers] at counted
    exact absurd (UInt64.toNat_inj.mp counted) nonempty

theorem flushLoop_fine {receipts : List Received} {polls : List Polled} {sends : List SendResult}
    (fit : FitReceipts receipts) (sound : socket.Sound data) :
    (flushLoop receipts polls sends socket).Fine data := by
  induction polls generalizing sends socket with
  | nil =>
    unfold flushLoop
    exact sound.ends fit (by split <;> nofun)
  | cons polled polls inductionHypothesis =>
    unfold flushLoop
    split
    · exact sound.ends fit nofun
    · rename_i nonempty
      cases polled with
      | notReady => exact sound.ends fit nofun
      | failed => exact sound.ends fit nofun
      | ready =>
        obtain ⟨front, rest, popped, buffers, pops⟩ := sound.exists_front nonempty
        obtain ⟨first, all, silent, defined⟩ := sendBlock_spec socket.writeBuffer.size sends front.unread
        simp only [buffers, pops]
        split
        · rename_i empty
          have nothing : front.unread = [] := List.length_eq_zero_iff.mp (front.length_unread.trans empty)
          have next := sound.popFront buffers pops (show sentOf [] = front.unread from nothing.symm) rfl
          simp only [Socket.log, List.append_nil] at next
          exact inductionHypothesis next
        · split
          · rename_i left events sending
            rw [sending] at all silent
            exact inductionHypothesis (sound.popFront buffers pops (all rfl) silent)
          · rename_i left events sending
            rw [sending] at first silent
            refine (sound.abort (first.trans ?_) silent).ends fit nofun
            rw [Cord.content, buffers, List.map_cons, List.flatten_cons]
            exact List.prefix_append _ _
          · rename_i ending left events other others sending
            rw [sending] at defined
            exact ⟨fun either => either.elim (absurd · other) (absurd · others), defined, fit⟩

theorem attemptFlush_fine (fit : FitReceipts answers.receipts) (sound : socket.Sound data) :
    (socket.attemptFlush answers).Fine data := by
  rw [attemptFlush]
  split
  · exact flushLoop_fine fit sound
  · exact sound.ends fit nofun

theorem close_fine (fit : FitReceipts answers.receipts) (sound : socket.Sound data) :
    (socket.close answers).Fine data :=
  (attemptFlush_fine fit sound).andThen fun _ _ fit sound => sound.clear.ends fit nofun

theorem readLoop_fine {sends : List SendResult} {polls : List Polled} {receipts : List Received}
    (fit : FitReceipts receipts) (sound : socket.Sound data) :
    (readLoop sends polls receipts socket).Fine data := by
  induction polls generalizing receipts with
  | nil =>
    rw [readLoop]
    exact sound.ends fit nofun
  | cons polled polls inductionHypothesis =>
    cases polled with
    | notReady =>
      rw [readLoop]
      exact sound.ends fit nofun
    | failed =>
      rw [readLoop]
      exact sound.ends fit nofun
    | ready =>
      cases receipts with
      | nil =>
        rw [readLoop]
        exact sound.ends fit nofun
      | cons receipt receipts =>
        have rest : FitReceipts receipts := fun bytes member => fit bytes (.tail _ member)
        cases receipt with
        | again => exact inductionHypothesis rest
        | failed => exact (close_fine rest sound).andThen fun _ _ fit sound => sound.ends fit nofun
        | data bytes =>
          cases bytes with
          | nil => exact sound.clear.ends rest nofun
          | cons byte bytes =>
            have small := fit (byte :: bytes) (.head _)
            obtain ⟨next, copied⟩ := sound.reads.copyFrom (small.trans (by decide))
            have ready := sound.reads.apply (.copyFrom (byte :: bytes))
            rw [Cord.apply, copied] at ready
            rw [readLoop, copied]
            have after : ({ socket with readBuffer := next } : Socket).Sound data :=
              ⟨sound.current, sound.past, sound.all, sound.counted, sound.writes, ready⟩
            exact after.ends rest nofun

theorem read_fine (fit : FitReceipts answers.receipts) (sound : socket.Sound data) :
    (socket.read answers).Fine data := by
  rw [read]
  split
  · exact readLoop_fine fit sound
  · exact sound.ends fit nofun

theorem write_fine {more : Bytes} {op : CordOp} (fit : FitReceipts answers.receipts) (sound : socket.Sound data)
    {copied : Option Cord} (applied : socket.writeBuffer.apply op = socket.writeBuffer.outcomeOf copied)
    (correct : (socket.writeBuffer.apply op).2.SizeIsLength ∧ (socket.writeBuffer.apply op).1 = .returned [] ∧
      (socket.writeBuffer.apply op).2.content = socket.writeBuffer.content ++ more) :
    (socket.write more copied answers).Fine (data ++ more) := by
  cases copied with
  | none =>
    rw [applied] at correct
    cases correct.2.1
  | some writeBuffer =>
    have ready := sound.writes.apply op
    rw [applied] at correct ready
    have after : (({ socket with writeBuffer } : Socket).log [.written more]).Sound (data ++ more) := by
      refine ⟨?_, sound.past, ?_, correct.1, ready, sound.reads⟩
      · show sentOf (socket.events ++ [.written more]) ++ writeBuffer.content =
          writtenOf (socket.events ++ [.written more])
        rw [sentOf_append, sentOf_written, List.append_nil, writtenOf_append, writtenOf_written, ← sound.current,
          show writeBuffer.content = _ from correct.2.2, List.append_assoc]
      · show writtenOf (socket.past.flatten ++ (socket.events ++ [.written more])) = data ++ more
        rw [← List.append_assoc, writtenOf_append, writtenOf_written, sound.all]
    exact (attemptFlush_fine fit after).andThen fun _ _ fit sound => read_fine fit sound

theorem connect_fine (fit : FitReceipts answers.receipts) (sound : socket.Sound data) (succeeds : Bool) :
    (socket.connect succeeds answers).Fine data := by
  have closed : (if socket.connected then socket.close answers else ⟨.returned, answers, socket⟩ : Call).Fine data := by
    split
    · exact close_fine fit sound
    · exact sound.ends fit nofun
  refine closed.andThen fun answers socket fit sound => ?_
  have after : ({ socket with connected := true } : Socket).Sound data :=
    ⟨sound.current, sound.past, sound.all, sound.counted, sound.writes, sound.reads⟩
  exact after.ends fit (by split <;> nofun)

end Socket

/-! ## Runs of a socket -/

def SocketOp.data : SocketOp → Bytes
  | .write data => data
  | .writeCord src => src.content
  | _ => []

def SocketOp.Small : SocketOp → Prop
  | .write data => data.length ≤ 2 ^ 31
  | _ => True

namespace Socket

variable {data : Bytes} {socket : Socket} {answers : Answers}

theorem Sound.size_le (sound : socket.Sound data) : socket.writeBuffer.size.toNat ≤ data.length := by
  have counted : socket.writeBuffer.size.toNat = socket.writeBuffer.content.length := sound.counted
  have all := congrArg List.length sound.all
  rw [writtenOf_append, List.length_append, ← sound.current, List.length_append] at all
  omega

theorem call_fine (fit : FitReceipts answers.receipts) (sound : socket.Sound data) {op : SocketOp} (small : op.Small)
    (room : data.length + op.data.length < 2 ^ 64) : (socket.call answers op).Fine (data ++ op.data) := by
  have size := sound.size_le
  cases op with
  | write more =>
    have fits : socket.writeBuffer.Fits (.copyFrom more) := by
      have small : more.length ≤ 2 ^ 31 := small
      have room : data.length + more.length < 2 ^ 64 := room
      exact .inr ⟨sound.writes.blocks, by omega, by omega, by omega⟩
    exact write_fine fit sound rfl ((Cord.correct_copyFrom_iff sound.counted sound.writes.usable more).mpr fits)
  | writeCord src =>
    have fits : socket.writeBuffer.Fits (.copyFromCord src) := by
      have room : data.length + src.content.length < 2 ^ 64 := room
      exact ⟨.inl sound.writes.blocks, by omega⟩
    exact write_fine fit sound rfl ((Cord.correct_copyFromCord_iff sound.counted sound.writes.usable src).mpr fits)
  | flush => exact (List.append_nil data).symm ▸ attemptFlush_fine fit sound
  | read => exact (List.append_nil data).symm ▸ read_fine fit sound
  | take op =>
    have after : ({ socket with readBuffer := (socket.readBuffer.apply op).2 } : Socket).Sound data :=
      ⟨sound.current, sound.past, sound.all, sound.counted, sound.writes, sound.reads.apply op⟩
    exact (List.append_nil data).symm ▸ after.ends fit nofun
  | abort => exact (List.append_nil data).symm ▸ sound.clear.ends fit nofun
  | close => exact (List.append_nil data).symm ▸ close_fine fit sound
  | connect succeeds => exact (List.append_nil data).symm ▸ connect_fine fit sound succeeds

theorem Sound.run {actions : List (SocketOp × Answers)} {last : Socket}
    (small : ∀ action ∈ actions, action.1.Small ∧ FitReceipts action.2.receipts) (sound : socket.Sound data)
    (total : data.length + (actions.flatMap fun action => action.1.data).length < 2 ^ 64)
    (ran : Runs.run step socket actions = some last) :
    last.Sound (data ++ actions.flatMap fun action => action.1.data) := by
  induction actions generalizing socket data with
  | nil =>
    cases ran
    rw [List.flatMap_nil, List.append_nil]
    exact sound
  | cons action actions inductionHypothesis =>
    rw [List.flatMap_cons, List.length_append] at total
    rw [List.flatMap_cons, ← List.append_assoc]
    obtain ⟨middle, stepped, rest⟩ := Option.bind_eq_some_iff.mp ran
    have here := small action List.mem_cons_self
    have fine := call_fine here.2 sound here.1 (by omega)
    rw [step] at stepped
    split at stepped
    · rename_i ended
      cases stepped
      exact inductionHypothesis (fun other member => small other (.tail _ member)) (fine.sound ended)
        (by rw [List.length_append]; omega) rest
    · cases stepped

end Socket

/-- Whatever is done with a socket, and whatever the system answers.  The bytes written since the cords were last
cleared are those that were sent, in order and each once, and those that the cord still has; of what was written before,
the first bytes were sent.  No next call is undefined. -/
theorem run_sent {connected : Bool} {actions : List (SocketOp × Answers)} {socket : Socket}
    (small : ∀ action ∈ actions, action.1.Small ∧ FitReceipts action.2.receipts)
    (total : (actions.flatMap fun action => action.1.data).length < 2 ^ 64)
    (ran : Runs.run Socket.step (.new connected) actions = some socket) :
    sentOf socket.events ++ socket.writeBuffer.content = writtenOf socket.events ∧
    (∀ events ∈ socket.past, sentOf events <+: writtenOf events) ∧
    writtenOf (socket.past.flatten ++ socket.events) = (actions.flatMap fun action => action.1.data) ∧
    ∀ op answers, op.Small → FitReceipts answers.receipts →
      (actions.flatMap fun action => action.1.data).length + op.data.length < 2 ^ 64 →
      (socket.call answers op).ending ≠ .undefined := by
  have sound := (Socket.sound_new connected).run small (by simpa using total) ran
  rw [List.nil_append] at sound
  exact ⟨sound.current, sound.past, sound.all, fun op answers small fit room =>
    (Socket.call_fine fit sound small room).defined⟩

/-- Five bytes are written, and two of them go at once; then the system fails. -/
def failingWrites : List (SocketOp × Answers) :=
  [(.write (ascii "abc"), ⟨[.ready, .notReady], [.took 1, .again, .took 2], []⟩),
    (.write (ascii "de"), ⟨[.notReady, .ready], [], [.data (ascii "x")]⟩),
    (.flush, ⟨[.ready], [.took 1, .failed], []⟩)]

theorem run_sent_failingWrites : ∃ socket,
    Runs.run Socket.step (.new true) failingWrites = some socket ∧
    sentOf socket.events ++ socket.writeBuffer.content = writtenOf socket.events ∧
    (∀ events ∈ socket.past, sentOf events <+: writtenOf events) ∧
    writtenOf (socket.past.flatten ++ socket.events) = (failingWrites.flatMap fun action => action.1.data) ∧
    ∀ op answers, op.Small → FitReceipts answers.receipts →
      (failingWrites.flatMap fun action => action.1.data).length + op.data.length < 2 ^ 64 →
      (socket.call answers op).ending ≠ .undefined := by
  have small : ∀ action ∈ failingWrites, action.1.Small ∧ FitReceipts action.2.receipts := by
    simp only [failingWrites, List.forall_mem_cons, SocketOp.Small, FitReceipts]
    refine ⟨⟨by decide, by simp⟩, ⟨by decide, fun bytes member => ?_⟩, ⟨trivial, by simp⟩, by simp⟩
    cases member with
    | head => decide
    | tail _ member => cases member
  exact ⟨_, rfl, run_sent small (by decide)
    (show Runs.run Socket.step (.new true) failingWrites = some _ from rfl)⟩

/-! ## Flushing -/

namespace Socket

variable {data : Bytes} {socket : Socket} {receipts : List Received} {polls : List Polled} {sends : List SendResult}

theorem flushLoop_empty (empty : socket.writeBuffer.size = 0) :
    (flushLoop receipts polls sends socket).socket = socket ∧
      (flushLoop receipts polls sends socket).ending = .returned := by
  cases polls with
  | nil =>
    unfold flushLoop
    exact ⟨rfl, if_pos empty⟩
  | cons polled polls =>
    unfold flushLoop
    rw [if_pos empty]
    exact ⟨rfl, rfl⟩

/-- The last bytes of a block are sent as all that is left of it. -/
theorem sendBlock_last {size : UInt64} {left : Bytes} (nonempty : left ≠ [])
    (returned : (sendBlock size sends left).1 = .returned) :
    ∃ pieces last, (sendBlock size sends left).2.2 = pieces ++ [.sent last (size.toNat > last.length)] ∧
      last <:+ left := by
  induction sends generalizing left with
  | nil =>
    cases left with
    | nil => exact absurd rfl nonempty
    | cons byte left => cases returned
  | cons answer sends inductionHypothesis =>
    cases left with
    | nil => exact absurd rfl nonempty
    | cons byte left =>
      cases answer with
      | again => exact inductionHypothesis nonempty returned
      | failed => cases returned
      | took count =>
        by_cases all : (byte :: left).drop count = []
        · refine ⟨[], byte :: left, ?_, List.suffix_rfl⟩
          have taken := List.take_append_drop count (byte :: left)
          rw [all, List.append_nil] at taken
          rw [sendBlock, all, taken]
          cases sends <;> rfl
        · obtain ⟨pieces, last, sent, suffix⟩ := inductionHypothesis all returned
          exact ⟨_ :: pieces, last, congrArg (List.cons _) sent, suffix.trans (List.drop_suffix _ _)⟩

/-- With the last piece the system was told that more is to come, unless the piece is a whole block. -/
def LastPiece (socket after : Socket) : Prop :=
  ∃ before block rest pieces last more, socket.writeBuffer.buffers = before ++ block :: rest ∧ block.size ≠ 0 ∧
    (∀ other ∈ rest, other.size = 0) ∧ after.events = socket.events ++ pieces ++ [.sent last more] ∧
    (more = false ↔ last = block.unread)

theorem LastPiece.of_popped {after : Socket} {front : CordBuffer} {rest : List CordBuffer} {popped : Cord}
    {events : List SocketEvent} (buffers : socket.writeBuffer.buffers = front :: rest)
    (pops : socket.writeBuffer.popFront = some popped)
    (later : (({ socket with writeBuffer := popped } : Socket).log events).LastPiece after) :
    socket.LastPiece after := by
  obtain ⟨before, block, empty, pieces, last, more, left, nonempty, sizes, logged, whole⟩ := later
  have remaining : popped.buffers = rest := (content_of_popFront buffers pops).1
  refine ⟨front :: before, block, empty, events ++ pieces, last, more, ?_, nonempty, sizes, ?_, whole⟩
  · rw [buffers, ← remaining, show popped.buffers = before ++ block :: empty from left]
    rfl
  · rw [logged, Socket.log, List.append_assoc socket.events]

theorem Sound.size_eq_zero (sound : socket.Sound data) :
    socket.writeBuffer.size = 0 ↔ socket.writeBuffer.content = [] := by
  have counted : socket.writeBuffer.size.toNat = socket.writeBuffer.content.length := sound.counted
  rw [← List.length_eq_zero_iff, ← counted, ← UInt64.toNat_inj, UInt64.toNat_zero]

/-- The first block is the last one with anything in it, and has been sent. -/
theorem Sound.lastPiece (sound : socket.Sound data) {front : CordBuffer} {rest : List CordBuffer} {popped : Cord}
    (buffers : socket.writeBuffer.buffers = front :: rest) (pops : socket.writeBuffer.popFront = some popped)
    (some_ : front.size ≠ 0) (nothing : popped.content = []) {pieces : List SocketEvent} {last : Bytes}
    (suffix : last <:+ front.unread) :
    socket.LastPiece (({ socket with writeBuffer := popped } : Socket).log
      (pieces ++ [.sent last (socket.writeBuffer.size.toNat > last.length)])) := by
  obtain ⟨remaining, content⟩ := content_of_popFront buffers pops
  -- What is left of the cord is what is left of the block, so that their sizes can be compared.
  have counted : socket.writeBuffer.size.toNat = front.unread.length := by
    have all : socket.writeBuffer.size.toNat = socket.writeBuffer.content.length := sound.counted
    rw [all, content, nothing, List.append_nil]
  refine ⟨[], front, rest, pieces, last, socket.writeBuffer.size.toNat > last.length, buffers, some_, ?_, ?_, ?_⟩
  · intro other member
    rw [← other.length_unread,
      List.flatten_eq_nil_iff.mp nothing _ (List.mem_map_of_mem (remaining.symm ▸ member))]
    rfl
  · rw [Socket.log, List.append_assoc]
  · rw [decide_eq_false_iff_not, counted, not_lt]
    exact ⟨fun long => suffix.eq_of_length_le long, fun whole => by rw [whole]⟩

theorem flushLoop_outcome (sound : socket.Sound data)
    (returned : (flushLoop receipts polls sends socket).ending = .returned) :
    (.notReady ∈ polls ∨ (flushLoop receipts polls sends socket).socket.writeBuffer.content = []) ∧
      ((flushLoop receipts polls sends socket).socket.writeBuffer.content = [] → socket.writeBuffer.content ≠ [] →
        socket.LastPiece (flushLoop receipts polls sends socket).socket) := by
  by_cases empty : socket.writeBuffer.size = 0
  · rw [(flushLoop_empty empty).1]
    exact ⟨.inr (sound.size_eq_zero.mp empty), fun _ nonempty => absurd (sound.size_eq_zero.mp empty) nonempty⟩
  induction polls generalizing sends socket with
  | nil =>
    rw [flushLoop.eq_def] at returned
    exact absurd returned (by simp [empty])
  | cons polled polls inductionHypothesis =>
    -- What is behind the first block is flushed, or there is nothing behind it.
    have next : ∀ {sends : List SendResult} {next : Socket}, next.Sound data →
        (flushLoop receipts polls sends next).ending = .returned →
        (.notReady ∈ polls ∨ (flushLoop receipts polls sends next).socket.writeBuffer.content = []) ∧
          ((flushLoop receipts polls sends next).socket.writeBuffer.content = [] →
            next.writeBuffer.content = [] ∧ (flushLoop receipts polls sends next).socket = next ∨
            next.LastPiece (flushLoop receipts polls sends next).socket) := by
      intro sends next sound returned
      by_cases empty : next.writeBuffer.size = 0
      · have nothing := sound.size_eq_zero.mp empty
        rw [(flushLoop_empty empty).1]
        exact ⟨.inr nothing, fun _ => .inl ⟨nothing, rfl⟩⟩
      · obtain ⟨sent, last⟩ := inductionHypothesis sound returned empty
        exact ⟨sent, fun flushed => .inr (last flushed (mt sound.size_eq_zero.mpr empty))⟩
    unfold flushLoop at returned ⊢
    rw [if_neg empty] at returned ⊢
    cases polled with
    | notReady => exact ⟨.inl (.head _), fun flushed nonempty => absurd flushed nonempty⟩
    | failed => cases returned
    | ready =>
      obtain ⟨front, rest, popped, buffers, pops⟩ := sound.exists_front empty
      obtain ⟨first, all, silent, defined⟩ := sendBlock_spec socket.writeBuffer.size sends front.unread
      simp only [buffers, pops] at returned ⊢
      by_cases none_ : front.size = 0
      · -- An empty block is taken off without a call of `send`.
        have nothing : front.unread = [] := List.length_eq_zero_iff.mp (front.length_unread.trans none_)
        have after := sound.popFront buffers pops (show sentOf [] = front.unread from nothing.symm) rfl
        rw [if_pos none_] at returned ⊢
        have same : ({ socket with writeBuffer := popped } : Socket).log [] =
            { socket with writeBuffer := popped } := by
          rw [Socket.log, List.append_nil]
        rw [same] at after
        obtain ⟨sent, last⟩ := next after returned
        refine ⟨sent.imp_left (.tail _), fun flushed nonempty => ?_⟩
        rcases last flushed with ⟨empty, _⟩ | later
        · rw [(content_of_popFront buffers pops).2, nothing] at nonempty
          exact absurd empty nonempty
        · have earlier : (({ socket with writeBuffer := popped } : Socket).log []).LastPiece
              (flushLoop receipts polls sends { socket with writeBuffer := popped }).socket := by
            rw [same]
            exact later
          exact earlier.of_popped buffers pops
      · rw [if_neg none_] at returned ⊢
        split at returned
        · rename_i left events sending
          have unread : front.unread ≠ [] := fun nothing => none_ (front.length_unread ▸ congrArg List.length nothing)
          have finished : (sendBlock socket.writeBuffer.size sends front.unread).1 = .returned := by rw [sending]
          obtain ⟨pieces, last, sent, suffix⟩ := sendBlock_last unread finished
          rw [sending] at all silent sent
          have after := sound.popFront buffers pops (all rfl) silent
          obtain ⟨gone, lastPiece⟩ := next after returned
          refine ⟨gone.imp_left (.tail _), fun flushed _ => ?_⟩
          rcases lastPiece flushed with ⟨nothing, same⟩ | later
          · rw [same, show events = _ from sent]
            exact sound.lastPiece buffers pops none_ nothing suffix
          · exact later.of_popped buffers pops
        · cases returned
        · rename_i ending left events others _ sending
          exact absurd returned others

end Socket

/-- A flush that returns, whatever was done with the socket before.  Unless a poll came to nothing, all bytes are gone;
and when they are, the system was told with the last piece that more is to come if the piece is only a part of the last
block. -/
theorem flush_outcome {connected : Bool} {actions : List (SocketOp × Answers)} {socket : Socket}
    (small : ∀ action ∈ actions, action.1.Small ∧ FitReceipts action.2.receipts)
    (total : (actions.flatMap fun action => action.1.data).length < 2 ^ 64)
    (ran : Runs.run Socket.step (.new connected) actions = some socket) {answers : Answers}
    (usable : socket.connected = true) (returned : (socket.attemptFlush answers).ending = .returned) :
    (.notReady ∈ answers.polls ∨ (socket.attemptFlush answers).socket.writeBuffer.content = []) ∧
      ((socket.attemptFlush answers).socket.writeBuffer.content = [] → socket.writeBuffer.content ≠ [] →
        socket.LastPiece (socket.attemptFlush answers).socket) := by
  have sound := (Socket.sound_new connected).run small (by simpa using total) ran
  rw [Socket.attemptFlush, if_pos usable] at returned ⊢
  exact Socket.flushLoop_outcome sound returned

/-- Three bytes are written while the system takes none. -/
def threeBytes : List (SocketOp × Answers) := [(.write (ascii "abc"), ⟨[.notReady, .notReady], [], []⟩)]

/-- The system then takes one of them first. -/
theorem flush_outcome_threeBytes : ∃ socket, Runs.run Socket.step (.new true) threeBytes = some socket ∧
    (.notReady ∈ [Polled.ready] ∨
      (socket.attemptFlush ⟨[.ready], [.took 1, .took 2], []⟩).socket.writeBuffer.content = []) ∧
    ((socket.attemptFlush ⟨[.ready], [.took 1, .took 2], []⟩).socket.writeBuffer.content = [] →
      socket.writeBuffer.content ≠ [] →
      socket.LastPiece (socket.attemptFlush ⟨[.ready], [.took 1, .took 2], []⟩).socket) := by
  have small : ∀ action ∈ threeBytes, action.1.Small ∧ FitReceipts action.2.receipts := by
    simp only [threeBytes, List.forall_mem_cons, SocketOp.Small, FitReceipts]
    exact ⟨⟨by decide, nofun⟩, nofun⟩
  exact ⟨_, rfl, @flush_outcome true threeBytes _ small (by decide)
    (show Runs.run Socket.step (.new true) threeBytes = some _ from rfl) ⟨[.ready], [.took 1, .took 2], []⟩ rfl rfl⟩

end OpenInstrument.Server
