import OpenInstrument.Datastore.BlockRoundTrip
import OpenInstrument.Library.Addressed
import OpenInstrument.Library.Runs
import OpenInstrument.StoreManager

/-! # The record log of a store manager

`AddValueStreams` files each message in memory and then sends it on a channel, from which `writeRecordLog` takes it and
appends it to the record log.  What is sent is the message itself, not a copy.  The first message of a variable is also
the stream that the values of later messages are appended to, so that it may have grown by the time it is written.

`addValueStreamNoRecord` holds `streams_mutex` for reading only, which does not keep two goroutines apart.  The runs here
are those in which no two are inside it at once.
-/

namespace OpenInstrument.RecordLogging

variable {Double : Type}

/-! ## The code -/

/-- Messages are at the addresses at which they were received. -/
structure Manager (Double : Type) where
  messages : List (Stream Double)
  streams : AList fun _ : GoString => Nat
  /-- The goroutines of `AddValueStreams` that have filed a message and not sent it yet. -/
  sending : List Nat
  recordLogChan : List Nat
  /-- What was written to the record log, before and after it was rotated. -/
  recordLog : List (Stream Double)

inductive Action (Double : Type) where
  /-- A goroutine files a message, and no other does meanwhile. -/
  | add (stream : Stream Double)
  | send (place : Nat)
  | write
  | rotate

/-- `make(chan *oproto.ValueStream, 1000)`. -/
def room : Nat := 1000

namespace Manager

def new : Manager Double := { messages := [], streams := ∅, sending := [], recordLogChan := [], recordLog := [] }

/-- `addValueStreamNoRecord`, which leaves the message at a new address. -/
def addValueStreamNoRecord (s : Manager Double) (newStream : Stream Double) : Except Panic (Manager Double) := do
  let key ← variableString newStream.streamVariable
  match s.streams.lookup key with
  | some address =>
    let messages := s.messages.modify address fun stream => { stream with value := stream.value ++ newStream.value }
    return { s with messages := messages ++ [newStream] }
  | none =>
    return { s with messages := s.messages ++ [newStream], streams := s.streams.insert key s.messages.length }

/-- A goroutine receives a message or goes on sending one, or that of `writeRecordLog` writes a message or rotates the
log. -/
def step (s : Manager Double) : Action Double → Option (Manager Double)
  | .add newStream =>
    match s.addValueStreamNoRecord newStream with
    | .ok next => some { next with sending := s.sending ++ [s.messages.length] }
    | .error _ => none
  | .send place =>
    match s.sending[place]? with
    | some address =>
      if s.recordLogChan.length < room then
        some { s with sending := s.sending.eraseIdx place, recordLogChan := s.recordLogChan ++ [address] }
      else none
    | none => none
  | .write =>
    match s.recordLogChan with
    | [] => none
    | address :: recordLogChan =>
      s.messages[address]?.map fun stream => { s with recordLogChan, recordLog := s.recordLog ++ [stream] }
  | .rotate => some { s with streams := ∅ }

end Manager

/-! ## What is logged -/

/-- The values that an action adds, with the names of their streams. -/
def Action.added : Action Double → Multiset (GoString × Value Double)
  | .add stream => stream.held
  | _ => 0

/-- The messages that are on their way to the log. -/
def Manager.waiting (s : Manager Double) : List Nat := s.sending ++ s.recordLogChan

/-- The values in the record log, and those on their way to it. -/
def Manager.logged (s : Manager Double) : Multiset (GoString × Value Double) :=
  heldBy s.recordLog + Addressed.total ValueStream.held s.messages s.waiting

/-- Values are appended to a message that is on its way to the log. -/
def Grows (s : Manager Double) : Action Double → Prop
  | .add stream => stream.value ≠ [] ∧ ∃ address ∈ s.waiting, s.streams.lookup stream.key = some address
  | _ => False

/-- The addresses are those of messages, and each name is that of the message filed under it. -/
structure Sound (s : Manager Double) : Prop where
  inside : ∀ address ∈ s.waiting, address < s.messages.length
  filed : ∀ key address, s.streams.lookup key = some address → ∃ stream, s.messages[address]? = some stream ∧
    stream.key = key

variable {s next : Manager Double}

theorem sound_new : Sound (Manager.new : Manager Double) where
  inside := nofun
  filed := nofun

/-- A message and its stream are told apart from what was there. -/
theorem held_append (stream : Stream Double) (values : List (Value Double)) :
    ({ stream with value := stream.value ++ values } : Stream Double).held =
      stream.held + Multiset.ofList (values.map fun value => (stream.key, value)) := by
  rw [ValueStream.held, ValueStream.held, List.map_append, ← Multiset.coe_add]
  rfl

theorem addValueStreamNoRecord_ok {stream : Stream Double} (ran : s.addValueStreamNoRecord stream = .ok next) :
    (∃ address, s.streams.lookup stream.key = some address ∧
      next = { s with
        messages :=
          s.messages.modify address (fun old => { old with value := old.value ++ stream.value }) ++ [stream] }) ∨
    (s.streams.lookup stream.key = none ∧
      next = { s with
        messages := s.messages ++ [stream]
        streams := s.streams.insert stream.key s.messages.length }) := by
  obtain ⟨key, printed, ran⟩ := Fallible.bind_ok ran
  obtain ⟨rfl, -⟩ := key_of_variableString printed
  split at ran
  · rename_i address found
    cases ran
    exact .inl ⟨address, found, rfl⟩
  · rename_i missing
    cases ran
    exact .inr ⟨missing, rfl⟩

/-- What was there goes on its way, and the new message is on its way as well. -/
theorem logged_add (sound : Sound s) {messages : List (Stream Double)} (same : messages.length = s.messages.length)
    (stream : Stream Double) (streams : AList fun _ : GoString => Nat) :
    ({ s with messages := messages ++ [stream], streams, sending := s.sending ++ [s.messages.length] } :
      Manager Double).logged =
        heldBy s.recordLog + Addressed.total ValueStream.held messages s.waiting + stream.held := by
  have inside : ∀ address ∈ s.waiting, address < messages.length :=
    fun address member => same ▸ sound.inside address member
  have moved : (s.sending ++ [s.messages.length] ++ s.recordLogChan).Perm (s.messages.length :: s.waiting) := by
    rw [List.append_assoc]
    exact List.perm_middle
  have last : (messages ++ [stream])[s.messages.length]? = some stream := by rw [← same, List.getElem?_concat_length]
  rw [Manager.logged, Manager.waiting, Addressed.total_perm moved, Addressed.total_cons, last, Option.elim_some,
    Addressed.total_concat inside, add_assoc, add_comm stream.held]

theorem inside_add (sound : Sound s) {address : Nat}
    (member : address ∈ s.sending ++ [s.messages.length] ++ s.recordLogChan) : address < s.messages.length + 1 := by
  rw [List.append_assoc] at member
  rcases List.mem_cons.mp (List.perm_middle.mem_iff.mp member) with rfl | before
  · exact Nat.lt_succ_self _
  · exact Nat.lt_succ_of_lt (sound.inside address before)

/-- The values are appended to the message that is filed under the name.  They are logged once more for each time that
this message is on its way. -/
theorem keeps_append (sound : Sound s) {stream : Stream Double} {address : Nat}
    (found : s.streams.lookup stream.key = some address)
    (changed : next = { s with
      messages := s.messages.modify address (fun old => { old with value := old.value ++ stream.value }) ++ [stream]
      sending := s.sending ++ [s.messages.length] }) :
    Sound next ∧ ∃ excess, next.logged = s.logged + stream.held + excess ∧
      (excess = 0 ↔ ¬Grows s (.add stream)) := by
  subst changed
  obtain ⟨old, here, key⟩ := sound.filed _ _ found
  have length : (s.messages.modify address fun old => { old with value := old.value ++ stream.value }).length =
      s.messages.length := List.length_modify _ _ _
  refine ⟨⟨fun other member => ?_, fun name other named => ?_⟩, s.waiting.count address • stream.held, ?_, ?_⟩
  · rw [List.length_append, length]
    exact inside_add sound member
  · obtain ⟨message, there, named⟩ := sound.filed name other named
    have below := (List.getElem?_eq_some_iff.mp there).1
    show ∃ message, (s.messages.modify address _ ++ [stream])[other]? = some message ∧ message.key = name
    rw [List.getElem?_append_left (by rw [length]; exact below), List.getElem?_modify, there]
    split
    · exact ⟨_, rfl, named⟩
    · exact ⟨_, rfl, named⟩
  · rw [logged_add sound length, Addressed.total_modify here (held_append old stream.value), key]
    show _ = s.logged + stream.held + s.waiting.count address • stream.held
    rw [Manager.logged, ← add_assoc, add_right_comm]
    rfl
  · rw [← Multiset.card_eq_zero, Multiset.card_nsmul, Nat.mul_eq_zero, List.count_eq_zero, Multiset.card_eq_zero,
      ValueStream.held_eq_zero]
    constructor
    · rintro (absent | empty) ⟨valued, other, waiting, named⟩
      · rw [found, Option.some.injEq] at named
        exact absent (named ▸ waiting)
      · exact valued empty
    · intro still
      by_cases empty : stream.value = []
      · exact .inr empty
      · exact .inl fun waiting => still ⟨empty, address, waiting, found⟩

/-- The message is filed under a name that is new, and nothing else changes. -/
theorem keeps_file (sound : Sound s) {stream : Stream Double} (missing : s.streams.lookup stream.key = none)
    (changed : next = { s with
      messages := s.messages ++ [stream]
      streams := s.streams.insert stream.key s.messages.length
      sending := s.sending ++ [s.messages.length] }) :
    Sound next ∧ next.logged = s.logged + stream.held ∧ ¬Grows s (.add stream) := by
  subst changed
  refine ⟨⟨fun other member => ?_, fun name other named => ?_⟩, logged_add sound rfl _ _, ?_⟩
  · rw [List.length_append]
    exact inside_add sound member
  · show ∃ message, (s.messages ++ [stream])[other]? = some message ∧ message.key = name
    by_cases same : name = stream.key
    · subst same
      rw [AList.lookup_insert, Option.some.injEq] at named
      exact named ▸ ⟨stream, List.getElem?_concat_length, rfl⟩
    · rw [AList.lookup_insert_ne same] at named
      obtain ⟨message, there, named⟩ := sound.filed name other named
      exact ⟨message, by rw [List.getElem?_append_left (List.getElem?_eq_some_iff.mp there).1, there], named⟩
  · rintro ⟨_, address, _, found⟩
    rw [missing] at found
    cases found

/-- A goroutine hands its message over to the channel, which is as far from the log as before. -/
theorem keeps_send (sound : Sound s) {place address : Nat} (here : s.sending[place]? = some address)
    (changed : next = { s with
      sending := s.sending.eraseIdx place
      recordLogChan := s.recordLogChan ++ [address] }) :
    Sound next ∧ next.logged = s.logged := by
  subst changed
  have same : (s.sending.eraseIdx place ++ (s.recordLogChan ++ [address])).Perm s.waiting := by
    obtain ⟨below, there⟩ := List.getElem?_eq_some_iff.mp here
    have taken := List.getElem_cons_eraseIdx_perm below
    rw [there] at taken
    exact (List.perm_append_comm.append_left _).trans
      (List.perm_middle.trans (taken.append_right s.recordLogChan))
  refine ⟨⟨fun other member => sound.inside other (same.mem_iff.mp member), sound.filed⟩, ?_⟩
  rw [Manager.logged, Manager.logged]
  exact congrArg (heldBy s.recordLog + ·) (Addressed.total_perm same)

/-- The first message of the channel is written as it is by then. -/
theorem keeps_write (sound : Sound s) {address : Nat} {recordLogChan : List Nat} {stream : Stream Double}
    (first : s.recordLogChan = address :: recordLogChan) (here : s.messages[address]? = some stream)
    (changed : next = { s with recordLogChan, recordLog := s.recordLog ++ [stream] }) :
    Sound next ∧ next.logged = s.logged := by
  subst changed
  have moved : s.waiting.Perm (address :: (s.sending ++ recordLogChan)) := by
    rw [Manager.waiting, first]
    exact List.perm_middle
  refine ⟨⟨fun other member => sound.inside other (moved.mem_iff.mpr (.tail _ member)), sound.filed⟩, ?_⟩
  rw [Manager.logged, Manager.logged, Addressed.total_perm moved, Addressed.total_cons, here, heldBy_append,
    heldBy_cons, heldBy_nil, add_zero, Option.elim_some, add_assoc]
  rfl

/-- A step logs what it adds, and more only where values are appended to a message on its way. -/
theorem step_keeps {action : Action Double} (sound : Sound s) (stepped : s.step action = some next) :
    Sound next ∧ ∃ excess, next.logged = s.logged + action.added + excess ∧ (excess = 0 ↔ ¬Grows s action) := by
  cases action with
  | add stream =>
    simp only [Manager.step] at stepped
    split at stepped
    · rename_i filed ran
      cases stepped
      rcases addValueStreamNoRecord_ok ran with ⟨address, found, rfl⟩ | ⟨missing, rfl⟩
      · exact keeps_append sound found rfl
      · obtain ⟨kept, logged, still⟩ := keeps_file sound missing rfl
        exact ⟨kept, 0, logged.trans (add_zero _).symm, iff_of_true rfl still⟩
    · cases stepped
  | send place =>
    simp only [Manager.step] at stepped
    split at stepped
    · rename_i address here
      split at stepped
      · cases stepped
        obtain ⟨kept, logged⟩ := keeps_send sound here rfl
        exact ⟨kept, 0, by rw [logged, add_zero]; exact (add_zero _).symm, iff_of_true rfl id⟩
      · cases stepped
    · cases stepped
  | write =>
    simp only [Manager.step] at stepped
    split at stepped
    · cases stepped
    · rename_i address recordLogChan first
      obtain ⟨stream, here, rfl⟩ := Option.map_eq_some_iff.mp stepped
      obtain ⟨kept, logged⟩ := keeps_write sound first here rfl
      exact ⟨kept, 0, by rw [logged, add_zero]; exact (add_zero _).symm, iff_of_true rfl id⟩
  | rotate =>
    cases stepped
    exact ⟨⟨sound.inside, nofun⟩, 0, by rw [add_zero]; exact (add_zero _).symm, iff_of_true rfl id⟩

/-! ## Runs -/

def addedBy (actions : List (Action Double)) : Multiset (GoString × Value Double) := (actions.map Action.added).sum

theorem run_excess {actions : List (Action Double)} {last : Manager Double} (sound : Sound s)
    (ran : Runs.run Manager.step s actions = some last) :
    ∃ excess, last.logged = s.logged + addedBy actions + excess ∧
      (excess = 0 ↔ Runs.Avoids Manager.step Grows s actions) := by
  induction actions generalizing s with
  | nil =>
    cases ran
    exact ⟨0, by simp [addedBy], iff_of_true rfl trivial⟩
  | cons action actions inductionHypothesis =>
    obtain ⟨middle, stepped, rest⟩ := Option.bind_eq_some_iff.mp ran
    obtain ⟨kept, first, logged, quiet⟩ := step_keeps sound stepped
    obtain ⟨second, later, quietLater⟩ := inductionHypothesis kept rest
    refine ⟨first + second, ?_, ?_⟩
    · rw [later, logged, addedBy, addedBy, List.map_cons, List.sum_cons]
      simp only [add_assoc, add_left_comm first]
    · rw [Runs.avoids_cons_of_step stepped, ← quiet, ← quietLater, ← Multiset.card_eq_zero, Multiset.card_add,
        Nat.add_eq_zero_iff, Multiset.card_eq_zero, Multiset.card_eq_zero]

/-- The record log of a store manager, in whatever order messages arrive and its goroutines run, if no two of them file
a message at once.  No value that was added is missing from what was written and what is to be written, and all are
there only once exactly when no values were appended to a message that was on its way to the log. -/
theorem logged_eq_added_iff {actions : List (Action Double)} {last : Manager Double}
    (ran : Runs.run Manager.step .new actions = some last) :
    addedBy actions ≤ last.logged ∧
      (last.logged = addedBy actions ↔ Runs.Avoids Manager.step Grows .new actions) := by
  obtain ⟨excess, logged, quiet⟩ := run_excess sound_new ran
  have start : (Manager.new : Manager Double).logged = 0 := rfl
  rw [start, zero_add] at logged
  rw [logged, ← quiet]
  exact ⟨Multiset.le_add_right _ _, by rw [add_eq_left]⟩

/-- The second message of a variable is filed before the first is written. -/
def twoMessages : List (Action UInt64) :=
  [.add (gauge "a" [1]), .send 0, .add (gauge "a" [2]), .write, .send 0, .write]

theorem logged_eq_added_iff_twoMessages : ∃ last,
    Runs.run Manager.step .new twoMessages = some last ∧ last.recordLog = [gauge "a" [1, 2], gauge "a" [2]] ∧
    addedBy twoMessages ≤ last.logged ∧
      (last.logged = addedBy twoMessages ↔ Runs.Avoids Manager.step Grows .new twoMessages) :=
  ⟨_, rfl, rfl, logged_eq_added_iff (show Runs.run Manager.step .new twoMessages = some _ from rfl)⟩

end OpenInstrument.RecordLogging
