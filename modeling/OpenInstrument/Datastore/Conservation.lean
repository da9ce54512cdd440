import OpenInstrument.Datastore.Joining
import OpenInstrument.Datastore.Runs
import OpenInstrument.ProtoWire

/-! # What the store holds is what was sent

Every operation moves values between the places of a block or between blocks.  Values are lost in three
ways: `Writer` drops a stream whose key in `blockKeys` has no block any more, `splitBlock` puts the left
half where another block is, and `joinBlocks` does not read pending streams.  They are doubled when
`joinBlocks` reads the joined file back under a key other than the one it gives the joined block.
-/

namespace OpenInstrument

open Fallible (Ends Along)

variable {Double : Type} {rt : Runtime Double} {used : List GoString} {s : Datastore Double}

def sentStreams (operations : List (Operation Double)) : List (Stream Double) :=
  operations.filterMap fun
    | .send _ stream => some stream
    | _ => none

/-- What an operation must meet to keep all values. -/
def Datastore.Conserves (rt : Runtime Double) (s : Datastore Double) : Operation Double → Prop
  | .send uuid stream => s.Delivers uuid stream
  | .splitBlock key choices => choices.uuid = none ∨
      ∀ block ∈ s.blocks.lookup key, ∀ leftKey ∈ block.leftEndKey, ∀ other ∈ s.blocks.lookup leftKey,
        (other.held rt s.disk).card = 0
  | .joinBlocks _ _ => s.joinSelection = [] ∨ JoinSafe s.joinSelection
  | _ => True

instance (rt : Runtime Double) (s : Datastore Double) : ∀ operation, Decidable (s.Conserves rt operation)
  | .send uuid stream => inferInstanceAs (Decidable (s.Delivers uuid stream))
  | .splitBlock _ _ => inferInstanceAs (Decidable (_ ∨ ∀ block ∈ _, ∀ leftKey ∈ _, ∀ other ∈ _, _ = 0))
  | .joinBlocks _ _ => inferInstanceAs (Decidable (s.joinSelection = [] ∨ JoinSafe s.joinSelection))
  | .flush _ | .compactBlock _ _ _ => inferInstanceAs (Decidable True)

/-! ## No stream without values -/

/-- No stream in memory is without values. -/
def Datastore.AllValued (s : Datastore Double) : Prop :=
  ∀ key block, s.blocks.lookup key = some block →
    Valued block.logStreams ∧ ∀ stream ∈ block.newStreams, stream.value ≠ []

theorem Datastore.AllValued.insert (valued : s.AllValued) {after : Datastore Double} {key : GoString}
    {block : DatastoreBlock Double} (blocks : after.blocks = s.blocks.insert key block)
    (logs : Valued block.logStreams) (pending : ∀ stream ∈ block.newStreams, stream.value ≠ []) :
    after.AllValued := by
  intro other kept lookup
  rw [blocks] at lookup
  rcases lookup_insert_cases lookup with ⟨-, rfl⟩ | ⟨-, old⟩
  · exact ⟨logs, pending⟩
  · exact valued other kept old

theorem Valued.addStreams {streams : StreamMap Double} {added : List (Stream Double)}
    (valued : Valued streams) (addedValued : ∀ stream ∈ added, stream.value ≠ []) :
    Valued (addStreams streams added) := by
  induction added generalizing streams with
  | nil => exact valued
  | cons stream added inductionHypothesis =>
    refine inductionHypothesis (fun key found lookup => ?_)
      fun other member => addedValued other (List.mem_cons_of_mem _ member)
    rw [lookup_addStream] at lookup
    split at lookup
    · obtain rfl := Option.some.inj lookup
      exact fun empty => addedValued stream List.mem_cons_self (List.append_eq_nil_iff.mp empty).2
    · exact valued key found lookup

theorem valued_empty : Valued (∅ : StreamMap Double) := fun _ _ found => by cases found

/-- The steps other than `joinBlocks` bring no stream without values into memory. -/
theorem Datastore.AllValued.stepped (valued : s.AllValued) {operation : Operation Double}
    {after : Datastore Double} (sent : ∀ stream ∈ sentStreams [operation], stream.value ≠ [])
    (stepped : s.Stepped rt operation after) : after.AllValued := by
  cases stepped with
  | @send uuid stream _ named delivery held =>
    have streamValued : stream.value ≠ [] := sent stream (List.mem_singleton_self _)
    cases delivery with
    | stale => exact valued
    | unnamed => exact valued
    | appended routed found =>
      obtain ⟨logs, pending⟩ := valued _ _ found
      refine valued.insert rfl logs fun other member => ?_
      exact (List.mem_append.mp member).elim (pending other)
        fun new => List.mem_singleton.mp new ▸ streamValued
    | opened => exact valued.insert rfl valued_empty fun other new => List.mem_singleton.mp new ▸ streamValued
  | flush held blockKeys lookups =>
    intro key block found
    rw [lookups, Option.map_eq_some_iff] at found
    obtain ⟨before, found, rfl⟩ := found
    obtain ⟨logs, pending⟩ := valued key before found
    exact ⟨logs.addStreams pending, fun _ member => absurd member List.not_mem_nil⟩
  | compactMissing => exact valued
  | compact found compaction =>
    exact valued.insert compaction.blocks (compaction.logStreams ▸ valued_empty)
      (compaction.newStreams ▸ (valued _ _ found).2)
  | @split key choices _ split =>
    cases split with
    | missing => exact valued
    | tooFew => exact valued
    | compacted found undrawn compaction =>
      exact valued.insert compaction.blocks (compaction.logStreams ▸ valued_empty)
        (compaction.newStreams ▸ (valued _ _ found).2)
    | @split block left right _ leftKey id found chosen drawn halves =>
      have replaced : Datastore.AllValued { s with blocks := s.blocks.insert key right } :=
        valued.insert rfl (halves.rightLogs ▸ valued_empty) (halves.rightNew ▸ (valued _ _ found).2)
      exact replaced.insert halves.blocks (halves.leftLogs ▸ valued_empty)
        (by simp [halves.leftNew])

/-- A sound store without valueless streams takes every step without a panic. -/
theorem Datastore.AllValued.step_ok (valued : s.AllValued) (sound : s.Sound rt used)
    {operation : Operation Double} (completes : s.Completes rt operation)
    (fresh : ∀ id ∈ operation.uuid, ValidId id ∧ id ∉ used)
    (named : ∀ stream ∈ sentStreams [operation], stream.HasVariable)
    (apart : ∀ orders clog, operation ≠ .joinBlocks orders clog) :
    ∃ after, s.step rt operation = .ok after := by
  have flushed : ∀ {key block file logged}, s.blocks.lookup key = some block →
      BlockSound rt s.disk.view block file logged → ∀ order : Iteration,
        Valued (OpenInstrument.addStreams ∅ (file ++ order.order block.logs)) :=
    fun found blockSound order => (blockSound.merged order).valued (valued _ _ found).1
  cases operation with
  | send uuid stream =>
    obtain ⟨after, run, -⟩ := Datastore.send_sent sound.endKey uuid (named stream (List.mem_singleton_self _))
    exact ⟨after, run⟩
  | flush order =>
    obtain ⟨after, run, -⟩ := sound.flush order
    exact ⟨after, run⟩
  | compactBlock key orders clog =>
    rw [Datastore.step, Datastore.compactBlock]
    cases found : s.blocks.lookup key with
    | none => exact ⟨s, rfl⟩
    | some block =>
      obtain ⟨file, logged, blockSound⟩ := sound.block key block found
      obtain ⟨disk, compacted, run, -⟩ := sound.compactBlock found blockSound clog
        (flushed found blockSound orders.logs)
      simp only [run]
      exact ⟨_, rfl⟩
  | splitBlock key choices =>
    obtain ⟨after, err, run, -⟩ := sound.splitBlock fresh
      (fun _ _ _ found _ blockSound => flushed found blockSound _)
      (fun block found result ran => (completes.2 block found).of_ok ran)
    exact ⟨after, by rw [Datastore.step, run]; rfl⟩
  | joinBlocks orders clog => exact absurd rfl (apart orders clog)

/-! ## Runs -/

/-- A step that conserves adds what it sends to what the store holds. -/
theorem Datastore.Sound.step_conserves (sound : s.Sound rt used) (valued : s.AllValued)
    {operation : Operation Double} (completes : s.Completes rt operation)
    (conserves : s.Conserves rt operation) (fresh : ∀ id ∈ operation.uuid, ValidId id ∧ id ∉ used)
    (sends : ∀ stream ∈ sentStreams [operation], stream.HasVariable ∧ stream.value ≠ []) :
    Ends (fun _ => False) (fun after => after.Sound rt (used ++ operation.uuid.toList) ∧ after.AllValued ∧
      after.held rt = s.held rt + heldBy (sentStreams [operation])) (s.step rt operation) := by
  -- A join is the one operation that `Stepped` does not describe.
  by_cases join : ∃ orders clog, operation = .joinBlocks orders clog
  · obtain ⟨orders, clog, rfl⟩ := join
    rw [Datastore.step]
    split
    · exact ⟨by simpa [Operation.uuid] using sound, valued, by simp [sentStreams]⟩
    · rename_i nonempty
      have selected := sound.joinSelection_selected
      obtain ⟨after, run, success⟩ := sound.joinBlocks selected nonempty (conserves.resolve_left nonempty)
        (fun block member => (valued _ block (selected.found block member)).1) orders clog
      have unbroken : after.disk.incomplete = false := completes.1.of_ok (by rw [Datastore.step, if_neg nonempty, run])
      obtain ⟨joined, result⟩ := success unbroken
      rw [run]
      refine ⟨by simpa [Operation.uuid] using result.sound, fun key block found => ?_,
        by simp [result.held, sentStreams]⟩
      rcases result.lookups key block found with rfl | old
      · exact ⟨result.logStreams ▸ valued_empty, by simp [result.newStreams]⟩
      · exact valued key block old
  push Not at join
  obtain ⟨after, taken⟩ := valued.step_ok sound completes fresh (fun stream member => (sends stream member).1) join
  obtain ⟨afterSound, -, stepped⟩ := sound.stepped completes fresh join taken
  rw [taken]
  refine ⟨afterSound, valued.stepped (fun stream member => (sends stream member).2) stepped, ?_⟩
  cases stepped with
  | send named delivery held =>
    rw [held conserves]
    simp [sentStreams]
  | flush held => simpa [sentStreams] using held
  | compactMissing => simp [sentStreams]
  | compact found compaction => simpa [sentStreams] using compaction.held
  | split split =>
    simp only [sentStreams, List.filterMap_cons_none, List.filterMap_nil, heldBy_nil, add_zero]
    cases split with
    | missing => rfl
    | tooFew => rfl
    | compacted found undrawn compaction => exact compaction.held
    | split found chosen drawn halves =>
      -- The left half takes the place of a block with its key, so that one must hold nothing.
      have spared := conserves.resolve_left (by simp [drawn]) _ found _ chosen
      rw [← halves.held]
      cases displaced : s.blocks.lookup _ with
      | none => simp
      | some other => simp [Multiset.card_eq_zero.mp (spared other displaced)]

theorem sentStreams_append (first second : List (Operation Double)) :
    sentStreams (first ++ second) = sentStreams first ++ sentStreams second :=
  List.filterMap_append

/-- A run whose steps conserve holds exactly what was sent. -/
theorem run_holds_sent (rt : Runtime Double) (operations : List (Operation Double)) (ids : FreshIds operations)
    (sends : ∀ stream ∈ sentStreams operations, stream.HasVariable ∧ stream.value ≠ [])
    (along : Along (Datastore.step rt)
      (fun _ s operation => s.Completes rt operation ∧ s.Conserves rt operation) []
      Datastore.empty operations) :
    ∃ s, Datastore.run rt Datastore.empty operations = .ok s ∧ s.held rt = heldBy (sentStreams operations) := by
  have start : (Datastore.empty : Datastore Double).AllValued := fun key block found => by cases found
  have ends : Ends (fun _ => False) (fun s => s.Sound rt (drawnIds operations) ∧
      (s.AllValued ∧ s.held rt = heldBy (sentStreams operations))) (Datastore.run rt Datastore.empty operations) := by
    refine run_ends (fun history s => s.AllValued ∧ s.held rt = heldBy (sentStreams history)) ids ?_
      ⟨start, rfl⟩ along
    intro history s operation sound ⟨valued, held⟩ completes conserves fresh member
    have sendsNow : ∀ stream ∈ sentStreams [operation], stream.HasVariable ∧ stream.value ≠ [] := by
      intro stream sent
      obtain ⟨before, after, rfl⟩ := List.append_of_mem member
      refine sends stream ?_
      rw [← List.singleton_append, sentStreams_append, sentStreams_append]
      exact List.mem_append_right _ (List.mem_append_left _ sent)
    refine (sound.step_conserves valued completes conserves fresh sendsNow).mono ?_
    rintro after ⟨afterSound, afterValued, afterHeld⟩
    exact ⟨afterSound, afterValued, by rw [afterHeld, held, sentStreams_append, heldBy_append]⟩
  obtain ⟨s, run, -, -, held⟩ := ends.exists_ok
  exact ⟨s, run, held⟩

/-- A store that sends, flushes, splits, compacts and joins, and loses nothing. -/
def joinRun : List (Operation UInt64) :=
  [.send (some (ascii "1")) (gauge "b" [5, 3]), .send none (gauge "a" [7]), .flush .listed,
    .splitBlock (ascii "b")
      { uuid := some (ascii "2"), clog := { startTime := 0 }, compaction := .listed, left := .listed,
        right := .listed },
    .send none (gauge "b" [9]), .flush .listed, .compactBlock (ascii "b") .listed { startTime := 1 },
    .joinBlocks .listed { startTime := 2 }]

theorem run_holds_sent_joinRun :
    ∃ s, Datastore.run protoRuntime Datastore.empty joinRun = .ok s ∧
      s.held protoRuntime = heldBy (sentStreams joinRun) :=
  run_holds_sent protoRuntime joinRun (by decide +kernel) (by decide +kernel) (by decide +kernel)

/-- A join loses what is pending in its blocks.  After a join the key of a block that is gone still
attracts streams, which are dropped. -/
theorem run_loses_values :
    (∃ s, Datastore.run protoRuntime Datastore.empty
        [.send (some (ascii "1")) (gauge "a" [5]), .send (some (ascii "2")) (gauge "b" [7]),
          .joinBlocks .listed { startTime := 0 }] = .ok s ∧
      s.held protoRuntime ≠ heldBy [gauge "a" [5], gauge "b" [7]]) ∧
    ∃ s, Datastore.run protoRuntime Datastore.empty (joinRun ++ [.send none (gauge "a" [11])]) = .ok s ∧
      s.held protoRuntime ≠ heldBy (sentStreams joinRun ++ [gauge "a" [11]]) := by
  constructor
  · obtain ⟨s, reached, few⟩ := Ends.exists_ok
      (by decide : Ends (fun _ => False) (fun s : Datastore UInt64 => (s.held protoRuntime).card = 0)
        (Datastore.run protoRuntime Datastore.empty
          [.send (some (ascii "1")) (gauge "a" [5]), .send (some (ascii "2")) (gauge "b" [7]),
            .joinBlocks .listed { startTime := 0 }]))
    refine ⟨s, reached, fun same => ?_⟩
    rw [same] at few
    exact absurd few (by decide)
  · obtain ⟨s, reached, few⟩ := Ends.exists_ok
      (by decide +kernel : Ends (fun _ => False) (fun s : Datastore UInt64 => (s.held protoRuntime).card = 4)
        (Datastore.run protoRuntime Datastore.empty (joinRun ++ [.send none (gauge "a" [11])])))
    refine ⟨s, reached, fun same => ?_⟩
    rw [same] at few
    exact absurd few (by decide)

end OpenInstrument
