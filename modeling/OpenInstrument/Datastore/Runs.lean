import OpenInstrument.Datastore.Steps

/-! # Runs of the store

What the results about whole runs share: identifiers that the generator draws are new, and the file
calls of an operation succeed.
-/

namespace OpenInstrument

open Fallible (Ends Along)

variable {Double : Type}

/-- The identifier that an operation takes from the generator, if it asks for one. -/
def Operation.uuid : Operation Double → Option GoString
  | .send uuid _ => uuid
  | .splitBlock _ choices => choices.uuid
  | _ => none

def drawnIds (operations : List (Operation Double)) : List GoString := operations.filterMap Operation.uuid

/-- The generator never returns an identifier twice, nor one that cannot be part of a file name. -/
structure FreshIds (operations : List (Operation Double)) : Prop where
  distinct : (drawnIds operations).Nodup
  valid : ∀ id ∈ drawnIds operations, ValidId id

instance (operations : List (Operation Double)) : Decidable (FreshIds operations) :=
  decidable_of_iff ((drawnIds operations).Nodup ∧ ∀ id ∈ drawnIds operations, ValidId id)
    ⟨fun ⟨distinct, valid⟩ => ⟨distinct, valid⟩, fun ids => ⟨ids.distinct, ids.valid⟩⟩

/-- The file calls of an operation succeed.  `splitBlock` reads a file that its compaction wrote, so the
calls of the compaction count by themselves. -/
def Datastore.Completes (rt : Runtime Double) (s : Datastore Double) (operation : Operation Double) : Prop :=
  Ends (fun _ => True) (fun after => after.disk.incomplete = false) (s.step rt operation) ∧
    match operation with
    | .splitBlock key choices => ∀ block ∈ s.blocks.lookup key,
        Ends (fun _ => True) (fun result => result.1.incomplete = false)
          (block.compactBlock rt choices.compaction choices.clog s.disk)
    | _ => True

instance (rt : Runtime Double) (s : Datastore Double) : ∀ operation, Decidable (s.Completes rt operation)
  | .splitBlock _ _ => inferInstanceAs (Decidable (_ ∧ ∀ block ∈ _, _))
  | .send _ _ => inferInstanceAs (Decidable (_ ∧ True))
  | .flush _ => inferInstanceAs (Decidable (_ ∧ True))
  | .compactBlock _ _ _ => inferInstanceAs (Decidable (_ ∧ True))
  | .joinBlocks _ _ => inferInstanceAs (Decidable (_ ∧ True))

/-! ## One step -/

/-- What an operation other than `joinBlocks` does to a sound store. -/
inductive Datastore.Stepped (rt : Runtime Double) (s : Datastore Double) :
    Operation Double → Datastore Double → Prop where
  | send {uuid : Option GoString} {stream : Stream Double} {after : Datastore Double}
      (named : stream.HasVariable) (sent : s.Sent uuid stream after)
      (held : s.Delivers uuid stream → after.held rt = s.held rt + stream.held) :
      Stepped rt s (.send uuid stream) after
  | flush {order : Iteration} {after : Datastore Double} (held : after.held rt = s.held rt)
      (blockKeys : after.blockKeys = s.blockKeys)
      (lookups : ∀ key, after.blocks.lookup key = (s.blocks.lookup key).map DatastoreBlock.flushed) :
      Stepped rt s (.flush order) after
  | compactMissing {key : GoString} {orders : Orders} {clog : CompactionLog}
      (absent : s.blocks.lookup key = none) : Stepped rt s (.compactBlock key orders clog) s
  | compact {key : GoString} {orders : Orders} {clog : CompactionLog} {block compacted : DatastoreBlock Double}
      {after : Datastore Double} (found : s.blocks.lookup key = some block)
      (compaction : s.CompactedTo rt after key block compacted) :
      Stepped rt s (.compactBlock key orders clog) after
  | split {key : GoString} {choices : SplitChoices} {after : Datastore Double}
      (split : s.Split rt key choices.uuid after) : Stepped rt s (.splitBlock key choices) after

theorem Datastore.send_named {s after : Datastore Double} {uuid : Option GoString} {stream : Stream Double}
    (sent : s.send uuid stream = .ok after) : stream.HasVariable := by
  cases found : stream.streamVariable with
  | none =>
    rw [Datastore.send, found] at sent
    cases sent
  | some p => exact Option.isSome_iff_exists.mpr ⟨p, found⟩

theorem Datastore.Confined.of_split {rt : Runtime Double} {s after : Datastore Double}
    {key leftKey : GoString} {block left right : DatastoreBlock Double} (below : leftKey ≠ key)
    (halves : s.SplitTo rt after key leftKey block left right) : Datastore.Confined rt s after := by
  intro name changed
  have own : name ∈ block.ownFiles rt ++ left.ownFiles rt :=
    by_contra fun foreign => changed (halves.touches name foreign)
  rcases List.mem_append.mp own with ofRight | ofLeft
  · refine ⟨key, right, ?_, DatastoreBlock.ownFiles_congr rt halves.rightId ▸ ofRight⟩
    rw [halves.blocks, AList.lookup_insert_ne below.symm, AList.lookup_insert]
  · refine ⟨leftKey, left, ?_, ofLeft⟩
    rw [halves.blocks, AList.lookup_insert]

theorem Datastore.Confined.of_compaction {rt : Runtime Double} {s after : Datastore Double} {key : GoString}
    {block compacted : DatastoreBlock Double} (compaction : s.CompactedTo rt after key block compacted) :
    Datastore.Confined rt s after := by
  have kept := (congrArg (AList.lookup key) compaction.blocks).trans (AList.lookup_insert _)
  exact .of_touches kept (DatastoreBlock.ownFiles_congr rt compaction.id ▸ compaction.touches)

theorem Datastore.Sound.confined_of_split {rt : Runtime Double} {used : List GoString} {s after : Datastore Double}
    (sound : s.Sound rt used) {key : GoString} {uuid : Option GoString} (split : s.Split rt key uuid after) :
    Datastore.Confined rt s after := by
  cases split with
  | missing => exact fun name changed => absurd rfl changed
  | tooFew => exact fun name changed => absurd rfl changed
  | @compacted block compacted after found undrawn compaction => exact .of_compaction compaction
  | @split block left right after leftKey id found chosen drawn halves =>
    -- The left key is below one of the keys of the block, and hence below the key of the block.
    obtain ⟨-, above, member, below⟩ := DatastoreBlock.leftEndKey_spec chosen
    exact Datastore.Confined.of_split (below.trans_le (sound.bounded key block found above member)).ne halves

/-- A block that `compactBlock` gets through has a value for every variable it has flushed. -/
theorem Datastore.Sound.valued_of_splitBlock {rt : Runtime Double} {used : List GoString}
    {s : Datastore Double} (sound : s.Sound rt used) {key : GoString} {choices : SplitChoices}
    {result : Datastore Double × Option StoreError} (taken : s.splitBlock rt choices key = .ok result)
    {block : DatastoreBlock Double} {file logged : List (Stream Double)}
    (found : s.blocks.lookup key = some block) (several : block.leftEndKey ≠ none)
    (blockSound : BlockSound rt s.disk.view block file logged) :
    Valued (addStreams ∅ (file ++ choices.compaction.logs.order block.logs)) := by
  rw [Datastore.splitBlock, found] at taken
  simp only [DatastoreBlock.splitKeys_eq blockSound.named, Fallible.ok_bind] at taken
  split at taken
  · rename_i few
    exact absurd (if_pos few) several
  · obtain ⟨compacted, ran, -⟩ := Fallible.bind_ok taken
    exact blockSound.valued_of_compactBlock sound.reliable ran

theorem Datastore.Sound.stepped_compactBlock {rt : Runtime Double} {used : List GoString} {s after : Datastore Double}
    (sound : s.Sound rt used) {key : GoString} {orders : Orders} {clog : CompactionLog}
    (unbroken : after.disk.incomplete = false) (taken : s.step rt (.compactBlock key orders clog) = .ok after) :
    after.Sound rt used ∧ Datastore.Confined rt s after ∧ s.Stepped rt (.compactBlock key orders clog) after := by
  rw [Datastore.step, Datastore.compactBlock] at taken
  cases found : s.blocks.lookup key with
  | none =>
    rw [found] at taken
    obtain rfl := Except.ok.inj taken
    exact ⟨sound, fun name changed => absurd rfl changed, .compactMissing found⟩
  | some block =>
    obtain ⟨file, logged, blockSound⟩ := sound.block key block found
    simp only [found] at taken
    -- The step has not panicked, so every stream it read had a value.
    obtain ⟨_, ran, _⟩ := Fallible.map_ok taken
    obtain ⟨result, ran, _⟩ := Fallible.bind_ok ran
    obtain ⟨disk, compacted, again, -, success⟩ := sound.compactBlock found blockSound clog
      (blockSound.valued_of_compactBlock sound.reliable ran)
    rw [again] at taken
    obtain rfl : _ = after := Except.ok.inj taken
    obtain ⟨afterSound, compaction⟩ := success unbroken
    exact ⟨afterSound, .of_compaction compaction, .compact found compaction⟩

theorem Datastore.Sound.stepped_splitBlock {rt : Runtime Double} {used : List GoString} {s after : Datastore Double}
    (sound : s.Sound rt used) {key : GoString} {choices : SplitChoices}
    (completes : s.Completes rt (.splitBlock key choices))
    (fresh : ∀ id ∈ choices.uuid, ValidId id ∧ id ∉ used)
    (taken : s.step rt (.splitBlock key choices) = .ok after) :
    after.Sound rt (used ++ choices.uuid.toList) ∧ Datastore.Confined rt s after ∧
      s.Stepped rt (.splitBlock key choices) after := by
  have unbroken : after.disk.incomplete = false := completes.1.of_ok taken
  have complete : ∀ block, s.blocks.lookup key = some block → ∀ result,
      block.compactBlock rt choices.compaction choices.clog s.disk = .ok result →
        result.1.incomplete = false :=
    fun block found result ran => (completes.2 block found).of_ok ran
  obtain ⟨_, ran, _⟩ := Fallible.map_ok taken
  obtain ⟨_, err, run, success⟩ := sound.splitBlock fresh
    (fun block file logged found several blockSound =>
      sound.valued_of_splitBlock ran found several blockSound) complete
  rw [Datastore.step, run] at taken
  obtain rfl : _ = after := Except.ok.inj taken
  obtain ⟨afterSound, split⟩ := success unbroken
  exact ⟨afterSound, sound.confined_of_split split, .split split⟩

theorem Datastore.Sound.stepped {rt : Runtime Double} {used : List GoString} {s after : Datastore Double}
    (sound : s.Sound rt used) {operation : Operation Double} (completes : s.Completes rt operation)
    (fresh : ∀ id ∈ operation.uuid, ValidId id ∧ id ∉ used)
    (apart : ∀ orders clog, operation ≠ .joinBlocks orders clog)
    (taken : s.step rt operation = .ok after) :
    after.Sound rt (used ++ operation.uuid.toList) ∧ Datastore.Confined rt s after ∧
      s.Stepped rt operation after := by
  have unbroken : after.disk.incomplete = false := completes.1.of_ok taken
  cases operation with
  | send uuid stream =>
    have named := Datastore.send_named taken
    obtain ⟨_, run, sent⟩ := Datastore.send_sent sound.endKey uuid named
    obtain rfl : _ = after := Except.ok.inj (run.symm.trans taken)
    obtain ⟨afterSound, confined, held⟩ := sound.sent named fresh sent
    exact ⟨afterSound, confined, .send named sent held⟩
  | flush order =>
    obtain ⟨_, run, success⟩ := sound.flush order
    obtain rfl : _ = after := Except.ok.inj (run.symm.trans taken)
    obtain ⟨afterSound, confined, held, blockKeys, lookups⟩ := success unbroken
    exact ⟨by simpa [Operation.uuid] using afterSound, confined, .flush held blockKeys lookups⟩
  | compactBlock key orders clog =>
    simp only [Operation.uuid, Option.toList_none, List.append_nil]
    exact sound.stepped_compactBlock unbroken taken
  | splitBlock key choices => exact sound.stepped_splitBlock completes fresh taken
  | joinBlocks orders clog => exact absurd rfl (apart orders clog)

/-! ## Runs -/

theorem drawnIds_append (first second : List (Operation Double)) :
    drawnIds (first ++ second) = drawnIds first ++ drawnIds second :=
  List.filterMap_append

theorem drawnIds_singleton (operation : Operation Double) :
    drawnIds [operation] = operation.uuid.toList := by
  cases drawn : operation.uuid <;> simp [drawnIds, drawn]

/-- Each operation draws an identifier that no earlier one has drawn. -/
theorem FreshIds.fresh {operations : List (Operation Double)} (ids : FreshIds operations)
    {before after : List (Operation Double)} {operation : Operation Double}
    (split : operations = before ++ operation :: after) :
    ∀ id ∈ operation.uuid, ValidId id ∧ id ∉ drawnIds before := by
  intro id drawn
  have now : id ∈ drawnIds (operation :: after) :=
    List.mem_filterMap.mpr ⟨operation, List.mem_cons_self, drawn⟩
  have all : drawnIds operations = drawnIds before ++ drawnIds (operation :: after) := by
    rw [split, drawnIds_append]
  refine ⟨ids.valid id (all ▸ List.mem_append_right _ now), fun earlier => ?_⟩
  have distinct := ids.distinct
  rw [all, List.nodup_append] at distinct
  exact distinct.2.2 id earlier id now rfl

/-- A run from the empty directory that keeps a property of sound stores under a condition. -/
theorem run_ends {rt : Runtime Double} {allowed : Panic → Prop}
    {condition : Datastore Double → Operation Double → Prop} {operations : List (Operation Double)}
    (holds : List (Operation Double) → Datastore Double → Prop) (ids : FreshIds operations)
    (keeps : ∀ history s operation, s.Sound rt (drawnIds history) → holds history s →
      s.Completes rt operation → condition s operation →
      (∀ id ∈ operation.uuid, ValidId id ∧ id ∉ drawnIds history) → operation ∈ operations →
      Ends allowed (fun after => after.Sound rt (drawnIds history ++ operation.uuid.toList) ∧
        holds (history ++ [operation]) after) (s.step rt operation))
    (start : holds [] Datastore.empty)
    (along : Along (Datastore.step rt) (fun _ s operation => s.Completes rt operation ∧ condition s operation)
      [] Datastore.empty operations) :
    Ends allowed (fun s => s.Sound rt (drawnIds operations) ∧ holds operations s)
      (Datastore.run rt Datastore.empty operations) := by
  have inputsFree : ∀ before operation after, operations = before ++ operation :: after →
      (fun history (operation : Operation Double) =>
        (∀ id ∈ operation.uuid, ValidId id ∧ id ∉ drawnIds history) ∧ operation ∈ operations)
          ([] ++ before) operation :=
    fun _ _ _ split => ⟨ids.fresh split, split ▸ by simp⟩
  have keepsBoth : ∀ history s operation, (s.Sound rt (drawnIds history) ∧ holds history s) →
      ((s.Completes rt operation ∧ condition s operation) ∧
        (∀ id ∈ operation.uuid, ValidId id ∧ id ∉ drawnIds history) ∧ operation ∈ operations) →
      Ends allowed (fun after => after.Sound rt (drawnIds (history ++ [operation])) ∧
        holds (history ++ [operation]) after) (s.step rt operation) := by
    rintro history s operation ⟨sound, held⟩ ⟨⟨completes, condition⟩, fresh, member⟩
    rw [drawnIds_append, drawnIds_singleton]
    exact keeps history s operation sound held completes condition fresh member
  have initially : Datastore.Sound rt (drawnIds ([] : List (Operation Double))) Datastore.empty :=
    Datastore.sound_empty rt
  exact (Along.and inputsFree along).ends keepsBoth ⟨initially, start⟩

/-- The operation of the background loop that joins blocks. -/
def Operation.joins : Operation Double → Bool
  | .joinBlocks _ _ => true
  | _ => false

/-- A run without joins keeps what each of its steps keeps. -/
theorem run_stepped {rt : Runtime Double} {condition : Datastore Double → Operation Double → Prop}
    {operations : List (Operation Double)} (holds : List (Operation Double) → Datastore Double → Prop)
    (ids : FreshIds operations) (apart : ∀ operation ∈ operations, operation.joins = false)
    (keeps : ∀ (history : List (Operation Double)) s operation after, Datastore.Sound rt (drawnIds history) s →
      holds history s → condition s operation → Datastore.Confined rt s after → s.Stepped rt operation after →
        holds (history ++ [operation]) after)
    (start : holds [] Datastore.empty)
    (along : Along (Datastore.step rt) (fun _ s operation => s.Completes rt operation ∧ condition s operation)
      [] Datastore.empty operations) :
    Ends (fun _ => True) (fun s => s.Sound rt (drawnIds operations) ∧ holds operations s)
      (Datastore.run rt Datastore.empty operations) := by
  refine run_ends holds ids (fun history s operation sound held completes kept fresh member => ?_) start along
  cases taken : s.step rt operation with
  | error panic => trivial
  | ok after =>
    have noJoin : ∀ orders clog, operation ≠ .joinBlocks orders clog := by
      rintro orders clog rfl
      exact absurd (apart _ member) (by simp [Operation.joins])
    obtain ⟨afterSound, confined, stepped⟩ := sound.stepped completes fresh noJoin taken
    exact ⟨afterSound, keeps history s operation after sound held kept confined stepped⟩

/-- A run without joins that returns ends in a sound store. -/
theorem run_sound {rt : Runtime Double} {operations : List (Operation Double)} (ids : FreshIds operations)
    (apart : ∀ operation ∈ operations, operation.joins = false)
    (along : Along (Datastore.step rt) (fun _ s operation => s.Completes rt operation) [] Datastore.empty
      operations) :
    Ends (fun _ => True) (fun s => s.Sound rt (drawnIds operations))
      (Datastore.run rt Datastore.empty operations) := by
  have ends := run_stepped (fun _ _ => True) ids apart (fun _ _ _ _ _ _ _ _ _ => trivial) trivial
    (Along.and (fun _ _ _ _ => trivial) along)
  exact ends.mono fun s both => both.1

end OpenInstrument
