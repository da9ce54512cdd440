import Mathlib.Algebra.Order.Group.Multiset
import OpenInstrument.Datastore.Block

/-! # Filing streams under their variables

Flushing a block, replaying its log and reading its file all file streams one after another under
their variables.  When every stream has a variable none of them panics, and what they do is the pure
`addStreams`: it keeps every value, under the variable it came with, in the order it came.
-/

namespace OpenInstrument

variable {Double Cell : Type}

def StreamVariable.parsed (p : StreamVariable) : Variable :=
  { name := p.name, labels := p.label.foldl addLabel ∅ }

/-- The key under which a variable is filed: the variable, printed. -/
def variableKey : Option StreamVariable → GoString
  | none => []
  | some p => p.parsed.string

def ValueStream.key (stream : ValueStream Cell) : GoString := variableKey stream.streamVariable

def StoreFileHeaderIndex.key (entry : StoreFileHeaderIndex) : GoString := variableKey entry.streamVariable

def ValueStream.HasVariable (stream : ValueStream Cell) : Prop := stream.streamVariable.isSome

instance (stream : ValueStream Cell) : Decidable stream.HasVariable :=
  inferInstanceAs (Decidable (stream.streamVariable.isSome = true))

/-- The values of a stream, each with the key of the stream. -/
def ValueStream.held (stream : ValueStream Cell) : Multiset (GoString × Cell) :=
  Multiset.ofList (stream.value.map fun value => (stream.key, value))

theorem ValueStream.held_eq_zero {stream : ValueStream Cell} : stream.held = 0 ↔ stream.value = [] := by
  rw [ValueStream.held, Multiset.coe_eq_zero, List.map_eq_nil_iff]

/-- The values of several streams. -/
def heldBy (streams : List (ValueStream Cell)) : Multiset (GoString × Cell) :=
  (streams.map ValueStream.held).sum

theorem newFromProto_some (p : StreamVariable) : newFromProto (some p) = .ok p.parsed := rfl

theorem ValueStream.HasVariable.newFromProto {stream : ValueStream Cell} (named : stream.HasVariable) :
    ∃ v, newFromProto stream.streamVariable = .ok v ∧ v.string = stream.key := by
  obtain ⟨p, found⟩ := Option.isSome_iff_exists.mp named
  exact ⟨p.parsed, by rw [found, newFromProto_some], by rw [ValueStream.key, found]; rfl⟩

theorem variableString_eq {stream : ValueStream Cell} (named : stream.HasVariable) :
    variableString stream.streamVariable = .ok stream.key := by
  obtain ⟨v, parsed, printed⟩ := named.newFromProto
  simp only [variableString, parsed, ← printed]
  rfl

@[simp] theorem heldBy_nil : heldBy ([] : List (ValueStream Cell)) = 0 := rfl

@[simp] theorem heldBy_cons (stream : ValueStream Cell) (streams : List (ValueStream Cell)) :
    heldBy (stream :: streams) = stream.held + heldBy streams := by
  simp [heldBy]

@[simp] theorem heldBy_append (first second : List (ValueStream Cell)) :
    heldBy (first ++ second) = heldBy first + heldBy second := by
  simp [heldBy]

theorem heldBy_flatMap {Item : Type} (streams : Item → List (ValueStream Cell)) (items : List Item) :
    heldBy (items.flatMap streams) = (items.map fun item => heldBy (streams item)).sum := by
  induction items with
  | nil => rfl
  | cons item items inductionHypothesis =>
    rw [List.flatMap_cons, heldBy_append, inductionHypothesis, List.map_cons, List.sum_cons]

theorem heldBy_perm {first second : List (ValueStream Cell)} (same : first.Perm second) :
    heldBy first = heldBy second :=
  (same.map _).sum_eq

theorem ValueStream.held_append (stream : ValueStream Cell) (values : List Cell) :
    { stream with value := stream.value ++ values }.held =
      stream.held + Multiset.ofList (values.map fun value => (stream.key, value)) := by
  simp [ValueStream.held, ValueStream.key]

/-- The same variable and the same values in another order. -/
theorem ValueStream.held_of_perm {first second : ValueStream Cell} (key : first.key = second.key)
    (values : first.value.Perm second.value) : first.held = second.held := by
  simp only [ValueStream.held, key]
  exact Multiset.coe_eq_coe.mpr (values.map _)

@[simp] theorem Runtime.key_sortStream (rt : Runtime Double) (stream : Stream Double) :
    (rt.sortStream stream).key = stream.key :=
  rfl

@[simp] theorem Runtime.held_sortStream (rt : Runtime Double) (stream : Stream Double) :
    (rt.sortStream stream).held = stream.held :=
  ValueStream.held_of_perm rfl (rt.sort_perm _)

@[simp] theorem Runtime.sortStream_value_eq_nil (rt : Runtime Double) (stream : Stream Double) :
    (rt.sortStream stream).value = [] ↔ stream.value = [] := by
  rw [Runtime.sortStream, ← List.length_eq_zero_iff, ← List.length_eq_zero_iff,
    (rt.sort_perm stream.value).length_eq]

/-! ## Filing -/

/-- `appendStream`, for a stream that has a variable. -/
def addStream (streams : StreamMap Double) (stream : Stream Double) : StreamMap Double :=
  match streams.lookup stream.key with
  | some found => streams.insert stream.key { found with value := found.value ++ stream.value }
  | none => streams.insert stream.key stream

def addStreams (streams : StreamMap Double) (added : List (Stream Double)) : StreamMap Double :=
  added.foldl addStream streams

/-- Every stream of the map stands under its own key. -/
def Filed (streams : StreamMap Double) : Prop :=
  ∀ key stream, streams.lookup key = some stream → stream.key = key ∧ stream.HasVariable

/-- No stream of the map is without values. -/
def Valued (streams : StreamMap Double) : Prop :=
  ∀ key stream, streams.lookup key = some stream → stream.value ≠ []

def valuesAt (streams : StreamMap Double) (key : GoString) : List (Value Double) :=
  match streams.lookup key with
  | some stream => stream.value
  | none => []

/-- The values of a map, each with the key of its stream. -/
def heldIn (streams : StreamMap Double) : Multiset (GoString × Value Double) :=
  Keyed.total (fun _ stream => stream.held) streams

theorem appendStream_eq {stream : Stream Double} (named : stream.HasVariable)
    (streams : StreamMap Double) : appendStream streams stream = .ok (addStream streams stream) := by
  simp only [appendStream, variableString_eq named, addStream]
  cases found : streams.lookup stream.key with
  | none => simp [Bind.bind, Except.bind, found]; rfl
  | some old => simp [Bind.bind, Except.bind, found]; rfl

theorem foldlM_appendStream {added : List (Stream Double)} (named : ∀ stream ∈ added, stream.HasVariable)
    (streams : StreamMap Double) : added.foldlM appendStream streams = .ok (addStreams streams added) := by
  induction added generalizing streams with
  | nil => rfl
  | cons stream added inductionHypothesis =>
    rw [List.foldlM_cons, appendStream_eq (named stream List.mem_cons_self)]
    exact inductionHypothesis (fun other member => named other (List.mem_cons_of_mem _ member)) _

@[simp] theorem addStreams_nil (streams : StreamMap Double) : addStreams streams [] = streams := rfl

@[simp] theorem addStreams_cons (streams : StreamMap Double) (stream : Stream Double)
    (added : List (Stream Double)) :
    addStreams streams (stream :: added) = addStreams (addStream streams stream) added :=
  rfl

theorem addStreams_append (streams : StreamMap Double) (first second : List (Stream Double)) :
    addStreams streams (first ++ second) = addStreams (addStreams streams first) second :=
  List.foldl_append

/-- What `addStream` leaves under a key. -/
theorem lookup_addStream (streams : StreamMap Double) (stream : Stream Double) (key : GoString) :
    (addStream streams stream).lookup key =
      if key = stream.key then
        some { (streams.lookup key).getD { stream with value := [] } with
          value := valuesAt streams key ++ stream.value }
      else streams.lookup key := by
  by_cases same : key = stream.key
  · subst same
    simp only [addStream, valuesAt, if_true]
    cases found : streams.lookup stream.key with
    | none => simp
    | some old => simp
  · simp only [addStream, same, if_false]
    cases streams.lookup stream.key with
    | none => exact AList.lookup_insert_ne same
    | some old => exact AList.lookup_insert_ne same

theorem Filed.empty : Filed (∅ : StreamMap Double) := by
  intro key stream found
  cases found

theorem Filed.addStream {streams : StreamMap Double} {stream : Stream Double} (filed : Filed streams)
    (named : stream.HasVariable) : Filed (addStream streams stream) := by
  intro key found member
  rw [lookup_addStream] at member
  split at member
  · rename_i same
    obtain rfl := Option.some.inj member
    cases old : streams.lookup key with
    | none => exact ⟨same.symm, named⟩
    | some first => exact filed key first old
  · exact filed key found member

theorem Filed.addStreams {streams : StreamMap Double} {added : List (Stream Double)}
    (filed : Filed streams) (named : ∀ stream ∈ added, stream.HasVariable) :
    Filed (addStreams streams added) := by
  induction added generalizing streams with
  | nil => exact filed
  | cons stream added inductionHypothesis =>
    exact inductionHypothesis (filed.addStream (named stream List.mem_cons_self))
      fun other member => named other (List.mem_cons_of_mem _ member)

theorem valuesAt_addStream (streams : StreamMap Double) (stream : Stream Double) (key : GoString) :
    valuesAt (addStream streams stream) key =
      valuesAt streams key ++ if stream.key = key then stream.value else [] := by
  rw [valuesAt, lookup_addStream]
  by_cases same : key = stream.key
  · simp [same]
  · simp [same, Ne.symm same, valuesAt]

/-- Under each key, the values of the streams filed there, in order. -/
theorem valuesAt_addStreams (streams : StreamMap Double) (added : List (Stream Double))
    (key : GoString) :
    valuesAt (addStreams streams added) key =
      valuesAt streams key ++ added.flatMap fun stream => if stream.key = key then stream.value else [] := by
  induction added generalizing streams with
  | nil => simp
  | cons stream added inductionHypothesis =>
    rw [addStreams_cons, inductionHypothesis, valuesAt_addStream, List.flatMap_cons, List.append_assoc]

theorem mem_addStream {streams : StreamMap Double} {stream : Stream Double} {key : GoString} :
    key ∈ addStream streams stream ↔ key ∈ streams ∨ key = stream.key := by
  simp only [addStream]
  split <;> simp [or_comm]

theorem mem_addStreams {streams : StreamMap Double} {added : List (Stream Double)} {key : GoString} :
    key ∈ addStreams streams added ↔ key ∈ streams ∨ ∃ stream ∈ added, stream.key = key := by
  induction added generalizing streams with
  | nil => simp
  | cons stream added inductionHypothesis =>
    simp [inductionHypothesis, mem_addStream, or_assoc, eq_comm (a := key)]

/-- Filing a stream adds its values to those of the map. -/
theorem heldIn_addStream {streams : StreamMap Double} {stream : Stream Double} (filed : Filed streams) :
    heldIn (addStream streams stream) = heldIn streams + stream.held := by
  simp only [addStream]
  cases found : streams.lookup stream.key with
  | none =>
    have absent : stream.key ∉ streams := AList.lookup_eq_none.mp found
    rw [heldIn, Keyed.total_insert_of_notMem absent, add_comm]
    rfl
  | some old =>
    have key : old.key = stream.key := (filed _ _ found).1
    have replaced : heldIn (streams.insert stream.key { old with value := old.value ++ stream.value }) +
          old.held =
        heldIn streams + { old with value := old.value ++ stream.value }.held :=
      Keyed.total_replace found _
    rw [ValueStream.held_append, key, add_comm old.held, ← add_assoc] at replaced
    exact add_right_cancel replaced

theorem heldIn_addStreams {streams : StreamMap Double} {added : List (Stream Double)}
    (filed : Filed streams) (named : ∀ stream ∈ added, stream.HasVariable) :
    heldIn (addStreams streams added) = heldIn streams + heldBy added := by
  induction added generalizing streams with
  | nil => simp
  | cons stream added inductionHypothesis =>
    rw [addStreams_cons, inductionHypothesis (filed.addStream (named stream List.mem_cons_self))
      (fun other member => named other (List.mem_cons_of_mem _ member)), heldIn_addStream filed,
      heldBy_cons, add_assoc]

theorem heldIn_eq_heldBy (streams : StreamMap Double) :
    heldIn streams = heldBy ((Keyed.pairs streams).map Prod.snd) := by
  rw [heldIn, Keyed.total_eq_pairs, heldBy, List.map_map]
  rfl

/-- A stream of the result has values exactly when one of the streams filed under its key has. -/
theorem valued_addStreams {added : List (Stream Double)} :
    Valued (addStreams ∅ added) ↔
      ∀ stream ∈ added, ∃ other ∈ added, other.key = stream.key ∧ other.value ≠ [] := by
  have values : ∀ key, valuesAt (addStreams ∅ added) key =
      added.flatMap fun stream => if stream.key = key then stream.value else [] := fun key => by
    rw [valuesAt_addStreams]
    rfl
  have lookup_values : ∀ key found, (addStreams ∅ added).lookup key = some found →
      found.value = valuesAt (addStreams ∅ added) key := by
    intro key found member
    simp [valuesAt, member]
  constructor
  · intro valued stream member
    obtain ⟨found, lookup⟩ := Keyed.mem_iff_lookup.mp (mem_addStreams.mpr (.inr ⟨stream, member, rfl⟩))
    have nonempty := valued stream.key found lookup
    rw [lookup_values _ _ lookup, values, Ne, List.flatMap_eq_nil_iff] at nonempty
    push Not at nonempty
    obtain ⟨other, present, contributes⟩ := nonempty
    split at contributes
    · rename_i same
      exact ⟨other, present, same, contributes⟩
    · exact absurd rfl contributes
  · intro covered key found lookup
    rcases mem_addStreams.mp (Keyed.mem_iff_lookup.mpr ⟨found, lookup⟩) with old | ⟨stream, member, same⟩
    · exact absurd old (AList.notMem_empty _)
    · obtain ⟨other, present, sameKey, nonempty⟩ := covered stream member
      rw [lookup_values _ _ lookup, values, Ne, List.flatMap_eq_nil_iff]
      intro empty
      exact nonempty (by simpa [sameKey.trans same] using empty other present)

theorem lookup_addStreams_of_notMem {added : List (Stream Double)} {key : GoString}
    (absent : key ∉ added.map ValueStream.key) (streams : StreamMap Double) :
    (addStreams streams added).lookup key = streams.lookup key := by
  induction added generalizing streams with
  | nil => rfl
  | cons stream added inductionHypothesis =>
    simp only [List.map_cons, List.mem_cons, not_or] at absent
    rw [addStreams_cons, inductionHypothesis absent.2, lookup_addStream, if_neg absent.1]

/-- Streams with different keys are filed as they are. -/
theorem lookup_addStreams_of_mem {added : List (Stream Double)}
    (distinct : (added.map ValueStream.key).Nodup) {stream : Stream Double} (member : stream ∈ added)
    (streams : StreamMap Double) (fresh : ∀ other ∈ added, other.key ∉ streams) :
    (addStreams streams added).lookup stream.key = some stream := by
  induction added generalizing streams with
  | nil => cases member
  | cons first added inductionHypothesis =>
    simp only [List.map_cons, List.nodup_cons] at distinct
    have absent : first.key ∉ streams := fresh first List.mem_cons_self
    have inserted : addStream streams first = streams.insert first.key first := by
      simp [addStream, AList.lookup_eq_none.mpr absent]
    rw [addStreams_cons, inserted]
    rcases List.mem_cons.mp member with rfl | later
    · rw [lookup_addStreams_of_notMem distinct.1, AList.lookup_insert]
    · refine inductionHypothesis distinct.2 later _ fun other present => ?_
      have different : other.key ≠ first.key := fun same =>
        distinct.1 (same ▸ List.mem_map_of_mem present)
      simp [different, fresh other (List.mem_cons_of_mem _ present)]

/-! ## The streams of a block -/

def DatastoreBlock.logs (block : DatastoreBlock Double) : List (Stream Double) :=
  (Keyed.pairs block.logStreams).map Prod.snd

theorem DatastoreBlock.mem_logs {block : DatastoreBlock Double} {stream : Stream Double} :
    stream ∈ block.logs ↔ ∃ key, block.logStreams.lookup key = some stream := by
  simp [DatastoreBlock.logs, Keyed.mem_pairs]

/-- The keys of what the block has flushed, as its index and its log streams tell. -/
def DatastoreBlock.flushedKeys (block : DatastoreBlock Double) : List GoString :=
  block.blockHeader.index.map StoreFileHeaderIndex.key ++ block.logs.map ValueStream.key

/-- The keys of everything the block holds, as its index and its memory tell. -/
def DatastoreBlock.keys (block : DatastoreBlock Double) : List GoString :=
  block.flushedKeys ++ block.newStreams.map ValueStream.key

theorem DatastoreBlock.logs_keys {block : DatastoreBlock Double} (filed : Filed block.logStreams) :
    block.logs.map ValueStream.key = block.logStreams.keys := by
  rw [DatastoreBlock.logs, List.map_map, ← Keyed.pairs_keys]
  exact List.map_congr_left fun entry member => (filed _ _ (Keyed.mem_pairs.mp member)).1

/-- The streams that `Read` finds in the block file, unless it reports an error. -/
def DatastoreBlock.fileStreams (rt : Runtime Double) (disk : Disk) (block : DatastoreBlock Double) :
    Except StoreError (List (Stream Double)) :=
  match disk.readProtoFile block.filename with
  | .missing => .ok []
  | .failed => .error .unreadable
  | .opened content =>
    match protoRead rt.header content 0 with
    | .message oldheader position =>
      if oldheader.getVersion = 2 then
        .ok (valueStreamReaderUntil rt content position oldheader.getFooterPosition.toNat)
      else .error .unknownVersion
    | _ => .error .corruptHeader

theorem DatastoreBlock.readFile_eq_fileStreams (rt : Runtime Double) (disk : Disk)
    (block : DatastoreBlock Double) (streams : StreamMap Double) :
    block.readFile rt disk streams =
      match block.fileStreams rt disk with
      | .error err => .ok (.error err)
      | .ok file => .ok <$> file.foldlM appendStream streams := by
  unfold DatastoreBlock.readFile DatastoreBlock.fileStreams
  cases disk.readProtoFile block.filename with
  | missing => rfl
  | failed => rfl
  | opened content =>
    simp only
    cases protoRead rt.header content 0 with
    | endOfFile => rfl
    | failed => rfl
    | message oldheader position =>
      simp only
      split <;> rfl

end OpenInstrument
