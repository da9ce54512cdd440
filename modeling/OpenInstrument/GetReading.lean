import OpenInstrument.Get

/-! # When the streams of a get request are read and grouped

Before a request starts to mutate values, it has three ways to panic: the reader on the pattern `*` and on
what it cannot read, the choice of a label on an aggregation without labels, and the grouping on a variable
name that cannot be parsed.
-/

namespace OpenInstrument

variable {Double Cell : Type} {rt : Runtime Double}

/-! ## Reading -/

variable {disk : Disk} {search : Search} {block : DatastoreBlock Double} {s : Datastore Double}

/-- What `Reader` looks at in a block that it does not skip is there, and is not compared with `*`. -/
structure DatastoreBlock.Readable (rt : Runtime Double) (disk : Disk) (search : Search)
    (block : DatastoreBlock Double) : Prop where
  starred : search.v.name = [star] →
    block.logs = [] ∧ block.newStreams = [] ∧ block.blockHeader.index = []
  named : ∀ stream ∈ block.logs ++ block.newStreams, stream.HasVariable
  indexed : ∀ entry ∈ block.blockHeader.index, entry.streamVariable.isSome
  files : ∀ entry ∈ block.blockHeader.index, search.wantsIndex entry = .ok true →
    ∃ streams, block.getStreams rt disk entry = .ok streams

def DatastoreBlock.indexedStreams (rt : Runtime Double) (disk : Disk) (search : Search)
    (block : DatastoreBlock Double) (entry : StoreFileHeaderIndex) : List (Stream Double) :=
  if search.wantsIndex entry = .ok true then
    match block.getStreams rt disk entry with
    | .ok streams => streams
    | .error _ => []
  else []

def DatastoreBlock.selected (rt : Runtime Double) (disk : Disk) (search : Search)
    (block : DatastoreBlock Double) : List (Stream Double) :=
  (block.logs.filter fun stream => search.Selects Value.timestamp stream) ++
    (block.newStreams.filter fun stream => search.Selects Value.timestamp stream) ++
      block.blockHeader.index.flatMap (block.indexedStreams rt disk search)

theorem flatten_map_ite {Item : Type} (holds : Item → Prop) [DecidablePred holds] (items : List Item) :
    (items.map fun item => if holds item then [item] else []).flatten = items.filter holds := by
  induction items with
  | nil => rfl
  | cons item rest inductionHypothesis =>
    by_cases held : holds item
    · simp [held, inductionHypothesis]
    · simp [held, inductionHypothesis]

/-- Reading streams from memory fails on a stream without a variable, and on the pattern `*`. -/
theorem maybeReturnStreams_ok_iff {streams : List (ValueStream Cell)} (timestamp : Cell → UInt64) :
    (∃ sent, streams.mapM (maybeReturnStream timestamp search) = .ok sent) ↔
      (search.v.name = [star] → streams = []) ∧ ∀ stream ∈ streams, stream.HasVariable := by
  rw [Fallible.mapM_ok_iff]
  constructor
  · intro each
    have named : ∀ stream ∈ streams, stream.HasVariable := by
      intro stream member
      obtain ⟨sent, run⟩ := each stream member
      obtain ⟨matched, compared, -⟩ := Fallible.bind_ok run
      cases present : stream.streamVariable with
      | none =>
        rw [present] at compared
        cases compared
      | some p => exact Option.isSome_iff_exists.mpr ⟨p, present⟩
    refine ⟨fun bare => ?_, named⟩
    cases streams with
    | nil => rfl
    | cons stream rest =>
      obtain ⟨sent, run⟩ := each stream List.mem_cons_self
      obtain ⟨p, present⟩ := Option.isSome_iff_exists.mp (named stream List.mem_cons_self)
      rw [maybeReturnStream, present, Search.isMatch_star bare] at run
      cases run
  · rintro ⟨patterned, named⟩ stream member
    have compared : search.v.name ≠ [star] := fun bare => by simp [patterned bare] at member
    exact ⟨_, maybeReturnStream_eq timestamp compared (named stream member)⟩

theorem readIndex_ok_iff {entry : StoreFileHeaderIndex} :
    (∃ sent, block.readIndex rt disk search true entry = .ok sent) ↔
      entry.streamVariable.isSome ∧ search.v.name ≠ [star] ∧
        (search.wantsIndex entry = .ok true → ∃ streams, block.getStreams rt disk entry = .ok streams) := by
  rw [DatastoreBlock.readIndex]
  cases present : entry.streamVariable with
  | none => simp [Search.wantsIndex, Search.isMatch, present, newFromProto]
  | some p =>
    by_cases bare : search.v.name = [star]
    · simp [Search.wantsIndex, present, Search.isMatch_star bare, bare]
    · obtain ⟨wanted, wants⟩ : ∃ wanted, search.wantsIndex entry = .ok wanted := by
        rw [Search.wantsIndex, present, Search.isMatch_ok bare, Fallible.ok_bind]
        split_ifs <;> exact ⟨_, rfl⟩
      cases wanted with
      | true => simp [wants, bare]
      | false => simp [wants, bare, pure, Except.pure]

/-- The reader of a block that is not skipped fails exactly when something cannot be read or is compared
with `*`. -/
theorem DatastoreBlock.reader_ok_iff (above : search.v.string ≤ block.endKey) :
    (∃ sent, block.reader rt disk search true = .ok sent) ↔ block.Readable rt disk search := by
  have logs := @maybeReturnStreams_ok_iff _ search block.logs Value.timestamp
  have news := @maybeReturnStreams_ok_iff _ search block.newStreams Value.timestamp
  have index : (∃ sent, block.blockHeader.index.mapM (block.readIndex rt disk search true) = .ok sent) ↔
      ∀ entry ∈ block.blockHeader.index, entry.streamVariable.isSome ∧ search.v.name ≠ [star] ∧
        (search.wantsIndex entry = .ok true → ∃ streams, block.getStreams rt disk entry = .ok streams) :=
    Fallible.mapM_ok_iff.trans (forall₂_congr fun _ _ => readIndex_ok_iff)
  rw [DatastoreBlock.reader, if_neg (not_lt.mpr above)]
  -- The three loops run one after the other, each with a condition of its own.
  constructor
  · rintro ⟨sent, run⟩
    obtain ⟨logSent, ranLogs, run⟩ := Fallible.bind_ok run
    obtain ⟨newSent, ranNews, run⟩ := Fallible.bind_ok run
    obtain ⟨indexSent, ranIndex, -⟩ := Fallible.bind_ok run
    obtain ⟨logsStar, logsNamed⟩ := logs.mp ⟨logSent, ranLogs⟩
    obtain ⟨newsStar, newsNamed⟩ := news.mp ⟨newSent, ranNews⟩
    have entries := index.mp ⟨indexSent, ranIndex⟩
    constructor
    · intro bare
      refine ⟨logsStar bare, newsStar bare, ?_⟩
      exact List.eq_nil_iff_forall_not_mem.mpr fun entry member => (entries entry member).2.1 bare
    · intro stream member
      cases List.mem_append.mp member with
      | inl inLogs => exact logsNamed stream inLogs
      | inr inNews => exact newsNamed stream inNews
    · exact fun entry member => (entries entry member).1
    · exact fun entry member => (entries entry member).2.2
  · intro readable
    obtain ⟨logSent, ranLogs⟩ := logs.mpr ⟨fun bare => (readable.starred bare).1,
      fun stream member => readable.named stream (List.mem_append_left _ member)⟩
    obtain ⟨newSent, ranNews⟩ := news.mpr ⟨fun bare => (readable.starred bare).2.1,
      fun stream member => readable.named stream (List.mem_append_right _ member)⟩
    obtain ⟨indexSent, ranIndex⟩ := index.mpr fun entry member =>
      ⟨readable.indexed entry member,
        fun bare => by simp [(readable.starred bare).2.2] at member, readable.files entry member⟩
    have ranLogs' : ((Keyed.pairs block.logStreams).map Prod.snd).mapM
        (maybeReturnStream Value.timestamp search) = .ok logSent := ranLogs
    rw [ranLogs', Fallible.ok_bind, ranNews, Fallible.ok_bind, ranIndex]
    exact ⟨_, rfl⟩

theorem DatastoreBlock.Readable.patterned (readable : block.Readable rt disk search)
    {stream : Stream Double} (member : stream ∈ block.logs ++ block.newStreams) :
    search.v.name ≠ [star] := by
  intro bare
  obtain ⟨noLogs, noNews, -⟩ := readable.starred bare
  rw [noLogs, noNews] at member
  cases member

theorem DatastoreBlock.Readable.reader (readable : block.Readable rt disk search)
    (above : search.v.string ≤ block.endKey) :
    block.reader rt disk search true = .ok (block.selected rt disk search) := by
  have memory : ∀ stream ∈ block.logs ++ block.newStreams, maybeReturnStream Value.timestamp search stream =
      .ok (if search.Selects Value.timestamp stream then [stream] else []) := fun stream member =>
    maybeReturnStream_eq Value.timestamp (readable.patterned member) (readable.named stream member)
  have logs : ((Keyed.pairs block.logStreams).map Prod.snd).mapM
      (maybeReturnStream Value.timestamp search) = .ok (block.logs.map fun stream =>
        if search.Selects Value.timestamp stream then [stream] else []) :=
    Fallible.mapM_ok fun stream member => memory stream (List.mem_append_left _ member)
  have news : block.newStreams.mapM (maybeReturnStream Value.timestamp search) =
      .ok (block.newStreams.map fun stream =>
        if search.Selects Value.timestamp stream then [stream] else []) :=
    Fallible.mapM_ok fun stream member => memory stream (List.mem_append_right _ member)
  have index : block.blockHeader.index.mapM (block.readIndex rt disk search true) =
      .ok (block.blockHeader.index.map (block.indexedStreams rt disk search)) := by
    apply Fallible.mapM_ok
    intro entry member
    obtain ⟨sent, run⟩ := readIndex_ok_iff.mpr ⟨readable.indexed entry member,
      fun bare => by simp [(readable.starred bare).2.2] at member, readable.files entry member⟩
    rw [run, DatastoreBlock.indexedStreams]
    rw [DatastoreBlock.readIndex] at run
    obtain ⟨wanted, wants, run⟩ := Fallible.bind_ok run
    cases wanted with
    | true =>
      have read : block.getStreams rt disk entry = .ok sent := run
      rw [if_pos wants, read]
    | false =>
      obtain rfl : [] = sent := Except.ok.inj run
      rw [if_neg (by simp [wants])]
  rw [DatastoreBlock.reader, if_neg (not_lt.mpr above), logs, Fallible.ok_bind, news, Fallible.ok_bind, index]
  simp only [Fallible.ok_bind, flatten_map_ite, DatastoreBlock.selected, List.flatMap_def]
  rfl

def Datastore.Readable (rt : Runtime Double) (s : Datastore Double) (search : Search) : Prop :=
  ∀ block ∈ (Keyed.pairs s.blocks).map Prod.snd, search.v.string ≤ block.endKey →
    block.Readable rt s.disk search

def Datastore.selected (rt : Runtime Double) (s : Datastore Double) (search : Search) :
    List (Stream Double) :=
  ((Keyed.pairs s.blocks).map Prod.snd).flatMap fun block =>
    if search.v.string ≤ block.endKey then block.selected rt s.disk search else []

theorem Datastore.reader_ok_iff (arrival : Iteration) :
    (∃ delivered, s.reader rt arrival search true = .ok delivered) ↔ s.Readable rt search := by
  have blocks : (∃ delivered, s.reader rt arrival search true = .ok delivered) ↔
      ∀ block ∈ (Keyed.pairs s.blocks).map Prod.snd, ∃ sent, block.reader rt s.disk search true = .ok sent := by
    rw [← Fallible.mapM_ok_iff, Datastore.reader]
    constructor
    · rintro ⟨delivered, run⟩
      obtain ⟨sent, ran, -⟩ := Fallible.bind_ok run
      exact ⟨sent, ran⟩
    · rintro ⟨sent, ran⟩
      rw [ran]
      exact ⟨_, rfl⟩
  rw [blocks, Datastore.Readable]
  refine forall₂_congr fun block _ => ?_
  by_cases above : search.v.string ≤ block.endKey
  · rw [DatastoreBlock.reader_ok_iff above]
    exact ⟨fun readable _ => readable, fun readable => readable above⟩
  · rw [DatastoreBlock.reader, if_pos (not_le.mp above)]
    exact ⟨fun _ reached => absurd reached above, fun _ => ⟨_, rfl⟩⟩

theorem Datastore.Readable.reader (readable : s.Readable rt search) (arrival : Iteration) :
    s.reader rt arrival search true = .ok (arrival.order (s.selected rt search)) := by
  have blocks : ((Keyed.pairs s.blocks).map Prod.snd).mapM
      (fun block => block.reader rt s.disk search true) =
        .ok (((Keyed.pairs s.blocks).map Prod.snd).map fun block =>
          if search.v.string ≤ block.endKey then block.selected rt s.disk search else []) := by
    apply Fallible.mapM_ok
    intro block member
    by_cases above : search.v.string ≤ block.endKey
    · rw [(readable block member above).reader above, if_pos above]
    · rw [DatastoreBlock.reader, if_pos (not_le.mp above), if_neg above]
  rw [Datastore.reader, blocks, Fallible.ok_bind, Datastore.selected, List.flatMap_def]
  rfl

/-! ## Grouping -/

/-- The name of the variable can be parsed as if it were a printed variable. -/
def ValueStream.Parses (stream : ValueStream Cell) : Prop :=
  ∃ p v, stream.streamVariable = some p ∧ newFromString p.name = .ok (some v)

theorem inGroup_none (keep : Variable → Bool) {stream : ValueStream Cell} :
    ¬∃ group, inGroup none keep stream = .ok group := by
  rintro ⟨group, run⟩
  obtain ⟨testvar, -, nil⟩ := Fallible.bind_ok run
  cases nil

theorem groupOf_ok {streams : List (ValueStream Cell)} (named : ∀ stream ∈ streams, stream.HasVariable)
    (v : Variable) (keep : Variable → Bool) : ∃ group, groupOf (some v) keep streams = .ok group := by
  have each : ∀ stream ∈ streams, ∃ group, inGroup (some v) keep stream = .ok group := by
    intro stream member
    obtain ⟨p, present⟩ := Option.isSome_iff_exists.mp (named stream member)
    rw [inGroup, present, newFromProto_some]
    exact ⟨_, rfl⟩
  obtain ⟨groups, run⟩ := Fallible.mapM_ok_iff.mpr each
  exact ⟨groups.flatten, by rw [groupOf, run]; rfl⟩

/-- The groups of a name are formed exactly when the name can be parsed, if there are streams. -/
theorem groupsOf_ok_iff {uniqueLabels : List GoString} {streams : List (ValueStream Cell)}
    (mergeBy varname : GoString) (labelled : uniqueLabels ≠ []) (nonempty : streams ≠ [])
    (named : ∀ stream ∈ streams, stream.HasVariable) :
    (∃ groups, groupsOf uniqueLabels streams mergeBy varname = .ok groups) ↔
      ∃ v, newFromString varname = .ok (some v) := by
  have nilFails : ∀ keep, ¬∃ group, groupOf none keep streams = .ok group := by
    rintro keep ⟨group, run⟩
    obtain ⟨stream, member⟩ := List.exists_mem_of_ne_nil _ nonempty
    rw [groupOf] at run
    obtain ⟨groups, ran, -⟩ := Fallible.map_ok run
    exact inGroup_none keep (Fallible.exists_of_mapM_ok ran member)
  rw [groupsOf]
  cases parsed : newFromString varname with
  | error panic => simp
  | ok v =>
    cases v with
    | none =>
      -- The variable is nil, and the first stream that is compared with it panics.
      have fails : ¬∃ groups, (if mergeBy = [] then do
            let group ← groupOf none (fun _ => true) streams
            pure [group]
          else uniqueLabels.mapM fun labelvalue =>
            groupOf none (fun testvar => decide (testvar.labels.lookup mergeBy = some labelvalue)) streams) =
          Except.ok (ε := Panic) groups := by
        rintro ⟨groups, run⟩
        split at run
        · obtain ⟨group, ran, -⟩ := Fallible.bind_ok run
          exact nilFails _ ⟨group, ran⟩
        · obtain ⟨labelvalue, member⟩ := List.exists_mem_of_ne_nil _ labelled
          exact nilFails _ (Fallible.exists_of_mapM_ok run member)
      simpa using fails
    | some v =>
      have succeeds : ∃ groups, (if mergeBy = [] then do
            let group ← groupOf (some v) (fun _ => true) streams
            pure [group]
          else uniqueLabels.mapM fun labelvalue =>
            groupOf (some v) (fun testvar => decide (testvar.labels.lookup mergeBy = some labelvalue))
              streams) = Except.ok (ε := Panic) groups := by
        split
        · obtain ⟨group, ran⟩ := groupOf_ok named v fun _ => true
          exact ⟨[group], by rw [ran]; rfl⟩
        · exact Fallible.mapM_ok_iff.mpr fun labelvalue _ => groupOf_ok named v _
      simpa using succeeds

theorem newFromProto_ok_iff {p : Option StreamVariable} : (∃ v, newFromProto p = .ok v) ↔ p.isSome := by
  cases p with
  | none => simp [newFromProto]
  | some p => simp [newFromProto]

def ValueStream.parsed (stream : ValueStream Cell) : Variable :=
  stream.streamVariable.elim { name := [], labels := ∅ } StreamVariable.parsed

theorem newFromProto_parsed {stream : ValueStream Cell} (named : stream.HasVariable) :
    newFromProto stream.streamVariable = .ok stream.parsed := by
  obtain ⟨p, present⟩ := Option.isSome_iff_exists.mp named
  rw [ValueStream.parsed, present]
  rfl

theorem ValueStream.parses_iff {stream : ValueStream Cell} (named : stream.HasVariable) :
    stream.Parses ↔ ∃ v, newFromString stream.parsed.name = .ok (some v) := by
  obtain ⟨p, present⟩ := Option.isSome_iff_exists.mp named
  simp [ValueStream.Parses, ValueStream.parsed, present, StreamVariable.parsed]

/-- The variables are parsed first, and then their names are grouped one after the other. -/
theorem mergeStreamsBy_eq {streams : List (ValueStream Cell)} {mergeBy : GoString}
    (named : ∀ stream ∈ streams, stream.HasVariable) (maps : MapOrders) :
    mergeStreamsBy maps streams mergeBy =
      ((maps.uniqueVars (streams.map ValueStream.parsed)).mapM (fun varname =>
        groupsOf (maps.uniqueLabels (streams.map ValueStream.parsed) mergeBy varname) streams mergeBy varname) >>=
          fun groups => pure (groups.flatten.filter fun group => !group.isEmpty)) := by
  have parsed : streams.mapM (fun stream => newFromProto stream.streamVariable) =
      .ok (streams.map ValueStream.parsed) :=
    Fallible.mapM_ok fun stream member => newFromProto_parsed (named stream member)
  rw [mergeStreamsBy, parsed]
  rfl

theorem MapOrders.mem_uniqueVars {maps : MapOrders} {streams : List (ValueStream Cell)} {varname : GoString} :
    varname ∈ maps.uniqueVars (streams.map ValueStream.parsed) ↔
      ∃ stream ∈ streams, stream.parsed.name = varname := by
  rw [uniqueVars, (maps.names.perm _).mem_iff, List.mem_dedup]
  simp

theorem MapOrders.mem_uniqueLabels {maps : MapOrders} {streams : List (ValueStream Cell)}
    {mergeBy varname labelvalue : GoString} :
    labelvalue ∈ maps.uniqueLabels (streams.map ValueStream.parsed) mergeBy varname ↔
      ∃ stream ∈ streams, stream.parsed.labelOr mergeBy = labelvalue := by
  rw [uniqueLabels, ((maps.labelValues varname).perm _).mem_iff, List.mem_dedup]
  simp

/-- Grouping streams that have variables. -/
theorem mergeStreamsBy_named {maps : MapOrders} {streams : List (ValueStream Cell)} {mergeBy : GoString}
    (named : ∀ stream ∈ streams, stream.HasVariable) :
    (∃ groups, mergeStreamsBy maps streams mergeBy = .ok groups) ↔ ∀ stream ∈ streams, stream.Parses := by
  let parsed := streams.map ValueStream.parsed
  have grouped : (∃ groups, mergeStreamsBy maps streams mergeBy = .ok groups) ↔
      ∀ varname ∈ maps.uniqueVars parsed,
        ∃ groups, groupsOf (maps.uniqueLabels parsed mergeBy varname) streams mergeBy varname = .ok groups := by
    rw [mergeStreamsBy_eq named, ← Fallible.mapM_ok_iff]
    constructor
    · rintro ⟨groups, run⟩
      obtain ⟨each, ran, -⟩ := Fallible.bind_ok run
      exact ⟨each, ran⟩
    · rintro ⟨each, ran⟩
      exact ⟨_, by rw [ran]; rfl⟩
  rw [grouped]
  cases List.eq_nil_or_concat' streams with
  | inl empty =>
    subst empty
    have none : ∀ varname, varname ∉ maps.uniqueVars parsed := fun varname member => by
      obtain ⟨stream, absent, -⟩ := MapOrders.mem_uniqueVars.mp member
      cases absent
    simp [none]
  | inr concat =>
    obtain ⟨before, last, split⟩ := concat
    have nonempty : streams ≠ [] := by simp [split]
    have labelled : ∀ varname, maps.uniqueLabels parsed mergeBy varname ≠ [] := by
      intro varname none
      have listedLabel : last.parsed.labelOr mergeBy ∈ maps.uniqueLabels parsed mergeBy varname :=
        MapOrders.mem_uniqueLabels.mpr ⟨last, by simp [split], rfl⟩
      rw [none] at listedLabel
      cases listedLabel
    have each : ∀ varname, (∃ groups, groupsOf (maps.uniqueLabels parsed mergeBy varname) streams mergeBy varname =
        .ok groups) ↔ ∃ v, newFromString varname = .ok (some v) := fun varname =>
      groupsOf_ok_iff mergeBy varname (labelled varname) nonempty named
    constructor
    · intro groups stream member
      rw [ValueStream.parses_iff (named stream member), ← each]
      exact groups _ (MapOrders.mem_uniqueVars.mpr ⟨stream, member, rfl⟩)
    · intro parses varname member
      obtain ⟨stream, memberStream, rfl⟩ := MapOrders.mem_uniqueVars.mp member
      rw [each, ← ValueStream.parses_iff (named stream memberStream)]
      exact parses stream memberStream

/-- `MergeStreamsBy` panics exactly on a stream whose variable name cannot be parsed. -/
theorem mergeStreamsBy_ok_iff (maps : MapOrders) (streams : List (ValueStream Cell)) (mergeBy : GoString) :
    (∃ groups, mergeStreamsBy maps streams mergeBy = .ok groups) ↔ ∀ stream ∈ streams, stream.Parses := by
  by_cases named : ∀ stream ∈ streams, stream.HasVariable
  · exact mergeStreamsBy_named named
  · have fails : ¬∃ groups, mergeStreamsBy maps streams mergeBy = .ok groups := by
      rintro ⟨groups, run⟩
      obtain ⟨parsed, ran, -⟩ := Fallible.bind_ok run
      exact named fun stream member => newFromProto_ok_iff.mp (Fallible.exists_of_mapM_ok ran member)
    have unparsed : ¬∀ stream ∈ streams, stream.Parses := by
      intro parses
      refine named fun stream member => ?_
      obtain ⟨p, -, present, -⟩ := parses stream member
      exact Option.isSome_iff_exists.mpr ⟨p, present⟩
    exact iff_of_false fails unparsed

theorem mergeLabel_ok_iff {aggregations : List StreamAggregation} :
    (∃ mergeBy, mergeLabel aggregations = .ok mergeBy) ↔
      ∀ aggregation ∈ aggregations.head?, aggregation.label ≠ [] := by
  cases aggregations with
  | nil => simp [mergeLabel]
  | cons aggregation rest =>
    rw [mergeLabel]
    cases labels : aggregation.label with
    | nil => simp [labels]
    | cons label others => simp [labels]

end OpenInstrument
