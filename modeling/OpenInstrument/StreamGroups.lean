import OpenInstrument.GetReading
import OpenInstrument.Library.Grouping

/-! # Grouping streams by variable and label

`MergeStreamsBy` is to partition its streams by the name of their variable and by the value of a label.  It
parses the name once more, as if it were a printed variable, and looks for streams with the name that it gets;
and it collects the empty value for streams without the label, but passes over these streams when it forms
the groups.
-/

namespace OpenInstrument

open Grouping (Partition)

variable {Cell : Type}

/-- What the streams of a group have in common; a missing label counts as the empty value. -/
def ValueStream.groupKey (mergeBy : GoString) (stream : ValueStream Cell) : GoString × GoString :=
  (stream.parsed.name, if mergeBy = [] then [] else stream.parsed.labelOr mergeBy)

/-- The name of a variable is the name that is parsed from it. -/
def KeepsName (name : GoString) : Prop := ∃ v, newFromString name = .ok (some v) ∧ v.name = name

/-- The stream is found again under the name and the value that were collected from it. -/
structure ValueStream.Found (mergeBy : GoString) (stream : ValueStream Cell) : Prop where
  name : KeepsName stream.parsed.name
  label : mergeBy ≠ [] → (stream.parsed.labels.lookup mergeBy).isSome

/-! ## Names -/

theorem matchLabels_isSome_iff (text : GoString) :
    (matchLabels text).isSome ↔
      text = [] ∨ ∃ inner, text = openBrace :: (inner ++ [closeBrace]) ∧ newline ∉ inner := by
  cases text with
  | nil => simp [matchLabels]
  | cons byte rest =>
    rw [matchLabels]
    constructor
    · intro labelled
      split at labelled
      · rename_i braces
        obtain ⟨rfl, last, plain⟩ := braces
        obtain ⟨inner, rfl⟩ := List.getLast?_eq_some_iff.mp last
        rw [List.dropLast_concat] at plain
        exact .inr ⟨inner, rfl, plain⟩
      · cases labelled
    · rintro (empty | ⟨inner, split, plain⟩)
      · cases empty
      · cases split
        simp [plain]

/-- Labels with labels behind them are labels. -/
theorem matchLabels_append {front tail : GoString} (first : (matchLabels front).isSome) (nonempty : front ≠ [])
    (second : (matchLabels tail).isSome) : (matchLabels (front ++ tail)).isSome := by
  rw [matchLabels_isSome_iff] at first second ⊢
  obtain ⟨inner, rfl, plain⟩ := first.resolve_left nonempty
  cases second with
  | inl empty => exact .inr ⟨inner, by rw [empty, List.append_nil], plain⟩
  | inr labelled =>
    obtain ⟨later, rfl, plainLater⟩ := labelled
    refine .inr ⟨inner ++ closeBrace :: openBrace :: later, by simp, ?_⟩
    simp only [List.mem_append, List.mem_cons, not_or]
    exact ⟨plain, by decide, by decide, plainLater⟩

/-- The name that the regular expression finds is found in itself, whole. -/
theorem matchVariable_again {text name inner seen : GoString}
    (found : matchVariable seen text = some (name, inner)) :
    ∃ front tail, front ≠ [] ∧ text = front ++ tail ∧ name = seen ++ front ∧ matchLabels tail = some inner ∧
      matchVariable seen front = some (name, []) := by
  induction text generalizing seen with
  | nil => cases found
  | cons byte rest inductionHypothesis =>
    rw [matchVariable] at found
    by_cases line : byte = newline
    · rw [if_pos line] at found
      cases found
    · rw [if_neg line] at found
      cases labels : matchLabels rest with
      | some labelled =>
        simp only [labels, Option.some.injEq, Prod.mk.injEq] at found
        obtain ⟨rfl, rfl⟩ := found
        refine ⟨[byte], rest, List.cons_ne_nil _ _, rfl, rfl, labels, ?_⟩
        rw [matchVariable, if_neg line]
        rfl
      | none =>
        simp only [labels] at found
        obtain ⟨front, tail, nonempty, rfl, rfl, tailLabels, again⟩ := inductionHypothesis found
        refine ⟨byte :: front, tail, List.cons_ne_nil _ _, rfl, by simp, tailLabels, ?_⟩
        -- Labels that end the name would, with the labels behind them, be labels of the whole text.
        have unlabelled : matchLabels front = none := by
          by_contra some_
          have all := matchLabels_append (Option.isSome_iff_ne_none.mpr some_) nonempty
            (Option.isSome_of_mem tailLabels)
          rw [labels] at all
          cases all
        rw [matchVariable, if_neg line, unlabelled]
        exact again

/-- A name that was parsed is kept when it is parsed again. -/
theorem keepsName_of_parsed {text : GoString} {v : Variable} (parsed : newFromString text = .ok (some v)) :
    KeepsName v.name := by
  have found : ∃ inner, matchVariable [] text = some (v.name, inner) := by
    rw [newFromString] at parsed
    cases matched : matchVariable [] text with
    | none => simp [matched] at parsed
    | some groups =>
      obtain ⟨name, inner⟩ := groups
      refine ⟨inner, ?_⟩
      cases inner with
      | nil =>
        simp only [matched, Except.ok.injEq, Option.some.injEq] at parsed
        rw [← parsed]
      | cons byte inner =>
        simp only [matched] at parsed
        split at parsed
        · cases parsed
        · rw [Except.ok.injEq, Option.map_eq_some_iff] at parsed
          obtain ⟨items, _, rfl⟩ := parsed
          rfl
  obtain ⟨inner, matched⟩ := found
  obtain ⟨front, tail, _, _, same, _, again⟩ := matchVariable_again matched
  rw [List.nil_append] at same
  refine ⟨{ name := v.name, labels := ∅ }, ?_, rfl⟩
  rw [newFromString, same, again, ← same]

/-! ## Groups -/

variable {streams : List (ValueStream Cell)} {mergeBy varname : GoString} {uniqueLabels : List GoString}

theorem ValueStream.Found.hasVariable {stream : ValueStream Cell} (found : stream.Found mergeBy) :
    stream.HasVariable := by
  obtain ⟨v, parsed, _⟩ := found.name
  by_contra none_
  rw [ValueStream.HasVariable, Option.not_isSome_iff_eq_none] at none_
  rw [ValueStream.parsed, none_] at parsed
  cases parsed

theorem ValueStream.Found.parses {stream : ValueStream Cell} (found : stream.Found mergeBy) : stream.Parses := by
  obtain ⟨v, parsed, _⟩ := found.name
  exact (ValueStream.parses_iff found.hasVariable).mpr ⟨v, parsed⟩

theorem groupOf_eq (named : ∀ stream ∈ streams, stream.HasVariable) (v : Variable) (keep : Variable → Bool) :
    groupOf (some v) keep streams =
      .ok (streams.filter fun stream => stream.parsed.name = v.name ∧ keep stream.parsed = true) := by
  have each : ∀ stream ∈ streams, inGroup (some v) keep stream =
      .ok (if stream.parsed.name = v.name ∧ keep stream.parsed = true then [stream] else []) := by
    intro stream member
    rw [inGroup, newFromProto_parsed (named stream member)]
    rfl
  rw [groupOf, Fallible.mapM_ok each, ← Selection.flatten_map_singleton]
  rfl

/-- The groups that are formed under a name: the streams of the name that is parsed from it. -/
theorem groupsOf_eq {v : Variable} (named : ∀ stream ∈ streams, stream.HasVariable)
    (parsed : newFromString varname = .ok (some v)) :
    groupsOf uniqueLabels streams mergeBy varname =
      .ok (if mergeBy = [] then [streams.filter fun stream => stream.parsed.name = v.name]
        else uniqueLabels.map fun labelvalue => streams.filter fun stream =>
          stream.parsed.name = v.name ∧ stream.parsed.labels.lookup mergeBy = some labelvalue) := by
  rw [groupsOf, parsed]
  by_cases whole : mergeBy = []
  · have group := groupOf_eq named v fun _ => true
    simp only [and_true] at group
    simp only [whole, if_true, Fallible.ok_bind, group]
    rfl
  · have group : ∀ labelvalue ∈ uniqueLabels,
        groupOf (some v) (fun testvar => decide (testvar.labels.lookup mergeBy = some labelvalue)) streams =
          .ok (streams.filter fun stream =>
            stream.parsed.name = v.name ∧ stream.parsed.labels.lookup mergeBy = some labelvalue) := by
      intro labelvalue _
      simp only [groupOf_eq named, decide_eq_true_eq]
    simp only [whole, if_false, Fallible.ok_bind, Fallible.mapM_ok group]

/-- A stream in a group has the name that was parsed, and the label if there is one to group by. -/
theorem found_of_mem_groupsOf (named : ∀ stream ∈ streams, stream.HasVariable) {v : Variable}
    (parsed : newFromString varname = .ok (some v)) {groups : List (List (ValueStream Cell))}
    (ran : groupsOf uniqueLabels streams mergeBy varname = .ok groups) {group : List (ValueStream Cell)}
    (listed : group ∈ groups) {stream : ValueStream Cell} (inside : stream ∈ group) : stream.Found mergeBy := by
  rw [groupsOf_eq named parsed, Except.ok.injEq] at ran
  subst ran
  have kept : KeepsName v.name := keepsName_of_parsed parsed
  split at listed
  · rename_i whole
    rw [List.mem_singleton] at listed
    subst listed
    have same := of_decide_eq_true (List.mem_filter.mp inside).2
    exact ⟨by rw [same]; exact kept, fun other => absurd whole other⟩
  · obtain ⟨labelvalue, _, rfl⟩ := List.mem_map.mp listed
    obtain ⟨same, label⟩ := of_decide_eq_true (List.mem_filter.mp inside).2
    exact ⟨by rw [same]; exact kept, fun _ => by rw [label]; rfl⟩

/-- The values under which the streams of a name are looked for. -/
def groupLabels (uniqueLabels : List GoString) (mergeBy : GoString) : List GoString :=
  if mergeBy = [] then [[]] else uniqueLabels

theorem groupLabels_nodup (labels : uniqueLabels.Nodup) : (groupLabels uniqueLabels mergeBy).Nodup := by
  rw [groupLabels]
  split
  · exact List.nodup_singleton _
  · exact labels

/-- The names and the values under which the streams are looked for. -/
def groupKeys (uniqueVars : List GoString) (labelsOf : GoString → List GoString) (mergeBy : GoString) :
    List (GoString × GoString) :=
  uniqueVars.flatMap fun varname => (groupLabels (labelsOf varname) mergeBy).map (Prod.mk varname)

theorem mem_groupKeys {uniqueVars : List GoString} {labelsOf : GoString → List GoString}
    {key : GoString × GoString} :
    key ∈ groupKeys uniqueVars labelsOf mergeBy ↔
      key.1 ∈ uniqueVars ∧ key.2 ∈ groupLabels (labelsOf key.1) mergeBy := by
  obtain ⟨varname, labelvalue⟩ := key
  simp only [groupKeys, List.mem_flatMap, List.mem_map, Prod.mk.injEq]
  constructor
  · rintro ⟨_, name, _, value, rfl, rfl⟩
    exact ⟨name, value⟩
  · rintro ⟨name, value⟩
    exact ⟨varname, name, labelvalue, value, rfl, rfl⟩

theorem groupKeys_nodup {uniqueVars : List GoString} {labelsOf : GoString → List GoString}
    (names : uniqueVars.Nodup) (labels : ∀ varname, (labelsOf varname).Nodup) :
    (groupKeys uniqueVars labelsOf mergeBy).Nodup := by
  rw [groupKeys, List.nodup_flatMap]
  constructor
  · intro varname _
    exact (groupLabels_nodup (labels varname)).map (Prod.mk_right_injective varname)
  · -- Keys of two names differ in the name.
    refine names.imp fun {first second} apart => ?_
    intro key here there
    obtain ⟨_, _, rfl⟩ := List.mem_map.mp here
    obtain ⟨_, _, same⟩ := List.mem_map.mp there
    exact apart (congrArg Prod.fst same).symm

/-- Where names are kept and labels are there, the groups of a name are those of its keys. -/
theorem groupsOf_of_found (found : ∀ stream ∈ streams, stream.Found mergeBy) (kept : KeepsName varname) :
    groupsOf uniqueLabels streams mergeBy varname =
      .ok (Grouping.collect (ValueStream.groupKey mergeBy) streams
        ((groupLabels uniqueLabels mergeBy).map (Prod.mk varname))) := by
  obtain ⟨v, parsed, same⟩ := kept
  rw [groupsOf_eq (fun stream member => (found stream member).hasVariable) parsed, same, Except.ok.injEq,
    Grouping.collect, groupLabels]
  by_cases whole : mergeBy = []
  · simp [whole, ValueStream.groupKey]
  · simp only [whole, if_false, List.map_map]
    refine List.map_congr_left fun labelvalue _ => ?_
    refine List.filter_congr fun stream member => ?_
    obtain ⟨value, label⟩ := Option.isSome_iff_exists.mp ((found stream member).label whole)
    simp [ValueStream.groupKey, whole, Variable.labelOr, label]

/-- All groups, in the order in which the names and the values come out of the maps. -/
theorem mapM_groupsOf (found : ∀ stream ∈ streams, stream.Found mergeBy) {uniqueVars : List GoString}
    (labelsOf : GoString → List GoString) (kept : ∀ varname ∈ uniqueVars, KeepsName varname) :
    ∃ each, uniqueVars.mapM (fun varname => groupsOf (labelsOf varname) streams mergeBy varname) = .ok each ∧
      each.flatten = Grouping.collect (ValueStream.groupKey mergeBy) streams
        (groupKeys uniqueVars labelsOf mergeBy) := by
  have run := Fallible.mapM_ok fun varname member =>
    @groupsOf_of_found Cell streams mergeBy varname (labelsOf varname) found (kept varname member)
  refine ⟨_, run, ?_⟩
  rw [← List.flatMap_def]
  simp only [Grouping.collect, groupKeys, List.map_flatMap]

theorem mergeStreamsBy_partition (maps : MapOrders) (found : ∀ stream ∈ streams, stream.Found mergeBy) :
    ∃ groups, mergeStreamsBy maps streams mergeBy = .ok groups ∧
      Partition (ValueStream.groupKey mergeBy) streams groups := by
  have kept : ∀ varname ∈ maps.uniqueVars (streams.map ValueStream.parsed), KeepsName varname := by
    intro varname member
    obtain ⟨stream, inside, rfl⟩ := MapOrders.mem_uniqueVars.mp member
    exact (found stream inside).name
  obtain ⟨each, run, all⟩ :=
    mapM_groupsOf found (maps.uniqueLabels (streams.map ValueStream.parsed) mergeBy) kept
  rw [mergeStreamsBy_eq fun stream member => (found stream member).hasVariable, run]
  refine ⟨_, rfl, ?_⟩
  rw [all]
  apply Grouping.partition_collect
  · exact groupKeys_nodup ((maps.names.perm _).nodup_iff.mpr (List.nodup_dedup _)) fun varname =>
      ((maps.labelValues varname).perm _).nodup_iff.mpr (List.nodup_dedup _)
  · intro stream member
    rw [mem_groupKeys]
    refine ⟨MapOrders.mem_uniqueVars.mpr ⟨stream, member, rfl⟩, ?_⟩
    rw [ValueStream.groupKey, groupLabels]
    split
    · exact List.mem_singleton_self _
    · exact MapOrders.mem_uniqueLabels.mpr ⟨stream, member, rfl⟩

/-- `MergeStreamsBy` partitions its streams exactly when each of them is found again. -/
theorem mergeStreamsBy_partitions_iff (maps : MapOrders) (streams : List (ValueStream Cell)) (mergeBy : GoString) :
    (∃ groups, mergeStreamsBy maps streams mergeBy = .ok groups ∧
        Partition (ValueStream.groupKey mergeBy) streams groups) ↔
      ∀ stream ∈ streams, stream.Found mergeBy := by
  constructor
  · rintro ⟨groups, run, partition⟩ stream member
    have parses := (mergeStreamsBy_ok_iff maps streams mergeBy).mp ⟨groups, run⟩
    have named : ∀ stream ∈ streams, stream.HasVariable := by
      intro stream member
      obtain ⟨p, _, present, _⟩ := parses stream member
      exact Option.isSome_iff_exists.mpr ⟨p, present⟩
    rw [mergeStreamsBy_eq named] at run
    obtain ⟨each, ran, same⟩ := Fallible.bind_ok run
    obtain rfl := Except.ok.inj same
    obtain ⟨group, listed, inside⟩ := partition.mem member
    obtain ⟨own, ownListed, within⟩ := List.mem_flatten.mp (List.mem_filter.mp listed).1
    obtain ⟨varname, isName, grouped⟩ := (Fallible.mem_of_mapM_ok ran).1 own ownListed
    obtain ⟨other, otherMember, rfl⟩ := MapOrders.mem_uniqueVars.mp isName
    obtain ⟨v, parsed⟩ := (ValueStream.parses_iff (named other otherMember)).mp (parses other otherMember)
    exact found_of_mem_groupsOf named parsed grouped within inside
  · exact mergeStreamsBy_partition maps

/-- A stream without the label is in no group. -/
theorem mergeStreamsBy_drops :
    mergeStreamsBy .listed [({ streamVariable := some { name := ascii "a", label := [] }, value := [] } :
        ValueStream Unit)] (ascii "host") = .ok [] ∧
      ¬ Partition (ValueStream.groupKey (ascii "host"))
        [({ streamVariable := some { name := ascii "a", label := [] }, value := [] } : ValueStream Unit)] [] := by
  refine ⟨by rfl, fun partition => ?_⟩
  exact absurd partition.each.length_eq (by decide)

end OpenInstrument
