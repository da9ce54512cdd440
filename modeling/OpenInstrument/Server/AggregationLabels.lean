import OpenInstrument.Library.Changes
import OpenInstrument.Server.Aggregation

/-! # The labels of an aggregation

The streams with one value of a label are combined.  The combined stream keeps another label when its value has
changed once while the streams were scanned, where a stream without the label is passed over and the value is empty
at first.  For a stream without the label at hand its value is empty, too.
-/

namespace OpenInstrument.Server

/-! ## The code -/

/-- `tmpstreams`. -/
def combined (label value : Bytes) (aggstreams : List ResponseStream) : List ResponseStream :=
  aggstreams.filter fun stream => stream.toVariable.getLabel label = value

/-- The variable to which the labels of an aggregation are added. -/
def unlabelledVariable (name : Bytes) : Variable := { name, labels := .empty, type := .unknown }

/-- A stream that is put out has the calculated values of the combined streams, and the labels that were counted. -/
theorem aggregateLabel_output {arithmetic : Arithmetic UInt64} {turns : Nat} {agg : StreamAggregation} {v : Variable}
    {aggstreams outputs : List ResponseStream} {label value : Bytes}
    (done : aggregateLabel arithmetic turns agg v aggstreams label value = .ok outputs) {output : ResponseStream}
    (member : output ∈ outputs) :
    output.toVariable.labels = (labelVariable v label value (combined label value aggstreams)).labels ∧
      ∃ calculated, aggregateStreams arithmetic turns agg (combined label value aggstreams) = .ok calculated ∧
        output.value = calculated.value := by
  rw [aggregateLabel] at done
  by_cases none_ : combined label value aggstreams = []
  · rw [combined] at none_
    simp only [none_, if_true] at done
    cases Except.ok.inj done
    cases member
  · rw [combined] at none_
    simp only [none_, if_false] at done
    cases calculated : aggregateStreams arithmetic turns agg (combined label value aggstreams) with
    | error stop =>
      rw [combined] at calculated
      rw [calculated] at done
      cases done
    | ok stream =>
      rw [combined] at calculated
      rw [calculated] at done
      cases Except.ok.inj done
      rw [List.mem_singleton.mp member]
      let v' := labelVariable v label value (combined label value aggstreams)
      have labels : (fromProtobuf v'.toProtobuf).labels = v'.labels :=
        congrArg Variable.labels (fromProtobuf_toProtobuf v')
      exact ⟨labels, stream, rfl, rfl⟩

/-! ## Counting the values of a label -/

/-- The values of a label in the streams that have it, in their order. -/
def labelValues (label : Bytes) (streams : List ResponseStream) : List Bytes :=
  streams.filterMap fun stream => stream.toVariable.labels.lookup label

/-- One turn of the loop of `countLabels`. -/
def countEntry (counts : OrderedMap Bytes (Nat × Bytes)) (entry : Bytes × Bytes) : OrderedMap Bytes (Nat × Bytes) :=
  let known := (counts.lookup entry.1).getD (0, [])
  if known.2 = entry.2 then counts else counts.set entry.1 (known.1 + 1, entry.2)

theorem countEntry_lookup (counts : OrderedMap Bytes (Nat × Bytes)) (entry : Bytes × Bytes) (label : Bytes) :
    ((countEntry counts entry).lookup label).getD (0, []) =
      if entry.1 = label then Changes.count ((counts.lookup label).getD (0, [])) entry.2
      else (counts.lookup label).getD (0, []) := by
  by_cases here : entry.1 = label
  · subst here
    rw [countEntry, if_pos rfl, Changes.count]
    split
    · rfl
    · rw [OrderedMap.lookup_set, Option.getD_some]
  · rw [countEntry, if_neg here]
    split
    · rfl
    · rw [OrderedMap.lookup_set_ne (Ne.symm here)]

theorem foldl_countEntry_lookup (entries : List (Bytes × Bytes)) (counts : OrderedMap Bytes (Nat × Bytes))
    (label : Bytes) :
    ((entries.foldl countEntry counts).lookup label).getD (0, []) =
      ((entries.filter fun entry => entry.1 = label).map Prod.snd).foldl Changes.count
        ((counts.lookup label).getD (0, [])) := by
  induction entries generalizing counts with
  | nil => rfl
  | cons entry entries inductionHypothesis =>
    rw [List.foldl_cons, inductionHypothesis, countEntry_lookup]
    by_cases here : entry.1 = label
    · simp [here]
    · simp [here]

/-- A label stands in the map of a stream once or not at all. -/
theorem filter_entries (labels : OrderedMap Bytes Bytes) (label : Bytes) :
    (labels.entries.filter fun entry => entry.1 = label).map Prod.snd = (labels.lookup label).toList := by
  obtain ⟨entries, sorted⟩ := labels
  rw [OrderedMap.lookup]
  induction entries with
  | nil => rfl
  | cons entry entries inductionHypothesis =>
    obtain ⟨below, sortedRest⟩ := List.pairwise_cons.mp sorted
    by_cases here : entry.1 = label
    · have none_ : (entries.filter fun entry => decide (entry.1 = label)) = [] := by
        apply List.filter_eq_nil_iff.mpr
        intro other member same
        exact ne_of_lt (below other member) (here.trans (of_decide_eq_true same).symm)
      simp [here, none_]
    · simpa [here] using inductionHypothesis sortedRest

theorem countLabels_lookup (streams : List ResponseStream) (label : Bytes) :
    ((countLabels streams).lookup label).getD (0, []) = (labelValues label streams).foldl Changes.count (0, []) := by
  have values : (((streams.flatMap fun stream => stream.toVariable.labels.entries).filter
      fun entry => entry.1 = label).map Prod.snd) = labelValues label streams := by
    rw [List.filter_flatMap, List.map_flatMap, labelValues]
    simp only [filter_entries]
    induction streams with
    | nil => rfl
    | cons stream streams inductionHypothesis =>
      rw [List.flatMap_cons, inductionHypothesis, List.filterMap_cons]
      cases stream.toVariable.labels.lookup label <;> rfl
  rw [← values]
  exact foldl_countEntry_lookup _ .empty label

/-! ## The labels that are kept -/

/-- The labels of a variable with those entries that have changed once. -/
def keepOnce (v : Variable) (entry : Bytes × (Nat × Bytes)) : Variable :=
  if entry.2.1 = 1 then v.setLabel entry.1 entry.2.2 else v

theorem lookup_keepOnce_ne {v : Variable} {entry : Bytes × (Nat × Bytes)} {label : Bytes} (other : entry.1 ≠ label) :
    (keepOnce v entry).labels.lookup label = v.labels.lookup label := by
  rw [keepOnce]
  split
  · exact OrderedMap.lookup_set_ne (Ne.symm other) _ _
  · rfl

theorem lookup_foldl_keepOnce_ne {entries : List (Bytes × (Nat × Bytes))} {label : Bytes}
    (others : ∀ entry ∈ entries, entry.1 ≠ label) (v : Variable) :
    (entries.foldl keepOnce v).labels.lookup label = v.labels.lookup label := by
  induction entries generalizing v with
  | nil => rfl
  | cons entry entries inductionHypothesis =>
    obtain ⟨here, rest⟩ := List.forall_mem_cons.mp others
    rw [List.foldl_cons, inductionHypothesis rest, lookup_keepOnce_ne here]

/-- A label that was not there is set when its value has changed once. -/
theorem lookup_foldl_keepOnce (counts : OrderedMap Bytes (Nat × Bytes)) {v : Variable} {label : Bytes}
    (absent : v.labels.lookup label = none) (x : Bytes) :
    (counts.entries.foldl keepOnce v).labels.lookup label = some x ↔
      (counts.lookup label).getD (0, []) = (1, x) := by
  obtain ⟨entries, sorted⟩ := counts
  nth_rewrite 2 [OrderedMap.lookup]
  dsimp only
  induction entries generalizing v with
  | nil => simp [absent]
  | cons entry entries inductionHypothesis =>
    obtain ⟨below, sortedRest⟩ := List.pairwise_cons.mp sorted
    rw [List.foldl_cons]
    by_cases here : entry.1 = label
    · -- No later entry is about the same label.
      have others : ∀ other ∈ entries, other.1 ≠ label := fun other member => here ▸ ne_of_gt (below other member)
      rw [lookup_foldl_keepOnce_ne others, List.find?_cons_of_pos (by simpa using here), Option.map_some,
        Option.getD_some, keepOnce]
      obtain ⟨key, changes, last⟩ := entry
      split
      · rename_i once
        subst here
        rw [Variable.setLabel, OrderedMap.lookup_set]
        simp [show changes = 1 from once]
      · rename_i other
        simp [absent, show changes ≠ 1 from other]
    · rw [List.find?_cons_of_neg (by simpa using here)]
      exact inductionHypothesis (by rw [lookup_keepOnce_ne here, absent]) sortedRest

/-- A further label is carried when its values are some empty ones and then copies of one that is not empty. -/
theorem labelVariable_carries {name label value other x : Bytes} (further : other ≠ label)
    (streams : List ResponseStream) :
    (labelVariable (unlabelledVariable name) label value streams).labels.lookup other = some x ↔
      x ≠ [] ∧ ∃ before after, labelValues other streams =
        List.replicate before [] ++ List.replicate (after + 1) x := by
  have absent : ((unlabelledVariable name).setLabel label value).labels.lookup other = none :=
    OrderedMap.lookup_set_ne further _ _
  rw [← @Changes.foldl_count_once _ _ 0, ← countLabels_lookup]
  exact lookup_foldl_keepOnce (countLabels streams) absent x

/-! ## The law -/

/-- Every value of a label combines exactly the streams that have the label with that value, and the combined stream
carries a further label only with the value that all of them have. -/
def LabelLaw (name label : Bytes) (aggstreams : List ResponseStream) : Prop :=
  ∀ value ∈ distinctValues label aggstreams,
    (combined label value aggstreams =
      aggstreams.filter fun stream => stream.toVariable.labels.lookup label = some value) ∧
    ∀ other x, other ≠ label →
      (labelVariable (unlabelledVariable name) label value (combined label value aggstreams)).labels.lookup other =
        some x →
      ∀ stream ∈ combined label value aggstreams, stream.toVariable.labels.lookup other = some x

/-- No value of the label is empty where a stream lacks it, and no other label looks like a common one where a combined
stream lacks it or has it empty. -/
def LabelsTold (label : Bytes) (aggstreams : List ResponseStream) : Prop :=
  ∀ value ∈ distinctValues label aggstreams,
    (value ≠ [] ∨ ∀ stream ∈ aggstreams, stream.toVariable.hasLabel label = true) ∧
    ∀ other x before after, other ≠ label → x ≠ [] →
      labelValues other (combined label value aggstreams) = List.replicate before [] ++ List.replicate (after + 1) x →
      before = 0 ∧ after + 1 = (combined label value aggstreams).length

theorem combined_eq_iff {label value : Bytes} {aggstreams : List ResponseStream} :
    (combined label value aggstreams =
        aggstreams.filter fun stream => stream.toVariable.labels.lookup label = some value) ↔
      value ≠ [] ∨ ∀ stream ∈ aggstreams, stream.toVariable.hasLabel label = true := by
  by_cases empty : value = []
  · subst empty
    constructor
    · intro same
      refine .inr fun stream member => ?_
      rw [Variable.hasLabel]
      cases known : stream.toVariable.labels.lookup label with
      | some value => rfl
      | none =>
        -- A stream without the label is combined all the same.
        have inside : stream ∈ combined label [] aggstreams :=
          List.mem_filter.mpr ⟨member, decide_eq_true (by rw [Variable.getLabel, known]; rfl)⟩
        rw [same] at inside
        have has := (List.mem_filter.mp inside).2
        rw [known] at has
        cases of_decide_eq_true has
    · intro either
      have has := either.resolve_left fun other => other rfl
      apply List.filter_congr
      intro stream member
      obtain ⟨value, known⟩ := Option.isSome_iff_exists.mp (has stream member)
      simp [Variable.getLabel, known]
  · have same : combined label value aggstreams =
        aggstreams.filter fun stream => stream.toVariable.labels.lookup label = some value := by
      apply List.filter_congr
      intro stream _
      rw [Variable.getLabel]
      cases known : stream.toVariable.labels.lookup label with
      | none => simpa using Ne.symm empty
      | some other => simp
    exact iff_of_true same (.inl empty)

theorem labelValues_eq_replicate {label x : Bytes} {streams : List ResponseStream} :
    labelValues label streams = List.replicate streams.length x ↔
      ∀ stream ∈ streams, stream.toVariable.labels.lookup label = some x := by
  induction streams with
  | nil => simp [labelValues]
  | cons stream streams inductionHypothesis =>
    rw [labelValues, List.filterMap_cons, List.forall_mem_cons, ← inductionHypothesis, labelValues, List.length_cons,
      List.replicate_succ]
    cases known : stream.toVariable.labels.lookup label with
    | some value => simp
    | none =>
      -- There are fewer values than streams.
      have short :=
        List.length_filterMap_le (fun stream : ResponseStream => stream.toVariable.labels.lookup label) streams
      dsimp only
      constructor
      · intro all
        have length := congrArg List.length all
        rw [List.length_cons, List.length_replicate] at length
        exact absurd length (by omega)
      · exact fun all => nomatch all.1

/-- The law holds exactly when the labels tell the streams apart in this way. -/
theorem labelLaw_iff (name label : Bytes) (aggstreams : List ResponseStream) :
    LabelLaw name label aggstreams ↔ LabelsTold label aggstreams := by
  apply forall₂_congr
  intro value _
  rw [combined_eq_iff]
  apply and_congr_right
  intro _
  generalize combined label value aggstreams = streams
  constructor
  · intro law other x before after further nonempty split
    have all := law other x further ((labelVariable_carries further streams).mpr ⟨nonempty, before, after, split⟩)
    have values := labelValues_eq_replicate.mpr all
    rw [split] at values
    have lengths := congrArg List.length values
    rw [List.length_append, List.length_replicate, List.length_replicate, List.length_replicate] at lengths
    cases before with
    | zero => exact ⟨rfl, by omega⟩
    | succ before =>
      -- The first value is empty, and all of them are the one that is not.
      rw [← lengths, Nat.add_right_comm, List.replicate_succ, List.replicate_succ] at values
      exact absurd (List.cons.inj values).1.symm nonempty
  · intro told other x further carried
    obtain ⟨nonempty, before, after, split⟩ := (labelVariable_carries further streams).mp carried
    obtain ⟨rfl, length⟩ := told other x before after further nonempty split
    rw [List.replicate_zero, List.nil_append, length] at split
    exact labelValues_eq_replicate.mp split

/-- Two streams of one host, the second of them without the label `cpu`. -/
theorem labelLaw_fails :
    ¬ LabelLaw (ascii "/load") (ascii "host")
      [{ variable_ := some
          { name := ascii "/load", label := [⟨ascii "host", some (ascii "a")⟩, ⟨ascii "cpu", some (ascii "0")⟩]
            type := none }
         value := [] },
        { variable_ := some { name := ascii "/load", label := [⟨ascii "host", some (ascii "a")⟩], type := none }
          value := [] }] := by
  intro law
  obtain ⟨-, carries⟩ := law (ascii "a") (by decide)
  have wrong := carries (ascii "cpu") (ascii "0") (by decide) (by decide)
    { variable_ := some { name := ascii "/load", label := [⟨ascii "host", some (ascii "a")⟩], type := none }
      value := [] } (by decide)
  revert wrong
  decide

end OpenInstrument.Server
