import OpenInstrument.Get
import OpenInstrument.Library.Interleaving

/-! # What a merge of streams delivers

`MergeValueStreams` looks for the value with the least timestamp of those in front.  On the way it takes
every value off its stream that was the least so far, but it sends only the last of them.  Nothing is
lost exactly when the streams already follow one another in time, and then the merge is their
concatenation.
-/

namespace OpenInstrument

variable {Cell : Type} {timestamp : Cell → UInt64}

def totalLength (streams : List (List Cell)) : Nat := (streams.map List.length).sum

/-- Each value is no later than the value in front of every stream behind its own. -/
def InSequence (timestamp : Cell → UInt64) (streams : List (List Cell)) : Prop :=
  streams.Pairwise fun earlier later => ∀ v ∈ earlier, ∀ w ∈ later.head?, timestamp v ≤ timestamp w

def SortedByTimestamp (timestamp : Cell → UInt64) (values : List Cell) : Prop :=
  values.Pairwise fun first second => timestamp first ≤ timestamp second

/-- What a merge is for: it delivers an interleaving, and a sorted one if the streams are sorted. -/
def Merges (timestamp : Cell → UInt64) (streams : List (List Cell)) (delivered : List Cell) : Prop :=
  Interleaved streams delivered ∧
    ((∀ values ∈ streams, SortedByTimestamp timestamp values) → SortedByTimestamp timestamp delivered)

/-! ## One turn -/

theorem totalLength_eq_flatten (streams : List (List Cell)) :
    totalLength streams = streams.flatten.length := List.length_flatten.symm

/-- A turn passes over the streams that are empty. -/
theorem mergeTurn_skip (least : Option Cell) {before : List (List Cell)}
    (empty : ∀ values ∈ before, values = []) (streams : List (List Cell)) :
    mergeTurn timestamp least (before ++ streams) =
      ((mergeTurn timestamp least streams).1, before ++ (mergeTurn timestamp least streams).2) := by
  induction before with
  | nil => rfl
  | cons values before inductionHypothesis =>
    obtain rfl : values = [] := empty values (List.mem_cons_self ..)
    rw [List.cons_append, mergeTurn, inductionHypothesis fun other member => empty other (.tail _ member)]
    rfl

/-- Streams that have nothing earlier in front stay as they are. -/
theorem mergeTurn_keep {v : Cell} {streams : List (List Cell)}
    (later : ∀ values ∈ streams, ∀ w ∈ values.head?, timestamp v ≤ timestamp w) :
    mergeTurn timestamp (some v) streams = (some v, streams) := by
  induction streams with
  | nil => rfl
  | cons values streams inductionHypothesis =>
    have rest := inductionHypothesis fun other member => later other (.tail _ member)
    cases values with
    | nil => rw [mergeTurn, rest]
    | cons w values =>
      have first : ¬ timestamp w < timestamp v :=
        UInt64.not_lt.mpr (later _ (List.mem_cons_self ..) w rfl)
      simp only [mergeTurn, Option.all_some, decide_eq_true_eq, first, if_false, rest]

/-- A turn adds nothing, and what it takes off beside the value it ends with is gone. -/
theorem mergeTurn_length (v : Cell) (streams : List (List Cell)) :
    totalLength (mergeTurn timestamp (some v) streams).2 ≤ totalLength streams ∧
      (totalLength (mergeTurn timestamp (some v) streams).2 = totalLength streams →
        ∀ values ∈ streams, ∀ w ∈ values.head?, timestamp v ≤ timestamp w) := by
  induction streams generalizing v with
  | nil => simp [mergeTurn]
  | cons values streams inductionHypothesis =>
    cases values with
    | nil =>
      have rest := inductionHypothesis v
      simp only [mergeTurn, totalLength, List.map_cons, List.length_nil, List.sum_cons, Nat.zero_add] at rest ⊢
      simpa using rest
    | cons w values =>
      by_cases earlier : timestamp w < timestamp v
      · -- The value in front is taken off as well, so that one is missing at the end.
        have rest := (inductionHypothesis w).1
        simp only [mergeTurn, Option.all_some, decide_eq_true_eq, earlier, if_true, totalLength,
          List.map_cons, List.length_cons, List.sum_cons] at rest ⊢
        constructor
        · omega
        · intro same
          omega
      · have rest := inductionHypothesis v
        simp only [mergeTurn, Option.all_some, decide_eq_true_eq, earlier, if_false, totalLength,
          List.map_cons, List.length_cons, List.sum_cons] at rest ⊢
        constructor
        · have fewer := rest.1
          omega
        · intro same other member
          cases member with
          | head =>
            intro front found
            cases found
            exact UInt64.not_lt.mp earlier
          | tail _ member => exact rest.2 (by omega) other member

/-- Either all streams are empty, or one of them is the first that is not. -/
theorem exists_first (streams : List (List Cell)) :
    (∀ values ∈ streams, values = []) ∨
      ∃ before v values after, streams = before ++ (v :: values) :: after ∧ ∀ other ∈ before, other = [] := by
  induction streams with
  | nil => exact .inl (by simp)
  | cons front streams inductionHypothesis =>
    cases front with
    | cons v values => exact .inr ⟨[], v, values, streams, rfl, by simp⟩
    | nil =>
      cases inductionHypothesis with
      | inl empty => exact .inl (by simpa using empty)
      | inr found =>
        obtain ⟨before, v, values, after, rfl, empty⟩ := found
        exact .inr ⟨[] :: before, v, values, after, rfl, by simpa using empty⟩

/-- A turn that has found a value sends one. -/
theorem mergeTurn_sends (v : Cell) (streams : List (List Cell)) :
    ∃ least, (mergeTurn timestamp (some v) streams).1 = some least := by
  induction streams generalizing v with
  | nil => exact ⟨v, rfl⟩
  | cons values streams inductionHypothesis =>
    cases values with
    | nil => exact inductionHypothesis v
    | cons w values =>
      rw [mergeTurn]
      split
      · exact inductionHypothesis w
      · exact inductionHypothesis v

theorem mergeTurn_none {streams : List (List Cell)} (empty : ∀ values ∈ streams, values = []) :
    mergeTurn timestamp none streams = (none, streams) := by
  have skipped := @mergeTurn_skip _ timestamp none _ empty []
  simpa [mergeTurn] using skipped

/-- A turn starts with the first value there is. -/
theorem mergeTurn_first {before : List (List Cell)} (empty : ∀ other ∈ before, other = [])
    (v : Cell) (values : List Cell) (after : List (List Cell)) :
    mergeTurn timestamp none (before ++ (v :: values) :: after) =
      ((mergeTurn timestamp (some v) after).1,
        before ++ values :: (mergeTurn timestamp (some v) after).2) := by
  rw [mergeTurn_skip none empty, mergeTurn]
  simp only [Option.all_none, if_true]

theorem inSequence_first {before : List (List Cell)} (empty : ∀ other ∈ before, other = [])
    (v : Cell) (values : List Cell) (after : List (List Cell)) :
    InSequence timestamp (before ++ (v :: values) :: after) ↔
      (∀ other ∈ after, ∀ w ∈ other.head?, timestamp v ≤ timestamp w) ∧
        InSequence timestamp (before ++ values :: after) := by
  have silent : ∀ other ∈ before, ∀ u ∈ other, ∀ later : List Cell, ∀ w ∈ later.head?,
      timestamp u ≤ timestamp w := by
    intro other member u found
    rw [empty other member] at found
    cases found
  simp only [InSequence, List.pairwise_append, List.pairwise_cons, List.mem_cons, forall_eq_or_imp]
  constructor
  · intro ⟨first, ⟨second, third⟩, _⟩
    exact ⟨fun other member => (second other member).1, first,
      ⟨fun other member => (second other member).2, third⟩,
      fun other member => ⟨fun u found => silent other member u found _,
        fun _ _ u found => silent other member u found _⟩⟩
  · intro ⟨leading, first, ⟨second, third⟩, _⟩
    exact ⟨first, ⟨fun other member => ⟨leading other member, second other member⟩, third⟩,
      fun other member => ⟨fun u found => silent other member u found _,
        fun _ _ u found => silent other member u found _⟩⟩

/-! ## The whole merge -/

theorem inSequence_of_empty {streams : List (List Cell)} (empty : ∀ values ∈ streams, values = []) :
    InSequence timestamp streams := by
  apply List.pairwise_iff_forall_sublist.mpr
  intro earlier later ordered v found
  rw [empty earlier (ordered.subset (List.mem_cons_self ..))] at found
  cases found

/-- Streams that follow one another are delivered one after another. -/
theorem mergeLoop_inSequence {turns : Nat} {streams : List (List Cell)} (enough : totalLength streams ≤ turns)
    (sequence : InSequence timestamp streams) : mergeLoop timestamp turns streams = streams.flatten := by
  induction turns generalizing streams with
  | zero =>
    have empty : streams.flatten.length = 0 := by rw [← totalLength_eq_flatten]; omega
    rw [List.length_eq_zero_iff.mp empty, mergeLoop]
  | succ turns inductionHypothesis =>
    cases exists_first streams with
    | inl empty =>
      rw [mergeLoop, mergeTurn_none empty, List.flatten_eq_nil_iff.mpr empty]
    | inr found =>
      obtain ⟨before, v, values, after, rfl, empty⟩ := found
      obtain ⟨leading, rest⟩ := (inSequence_first empty v values after).mp sequence
      have taken : mergeTurn timestamp none (before ++ (v :: values) :: after) =
          (some v, before ++ values :: after) := by
        rw [mergeTurn_first empty, mergeTurn_keep leading]
      have fewer : totalLength (before ++ values :: after) ≤ turns := by
        simp only [totalLength, List.map_append, List.map_cons, List.length_cons, List.sum_append,
          List.sum_cons] at enough ⊢
        omega
      simp only [mergeLoop, taken, inductionHypothesis fewer rest, List.flatten_append, List.flatten_cons,
        List.flatten_eq_nil_iff.mpr empty, List.nil_append, List.cons_append]

/-- Never is more delivered than there is, and all of it only if the streams follow one another. -/
theorem mergeLoop_length (turns : Nat) (streams : List (List Cell)) :
    (mergeLoop timestamp turns streams).length ≤ totalLength streams ∧
      ((mergeLoop timestamp turns streams).length = totalLength streams → InSequence timestamp streams) := by
  induction turns generalizing streams with
  | zero =>
    refine ⟨Nat.zero_le _, fun same => ?_⟩
    rw [mergeLoop, List.length_nil, totalLength_eq_flatten] at same
    exact inSequence_of_empty (List.flatten_eq_nil_iff.mp (List.length_eq_zero_iff.mp same.symm))
  | succ turns inductionHypothesis =>
    cases exists_first streams with
    | inl empty =>
      rw [mergeLoop, mergeTurn_none empty]
      exact ⟨Nat.zero_le _, fun _ => inSequence_of_empty empty⟩
    | inr found =>
      obtain ⟨before, v, values, after, rfl, empty⟩ := found
      have ⟨notMore, onlyIf⟩ := @mergeTurn_length _ timestamp v after
      obtain ⟨least, sent⟩ := @mergeTurn_sends _ timestamp v after
      have ⟨fewer, all⟩ := inductionHypothesis (before ++ values :: (mergeTurn timestamp (some v) after).2)
      have totalBefore : totalLength (before ++ (v :: values) :: after) =
          totalLength before + (values.length + 1 + totalLength after) := by
        simp [totalLength]
      have totalRest : totalLength (before ++ values :: (mergeTurn timestamp (some v) after).2) =
          totalLength before + (values.length + totalLength (mergeTurn timestamp (some v) after).2) := by
        simp [totalLength]
      rw [mergeLoop, mergeTurn_first empty, sent]
      show (_ :: _).length ≤ _ ∧ ((_ :: _).length = _ → _)
      rw [List.length_cons]
      constructor
      · omega
      · -- All is delivered: this turn took off one value, and the later turns deliver all the rest.
        intro same
        have leading := onlyIf (by omega)
        have rest := all (by omega)
        rw [mergeTurn_keep leading] at rest
        exact (inSequence_first empty v values after).mpr ⟨leading, rest⟩

theorem mergeValueStreams_inSequence {streams : List (ValueStream Cell)}
    (sequence : InSequence timestamp (streams.map ValueStream.value)) :
    mergeValueStreams timestamp streams = (streams.map ValueStream.value).flatten := by
  apply mergeLoop_inSequence _ sequence
  simp [totalLength, Function.comp_def]

theorem inSequence_of_perm {streams : List (ValueStream Cell)}
    (all : (mergeValueStreams timestamp streams).Perm (streams.map ValueStream.value).flatten) :
    InSequence timestamp (streams.map ValueStream.value) := by
  apply (mergeLoop_length _ _).2
  rw [totalLength_eq_flatten]
  exact all.length_eq

/-- Sorted streams that follow one another are sorted as a whole. -/
theorem sorted_flatten {streams : List (List Cell)} (sequence : InSequence timestamp streams)
    (sorted : ∀ values ∈ streams, SortedByTimestamp timestamp values) :
    SortedByTimestamp timestamp streams.flatten := by
  apply List.pairwise_flatten.mpr ⟨sorted, ?_⟩
  apply sequence.imp_of_mem
  intro earlier later _ member follows v found w behind
  cases later with
  | nil => cases behind
  | cons front rest =>
    have first := follows v found front rfl
    cases behind with
    | head => exact first
    | tail _ behind =>
      exact UInt64.le_trans first ((List.pairwise_cons.mp (sorted _ member)).1 w behind)

/-- The merge is a merge exactly when the streams follow one another in time already. -/
theorem mergeValueStreams_iff (timestamp : Cell → UInt64) (streams : List (ValueStream Cell)) :
    Merges timestamp (streams.map ValueStream.value) (mergeValueStreams timestamp streams) ↔
      InSequence timestamp (streams.map ValueStream.value) := by
  constructor
  · intro merges
    exact inSequence_of_perm merges.1.perm
  · intro sequence
    rw [mergeValueStreams_inSequence sequence]
    exact ⟨.flatten _, sorted_flatten sequence⟩

/-- Two streams of one value each, the later value first. -/
def laterFirst : List (ValueStream UInt64) :=
  [{ streamVariable := none, value := [5] }, { streamVariable := none, value := [3] }]

/-- The later value is the least of those seen until the earlier one is seen, and it is never sent. -/
theorem mergeValueStreams_drops :
    mergeValueStreams id laterFirst = [3] ∧
      ¬ Merges id (laterFirst.map ValueStream.value) (mergeValueStreams id laterFirst) := by
  constructor
  · decide
  · intro merges
    have short := merges.1.perm.length_eq
    revert short
    decide

end OpenInstrument
