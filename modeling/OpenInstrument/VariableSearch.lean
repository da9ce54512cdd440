import OpenInstrument.Variable

/-! # The rules of searches

What `Match` is for: a search names a variable, or all variables whose names start with what stands before
its last `*`, and it asks something of every label that it names.  `Match` cuts two bytes off the pattern
and not one, so it takes names that lack the last byte in front of the `*`.
-/

namespace OpenInstrument

/-- The variables named by a search. -/
def NameMatches (pattern name : GoString) : Prop :=
  (pattern.getLast? = some star → pattern.dropLast <+: name) ∧
    (pattern.getLast? ≠ some star → pattern = name)

/-- What a search asks of a label. -/
structure LabelRule (labels : AList fun _ : GoString => GoString) (key value : GoString) : Prop where
  absent : value = [] → labels.lookup key = none
  present : value = [star] → ∃ found, labels.lookup key = some found ∧ found ≠ []
  equal : value ≠ [] → value ≠ [star] → labels.lookup key = some value

/-- The variable has what the search asks of every label. -/
def Variable.MeetsLabels (v search : Variable) : Prop :=
  ∀ key value, search.labels.lookup key = some value → LabelRule v.labels key value

/-- `Match` returns, and its result is that the name and the labels match. -/
def Variable.FollowsRules (v search : Variable) : Prop :=
  ∃ result, v.isMatch search = .ok result ∧
    (result = true ↔ NameMatches search.name v.name ∧ v.MeetsLabels search)

/-- The pattern has something to cut off, and no name that starts with what is left of it lacks the byte that
was cut off too much, unless its labels do not match. -/
def Variable.CutSafely (v search : Variable) : Prop :=
  search.name.getLast? = some star →
    2 ≤ search.name.length ∧
      (search.name.dropLast.dropLast <+: v.name → v.MeetsLabels search → search.name.dropLast <+: v.name)

theorem labelMatches_iff (labels : AList fun _ : GoString => GoString) (key value : GoString) :
    labelMatches labels key value = true ↔ LabelRule labels key value := by
  unfold labelMatches
  by_cases empty : value = []
  · have other : value ≠ [star] := by simp [empty]
    rw [if_pos empty, Option.isNone_iff_eq_none]
    exact ⟨fun gone => ⟨fun _ => gone, fun same => absurd same other, fun nonempty => absurd empty nonempty⟩,
      fun rule => rule.absent empty⟩
  · rw [if_neg empty]
    by_cases bare : value = [star]
    · rw [if_pos bare]
      constructor
      · intro found
        refine ⟨fun same => absurd same empty, fun _ => ?_, fun _ other => absurd bare other⟩
        cases here : labels.lookup key with
        | none => simp [here] at found
        | some value => exact ⟨value, rfl, by simpa [here] using found⟩
      · intro rule
        obtain ⟨found, here, nonempty⟩ := rule.present bare
        simp [here, nonempty]
    · rw [if_neg bare, decide_eq_true_eq]
      exact ⟨fun same => ⟨fun other => absurd other empty, fun other => absurd other bare, fun _ _ => same⟩,
        fun rule => rule.equal empty bare⟩

theorem all_labelMatches_iff (v search : Variable) :
    ((Keyed.pairs search.labels).all fun entry => labelMatches v.labels entry.1 entry.2) = true ↔
      v.MeetsLabels search := by
  rw [List.all_eq_true]
  simp only [labelMatches_iff, Prod.forall, Keyed.mem_pairs]
  exact Iff.rfl

/-- Where the pattern ends in a star, `Match` compares all but its last two bytes. -/
theorem Variable.isMatch_pattern {search : Variable} (wild : search.name.getLast? = some star)
    (long : 2 ≤ search.name.length) (v : Variable) :
    ∃ result, v.isMatch search = .ok result ∧
      (result = true ↔ search.name.dropLast.dropLast <+: v.name ∧ v.MeetsLabels search) := by
  have cut : search.name.take (search.name.length - 2) = search.name.dropLast.dropLast := by
    rw [List.dropLast_eq_take, List.dropLast_eq_take, List.length_take, List.take_take]
    congr 1
    omega
  refine ⟨_, by rw [Variable.isMatch, if_pos wild, if_neg (by omega)], ?_⟩
  rw [Bool.and_eq_true, List.isPrefixOf_iff_prefix, cut, all_labelMatches_iff]

theorem Variable.isMatch_name {search : Variable} (plain : search.name.getLast? ≠ some star) (v : Variable) :
    v.FollowsRules search := by
  refine ⟨_, by rw [Variable.isMatch, if_neg plain], ?_⟩
  rw [Bool.and_eq_true, beq_iff_eq, all_labelMatches_iff, NameMatches]
  simp [plain]

theorem Variable.isMatch_short {search : Variable} (wild : search.name.getLast? = some star)
    (short : search.name.length < 2) (v : Variable) : v.isMatch search = .error .sliceOutOfRange := by
  rw [Variable.isMatch, if_pos wild, if_pos short]

/-- `Match` follows the rules of searches exactly where the pattern is cut safely. -/
theorem Variable.followsRules_iff (v search : Variable) :
    v.FollowsRules search ↔ v.CutSafely search := by
  by_cases wild : search.name.getLast? = some star
  · have names : NameMatches search.name v.name ↔ search.name.dropLast <+: v.name := by simp [NameMatches, wild]
    by_cases long : 2 ≤ search.name.length
    · obtain ⟨result, run, matched⟩ := Variable.isMatch_pattern wild long v
      -- What starts with the whole prefix starts with the shorter one that is compared.
      have shorter : search.name.dropLast <+: v.name → search.name.dropLast.dropLast <+: v.name :=
        (List.dropLast_prefix _).trans
      constructor
      · intro follows _
        obtain ⟨other, ran, rules⟩ := follows
        have same : result = other := Except.ok.inj (run.symm.trans ran)
        rw [← same, matched, names] at rules
        exact ⟨long, fun front labels => (rules.mp ⟨front, labels⟩).1⟩
      · intro safe
        refine ⟨result, run, ?_⟩
        rw [matched, names]
        exact ⟨fun both => ⟨(safe wild).2 both.1 both.2, both.2⟩, fun both => ⟨shorter both.1, both.2⟩⟩
    · constructor
      · intro follows
        obtain ⟨result, run, _⟩ := follows
        rw [Variable.isMatch_short wild (by omega)] at run
        cases run
      · intro safe
        exact absurd (safe wild).1 long
  · exact iff_of_true (Variable.isMatch_name wild v) fun other => absurd other wild

/-- The pattern `ab*` takes the name `ac`, and the pattern `*` fails. -/
theorem isMatch_breaks_rules :
    (({ name := ascii "ac", labels := ∅ } : Variable).isMatch { name := ascii "ab*", labels := ∅ } = .ok true ∧
        ¬ ({ name := ascii "ac", labels := ∅ } : Variable).FollowsRules { name := ascii "ab*", labels := ∅ }) ∧
      ({ name := ascii "ac", labels := ∅ } : Variable).isMatch { name := ascii "*", labels := ∅ } =
          .error .sliceOutOfRange ∧
        ¬ ({ name := ascii "ac", labels := ∅ } : Variable).FollowsRules { name := ascii "*", labels := ∅ } := by
  refine ⟨⟨rfl, ?_⟩, rfl, ?_⟩
  · rintro ⟨result, run, rules⟩
    cases run
    -- The rules ask for a name that starts with `ab`.
    exact absurd ((rules.mp rfl).1.1 (by decide)) (by decide)
  · rintro ⟨result, run, rules⟩
    cases run

end OpenInstrument
