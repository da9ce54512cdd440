import OpenInstrument.Library.Fallible

/-! # Programs with a bound on their loops

A program whose loops need not end is given a number of turns, and fails with an error of its own when it has
made them all.  Its results are those that it yields with some number of turns.  A steady program keeps its
result when it is given more, so that programs can be put together that need different numbers of them.
-/

namespace Bounded

variable {Error Item Result Input State : Type} {exhausted : Error}

/-- With more turns the result is the same, unless the turns were exhausted. -/
def Steady (exhausted : Error) (program : Nat → Except Error Item) : Prop :=
  ∀ turns more, turns ≤ more → program turns ≠ .error exhausted → program more = program turns

def Yields (program : Nat → Except Error Item) (result : Except Error Item) : Prop :=
  ∃ turns, program turns = result

def Completes (program : Nat → Except Error Item) : Prop := ∃ item, Yields program (.ok item)

/-! ## Steady programs -/

theorem Steady.const (result : Except Error Item) : Steady exhausted fun _ => result := fun _ _ _ _ => rfl

theorem Steady.bind {program : Nat → Except Error Item} {next : Nat → Item → Except Error Result}
    (steady : Steady exhausted program) (later : ∀ item, Steady exhausted fun turns => next turns item) :
    Steady exhausted fun turns => program turns >>= next turns := by
  intro turns more enough unexhausted
  have first : program turns ≠ .error exhausted := by
    intro failed
    simp only [failed, Fallible.error_bind, ne_eq, not_true_eq_false] at unexhausted
  show program more >>= next more = program turns >>= next turns
  rw [steady turns more enough first]
  cases here : program turns with
  | error err => rfl
  | ok item =>
    simp only [here, Fallible.ok_bind] at unexhausted
    exact later item turns more enough unexhausted

theorem Steady.mapM {body : Nat → Input → Except Error Item} {items : List Input}
    (steady : ∀ item, Steady exhausted fun turns => body turns item) :
    Steady exhausted fun turns => items.mapM (body turns) := by
  induction items with
  | nil => exact .const _
  | cons item items inductionHypothesis =>
    simp only [List.mapM_cons]
    exact (steady item).bind fun result => inductionHypothesis.bind fun results => .const _

theorem Steady.foldlM {body : Nat → State → Input → Except Error State} {items : List Input} {state : State}
    (steady : ∀ state item, Steady exhausted fun turns => body turns state item) :
    Steady exhausted fun turns => items.foldlM (body turns) state := by
  induction items generalizing state with
  | nil => exact .const _
  | cons item items inductionHypothesis =>
    simp only [List.foldlM_cons]
    exact (steady state item).bind fun next => inductionHypothesis

/-! ## What programs yield -/

theorem yields_const {result other : Except Error Item} : Yields (fun _ => result) other ↔ result = other :=
  ⟨fun ⟨_, same⟩ => same, fun same => ⟨0, same⟩⟩

/-- Both parts with as many turns as the one needs that needs more. -/
theorem yields_bind {program : Nat → Except Error Item} {next : Nat → Item → Except Error Result}
    (steady : Steady exhausted program) (later : ∀ item, Steady exhausted fun turns => next turns item)
    {item : Item} {result : Except Error Result} (done : result ≠ .error exhausted)
    (first : Yields program (.ok item)) (second : Yields (fun turns => next turns item) result) :
    Yields (fun turns => program turns >>= next turns) result := by
  obtain ⟨turns, here⟩ := first
  obtain ⟨more, rfl⟩ := second
  refine ⟨max turns more, ?_⟩
  have front : program (max turns more) = .ok item := by
    rw [steady turns _ (Nat.le_max_left _ _) (by simp [here]), here]
  show program (max turns more) >>= next (max turns more) = _
  rw [front, Fallible.ok_bind]
  exact later item more _ (Nat.le_max_right _ _) done

theorem yields_bind_ok {program : Nat → Except Error Item} {next : Nat → Item → Except Error Result}
    (steady : Steady exhausted program) (later : ∀ item, Steady exhausted fun turns => next turns item)
    {result : Result} :
    Yields (fun turns => program turns >>= next turns) (.ok result) ↔
      ∃ item, Yields program (.ok item) ∧ Yields (fun turns => next turns item) (.ok result) := by
  constructor
  · rintro ⟨turns, run⟩
    obtain ⟨item, first, second⟩ := Fallible.bind_ok run
    exact ⟨item, ⟨turns, first⟩, ⟨turns, second⟩⟩
  · rintro ⟨item, first, second⟩
    exact yields_bind steady later (by simp) first second

theorem yields_bind_error {program : Nat → Except Error Item} {next : Nat → Item → Except Error Result}
    (steady : Steady exhausted program) (later : ∀ item, Steady exhausted fun turns => next turns item)
    {err : Error} (other : err ≠ exhausted) :
    Yields (fun turns => program turns >>= next turns) (.error err) ↔
      Yields program (.error err) ∨
        ∃ item, Yields program (.ok item) ∧ Yields (fun turns => next turns item) (.error err) := by
  constructor
  · rintro ⟨turns, run⟩
    cases here : program turns with
    | error failed =>
      simp only [here, Fallible.error_bind] at run
      cases run
      exact .inl ⟨turns, here⟩
    | ok item =>
      simp only [here, Fallible.ok_bind] at run
      exact .inr ⟨item, ⟨turns, here⟩, ⟨turns, run⟩⟩
  · rintro (⟨turns, failed⟩ | ⟨item, first, second⟩)
    · exact ⟨turns, by simp only [failed, Fallible.error_bind]⟩
    · exact yields_bind steady later (fun failed => other (Except.error.inj failed)) first second

/-- An input that is reached, since the program completes on all inputs in front of it. -/
def Reached (completes : Input → Prop) (inputs : List Input) (input : Input) : Prop :=
  ∃ before after, inputs = before ++ input :: after ∧ ∀ earlier ∈ before, completes earlier

theorem reached_cons {completes : Input → Prop} {first input : Input} {inputs : List Input} :
    Reached completes (first :: inputs) input ↔ input = first ∨ completes first ∧ Reached completes inputs input := by
  constructor
  · rintro ⟨before, after, split, each⟩
    cases before with
    | nil =>
      cases split
      exact .inl rfl
    | cons front before =>
      cases split
      obtain ⟨here, rest⟩ := List.forall_mem_cons.mp each
      exact .inr ⟨here, before, after, rfl, rest⟩
  · rintro (rfl | ⟨here, before, after, rfl, rest⟩)
    · exact ⟨[], inputs, rfl, by simp⟩
    · exact ⟨first :: before, after, rfl, List.forall_mem_cons.mpr ⟨here, rest⟩⟩

/-- The first input of some kind is reached when the program completes on all inputs of another kind. -/
theorem exists_reached {completes picked : Input → Prop} {inputs : List Input}
    (others : ∀ input ∈ inputs, ¬picked input → completes input) :
    (∃ input, Reached completes inputs input ∧ picked input) ↔ ∃ input ∈ inputs, picked input := by
  constructor
  · rintro ⟨input, ⟨before, after, rfl, -⟩, pick⟩
    exact ⟨input, by simp, pick⟩
  · rintro ⟨input, member, pick⟩
    induction inputs with
    | nil => cases member
    | cons first inputs inductionHypothesis =>
      by_cases here : picked first
      · exact ⟨first, reached_cons.mpr (.inl rfl), here⟩
      · have behind : input ∈ inputs := (List.mem_cons.mp member).resolve_left fun same => here (same ▸ pick)
        obtain ⟨found, reached, pick⟩ :=
          inductionHypothesis (fun other member => others other (List.mem_cons_of_mem _ member)) behind
        exact ⟨found, reached_cons.mpr (.inr ⟨others first List.mem_cons_self here, reached⟩), pick⟩

/-- The rest of a loop, behind the result for its first input. -/
theorem Steady.mapM_tail {body : Nat → Input → Except Error Item} {items : List Input}
    (steady : ∀ item, Steady exhausted fun turns => body turns item) (result : Item) :
    Steady exhausted fun turns => items.mapM (body turns) >>= fun results => pure (result :: results) :=
  (Steady.mapM steady).bind fun _ => .const _

/-- A loop fails where its body fails on an input that is reached. -/
theorem yields_mapM_error {body : Nat → Input → Except Error Item} {items : List Input}
    (steady : ∀ item, Steady exhausted fun turns => body turns item) {err : Error} (other : err ≠ exhausted) :
    Yields (fun turns => items.mapM (body turns)) (.error err) ↔
      ∃ item, Reached (fun earlier => Completes fun turns => body turns earlier) items item ∧
        Yields (fun turns => body turns item) (.error err) := by
  induction items with
  | nil =>
    constructor
    · rintro ⟨turns, run⟩
      cases run
    · rintro ⟨item, ⟨before, after, split, -⟩, -⟩
      exact absurd split (by simp)
  | cons item items inductionHypothesis =>
    have rest : ∀ result, Yields (fun turns => items.mapM (body turns) >>= fun results => pure (result :: results))
        (.error err) ↔ Yields (fun turns => items.mapM (body turns)) (.error err) := by
      intro result
      rw [@yields_bind_error _ _ _ exhausted (fun turns => items.mapM (body turns))
        (fun _ results => pure (result :: results)) (Steady.mapM steady) (fun _ => .const _) err other]
      constructor
      · rintro (failed | ⟨results, -, turns, run⟩)
        · exact failed
        · cases run
      · exact .inl
    simp only [List.mapM_cons]
    rw [@yields_bind_error _ _ _ exhausted (fun turns => body turns item)
      (fun turns result => items.mapM (body turns) >>= fun results => pure (result :: results)) (steady item)
      (Steady.mapM_tail steady) err other]
    simp only [rest, inductionHypothesis]
    constructor
    -- Either the first item fails, or it completes and a later one fails.
    · rintro (failed | ⟨result, completed, later, reached, failed⟩)
      · exact ⟨item, reached_cons.mpr (.inl rfl), failed⟩
      · exact ⟨later, reached_cons.mpr (.inr ⟨⟨result, completed⟩, reached⟩), failed⟩
    · rintro ⟨later, reached, failed⟩
      cases reached_cons.mp reached with
      | inl same => exact .inl (same ▸ failed)
      | inr behind =>
        obtain ⟨⟨result, completed⟩, reached⟩ := behind
        exact .inr ⟨result, completed, later, reached, failed⟩

/-- A loop with a state fails where its body fails in the state after some inputs. -/
theorem yields_foldlM_error {body : Nat → State → Input → Except Error State} {items : List Input} {state : State}
    (steady : ∀ state item, Steady exhausted fun turns => body turns state item) {err : Error}
    (other : err ≠ exhausted) :
    Yields (fun turns => items.foldlM (body turns) state) (.error err) ↔
      ∃ before item after middle, items = before ++ item :: after ∧
        Yields (fun turns => before.foldlM (body turns) state) (.ok middle) ∧
        Yields (fun turns => body turns middle item) (.error err) := by
  induction items generalizing state with
  | nil =>
    constructor
    · rintro ⟨turns, run⟩
      cases run
    · rintro ⟨before, item, after, middle, split, -⟩
      exact absurd split (by simp)
  | cons item items inductionHypothesis =>
    simp only [List.foldlM_cons]
    rw [@yields_bind_error _ _ _ exhausted (fun turns => body turns state item)
      (fun turns next => items.foldlM (body turns) next) (steady state item) (fun _ => Steady.foldlM steady) err other]
    constructor
    -- Either the first input fails, or it gives the state from which a later one does.
    · rintro (failed | ⟨next, first, later⟩)
      · exact ⟨[], item, items, state, rfl, yields_const.mpr rfl, failed⟩
      · obtain ⟨before, input, after, middle, rfl, run, failed⟩ := inductionHypothesis.mp later
        refine ⟨item :: before, input, after, middle, rfl, ?_, failed⟩
        simp only [List.foldlM_cons]
        exact yields_bind (steady state item) (fun _ => Steady.foldlM steady) (by simp) first run
    · rintro ⟨before, input, after, middle, split, run, failed⟩
      cases before with
      | nil =>
        cases split
        cases yields_const.mp run
        exact .inl failed
      | cons front before =>
        cases split
        simp only [List.foldlM_cons] at run
        obtain ⟨next, first, run⟩ := (@yields_bind_ok _ _ _ exhausted (fun turns => body turns state item)
          (fun turns next => before.foldlM (body turns) next) (steady state item) (fun _ => Steady.foldlM steady)
          middle).mp run
        exact .inr ⟨next, first, inductionHypothesis.mpr ⟨before, input, after, middle, rfl, run, failed⟩⟩

/-! ## Programs that fail -/

section Fails

variable {bad : Error → Prop}

def Fails (bad : Error → Prop) (program : Nat → Except Error Item) : Prop :=
  ∃ err, bad err ∧ Yields program (.error err)

theorem fails_const {result : Except Error Item} :
    Fails bad (fun _ => result) ↔ ∃ err, bad err ∧ result = .error err := by
  simp only [Fails, yields_const]

/-- A program whose every run ends well, or in some allowed way, does not fail in any other. -/
theorem not_fails_of_ends {allowed : Error → Prop} {post : Item → Prop} {program : Nat → Except Error Item}
    (ends : ∀ turns, Fallible.Ends allowed post (program turns)) (apart : ∀ err, allowed err → ¬bad err) :
    ¬Fails bad program := by
  rintro ⟨err, fails, turns, failed⟩
  exact apart err ((ends turns).of_error failed) fails

/-- What is made of a result in the end does not matter. -/
theorem fails_bind_pure {program : Nat → Except Error Item} {make : Item → Result} :
    Fails bad (fun turns => program turns >>= fun item => pure (make item)) ↔ Fails bad program := by
  have same : ∀ turns err,
      (program turns >>= fun item => pure (make item)) = .error err ↔ program turns = .error err := by
    intro turns err
    cases program turns with
    | error other =>
      exact ⟨fun failed => congrArg _ (Except.error.inj failed), fun failed => congrArg _ (Except.error.inj failed)⟩
    | ok item => exact iff_of_false nofun nofun
  simp only [Fails, Yields, same]

theorem fails_bind {program : Nat → Except Error Item} {next : Nat → Item → Except Error Result}
    (steady : Steady exhausted program) (later : ∀ item, Steady exhausted fun turns => next turns item)
    (other : ¬bad exhausted) :
    Fails bad (fun turns => program turns >>= next turns) ↔
      Fails bad program ∨ ∃ item, Yields program (.ok item) ∧ Fails bad fun turns => next turns item := by
  have apart : ∀ err, bad err → err ≠ exhausted := fun err fails same => other (same ▸ fails)
  constructor
  · rintro ⟨err, fails, failed⟩
    cases (yields_bind_error steady later (apart err fails)).mp failed with
    | inl first => exact .inl ⟨err, fails, first⟩
    | inr second =>
      obtain ⟨item, first, second⟩ := second
      exact .inr ⟨item, first, err, fails, second⟩
  · rintro (⟨err, fails, first⟩ | ⟨item, first, err, fails, second⟩)
    · exact ⟨err, fails, (yields_bind_error steady later (apart err fails)).mpr (.inl first)⟩
    · exact ⟨err, fails, (yields_bind_error steady later (apart err fails)).mpr (.inr ⟨item, first, second⟩)⟩

theorem fails_mapM {body : Nat → Input → Except Error Item} {items : List Input}
    (steady : ∀ item, Steady exhausted fun turns => body turns item) (other : ¬bad exhausted) :
    Fails bad (fun turns => items.mapM (body turns)) ↔
      ∃ item, Reached (fun earlier => Completes fun turns => body turns earlier) items item ∧
        Fails bad fun turns => body turns item := by
  have apart : ∀ err, bad err → err ≠ exhausted := fun err fails same => other (same ▸ fails)
  constructor
  · rintro ⟨err, fails, failed⟩
    obtain ⟨item, reached, failed⟩ := (yields_mapM_error steady (apart err fails)).mp failed
    exact ⟨item, reached, err, fails, failed⟩
  · rintro ⟨item, reached, err, fails, failed⟩
    exact ⟨err, fails, (yields_mapM_error steady (apart err fails)).mpr ⟨item, reached, failed⟩⟩

theorem fails_foldlM {body : Nat → State → Input → Except Error State} {items : List Input} {state : State}
    (steady : ∀ state item, Steady exhausted fun turns => body turns state item) (other : ¬bad exhausted) :
    Fails bad (fun turns => items.foldlM (body turns) state) ↔
      ∃ before item after middle, items = before ++ item :: after ∧
        Yields (fun turns => before.foldlM (body turns) state) (.ok middle) ∧
        Fails bad fun turns => body turns middle item := by
  have apart : ∀ err, bad err → err ≠ exhausted := fun err fails same => other (same ▸ fails)
  constructor
  · rintro ⟨err, fails, failed⟩
    obtain ⟨before, item, after, middle, split, run, failed⟩ := (yields_foldlM_error steady (apart err fails)).mp failed
    exact ⟨before, item, after, middle, split, run, err, fails, failed⟩
  · rintro ⟨before, item, after, middle, split, run, err, fails, failed⟩
    refine ⟨err, fails, (yields_foldlM_error steady (apart err fails)).mpr ?_⟩
    exact ⟨before, item, after, middle, split, run, failed⟩

end Fails

end Bounded
