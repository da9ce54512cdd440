import Mathlib.Data.List.Perm.Basic

/-! # Loops and runs that can fail

A loop over a list whose body can fail, and a system that takes one fallible step for each input.
`Ends` is what such a program guarantees of its result, with a rule for each way of composing
programs.  `Along` says that a condition holds at every step of a run, and `Along.ends` carries a
property from the first state of such a run to the last.
-/

namespace Fallible

universe u

variable {Error Input : Type*} {Item Result State : Type u}

theorem mapM_ok {f : Item → Except Error Result} {g : Item → Result} {items : List Item}
    (each : ∀ item ∈ items, f item = .ok (g item)) : items.mapM f = .ok (items.map g) := by
  induction items with
  | nil => rfl
  | cons item items inductionHypothesis =>
    rw [List.mapM_cons, each item List.mem_cons_self,
      inductionHypothesis fun other member => each other (List.mem_cons_of_mem _ member)]
    rfl

/-- A loop over items that each yield what a source item determines. -/
theorem mapM_ok_of_forall₂ {Source : Type*} {f : Item → Except Error Result} {g : Source → Result}
    {sources : List Source} {items : List Item}
    (each : List.Forall₂ (fun source item => f item = .ok (g source)) sources items) :
    items.mapM f = .ok (sources.map g) := by
  induction each with
  | nil => rfl
  | cons first _ inductionHypothesis =>
    rw [List.mapM_cons, first, inductionHypothesis]
    rfl

/-- A loop over translated items, whose body does what another one does on the items before translation. -/
theorem mapM_map_eq {Source Item : Type*} {Found Result : Type u} {f : Source → Item} {g : Item → Except Error Result}
    {k : Source → Except Error Found} {h : Found → Result} {sources : List Source}
    (same : ∀ source ∈ sources, g (f source) = h <$> k source) :
    (sources.map f).mapM g = List.map h <$> sources.mapM k := by
  induction sources with
  | nil => rfl
  | cons source sources inductionHypothesis =>
    rw [List.map_cons, List.mapM_cons, List.mapM_cons, same source List.mem_cons_self,
      inductionHypothesis fun other member => same other (List.mem_cons_of_mem _ member)]
    cases k source with
    | error err => rfl
    | ok found =>
      cases sources.mapM k with
      | error err => rfl
      | ok others => rfl

/-- A loop whose items all succeed yields one result for each item. -/
theorem mapM_exists {f : Item → Except Error Result} {related : Item → Result → Prop} {items : List Item}
    (each : ∀ item ∈ items, ∃ result, f item = .ok result ∧ related item result) :
    ∃ results, items.mapM f = .ok results ∧ List.Forall₂ related items results := by
  induction items with
  | nil => exact ⟨[], rfl, .nil⟩
  | cons item items inductionHypothesis =>
    obtain ⟨result, run, here⟩ := each item List.mem_cons_self
    obtain ⟨results, rest, later⟩ :=
      inductionHypothesis fun other member => each other (List.mem_cons_of_mem _ member)
    refine ⟨result :: results, ?_, .cons here later⟩
    rw [List.mapM_cons, run, rest]
    rfl

/-- A loop succeeds only if its body does on each item. -/
theorem exists_of_mapM_ok {f : Item → Except Error Result} {items : List Item} {results : List Result}
    (run : items.mapM f = .ok results) {item : Item} (member : item ∈ items) :
    ∃ result, f item = .ok result := by
  induction items generalizing results with
  | nil => cases member
  | cons first items inductionHypothesis =>
    rw [List.mapM_cons] at run
    cases ran : f first with
    | error err =>
      rw [ran] at run
      cases run
    | ok result =>
      cases later : items.mapM f with
      | error err =>
        rw [ran, later] at run
        cases run
      | ok rest =>
        rcases List.mem_cons.mp member with rfl | behind
        · exact ⟨result, ran⟩
        · exact inductionHypothesis later behind

theorem mapM_ok_iff {f : Item → Except Error Result} {items : List Item} :
    (∃ results, items.mapM f = .ok results) ↔ ∀ item ∈ items, ∃ result, f item = .ok result := by
  constructor
  · intro ⟨results, run⟩ item member
    exact exists_of_mapM_ok run member
  · intro each
    have related : ∀ item ∈ items, ∃ result, f item = .ok result ∧ True := by
      intro item member
      obtain ⟨result, run⟩ := each item member
      exact ⟨result, run, trivial⟩
    obtain ⟨results, run, -⟩ := mapM_exists related
    exact ⟨results, run⟩

/-- What a loop yields for each item. -/
theorem forall₂_of_mapM_ok {f : Item → Except Error Result} {items : List Item} {results : List Result}
    (run : items.mapM f = .ok results) : List.Forall₂ (fun item result => f item = .ok result) items results := by
  obtain ⟨others, ran, each⟩ := @mapM_exists _ _ _ f (fun item result => f item = .ok result) items <| by
    intro item member
    obtain ⟨result, here⟩ := exists_of_mapM_ok run member
    exact ⟨result, here, here⟩
  rw [run] at ran
  cases ran
  exact each

/-- A loop that takes its items in another order yields its results in another order. -/
theorem mapM_perm {f : Item → Except Error Result} {items others : List Item} (same : items.Perm others)
    {results : List Result} (run : items.mapM f = .ok results) :
    ∃ reordered, others.mapM f = .ok reordered ∧ reordered.Perm results := by
  obtain ⟨reordered, each, perm⟩ := List.perm_comp_forall₂ same.symm (forall₂_of_mapM_ok run)
  have turned : List.Forall₂ (fun result item => f item = .ok (id result)) reordered others := List.Forall₂.flip each
  exact ⟨reordered, List.map_id reordered ▸ mapM_ok_of_forall₂ turned, perm⟩

/-- Each result of a loop comes from an item, and each item yields a result. -/
theorem mem_of_mapM_ok {f : Item → Except Error Result} {items : List Item} {results : List Result}
    (run : items.mapM f = .ok results) :
    (∀ result ∈ results, ∃ item ∈ items, f item = .ok result) ∧
      ∀ item ∈ items, ∃ result ∈ results, f item = .ok result := by
  have each := forall₂_of_mapM_ok run
  clear run
  induction each with
  | nil => exact ⟨fun _ member => (by cases member), fun _ member => (by cases member)⟩
  | @cons item result items results here _ inductionHypothesis =>
    constructor
    · intro other member
      cases member with
      | head => exact ⟨item, List.mem_cons_self, here⟩
      | tail _ behind =>
        obtain ⟨source, inside, ran⟩ := inductionHypothesis.1 other behind
        exact ⟨source, .tail _ inside, ran⟩
    · intro other member
      cases member with
      | head => exact ⟨result, List.mem_cons_self, here⟩
      | tail _ behind =>
        obtain ⟨target, inside, ran⟩ := inductionHypothesis.2 other behind
        exact ⟨target, .tail _ inside, ran⟩

/-- A loop over items that all fail in the same way, if there are any. -/
theorem mapM_error {f : Item → Except Error Result} {err : Error} {items : List Item}
    (each : ∀ item ∈ items, f item = .error err) :
    items.mapM f = if items = [] then .ok [] else .error err := by
  cases items with
  | nil => rfl
  | cons item items =>
    rw [List.mapM_cons, each item List.mem_cons_self]
    rfl

/-- A loop in which some item fails, when all that fail do it in the same way. -/
theorem mapM_eq_error {f : Item → Except Error Result} {err : Error} {items : List Item}
    (each : ∀ item ∈ items, f item = .error err ∨ ∃ result, f item = .ok result)
    (some : ∃ item ∈ items, f item = .error err) : items.mapM f = .error err := by
  induction items with
  | nil =>
    obtain ⟨item, member, -⟩ := some
    cases member
  | cons item items inductionHypothesis =>
    rw [List.mapM_cons]
    rcases each item List.mem_cons_self with failed | ⟨result, returned⟩
    · rw [failed]
      rfl
    · obtain ⟨other, member, failed⟩ := some
      have later : other ∈ items := by
        rcases List.mem_cons.mp member with rfl | later
        · rw [returned] at failed
          cases failed
        · exact later
      rw [returned, inductionHypothesis (fun other member => each other (List.mem_cons_of_mem _ member))
        ⟨other, later, failed⟩]
      rfl

@[simp] theorem ok_bind (item : Item) (next : Item → Except Error Result) :
    ((.ok item : Except Error Item) >>= next) = next item :=
  rfl

@[simp] theorem error_bind (err : Error) (next : Item → Except Error Result) :
    ((.error err : Except Error Item) >>= next) = .error err :=
  rfl

/-- The bind of two steps succeeds only if both do. -/
theorem bind_ok {first : Except Error Item} {next : Item → Except Error Result} {result : Result}
    (success : (first >>= next) = .ok result) : ∃ item, first = .ok item ∧ next item = .ok result := by
  cases first with
  | error err => cases success
  | ok item => exact ⟨item, rfl, success⟩

theorem map_ok {f : Item → Result} {program : Except Error Item} {result : Result}
    (success : f <$> program = .ok result) : ∃ item, program = .ok item ∧ f item = result := by
  cases program with
  | error err => cases success
  | ok item => exact ⟨item, rfl, Except.ok.inj success⟩

/-! ## Selections -/

section

variable {Entry : Type}

def select : (Entry → Except Error Bool) → List Entry → Except Error (List Entry)
  | _, [] => .ok []
  | test, item :: items =>
    test item >>= fun passed =>
      select test items >>= fun rest => .ok (if passed then item :: rest else rest)

theorem select_ok {test : Entry → Except Error Bool} {items selected : List Entry}
    (run : select test items = .ok selected) :
    (∀ item ∈ items, ∃ passed, test item = .ok passed) ∧
      ∀ item, item ∈ selected ↔ item ∈ items ∧ test item = .ok true := by
  induction items generalizing selected with
  | nil =>
    cases run
    simp
  | cons item items inductionHypothesis =>
    obtain ⟨passed, tested, later⟩ := bind_ok run
    obtain ⟨rest, ran, same⟩ := bind_ok later
    obtain ⟨each, members⟩ := inductionHypothesis ran
    cases same
    constructor
    · intro other member
      cases member with
      | head => exact ⟨passed, tested⟩
      | tail _ behind => exact each other behind
    · intro other
      cases passed with
      | true =>
        rw [if_pos rfl, List.mem_cons, List.mem_cons, members other]
        constructor
        · rintro (rfl | ⟨behind, passes⟩)
          · exact ⟨.inl rfl, tested⟩
          · exact ⟨.inr behind, passes⟩
        · rintro ⟨rfl | behind, passes⟩
          · exact .inl rfl
          · exact .inr ⟨behind, passes⟩
      | false =>
        rw [if_neg Bool.false_ne_true, List.mem_cons, members other]
        constructor
        · exact fun ⟨behind, passes⟩ => ⟨.inr behind, passes⟩
        · rintro ⟨rfl | behind, passes⟩
          · rw [tested] at passes
            cases passes
          · exact ⟨behind, passes⟩

theorem select_exists {test : Entry → Except Error Bool} {items : List Entry}
    (each : ∀ item ∈ items, ∃ passed, test item = .ok passed) :
    ∃ selected, select test items = .ok selected := by
  induction items with
  | nil => exact ⟨[], rfl⟩
  | cons item items inductionHypothesis =>
    obtain ⟨passed, tested⟩ := each item List.mem_cons_self
    obtain ⟨rest, ran⟩ := inductionHypothesis fun other member => each other (List.mem_cons_of_mem _ member)
    exact ⟨if passed then item :: rest else rest, by rw [select, tested, ok_bind, ran, ok_bind]⟩

end

def failure : Except Error Item → Option Error
  | .ok _ => none
  | .error err => some err

theorem failure_eq_some {program : Except Error Item} {err : Error} :
    failure program = some err ↔ program = .error err := by
  cases program <;> simp [failure]

theorem failure_eq_none {program : Except Error Item} :
    failure program = none ↔ ∃ item, program = .ok item := by
  cases program <;> simp [failure]

/-- A program returns a value with the property `post`, or fails with an error that is allowed. -/
def Ends (allowed : Error → Prop) (post : Item → Prop) : Except Error Item → Prop
  | .ok item => post item
  | .error err => allowed err

instance Ends.decidable {allowed : Error → Prop} {post : Item → Prop} [DecidablePred allowed]
    [DecidablePred post] : ∀ program, Decidable (Ends allowed post program)
  | .ok item => inferInstanceAs (Decidable (post item))
  | .error err => inferInstanceAs (Decidable (allowed err))

section Rules

variable {allowed : Error → Prop} {program : Except Error Item} {middle post : Item → Prop}

theorem Ends.mono (ends : Ends allowed middle program) (weaker : ∀ item, middle item → post item) :
    Ends allowed post program := by
  cases program with
  | error err => exact ends
  | ok item => exact weaker item ends

theorem Ends.bind {next : Item → Except Error Result} {final : Result → Prop}
    (ends : Ends allowed middle program) (continues : ∀ item, middle item → Ends allowed final (next item)) :
    Ends allowed final (program >>= next) := by
  cases program with
  | error err => exact ends
  | ok item => exact continues item ends

/-- A loop keeps what its body keeps. -/
theorem Ends.foldlM {body : State → Input → Except Error State} {holds : State → Prop}
    {items : List Input} {state : State}
    (keeps : ∀ state, ∀ item ∈ items, holds state → Ends allowed holds (body state item))
    (start : holds state) : Ends allowed holds (items.foldlM body state) := by
  induction items generalizing state with
  | nil => exact start
  | cons item items inductionHypothesis =>
    rw [List.foldlM_cons]
    exact (keeps state item List.mem_cons_self start).bind fun next =>
      inductionHypothesis fun state other member => keeps state other (List.mem_cons_of_mem _ member)

theorem Ends.mapM {body : Input → Except Error Item} {items : List Input}
    (each : ∀ item ∈ items, Ends allowed post (body item)) :
    Ends allowed (fun results => ∀ result ∈ results, post result) (items.mapM body) := by
  induction items with
  | nil => exact fun _ member => absurd member List.not_mem_nil
  | cons item items inductionHypothesis =>
    rw [List.mapM_cons]
    refine (each item List.mem_cons_self).bind fun result good => ?_
    refine (inductionHypothesis fun other member => each other (List.mem_cons_of_mem _ member)).bind ?_
    intro results rest other member
    rcases List.mem_cons.mp member with rfl | later
    · exact good
    · exact rest other later

theorem Ends.of_error (ends : Ends allowed post program) {err : Error} (failed : program = .error err) :
    allowed err := by
  subst failed
  exact ends

theorem Ends.exists_ok (ends : Ends (fun _ => False) post program) :
    ∃ item, program = .ok item ∧ post item := by
  cases program with
  | error err => exact ends.elim
  | ok item => exact ⟨item, rfl, ends⟩

theorem Ends.of_ok (ends : Ends allowed post program) {item : Item} (returned : program = .ok item) :
    post item := by
  subst returned
  exact ends

end Rules

/-- A condition on the inputs so far, the state, and the next input holds at every step of the run
from `state`, in which `history` came before. -/
def Along (step : State → Input → Except Error State) (condition : List Input → State → Input → Prop) :
    List Input → State → List Input → Prop
  | _, _, [] => True
  | history, state, input :: inputs =>
    condition history state input ∧
      match step state input with
      | .ok next => Along step condition (history ++ [input]) next inputs
      | .error _ => True

instance Along.decidable {step : State → Input → Except Error State}
    {condition : List Input → State → Input → Prop}
    [∀ history state input, Decidable (condition history state input)] :
    ∀ history state inputs, Decidable (Along step condition history state inputs)
  | _, _, [] => inferInstanceAs (Decidable True)
  | history, state, input :: inputs =>
    have : Decidable (match step state input with
        | .ok next => Along step condition (history ++ [input]) next inputs
        | .error _ => True) :=
      match step state input with
      | .ok next => Along.decidable (history ++ [input]) next inputs
      | .error _ => isTrue trivial
    inferInstanceAs (Decidable (_ ∧ _))

/-- Steps that keep a property under a condition keep it along a run that meets the condition. -/
theorem Along.ends {allowed : Error → Prop} {step : State → Input → Except Error State}
    {condition : List Input → State → Input → Prop} {holds : List Input → State → Prop}
    (keeps : ∀ history state input, holds history state → condition history state input →
      Ends allowed (holds (history ++ [input])) (step state input))
    {history inputs : List Input} {state : State} (start : holds history state)
    (along : Along step condition history state inputs) :
    Ends allowed (holds (history ++ inputs)) (inputs.foldlM step state) := by
  induction inputs generalizing history state with
  | nil =>
    rw [List.append_nil]
    exact start
  | cons input inputs inductionHypothesis =>
    have first := keeps history state input start along.1
    rw [List.foldlM_cons]
    cases taken : step state input with
    | error err => exact first.of_error taken
    | ok next =>
      have later := along.2
      rw [taken] at later
      have rest := inductionHypothesis (first.of_ok taken) later
      rwa [List.append_assoc] at rest

/-- Conditions that do not depend on the state hold along a run as soon as they hold of its inputs. -/
theorem Along.and {step : State → Input → Except Error State}
    {condition : List Input → State → Input → Prop} {free : List Input → Input → Prop}
    {history inputs : List Input} {state : State}
    (inputsFree : ∀ before input after, inputs = before ++ input :: after → free (history ++ before) input)
    (along : Along step condition history state inputs) :
    Along step (fun history state input => condition history state input ∧ free history input)
      history state inputs := by
  induction inputs generalizing history state with
  | nil => trivial
  | cons input inputs inductionHypothesis =>
    refine ⟨⟨along.1, by simpa using inputsFree [] input inputs rfl⟩, ?_⟩
    have later := along.2
    cases taken : step state input with
    | error err => trivial
    | ok next =>
      rw [taken] at later
      refine inductionHypothesis (fun before other after split => ?_) later
      have := inputsFree (input :: before) other after (by rw [split, List.cons_append])
      rwa [List.append_assoc, List.singleton_append]

end Fallible
