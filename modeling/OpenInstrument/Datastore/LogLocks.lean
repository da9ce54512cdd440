import OpenInstrument.Library.LockOrder

/-! # Waiting for the logs of blocks

`Flush` takes the lock of the log of every block with new streams that it comes across, in the order of a map, and gives
the locks back only when it returns.  The writers that add streams take no lock.
-/

namespace OpenInstrument

open LockOrder

variable {Call Block : Type}

/-- How a `Flush` goes through the blocks: it comes across each of them once. -/
structure Visits (Block : Type) where
  order : List Block
  once : order.Nodup
  all : ∀ block, block ∈ order

/-- The calls that take locks of logs. -/
inductive LogCall (Block : Type) where
  | flush (visits : Visits Block)
  | compactBlock (block : Block)
  | splitBlock (block : Block)

def LogCall.program : LogCall Block → List (Instruction Block)
  | .flush visits => visits.order.map .visit
  | .compactBlock block => [.lock block, .unlock block]
  -- It can return before it compacts the block, before it takes the lock again, and while it holds it.
  | .splitBlock block => [.attempt, .lock block, .unlock block, .attempt, .lock block, .attempt]

def startCalls (calls : Call → LogCall Block) (pending : Block → Bool) : State Call Block :=
  { calls := fun call => { program := (calls call).program, held := [], asked := false }, pending }

/-! ## One order -/

section

variable [DecidableEq Block]

theorem ordered_visits {rank : Block → Nat} {rest held : List Block}
    (above : ∀ block ∈ held, ∀ other ∈ rest, rank block < rank other)
    (ascending : rest.Pairwise fun block other => rank block < rank other) : Ordered rank held (rest.map .visit) := by
  induction rest generalizing held with
  | nil => trivial
  | cons first rest inductionHypothesis =>
    obtain ⟨below, later⟩ := List.pairwise_cons.mp ascending
    have others : ∀ block ∈ held, ∀ other ∈ rest, rank block < rank other := fun block holds other member =>
      above block holds other (List.mem_cons_of_mem _ member)
    refine ⟨fun block holds => above block holds first List.mem_cons_self, inductionHypothesis others later,
      inductionHypothesis ?_ later⟩
    intro block holds
    cases List.mem_cons.mp holds with
    | inl same => exact same ▸ below
    | inr before => exact others block before

theorem pairwise_idxOf {order : List Block} (once : order.Nodup) :
    order.Pairwise fun block other => order.idxOf block < order.idxOf other := by
  rw [List.pairwise_iff_getElem]
  intro first second inside within before
  rwa [once.idxOf_getElem, once.idxOf_getElem]

/-- The calls take their locks in the order in which a `Flush` comes across the blocks, if all `Flush`es have that
order. -/
theorem LogCall.ordered {order : List Block} {logCall : LogCall Block}
    (same : ∀ visits, logCall = .flush visits → visits.order = order) :
    Ordered (fun block => order.idxOf block) [] logCall.program := by
  cases logCall with
  | flush visits =>
    rw [LogCall.program, same visits rfl]
    exact ordered_visits (by simp) (pairwise_idxOf (same visits rfl ▸ visits.once))
  | compactBlock block => simp [LogCall.program, Ordered]
  | splitBlock block => simp [LogCall.program, Ordered]

/-! ## Nothing new -/

theorem tested_visits (rest held : List Block) : Tested held none (rest.map .visit) := by
  induction rest generalizing held with
  | nil => trivial
  | cons first rest inductionHypothesis => exact ⟨rfl, inductionHypothesis (first :: held)⟩

theorem LogCall.tested (logCall : LogCall Block) : Tested [] none logCall.program := by
  cases logCall with
  | flush visits => exact tested_visits visits.order []
  | compactBlock block => simp [LogCall.program, Tested]
  | splitBlock block => simp [LogCall.program, Tested]

theorem quiet_startCalls (calls : Call → LogCall Block) (pending : Block → Bool) :
    (startCalls calls pending).Quiet := by
  refine ⟨fun call => ⟨[], none, nofun, (calls call).tested, nofun⟩, fun _ => 0, 0, fun _ => Nat.le_refl _, ?_⟩
  intro call other block next holding
  exact absurd rfl holding

end

/-! ## Two orders -/

/-- What is behind a block in an order, and what is not. -/
theorem Visits.behind (visits : Visits Block) {before after : List Block} {block : Block}
    (split : visits.order = before ++ block :: after) :
    block ∉ before ∧ block ∉ after ∧ ∀ other, other ∉ before → other ≠ block → other ∈ after := by
  have once := visits.once
  rw [split, List.nodup_middle, List.nodup_cons, List.mem_append, not_or] at once
  refine ⟨once.1.1, once.1.2, fun other notBefore apart => ?_⟩
  have member := visits.all other
  rw [split, List.mem_append, List.mem_cons] at member
  exact (member.resolve_left notBefore).resolve_left apart

theorem exists_first_difference {Item : Type} {first second : List Item} (length : first.length = second.length)
    (apart : first ≠ second) :
    ∃ common one ones other others,
      first = common ++ one :: ones ∧ second = common ++ other :: others ∧ one ≠ other := by
  induction first generalizing second with
  | nil => exact absurd (List.length_eq_zero_iff.mp length.symm).symm apart
  | cons one ones inductionHypothesis =>
    cases second with
    | nil => cases length
    | cons other others =>
      by_cases same : one = other
      · subst same
        obtain ⟨common, left, lefts, right, rights, rfl, rfl, differ⟩ :=
          @inductionHypothesis others (Nat.succ.inj length) fun same => apart (same ▸ rfl)
        exact ⟨one :: common, left, lefts, right, rights, rfl, rfl, differ⟩
      · exact ⟨[], one, ones, other, others, rfl, rfl, same⟩

section

variable [DecidableEq Call] [DecidableEq Block] [Fintype Call]

/-- Two `Flush`es that come across two blocks in different orders wait for each other, when streams are added to these
blocks at the wrong time. -/
theorem deadlock_of_apart {calls : Call → LogCall Block} {first second : Call} {visits others : Visits Block}
    (one : calls first = .flush visits) (two : calls second = .flush others) (apart : visits.order ≠ others.order) :
    ∃ s, Reaches (startCalls calls fun _ => false) s ∧ s.Deadlocked := by
  have different : second ≠ first := by
    rintro rfl
    cases one.symm.trans two
    exact apart rfl
  have perm : visits.order.Perm others.order :=
    (List.perm_ext_iff_of_nodup visits.once others.once).mpr fun block =>
      iff_of_true (visits.all block) (others.all block)
  obtain ⟨common, x, xs, y, ys, orderOne, orderTwo, differ⟩ := exists_first_difference perm.length_eq apart
  obtain ⟨xFresh, xOnce, behindX⟩ := visits.behind orderOne
  obtain ⟨yFresh, yOnce, behindY⟩ := others.behind orderTwo
  obtain ⟨between, rest, rfl⟩ := List.append_of_mem (behindX y yFresh (Ne.symm differ))
  obtain ⟨middle, last, rfl⟩ := List.append_of_mem (behindY x xFresh differ)
  -- Each takes the lock of the block at which the orders part, and goes on to that of the other.
  generalize begun : (startCalls calls fun _ => false : State Call Block) = s
  have startOne : s.calls first =
      ⟨common.map .visit ++ .visit x :: (between.map .visit ++ .visit y :: rest.map .visit), [], false⟩ := by
    simp [← begun, startCalls, one, LogCall.program, orderOne]
  have startTwo : s.calls second =
      ⟨common.map .visit ++ .visit y :: (middle.map .visit ++ .visit x :: last.map .visit), [], false⟩ := by
    simp [← begun, startCalls, two, LogCall.program, orderTwo]
  have clean : ∀ block, s.pending block = false := fun _ => by rw [← begun, startCalls]
  have free : ∀ call, (s.calls call).held = [] := fun _ => by rw [← begun, startCalls]
  have takesOne := reaches_take startOne clean fun call => by simp [free]
  generalize reachedOne : s.set first ⟨between.map .visit ++ .visit y :: rest.map .visit, [x], false⟩ = one_ at takesOne
  have here : one_.calls first = ⟨between.map .visit ++ .visit y :: rest.map .visit, [x], false⟩ := by
    rw [← reachedOne, State.set_same]
  have there : one_.calls second = s.calls second := by rw [← reachedOne, State.set_other _ different]
  have cleanOne : ∀ block, one_.pending block = false := fun block => by rw [← reachedOne]; exact clean block
  have freeOne : ∀ call, y ∉ (one_.calls call).held := by
    intro call
    rw [← reachedOne]
    by_cases same : call = first
    · rw [same, State.set_same]
      simpa using Ne.symm differ
    · rw [State.set_other _ same, free]
      exact List.not_mem_nil
  have takesTwo := reaches_take (there.trans startTwo) cleanOne freeOne
  generalize reachedTwo :
    one_.set second ⟨middle.map .visit ++ .visit x :: last.map .visit, [y], false⟩ = two_ at takesTwo
  have asksTwo := @reaches_ask _ _ _ _ _ two_ second middle x (last.map .visit) [y]
    (by rw [← reachedTwo, State.set_same]) fun block _ => by rw [← reachedTwo]; exact cleanOne block
  generalize reachedThree :
    (two_.setPending x true).set second ⟨.visit x :: last.map .visit, [y], true⟩ = three at asksTwo
  have asksOne := @reaches_ask _ _ _ _ _ three first between y (rest.map .visit) [x]
    (by rw [← reachedThree, State.set_other _ (Ne.symm different), State.setPending_calls, ← reachedTwo,
      State.set_other _ (Ne.symm different), here])
    (by
      intro block member
      have apart : block ≠ x := by
        rintro rfl
        exact xOnce (List.mem_append_left _ member)
      rw [← reachedThree, State.set_pending, State.setPending_other _ apart, ← reachedTwo]
      exact cleanOne block)
  refine ⟨_, takesOne.trans (takesTwo.trans (asksTwo.trans asksOne)), {first, second}, ⟨first, by simp⟩, ?_⟩
  have holdsTwo : ((three.setPending y true).set first ⟨.visit y :: rest.map .visit, [x], true⟩).calls second =
      ⟨.visit x :: last.map .visit, [y], true⟩ := by
    rw [State.set_other _ different, State.setPending_calls, ← reachedThree, State.set_same]
  intro call member
  cases member with
  | inl same =>
    subst same
    refine ⟨y, by rw [State.set_same]; rfl, second, by simp, different, ?_⟩
    rw [holdsTwo]
    exact List.mem_singleton_self y
  | inr same =>
    obtain rfl := Set.mem_singleton_iff.mp same
    refine ⟨x, by rw [holdsTwo]; rfl, first, by simp, Ne.symm different, ?_⟩
    rw [State.set_same]
    exact List.mem_singleton_self x

/-- No run of these calls leads to a deadlock exactly when all `Flush`es come across the blocks in one order.  And none
does, in whatever orders, when no stream is added to a block during the run. -/
theorem logLocks_iff (calls : Call → LogCall Block) :
    ((∀ pending events s, run (startCalls calls pending) events = some s → ¬s.Deadlocked) ↔
        ∀ first second visits others, calls first = .flush visits → calls second = .flush others →
          visits.order = others.order) ∧
      ∀ pending events s, (∀ event ∈ events, ∀ block, event ≠ .append block) →
        run (startCalls calls pending) events = some s → ¬s.Deadlocked := by
  refine ⟨⟨fun free first second visits others one two => ?_, fun same pending events s ran => ?_⟩,
    fun pending events s silent ran => not_deadlocked_of_quiet (quiet_startCalls calls pending) silent ran⟩
  · by_contra apart
    obtain ⟨s, ⟨events, ran⟩, deadlocked⟩ := deadlock_of_apart one two apart
    exact free _ events s ran deadlocked
  · obtain ⟨order, each⟩ : ∃ order, ∀ call visits, calls call = .flush visits → visits.order = order := by
      by_cases flushes : ∃ call visits, calls call = .flush visits
      · obtain ⟨call, visits, one⟩ := flushes
        exact ⟨visits.order, fun other others two => same other call others visits two one⟩
      · exact ⟨[], fun call visits one => absurd ⟨call, visits, one⟩ flushes⟩
    exact not_deadlocked_of_ordered (fun _ => List.idxOf_le_length) (fun call => (calls call).ordered (each call)) ran

/-- Two blocks and two `Flush`es, which come across them in opposite orders. -/
def oppositeFlushes (call : Bool) : LogCall Bool :=
  .flush
    { order := [call, !call]
      once := by cases call <;> decide
      all := by cases call <;> decide }

/-- Each `Flush` holds the lock of the block that it came across first, and waits for that of the other. -/
theorem oppositeFlushes_deadlock :
    ∃ s, run (startCalls oppositeFlushes fun _ => true)
        [.step true, .step true, .step true, .step false, .step false, .step false, .append true, .step false,
          .append false, .step true] = some s ∧ s.Deadlocked := by
  refine ⟨_, rfl, Set.univ, ⟨true, trivial⟩, ?_⟩
  intro call _
  cases call with
  | false => exact ⟨true, rfl, true, trivial, by decide, by decide⟩
  | true => exact ⟨false, rfl, false, trivial, by decide, by decide⟩

end

end OpenInstrument
