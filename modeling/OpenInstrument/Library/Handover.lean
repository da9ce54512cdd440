import Mathlib.Data.List.Basic
import Mathlib.Logic.Function.Basic

/-! # Handing values over to a worker

A caller opens a worker on a target and sends it values over an unbuffered channel.  A value is handed
over when the worker has received it; the worker applies it to the target in a step of its own, and only
then receives again.  Nothing tells the caller about that step: it can close the channel while the worker
still holds a value, go on to read the target, or open another worker on it.
-/

namespace Handover

variable {Key Value Target : Type}

/-- What the caller does next. -/
inductive Command (Key Value : Type) where
  | openWorker (key : Key)
  | send (value : Value)
  | close
  | read (key : Key)
  deriving DecidableEq

structure State (Key Value Target : Type) where
  commands : List (Command Key Value)
  /-- The worker whose channel is open, and what it holds. -/
  current : Option (Key × Option Value)
  /-- What the workers hold whose channels are closed, from the oldest on. -/
  leftover : List (Key × Value)
  sent : List (Key × Value)
  applied : List (Key × Value)
  target : Key → Target

/-- Who takes the next step. -/
inductive Event where
  | command
  | apply
  | applyLeftover (index : Nat)
  deriving DecidableEq

def holding : Option (Key × Option Value) → List (Key × Value)
  | some (key, some value) => [(key, value)]
  | _ => []

def State.held (s : State Key Value Target) : List (Key × Value) := s.leftover ++ holding s.current

def start (commands : List (Command Key Value)) (target : Key → Target) : State Key Value Target :=
  { commands, current := none, leftover := [], sent := [], applied := [], target }

variable [DecidableEq Key]

def valuesOf (key : Key) (entries : List (Key × Value)) : List Value :=
  (entries.filter fun entry => entry.1 = key).map Prod.snd

def State.apply (update : Target → Value → Target) (s : State Key Value Target) (key : Key) (value : Value) :
    State Key Value Target :=
  { s with
    applied := s.applied ++ [(key, value)]
    target := Function.update s.target key (update (s.target key) value) }

def step (update : Target → Value → Target) (s : State Key Value Target) :
    Event → Option (State Key Value Target)
  | .command =>
    match s.commands with
    | [] => none
    | .openWorker key :: rest =>
      some { s with commands := rest, leftover := s.held, current := some (key, none) }
    | .send value :: rest =>
      match s.current with
      | some (key, none) =>
        some { s with commands := rest, current := some (key, some value), sent := s.sent ++ [(key, value)] }
      | _ => none
    | .close :: rest => some { s with commands := rest, leftover := s.held, current := none }
    | .read _ :: rest => some { s with commands := rest }
  | .apply =>
    match s.current with
    | some (key, some value) => some (State.apply update { s with current := some (key, none) } key value)
    | _ => none
  | .applyLeftover index =>
    s.leftover[index]?.map fun entry =>
      State.apply update { s with leftover := s.leftover.eraseIdx index } entry.1 entry.2

def run (update : Target → Value → Target) : State Key Value Target → List Event →
    Option (State Key Value Target)
  | s, [] => some s
  | s, event :: events => (step update s event).bind fun next => run update next events

/-- A step that reads only what no worker is still to change, and that overtakes no older worker. -/
def orderly (s : State Key Value Target) : Event → Bool
  | .command =>
    match s.commands with
    | .read key :: _ => (valuesOf key s.held).isEmpty
    | _ => true
  | .apply =>
    match s.current with
    | some (key, some _) => (valuesOf key s.leftover).isEmpty
    | _ => true
  | .applyLeftover index =>
    s.leftover[index]?.all fun entry => (valuesOf entry.1 (s.leftover.take index)).isEmpty

def orderlyRun (update : Target → Value → Target) : State Key Value Target → List Event →
    Option (State Key Value Target)
  | s, [] => some s
  | s, event :: events =>
    if orderly s event then (step update s event).bind fun next => orderlyRun update next events else none

/-! ## What a run keeps -/

omit [DecidableEq Key] in
@[simp] theorem held_start (commands : List (Command Key Value)) (target : Key → Target) :
    (start commands target).held = [] := rfl

@[simp] theorem valuesOf_nil (key : Key) : valuesOf key ([] : List (Key × Value)) = [] := rfl

@[simp] theorem valuesOf_append (key : Key) (first second : List (Key × Value)) :
    valuesOf key (first ++ second) = valuesOf key first ++ valuesOf key second := by
  simp [valuesOf]

theorem valuesOf_cons_self (key : Key) (value : Value) (entries : List (Key × Value)) :
    valuesOf key ((key, value) :: entries) = value :: valuesOf key entries := by
  simp [valuesOf]

theorem valuesOf_cons_ne {key other : Key} (different : other ≠ key) (value : Value)
    (entries : List (Key × Value)) :
    valuesOf key ((other, value) :: entries) = valuesOf key entries := by
  simp [valuesOf, different]

/-- Each target is the result of what was applied to it, and what was sent to it is either applied or
still held, in the order it was sent. -/
structure InOrder (update : Target → Value → Target) (initial : Key → Target) (s : State Key Value Target) :
    Prop where
  target : ∀ key, s.target key = (valuesOf key s.applied).foldl update (initial key)
  sent : ∀ key, valuesOf key s.sent = valuesOf key s.applied ++ valuesOf key s.held

variable {update : Target → Value → Target} {initial : Key → Target} {s next : State Key Value Target}

/-- A worker applies the oldest value that is held for its target. -/
theorem InOrder.apply {key : Key} {value : Value} {before after : List (Key × Value)}
    (inOrder : InOrder update initial s) (held : s.held = before ++ (key, value) :: after)
    (oldest : valuesOf key before = []) {rest : State Key Value Target} (same : rest.applied = s.applied)
    (sameTarget : rest.target = s.target) (sameSent : rest.sent = s.sent)
    (left : rest.held = before ++ after) : InOrder update initial (rest.apply update key value) := by
  constructor
  · intro other
    show Function.update rest.target key (update (rest.target key) value) other = _
    by_cases here : other = key
    · subst here
      rw [Function.update_self, sameTarget, inOrder.target]
      show _ = (valuesOf other (rest.applied ++ [(other, value)])).foldl update (initial other)
      rw [valuesOf_append, valuesOf_cons_self, same, List.foldl_append]
      rfl
    · rw [Function.update_of_ne here, sameTarget, inOrder.target]
      show _ = (valuesOf other (rest.applied ++ [(key, value)])).foldl update (initial other)
      rw [valuesOf_append, valuesOf_cons_ne (Ne.symm here), same, valuesOf_nil, List.append_nil]
  · intro other
    show valuesOf other rest.sent = valuesOf other (rest.applied ++ [(key, value)]) ++ valuesOf other rest.held
    rw [sameSent, inOrder.sent, held, left, same]
    simp only [valuesOf_append]
    by_cases here : other = key
    · subst here
      rw [oldest, valuesOf_cons_self, valuesOf_cons_self]
      simp
    · rw [valuesOf_cons_ne (Ne.symm here), valuesOf_cons_ne (Ne.symm here)]
      simp

theorem InOrder.step (inOrder : InOrder update initial s) {event : Event} (turn : orderly s event = true)
    (stepped : Handover.step update s event = some next) : InOrder update initial next := by
  cases event with
  | command =>
    rw [Handover.step] at stepped
    cases commands : s.commands with
    | nil => simp [commands] at stepped
    | cons command rest =>
      cases command with
      | openWorker key =>
        simp only [commands, Option.some.injEq] at stepped
        subst stepped
        exact ⟨inOrder.target, fun other => by simpa [State.held, holding] using inOrder.sent other⟩
      | send value =>
        simp only [commands] at stepped
        split at stepped
        · rename_i key open_
          cases stepped
          refine ⟨inOrder.target, fun other => ?_⟩
          have sent := inOrder.sent other
          simp only [State.held, open_, holding, List.append_nil, valuesOf_append] at sent ⊢
          rw [sent, List.append_assoc]
        · cases stepped
      | close =>
        simp only [commands, Option.some.injEq] at stepped
        subst stepped
        exact ⟨inOrder.target, fun other => by simpa [State.held, holding] using inOrder.sent other⟩
      | read key =>
        simp only [commands, Option.some.injEq] at stepped
        subst stepped
        exact ⟨inOrder.target, inOrder.sent⟩
  | apply =>
    rw [Handover.step] at stepped
    split at stepped
    · rename_i key value open_
      cases stepped
      have oldest : valuesOf key s.leftover = [] := by
        simpa [orderly, open_] using turn
      have held : s.held = s.leftover ++ (key, value) :: [] := by simp [State.held, open_, holding]
      exact inOrder.apply held oldest rfl rfl rfl (by simp [State.held, holding])
    · cases stepped
  | applyLeftover index =>
    obtain ⟨entry, found, same⟩ := Option.map_eq_some_iff.mp stepped
    subst same
    have oldest : valuesOf entry.1 (s.leftover.take index) = [] := by
      simpa [orderly, found] using turn
    obtain ⟨bound, here⟩ := List.getElem?_eq_some_iff.mp found
    -- The values before this one and after it keep their places.
    have split : s.leftover = s.leftover.take index ++ entry :: s.leftover.drop (index + 1) := by
      rw [← here, List.getElem_cons_drop, List.take_append_drop]
    have held : s.held =
        s.leftover.take index ++ entry :: (s.leftover.drop (index + 1) ++ holding s.current) := by
      conv_lhs => rw [State.held, split]
      rw [List.append_assoc, List.cons_append]
    exact inOrder.apply held oldest rfl rfl rfl
      (by simp [State.held, List.eraseIdx_eq_take_drop_succ])

theorem inOrder_start (commands : List (Command Key Value)) :
    InOrder update initial (start commands initial) :=
  ⟨fun _ => rfl, fun _ => rfl⟩

theorem InOrder.run (inOrder : InOrder update initial s) {events : List Event}
    (ran : orderlyRun update s events = some next) : InOrder update initial next := by
  induction events generalizing s with
  | nil => cases ran; exact inOrder
  | cons event events inductionHypothesis =>
    rw [orderlyRun] at ran
    split at ran
    · rename_i turn
      obtain ⟨middle, stepped, rest⟩ := Option.bind_eq_some_iff.mp ran
      exact inductionHypothesis (inOrder.step turn stepped) rest
    · cases ran

/-- What was sent to a target is applied, all of it and in order, when no worker holds a value for it. -/
theorem InOrder.applied_iff (inOrder : InOrder update initial s) (key : Key) :
    valuesOf key s.applied = valuesOf key s.sent ↔ valuesOf key s.held = [] := by
  rw [inOrder.sent key, List.self_eq_append_right]

end Handover
