import OpenInstrument.Server.HttpConnection

/-! # Removing headers

`RemoveHeader` starts over after each header that it takes out, and the loop then goes one place on, so that the
first header is not looked at a second time.
-/

namespace OpenInstrument.Server

namespace HttpHeaders

def headerExists (headers : HttpHeaders) (name : Bytes) : Bool := headers.any fun header => header.1 == name

/-- How the loop of `RemoveHeader` ends, within a number of turns. -/
inductive Removal where
  | removed (headers : HttpHeaders)
  | outside
  | unfinished
  deriving DecidableEq

/-- The loop of `RemoveHeader`, with the place of the iterator.  After a header is erased the iterator is set to the
first place, and moved on from there. -/
def removeLoop (name : Bytes) : Nat → Nat → HttpHeaders → Removal
  | 0, _, _ => .unfinished
  | turns + 1, i, headers =>
    -- The loop ends at `end()` and nowhere else.
    if i = headers.length then .removed headers
    else
      match headers[i]? with
      | none => .outside
      | some header =>
        -- `begin()` after the header is erased, and `++i` on top of that.
        if header.1 = name then removeLoop name turns 1 (headers.eraseIdx i)
        else removeLoop name turns (i + 1) headers

def removeHeader (turns : Nat) (headers : HttpHeaders) (name : Bytes) : Removal := removeLoop name turns 0 headers

def others (headers : HttpHeaders) (name : Bytes) : HttpHeaders := headers.filter fun header => header.1 ≠ name

/-- `RemoveHeader` comes to its end inside the list, and leaves the headers of other names as they are. -/
def Removes (headers : HttpHeaders) (name : Bytes) : Prop :=
  ∃ bound, ∀ turns, bound ≤ turns → ∃ after, removeHeader turns headers name = .removed after ∧
    headerExists after name = false ∧ after = others headers name

/-! ## The loop -/

theorem removeLoop_other {name : Bytes} (front : HttpHeaders) {back : HttpHeaders} {header : Bytes × Bytes}
    (turns : Nat) (other : header.1 ≠ name) :
    removeLoop name (turns + 1) front.length (front ++ header :: back) =
      removeLoop name turns (front ++ [header]).length ((front ++ [header]) ++ back) := by
  rw [removeLoop, if_neg (by simp)]
  simp [other]

theorem removeLoop_same {name : Bytes} (front : HttpHeaders) {back : HttpHeaders} {header : Bytes × Bytes} (turns : Nat)
    (same : header.1 = name) :
    removeLoop name (turns + 1) front.length (front ++ header :: back) = removeLoop name turns 1 (front ++ back) := by
  rw [removeLoop, if_neg (by simp)]
  simp [same, List.eraseIdx_append_of_length_le]

/-- Headers of other names are passed. -/
theorem removeLoop_pass {name : Bytes} (front checked back : HttpHeaders) (turns : Nat)
    (other : ∀ header ∈ checked, header.1 ≠ name) :
    removeLoop name (turns + checked.length) front.length (front ++ (checked ++ back)) =
      removeLoop name turns (front ++ checked).length (front ++ checked ++ back) := by
  induction checked generalizing front with
  | nil => simp
  | cons header checked inductionHypothesis =>
    rw [List.length_cons, ← Nat.add_assoc, List.cons_append, removeLoop_other _ _ (other header List.mem_cons_self),
      inductionHypothesis (front ++ [header]) fun next member => other next (List.mem_cons_of_mem _ member)]
    simp

/-- From the second place on, all headers of the name go. -/
theorem removeLoop_rest (name : Bytes) (first : Bytes × Bytes) (checked back : HttpHeaders)
    (other : ∀ header ∈ checked, header.1 ≠ name) :
    ∃ bound, ∀ turns, bound ≤ turns →
      removeLoop name turns (first :: checked).length (first :: checked ++ back) =
        .removed (first :: checked ++ others back name) := by
  -- By induction on the headers that have not been looked at; those behind the first one that have been are all of
  -- other names, so that starting over at the second place passes them.
  induction back generalizing checked with
  | nil =>
    refine ⟨1, fun turns enough => ?_⟩
    obtain ⟨more, rfl⟩ := Nat.exists_eq_add_of_le' enough
    rw [removeLoop, if_pos (by simp)]
    rfl
  | cons header back inductionHypothesis =>
    by_cases same : header.1 = name
    · obtain ⟨bound, rest⟩ := inductionHypothesis checked other
      refine ⟨bound + checked.length + 1, fun turns enough => ?_⟩
      obtain ⟨more, rfl⟩ := Nat.exists_eq_add_of_le' enough
      have split : more + (bound + checked.length + 1) = (more + bound + checked.length) + 1 := by omega
      rw [split, removeLoop_same _ _ same]
      have passed := removeLoop_pass [first] checked back (more + bound) other
      have kept : others (header :: back) name = others back name := by simp [others, same]
      rw [kept, ← rest (more + bound) (Nat.le_add_left _ _)]
      exact passed
    · have otherNext : ∀ next ∈ checked ++ [header], next.1 ≠ name := by
        intro next member
        cases List.mem_append.mp member with
        | inl before => exact other next before
        | inr last => exact List.mem_singleton.mp last ▸ same
      obtain ⟨bound, rest⟩ := inductionHypothesis (checked ++ [header]) otherNext
      refine ⟨bound + 1, fun turns enough => ?_⟩
      obtain ⟨more, rfl⟩ := Nat.exists_eq_add_of_le' enough
      have kept : others (header :: back) name = header :: others back name := by simp [others, same]
      rw [← Nat.add_assoc, removeLoop_other _ _ same, kept]
      have passed := rest (more + bound) (Nat.le_add_left _ _)
      simpa using passed

/-- The first header is kept, the headers of the name behind it go. -/
theorem removeLoop_second (name : Bytes) (first : Bytes × Bytes) (back : HttpHeaders) :
    ∃ bound, ∀ turns, bound ≤ turns →
      removeLoop name turns 1 (first :: back) = .removed (first :: others back name) :=
  removeLoop_rest name first [] back nofun

theorem headerExists_others (headers : HttpHeaders) (name : Bytes) :
    headerExists (others headers name) name = false := by
  simp [headerExists, others]

/-! ## `RemoveHeader` -/

/-- The first header has the name, and so has the second, or there is no second. -/
def StartsWithName (name : Bytes) : HttpHeaders → Prop
  | [] => False
  | [first] => first.1 = name
  | first :: second :: _ => first.1 = name ∧ second.1 = name

theorem removeHeader_same {name : Bytes} {first : Bytes × Bytes} (same : first.1 = name) (back : HttpHeaders)
    (turns : Nat) : removeHeader (turns + 1) (first :: back) name = removeLoop name turns 1 back := by
  rw [removeHeader]
  exact removeLoop_same [] turns same

/-- With the only header erased, the iterator is moved on from the end of an empty list. -/
theorem removeHeader_only {name : Bytes} {first : Bytes × Bytes} (same : first.1 = name) {turns : Nat}
    (enough : 2 ≤ turns) : removeHeader turns [first] name = .outside := by
  obtain ⟨more, rfl⟩ := Nat.exists_eq_add_of_le' enough
  rw [removeHeader_same same]
  simp [removeLoop]

/-- A first header of the name is erased, and the one that comes to stand in its place is kept. -/
theorem removeHeader_first {name : Bytes} {first : Bytes × Bytes} (same : first.1 = name) (second : Bytes × Bytes)
    (back : HttpHeaders) :
    ∃ bound, ∀ turns, bound ≤ turns →
      removeHeader turns (first :: second :: back) name = .removed (second :: others back name) := by
  obtain ⟨bound, rest⟩ := removeLoop_second name second back
  refine ⟨bound + 1, fun turns enough => ?_⟩
  obtain ⟨more, rfl⟩ := Nat.exists_eq_add_of_le' enough
  rw [← rest (more + bound) (Nat.le_add_left _ _)]
  exact removeHeader_same same (second :: back) (more + bound)

theorem removeHeader_other {name : Bytes} {first : Bytes × Bytes} (other : first.1 ≠ name) (back : HttpHeaders) :
    ∃ bound, ∀ turns, bound ≤ turns →
      removeHeader turns (first :: back) name = .removed (first :: others back name) := by
  obtain ⟨bound, rest⟩ := removeLoop_second name first back
  refine ⟨bound + 1, fun turns enough => ?_⟩
  obtain ⟨more, rfl⟩ := Nat.exists_eq_add_of_le' enough
  rw [removeHeader, ← rest (more + bound) (Nat.le_add_left _ _)]
  exact removeLoop_other [] (more + bound) other

theorem removes_of_eq {headers after : HttpHeaders} {name : Bytes}
    (removed : ∃ bound, ∀ turns, bound ≤ turns → removeHeader turns headers name = .removed after)
    (same : after = others headers name) : Removes headers name := by
  obtain ⟨bound, rest⟩ := removed
  refine ⟨bound, fun turns enough => ⟨after, rest turns enough, ?_, same⟩⟩
  rw [same]
  exact headerExists_others headers name

/-- `RemoveHeader` is right unless the first two headers have the name, or the only one has it. -/
theorem removes_iff (headers : HttpHeaders) (name : Bytes) : Removes headers name ↔ ¬ StartsWithName name headers := by
  cases headers with
  | nil =>
    have nothing : ∃ bound, ∀ turns, bound ≤ turns → removeHeader turns [] name = .removed [] := by
      refine ⟨1, fun turns enough => ?_⟩
      obtain ⟨more, rfl⟩ := Nat.exists_eq_add_of_le' enough
      rfl
    exact iff_of_true (removes_of_eq nothing rfl) id
  | cons first back =>
    by_cases same : first.1 = name
    · cases back with
      | nil =>
        refine iff_of_false (fun removes => ?_) fun other => other same
        obtain ⟨bound, all⟩ := removes
        obtain ⟨after, removed, -⟩ := all (max bound 2) (Nat.le_max_left _ _)
        rw [removeHeader_only same (Nat.le_max_right _ _)] at removed
        cases removed
      | cons second back =>
        have gone := removeHeader_first same second back
        by_cases again : second.1 = name
        · refine iff_of_false (fun removes => ?_) fun other => other ⟨same, again⟩
          obtain ⟨bound, all⟩ := removes
          obtain ⟨reached, left⟩ := gone
          obtain ⟨after, removed, missing, -⟩ := all (max bound reached) (Nat.le_max_left _ _)
          rw [left _ (Nat.le_max_right _ _)] at removed
          cases removed
          simp [headerExists, again] at missing
        · refine iff_of_true (removes_of_eq gone ?_) fun both => again both.2
          simp [others, same, again]
    · have kept := removeHeader_other same back
      refine iff_of_true (removes_of_eq kept (by simp [others, same])) fun both => ?_
      cases back with
      | nil => exact same both
      | cons second back => exact same both.1

/-- The second of two headers of the name stays. -/
theorem not_removes :
    removeHeader 9 [(ascii "A", ascii "1"), (ascii "A", ascii "2")] (ascii "A") = .removed [(ascii "A", ascii "2")] ∧
      ¬ Removes [(ascii "A", ascii "1"), (ascii "A", ascii "2")] (ascii "A") := by
  refine ⟨by decide, fun removes => ?_⟩
  obtain ⟨bound, all⟩ := removes
  obtain ⟨reached, left⟩ :=
    @removeHeader_first (ascii "A") (ascii "A", ascii "1") rfl (ascii "A", ascii "2") []
  obtain ⟨after, removed, missing, -⟩ := all (max bound reached) (Nat.le_max_left _ _)
  rw [left _ (Nat.le_max_right _ _)] at removed
  cases removed
  exact absurd missing (by decide)

end HttpHeaders

end OpenInstrument.Server
