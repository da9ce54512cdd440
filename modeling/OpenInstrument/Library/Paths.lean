import Mathlib.Data.List.DropRight
import Mathlib.Data.List.Infix

/-! # Paths

A path is a string of bytes.  Its components stand between slashes; empty ones and `.` lead nowhere, and
`..` leads to the directory above, where the root is above itself.  A place in the file system is the
list of names that leads to it from the root.
-/

namespace Posix

def slash : UInt8 := 47

def dot : UInt8 := 46

/-- `..`. -/
def up : List UInt8 := [dot, dot]

def components (path : List UInt8) : List (List UInt8) :=
  (path.splitOn slash).filter fun component => component != [] && component != [dot]

def isAbsolute (path : List UInt8) : Bool := path.head? == some slash

def enter (place : List (List UInt8)) (component : List UInt8) : List (List UInt8) :=
  if component = up then place.dropLast else place ++ [component]

def resolve (cwd : List (List UInt8)) (path : List UInt8) : List (List UInt8) :=
  (components path).foldl enter (if isAbsolute path then [] else cwd)

/-- The file lies in the directory or further below it, whatever the working directory is. -/
def StrictlyBelow (directory file : List UInt8) : Prop :=
  ∀ cwd, ∃ below ≠ [], resolve cwd file = resolve cwd directory ++ below

/-! ## Where a relative path leads -/

/-- How many directories a path climbs from where it starts, and the names that it then enters. -/
structure Course where
  climbed : Nat
  names : List (List UInt8)
  deriving DecidableEq

def Course.enter (course : Course) (component : List UInt8) : Course :=
  if component = up then
    if course.names = [] then { course with climbed := course.climbed + 1 }
    else { course with names := course.names.dropLast }
  else { course with names := course.names ++ [component] }

def course (path : List UInt8) : Course := (components path).foldl Course.enter { climbed := 0, names := [] }

theorem foldl_enter (start : List (List UInt8)) (components : List (List UInt8)) (from_ : Course) :
    components.foldl enter (start.rdrop from_.climbed ++ from_.names) =
      start.rdrop (components.foldl Course.enter from_).climbed ++
        (components.foldl Course.enter from_).names := by
  induction components generalizing from_ with
  | nil => rfl
  | cons component components inductionHypothesis =>
    rw [List.foldl_cons, List.foldl_cons, ← inductionHypothesis]
    congr 1
    by_cases climbs : component = up
    · by_cases outside : from_.names = []
      · simp [enter, Course.enter, climbs, outside, List.rdrop, List.dropLast_eq_take, List.take_take]
        omega
      · simp [enter, Course.enter, climbs, outside, List.dropLast_append_of_ne_nil]
    · simp [enter, Course.enter, climbs]

theorem resolve_eq_course (cwd : List (List UInt8)) (path : List UInt8) :
    resolve cwd path =
      (if isAbsolute path then [] else cwd).rdrop (course path).climbed ++ (course path).names := by
  have followed := foldl_enter (if isAbsolute path then [] else cwd) (components path)
    { climbed := 0, names := [] }
  rw [List.rdrop_zero, List.append_nil] at followed
  exact followed

/-! ## Paths without `../` -/

theorem infix_intercalate {α : Type} (separator : α) {piece : List α} {pieces : List (List α)}
    (inside : piece ∈ pieces.dropLast) : piece ++ [separator] <:+: [separator].intercalate pieces := by
  induction pieces with
  | nil => cases inside
  | cons first pieces inductionHypothesis =>
    cases pieces with
    | nil => cases inside
    | cons second pieces =>
      have joined : [separator].intercalate (first :: second :: pieces) =
          first ++ [separator] ++ [separator].intercalate (second :: pieces) := by
        simp [List.intercalate, List.intersperse]
      rw [joined]
      rw [List.dropLast_cons_cons] at inside
      cases inside with
      | head => exact (List.prefix_append _ _).isInfix
      | tail _ inside =>
        exact (inductionHypothesis inside).trans (List.suffix_append _ _).isInfix

/-- In a path without `../`, only the last component can be `..`. -/
theorem up_not_mem_dropLast {path : List UInt8} (refused : ¬ up ++ [slash] <:+: path) :
    up ∉ (components path).dropLast := by
  intro inside
  apply refused
  obtain ⟨front, last, pieces⟩ : ∃ front last, path.splitOn slash = front ++ [last] :=
    ⟨_, _, (List.dropLast_append_getLast (List.splitOn_ne_nil slash path)).symm⟩
  have earlier : up ∈ front := by
    rw [components, pieces, List.filter_append] at inside
    by_cases kept : (last != [] && last != [dot]) = true
    · rw [List.filter_singleton, kept, cond_true, List.dropLast_concat] at inside
      exact List.mem_of_mem_filter inside
    · -- The last piece leads nowhere, so all components stand in front of it.
      rw [List.filter_singleton, Bool.eq_false_iff.mpr kept, cond_false, List.append_nil] at inside
      exact List.mem_of_mem_filter (List.mem_of_mem_dropLast inside)
  have found : up ++ [slash] <:+: [slash].intercalate (path.splitOn slash) :=
    infix_intercalate slash (by rw [pieces, List.dropLast_concat]; exact earlier)
  rwa [List.intercalate_splitOn] at found

/-- A path that does not start with a slash or a dot is empty or starts with a name. -/
theorem components_head {path : List UInt8} (plain : ∀ char ∈ path.head?, char ≠ slash ∧ char ≠ dot) :
    path = [] ∨ ∃ name names, components path = name :: names ∧ name ≠ up := by
  cases path with
  | nil => exact .inl rfl
  | cons char rest =>
    have ⟨notSlash, notDot⟩ := plain char rfl
    obtain ⟨first, others, split⟩ := List.exists_cons_of_ne_nil (List.splitOn_ne_nil slash rest)
    refine .inr ⟨char :: first, others.filter fun component => component != [] && component != [dot], ?_, ?_⟩
    · simp [components, List.splitOn_cons_eq_if_modifyHead, notSlash, split, notDot]
    · simp [up, notDot]

/-- Entering names only adds them to a place. -/
theorem foldl_enter_names {names : List (List UInt8)} (plain : up ∉ names) (place : List (List UInt8)) :
    names.foldl enter place = place ++ names := by
  induction names generalizing place with
  | nil => rw [List.append_nil]; rfl
  | cons name names inductionHypothesis =>
    rw [List.mem_cons, not_or] at plain
    rw [List.foldl_cons, inductionHypothesis plain.2, enter, if_neg (Ne.symm plain.1), List.append_assoc]
    rfl

/-- The names that are left of the components when the last of them is taken at its word. -/
def settled (components : List (List UInt8)) : List (List UInt8) :=
  if components.getLast? = some up then components.dropLast.dropLast else components

/-- A path without `../` that starts with a name enters its components, and its last one may lead back. -/
theorem resolve_plain (cwd : List (List UInt8)) {path : List UInt8}
    (plain : ∀ char ∈ path.head?, char ≠ slash ∧ char ≠ dot) (refused : ¬ up ++ [slash] <:+: path) :
    resolve cwd path = cwd ++ settled (components path) := by
  have relative : isAbsolute path = false := by
    cases path with
    | nil => rfl
    | cons char rest => simpa [isAbsolute] using (plain char rfl).1
  rw [resolve, relative, if_neg Bool.false_ne_true, settled]
  split
  · rename_i back
    obtain ⟨front, ends⟩ := List.getLast?_eq_some_iff.mp back
    have names : up ∉ front := by simpa [ends] using up_not_mem_dropLast refused
    rw [ends, List.foldl_append, foldl_enter_names names, List.dropLast_concat]
    -- The first component is a name, so there is one to lead back from.
    cases components_head plain with
    | inl empty => simp [empty, components] at ends
    | inr first =>
      obtain ⟨name, rest, split, notUp⟩ := first
      have nonempty : front ≠ [] := by
        intro none
        rw [none, List.nil_append, split, List.cons.injEq] at ends
        exact notUp ends.1
      simp [enter, List.dropLast_append_of_ne_nil nonempty]
  · rename_i forward
    apply foldl_enter_names
    intro inside
    obtain ⟨front, last, ends⟩ : ∃ front last, components path = front ++ [last] :=
      ⟨_, _, (List.dropLast_append_getLast (List.ne_nil_of_mem inside)).symm⟩
    have names : up ∉ front := by simpa [ends] using up_not_mem_dropLast refused
    rw [ends, List.mem_append, List.mem_singleton] at inside
    cases inside with
    | inl inside => exact names inside
    | inr same => exact forward (by rw [ends, List.getLast?_concat, same])

/-- The components follow the names of the directory and go on below it.  The directory is one that the
path to it enters from the working directory, or else it is the root, the working directory or one above. -/
def Follows (directory : List UInt8) (components : List (List UInt8)) : Prop :=
  ((course directory).names = [] ∨ (isAbsolute directory = false ∧ (course directory).climbed = 0)) ∧
    (course directory).names <+: components ∧
    (course directory).names.length + (if components.getLast? = some up then 2 else 0) < components.length

theorem settled_begins (components : List (List UInt8)) : settled components <+: components := by
  unfold settled
  split
  · exact (List.dropLast_prefix _).trans (List.dropLast_prefix _)
  · exact List.prefix_rfl

theorem settled_length (components : List (List UInt8)) :
    (settled components).length = components.length - if components.getLast? = some up then 2 else 0 := by
  unfold settled
  split
  · rw [List.length_dropLast, List.length_dropLast, Nat.sub_sub]
  · rfl

/-- Where a path without `../` that starts with a name lies below a directory. -/
theorem strictlyBelow_iff (directory : List UInt8) {path : List UInt8}
    (plain : ∀ char ∈ path.head?, char ≠ slash ∧ char ≠ dot) (refused : ¬ up ++ [slash] <:+: path) :
    StrictlyBelow directory path ↔ Follows directory (components path) := by
  have length := settled_length (components path)
  constructor
  · intro below
    obtain ⟨names, nonempty, leads⟩ := below []
    have positive := List.length_pos_iff.mpr nonempty
    -- From the root as the working directory, the directory is where its names lead.
    have fromRoot : resolve [] directory = (course directory).names := by
      simp [resolve_eq_course, List.rdrop]
    rw [resolve_plain [] plain refused, fromRoot, List.nil_append] at leads
    have lengths := congrArg List.length leads
    rw [List.length_append] at lengths
    have follows : (course directory).names <+: settled (components path) := ⟨names, leads.symm⟩
    refine ⟨?_, follows.trans (settled_begins _), by omega⟩
    by_contra neither
    rw [not_or] at neither
    obtain ⟨entered, elsewhere⟩ := neither
    obtain ⟨name, others, named⟩ := List.exists_cons_of_ne_nil entered
    -- A working directory whose name the directory does not start with.
    obtain ⟨below, -, leads⟩ := below [0 :: name]
    have away : resolve [0 :: name] directory = (course directory).names := by
      rw [resolve_eq_course]
      cases absolute : isAbsolute directory with
      | true => simp [List.rdrop]
      | false =>
        have climbs : (course directory).climbed ≠ 0 := fun none => elsewhere ⟨absolute, none⟩
        have gone : 1 - (course directory).climbed = 0 := by omega
        simp [List.rdrop, gone]
    rw [resolve_plain _ plain refused, away, named, List.cons_append, List.cons_append, List.cons.injEq] at leads
    exact absurd (congrArg List.length leads.1) (by simp)
  · intro ⟨place, follows, longer⟩ cwd
    rw [resolve_plain cwd plain refused, resolve_eq_course]
    cases place with
    | inl nowhere =>
      have onTheWay : (if isAbsolute directory then [] else cwd).rdrop (course directory).climbed <+: cwd := by
        split
        · simp [List.rdrop]
        · exact List.take_prefix _ _
      obtain ⟨left, whole⟩ := onTheWay
      refine ⟨left ++ settled (components path), ?_, ?_⟩
      · apply List.ne_nil_of_length_pos
        rw [List.length_append]
        omega
      · rw [nowhere, List.append_nil, ← List.append_assoc, whole]
    | inr inside =>
      have further : (course directory).names <+: settled (components path) :=
        List.prefix_of_prefix_length_le follows (settled_begins _) (by omega)
      obtain ⟨below, whole⟩ := further
      refine ⟨below, ?_, ?_⟩
      · apply List.ne_nil_of_length_pos
        have lengths := congrArg List.length whole
        rw [List.length_append] at lengths
        omega
      · rw [inside.1, inside.2, if_neg Bool.false_ne_true, List.rdrop_zero, List.append_assoc, whole]

end Posix
