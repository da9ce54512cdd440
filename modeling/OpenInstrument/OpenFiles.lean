import OpenInstrument.Library.Runs
import OpenInstrument.ProtoWire
import OpenInstrument.StoreManager

/-! # Permits for open files

An indexed file takes a permit of a semaphore before it is opened, and gives it back when it is closed.  `Open`
returns an error in two places behind that, and keeps the permit in both.

Each call has the disk that it finds, so that any file may be missing or broken when it is opened.  A call that waits
for a permit, and one that panics, has no result.
-/

namespace OpenInstrument

variable {Double : Type}

/-- The capacity of `max_files_semaphore`. -/
def maxFiles : Nat := 500

/-- The indexed files, and the permits that are held in `max_files_semaphore`. -/
structure OpenFiles where
  files : List IndexedStoreFile
  permits : Nat

inductive StoreFileCall where
  | open_ (file : Nat) (disk : Disk)
  | close (file : Nat)

namespace OpenFiles

def new (filenames : List GoString) : OpenFiles := { files := filenames.map newIndexedStoreFile, permits := 0 }

/-- `Lock` of the semaphore. -/
def lock (state : OpenFiles) : Option OpenFiles :=
  if maxFiles ≤ state.permits then none else some { state with permits := state.permits + 1 }

/-- `Unlock` of the semaphore. -/
def unlock (state : OpenFiles) : Option OpenFiles :=
  if state.permits = 0 then none else some { state with permits := state.permits - 1 }

/-- `Open` of the file at a place. -/
def openAt (rt : Runtime Double) (state : OpenFiles) (place : Nat) (disk : Disk) : Option OpenFiles :=
  state.files[place]?.bind fun file =>
    if file.file.isSome then some state
    else
      state.lock.bind fun locked =>
        match file.openFile rt disk with
        | .error _ => none
        -- Both errors return here, and neither gives the permit back.
        | .ok none => some locked
        | .ok (some opened) => some { locked with files := locked.files.set place opened }

/-- `Close` of the file at a place. -/
def closeAt (state : OpenFiles) (place : Nat) : Option OpenFiles :=
  state.files[place]?.bind fun file =>
    -- A file that failed to open ends here, too.
    if file.file.isNone then some state
    else unlock { state with files := state.files.set place { file with file := none } }

def call (rt : Runtime Double) (state : OpenFiles) : StoreFileCall → Option OpenFiles
  | .open_ place disk => state.openAt rt place disk
  | .close place => state.closeAt place

def run (rt : Runtime Double) (state : OpenFiles) (calls : List StoreFileCall) : Option OpenFiles :=
  calls.foldlM (call rt) state

/-- The files whose `file` is not nil. -/
def isOpen (state : OpenFiles) : Nat := state.files.countP fun file => file.file.isSome

/-- There is a permit for each open file and no other. -/
def Conserved (state : OpenFiles) : Prop := state.permits = state.isOpen

end OpenFiles

/-- `Open` of a closed file returns an error: the file cannot be opened, or its header cannot be read when it has not
been read before. -/
def IndexedStoreFile.Refused (rt : Runtime Double) (disk : Disk) (file : IndexedStoreFile) : Prop :=
  file.file = none ∧ ∀ content, disk.readProtoFile file.filename = .opened content →
    file.headerRead = false ∧ ∀ header position, protoRead rt.header content 0 ≠ .message header position

/-- The call is an `Open` that returns an error. -/
def StoreFileCall.Fails (rt : Runtime Double) (state : OpenFiles) : StoreFileCall → Prop
  | open_ place disk => ∃ file, state.files[place]? = some file ∧ file.Refused rt disk
  | close _ => False

/-- No call of a run is an `Open` that returns an error. -/
def NoneFails (rt : Runtime Double) (state : OpenFiles) : List StoreFileCall → Prop
  | [] => True
  | call :: calls => ¬ call.Fails rt state ∧ ∀ next, state.call rt call = some next → NoneFails rt next calls

/-! ## One call -/

theorem IndexedStoreFile.openFile_eq_none {rt : Runtime Double} {disk : Disk} {file : IndexedStoreFile}
    (closed : file.file = none) : file.openFile rt disk = .ok none ↔ file.Refused rt disk := by
  rw [openFile, closed, Refused]
  cases read : disk.readProtoFile file.filename with
  | missing => simp [closed]
  | failed => simp [closed]
  | opened content =>
    cases done : file.headerRead with
    | true => simp [closed]
    | false =>
      cases message : protoRead rt.header content 0 with
      | endOfFile => simp [closed, message]
      | failed => simp [closed, message]
      | message header position =>
        cases built : file.readHeader content header <;> simp [closed, message, built]

theorem IndexedStoreFile.openFile_isSome {rt : Runtime Double} {disk : Disk} {file opened : IndexedStoreFile}
    (result : file.openFile rt disk = .ok (some opened)) : opened.file.isSome := by
  rw [openFile] at result
  split at result
  · rename_i content already
    cases result
    rw [already]
    rfl
  · split at result
    · rename_i content read
      split at result
      · cases result
        rfl
      · split at result
        · rename_i header position message
          cases built : file.readHeader content header with
          | error panic =>
            rw [built] at result
            cases result
          | ok made =>
            rw [built] at result
            cases result
            obtain ⟨names, -, same⟩ := Fallible.bind_ok built
            cases same
            rfl
        · cases result
    · cases result

namespace OpenFiles

theorem isOpen_set {files : List IndexedStoreFile} {place : Nat} {old : IndexedStoreFile}
    (here : files[place]? = some old) (file : IndexedStoreFile) :
    (files.set place file).countP (fun file => file.file.isSome) + (if old.file.isSome then 1 else 0) =
      files.countP (fun file => file.file.isSome) + if file.file.isSome then 1 else 0 := by
  obtain ⟨inside, same⟩ := List.getElem?_eq_some_iff.mp here
  have counted := @List.boole_getElem_le_countP _ (fun file : IndexedStoreFile => file.file.isSome) files place inside
  rw [List.countP_set inside]
  rw [same] at counted ⊢
  omega

theorem permits_openAt {rt : Runtime Double} {state next : OpenFiles} {place : Nat} {disk : Disk}
    (opened : state.openAt rt place disk = some next) :
    next.permits + state.isOpen = state.permits + next.isOpen ∧ ¬ (StoreFileCall.open_ place disk).Fails rt state ∨
      next.permits + state.isOpen = state.permits + next.isOpen + 1 ∧
        (StoreFileCall.open_ place disk).Fails rt state := by
  obtain ⟨file, here, opened⟩ := Option.bind_eq_some_iff.mp opened
  have fails_iff : (StoreFileCall.open_ place disk).Fails rt state ↔ file.Refused rt disk := by
    simp only [StoreFileCall.Fails, here, Option.some.injEq, exists_eq_left']
  rw [fails_iff]
  split at opened
  · rename_i already
    cases opened
    refine .inl ⟨rfl, fun refused => ?_⟩
    rw [refused.1] at already
    cases already
  · rename_i shut
    have closed : file.file = none := by simpa using shut
    obtain ⟨locked, taken, opened⟩ := Option.bind_eq_some_iff.mp opened
    rw [lock] at taken
    split at taken
    · cases taken
    · cases taken
      rw [← file.openFile_eq_none closed]
      -- The permit is taken: the file is opened with it, or there is one permit too many.
      split at opened
      · cases opened
      · rename_i failed
        cases opened
        exact .inr ⟨by dsimp only [isOpen]; omega, failed⟩
      · rename_i result succeeded
        cases opened
        have counted := isOpen_set here result
        rw [file.openFile_isSome succeeded, closed] at counted
        simp only [Option.isSome_none, Bool.false_eq_true, if_false, if_true] at counted
        refine .inl ⟨by dsimp only [isOpen]; omega, fun failed => ?_⟩
        rw [failed] at succeeded
        cases succeeded

theorem permits_closeAt {state next : OpenFiles} {place : Nat} (closed : state.closeAt place = some next) :
    next.permits + state.isOpen = state.permits + next.isOpen := by
  obtain ⟨file, here, closed⟩ := Option.bind_eq_some_iff.mp closed
  split at closed
  · cases closed
    rfl
  · rename_i some_
    rw [unlock] at closed
    split at closed
    · cases closed
    · rename_i held
      cases closed
      have counted := isOpen_set here { file with file := none }
      have opened : file.file.isSome := Option.isSome_iff_ne_none.mpr (by simpa using some_)
      rw [opened] at counted
      simp only [Option.isSome_none, Bool.false_eq_true, if_false, if_true] at counted
      dsimp only [isOpen] at held ⊢
      omega

/-- A call takes and gives back permits as files are opened and closed, and an `Open` that fails takes one more. -/
theorem permits_call {rt : Runtime Double} {state next : OpenFiles} {call : StoreFileCall}
    (called : state.call rt call = some next) :
    next.permits + state.isOpen = state.permits + next.isOpen ∧ ¬ call.Fails rt state ∨
      next.permits + state.isOpen = state.permits + next.isOpen + 1 ∧ call.Fails rt state := by
  cases call with
  | open_ place disk => exact permits_openAt called
  | close place => exact .inl ⟨permits_closeAt called, id⟩

theorem run_cons (rt : Runtime Double) (state : OpenFiles) (call : StoreFileCall) (calls : List StoreFileCall) :
    state.run rt (call :: calls) = (state.call rt call).bind fun next => next.run rt calls :=
  List.foldlM_cons

theorem run_eq (rt : Runtime Double) (state : OpenFiles) (calls : List StoreFileCall) :
    state.run rt calls = Runs.run (call rt) state calls := by
  induction calls generalizing state with
  | nil => rfl
  | cons call calls inductionHypothesis => simp only [run_cons, Runs.run, inductionHypothesis]

theorem noneFails_iff {rt : Runtime Double} {state : OpenFiles} {calls : List StoreFileCall} :
    NoneFails rt state calls ↔ Runs.Avoids (call rt) (fun state call => call.Fails rt state) state calls := by
  induction calls generalizing state with
  | nil => exact Iff.rfl
  | cons call calls inductionHypothesis => simp only [NoneFails, Runs.Avoids, inductionHypothesis]

/-- The permits of a run.  A permit that a failed call keeps is never given back. -/
theorem conserved_run {rt : Runtime Double} {calls : List StoreFileCall} {state after : OpenFiles}
    (conserved : state.Conserved) (ran : state.run rt calls = some after) :
    after.Conserved ↔ NoneFails rt state calls := by
  rw [run_eq] at ran
  have outcome := @Runs.run_cases _ _ (call rt) (fun state call => call.Fails rt state) Conserved
    (fun state => state.isOpen < state.permits) ?_ ?_ ?_ _ _ _ conserved ran
  · rw [noneFails_iff]
    obtain ⟨same, noneFails⟩ | ⟨more, fails⟩ := outcome
    · exact iff_of_true same noneFails
    · exact iff_of_false (fun same => Nat.ne_of_gt more same) fails
  · intro state call next conserved succeeds called
    cases permits_call called with
    | inl same =>
      rw [Conserved] at conserved ⊢
      omega
    | inr more => exact absurd more.2 succeeds
  · intro state call next conserved fails called
    cases permits_call called with
    | inl same => exact absurd fails same.2
    | inr more =>
      rw [Conserved] at conserved
      omega
  · intro state call next kept called
    cases permits_call called with
    | inl same => omega
    | inr more => omega

/-- From closed files on, there is a permit for each open file and no other, as long as no `Open` fails. -/
theorem conserved_iff {rt : Runtime Double} {filenames : List GoString} {calls : List StoreFileCall}
    {after : OpenFiles} (ran : (new filenames).run rt calls = some after) :
    after.Conserved ↔ NoneFails rt (new filenames) calls := by
  refine conserved_run ?_ ran
  have shut : (new filenames).isOpen = 0 := by
    refine List.countP_eq_zero.mpr fun file member => ?_
    obtain ⟨filename, -, same⟩ := List.mem_map.mp member
    rw [← same]
    exact Bool.false_ne_true
  exact shut.symm

/-- A disk with one file, which has a header and nothing else. -/
def headerOnly : Disk :=
  let header := ⟨none, some 3, none, [], none, none⟩
  Disk.empty.store (ascii "a") (frame ((protoRuntime.header.marshal header).getD []))

theorem conserved_iff_closed :
    ∃ after, (new [ascii "a"]).run protoRuntime [.open_ 0 headerOnly, .close 0] = some after ∧
      (after.Conserved ↔ NoneFails protoRuntime (new [ascii "a"]) [.open_ 0 headerOnly, .close 0]) :=
  ⟨_, rfl, @conserved_iff _ protoRuntime [ascii "a"] [.open_ 0 headerOnly, .close 0] _ rfl⟩

/-- A file that is missing costs a permit. -/
theorem not_conserved :
    ∃ after, (new [ascii "a"]).run protoRuntime [.open_ 0 .empty] = some after ∧ after.permits = 1 ∧
      after.isOpen = 0 ∧ ¬ after.Conserved := by
  refine ⟨_, rfl, rfl, rfl, fun same => ?_⟩
  cases same

/-! ## Failing again and again -/

theorem openAt_refused {rt : Runtime Double} {state : OpenFiles} {place : Nat} {disk : Disk} {file : IndexedStoreFile}
    (here : state.files[place]? = some file) (refused : file.Refused rt disk) :
    state.openAt rt place disk = state.lock := by
  have closed : ¬ file.file.isSome := by simp [refused.1]
  rw [openAt, here, Option.bind_some, if_neg closed]
  cases locked : state.lock with
  | none => rfl
  | some next => simp only [Option.bind_some, (file.openFile_eq_none refused.1).mpr refused]

/-- A file that cannot be opened uses up the permits: when as many are missing as there are, `Open` waits for good. -/
theorem run_refused {rt : Runtime Double} {state : OpenFiles} {place : Nat} {disk : Disk} {file : IndexedStoreFile}
    (here : state.files[place]? = some file) (refused : file.Refused rt disk) (held : state.permits ≤ maxFiles)
    (times : Nat) :
    state.run rt (List.replicate times (.open_ place disk)) =
      if state.permits + times ≤ maxFiles then some { state with permits := state.permits + times } else none := by
  induction times generalizing state with
  | zero =>
    rw [if_pos (by omega)]
    rfl
  | succ times inductionHypothesis =>
    rw [List.replicate_succ, run_cons, call, openAt_refused here refused, lock]
    split
    · rw [if_neg (by omega)]
      rfl
    · have next := @inductionHypothesis { state with permits := state.permits + 1 } here (by dsimp only; omega)
      rw [Option.bind_some, next]
      simp only [Nat.add_assoc, Nat.add_comm 1 times]

end OpenFiles

end OpenInstrument
