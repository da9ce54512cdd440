import OpenInstrument.Datastore.Searching
import OpenInstrument.Library.FanOut

/-! # The goroutines of a reader

`Reader` starts a goroutine for each block, and all of them send to one channel that the caller receives from.  The
blocks and the streams of a log come out of maps.

What a caller receives under any schedule is what `Datastore.reader` returns for some order of arrival, and no schedule
gets stuck before the channel is closed.
-/

namespace OpenInstrument

variable {Double : Type} {rt : Runtime Double} {s : Datastore Double} {disk : Disk} {block : DatastoreBlock Double}
  {search : Search} {fetchValues : Bool}

/-! ## The code -/

/-- What the goroutine for one block sends, with the streams of the log in the order of their map. -/
def DatastoreBlock.goroutine (rt : Runtime Double) (disk : Disk) (logOrder : Iteration) (block : DatastoreBlock Double)
    (search : Search) (fetchValues : Bool) : Except Panic (List (Stream Double)) :=
  if search.v.string > block.endKey then .ok []
  else do
    let logStreams ← (logOrder.order ((Keyed.pairs block.logStreams).map Prod.snd)).mapM
      (maybeReturnStream Value.timestamp search)
    let newStreams ← block.newStreams.mapM (maybeReturnStream Value.timestamp search)
    let indexed ← block.blockHeader.index.mapM (block.readIndex rt disk search fetchValues)
    return logStreams.flatten ++ newStreams.flatten ++ indexed.flatten

/-- The orders in which `Reader` ranges over its maps. -/
structure ReaderOrders (Double : Type) where
  blocks : Iteration
  logs : DatastoreBlock Double → Iteration

/-- What the goroutines of `Reader` send. -/
def Datastore.goroutines (rt : Runtime Double) (orders : ReaderOrders Double) (s : Datastore Double) (search : Search)
    (fetchValues : Bool) : Except Panic (List (List (Stream Double))) :=
  (orders.blocks.order ((Keyed.pairs s.blocks).map Prod.snd)).mapM fun block =>
    block.goroutine rt s.disk (orders.logs block) search fetchValues

/-- `make(chan *oproto.ValueStream, 1000)`. -/
def readerRoom : Nat := 1000

/-- `Reader`, and a caller that receives until the channel is closed or it has enough. -/
def Datastore.readerRun (rt : Runtime Double) (orders : ReaderOrders Double) (s : Datastore Double) (search : Search)
    (fetchValues : Bool) (enough : List (Stream Double) → Bool) (schedule : List FanOut.Action) :
    Except Panic (Option (FanOut.State (Stream Double))) := do
  let jobs ← s.goroutines rt orders search fetchValues
  return Runs.run (FanOut.State.step readerRoom enough) (.new jobs) schedule

/-! ## Orders of arrival -/

/-- The first entry comes first, and then the others in some order. -/
def Iteration.behindFirst (arrival : Iteration) : Iteration where
  order entries := entries.take 1 ++ arrival.order (entries.drop 1)
  perm entries := by
    have kept := (arrival.perm (entries.drop 1)).append_left (entries.take 1)
    rwa [List.take_append_drop] at kept

/-- The second entry comes first. -/
def Iteration.firstSwapped : Iteration where
  order entries := (entries.take 2).reverse ++ entries.drop 2
  perm entries := by
    have swapped := (List.reverse_perm (entries.take 2)).append_right (entries.drop 2)
    rwa [List.take_append_drop] at swapped

def Iteration.followedBy (first second : Iteration) : Iteration where
  order entries := second.order (first.order entries)
  perm entries := (second.perm _).trans (first.perm entries)

/-- A list arrives in each order there is. -/
theorem Iteration.exists_of_perm {Entry : Type} {entries arrived : List Entry} (same : entries.Perm arrived) :
    ∃ arrival : Iteration, arrival.order entries = arrived := by
  induction same with
  | nil => exact ⟨.listed, rfl⟩
  | @cons entry _ _ _ inductionHypothesis =>
    obtain ⟨arrival, rest⟩ := inductionHypothesis
    exact ⟨arrival.behindFirst, congrArg (entry :: ·) rest⟩
  | swap first second => exact ⟨.firstSwapped, rfl⟩
  | trans _ _ former later =>
    obtain ⟨first, formerly⟩ := former
    obtain ⟨second, thereafter⟩ := later
    exact ⟨first.followedBy second, (congrArg second.order formerly).trans thereafter⟩

/-- A goroutine sends the same streams, whatever the order of its log. -/
theorem DatastoreBlock.goroutine_reordered {first : Iteration} {sent : List (Stream Double)}
    (ran : block.goroutine rt disk first search fetchValues = .ok sent) (second : Iteration) :
    ∃ others, block.goroutine rt disk second search fetchValues = .ok others ∧ others.Perm sent := by
  rw [DatastoreBlock.goroutine] at ran ⊢
  split at ran
  · rename_i above
    cases ran
    exact ⟨[], if_pos above, .nil⟩
  · rename_i below
    rw [if_neg below]
    obtain ⟨logged, logs, ran⟩ := Fallible.bind_ok ran
    obtain ⟨pending, news, ran⟩ := Fallible.bind_ok ran
    obtain ⟨indexed, entries, ran⟩ := Fallible.bind_ok ran
    cases ran
    obtain ⟨reordered, logs, same⟩ := Fallible.mapM_perm ((first.perm _).trans (second.perm _).symm) logs
    simp only [logs, news, entries, Fallible.ok_bind]
    exact ⟨_, rfl, (same.flatten.append_right _).append_right _⟩

/-- The goroutines send the same streams, whatever the orders of the maps. -/
theorem Datastore.goroutines_reordered {first : ReaderOrders Double} {jobs : List (List (Stream Double))}
    (started : s.goroutines rt first search fetchValues = .ok jobs) (second : ReaderOrders Double) :
    ∃ others, s.goroutines rt second search fetchValues = .ok others ∧ others.flatten.Perm jobs.flatten := by
  obtain ⟨sent, ran, reordered⟩ := Fallible.mapM_perm
    ((first.blocks.perm _).trans (second.blocks.perm _).symm) started
  have goroutines := Fallible.forall₂_of_mapM_ok ran
  rw [Datastore.goroutines]
  generalize second.blocks.order ((Keyed.pairs s.blocks).map Prod.snd) = blocks at goroutines ⊢
  suffices each : ∃ others,
      (blocks.mapM fun block => block.goroutine rt s.disk (second.logs block) search fetchValues) = .ok others ∧
        others.flatten.Perm sent.flatten by
    obtain ⟨others, read, same⟩ := each
    exact ⟨others, read, same.trans reordered.flatten⟩
  clear ran reordered
  induction goroutines with
  | nil => exact ⟨[], rfl, .nil⟩
  | cons here _ inductionHypothesis =>
    obtain ⟨others, run, later⟩ := inductionHypothesis
    obtain ⟨other, read, now⟩ := DatastoreBlock.goroutine_reordered here (second.logs _)
    exact ⟨other :: others, by rw [List.mapM_cons, read, Fallible.ok_bind, run]; rfl, now.append later⟩

def ReaderOrders.listed : ReaderOrders Double := ⟨.listed, fun _ => .listed⟩

theorem Datastore.reader_eq (arrival : Iteration) : s.reader rt arrival search fetchValues =
    (fun jobs => arrival.order jobs.flatten) <$> s.goroutines rt .listed search fetchValues := rfl

/-- All goroutines together send what the reader delivers. -/
theorem Datastore.reader_of_goroutines {orders : ReaderOrders Double} {jobs : List (List (Stream Double))}
    (started : s.goroutines rt orders search fetchValues = .ok jobs) {received : List (Stream Double)}
    (same : received.Perm jobs.flatten) :
    ∃ arrival, s.reader rt arrival search fetchValues = .ok received := by
  obtain ⟨others, read, reordered⟩ := Datastore.goroutines_reordered started .listed
  obtain ⟨arrival, arrived⟩ := Iteration.exists_of_perm (reordered.trans same.symm)
  exact ⟨arrival, by rw [Datastore.reader_eq, read, ← arrived]; rfl⟩

/-- Where the reader delivers, all goroutines together send the same. -/
theorem Datastore.goroutines_of_reader {arrival : Iteration} {delivered : List (Stream Double)}
    (read : s.reader rt arrival search fetchValues = .ok delivered) (orders : ReaderOrders Double) :
    ∃ jobs, s.goroutines rt orders search fetchValues = .ok jobs ∧ jobs.flatten.Perm delivered := by
  rw [Datastore.reader_eq] at read
  obtain ⟨listed, started, rfl⟩ := Fallible.map_ok read
  obtain ⟨jobs, ran, same⟩ := Datastore.goroutines_reordered started orders
  exact ⟨jobs, ran, same.trans (arrival.perm _).symm⟩

/-! ## Runs -/

/-- A caller that receives until the channel is closed.  Whatever the schedule, nothing is sent on the closed channel,
so many steps later nobody can take another, and then the channel is closed and what was received is what the reader
returns for some order of arrival. -/
theorem readerRun_refines {orders : ReaderOrders Double} {schedule : List FanOut.Action}
    {state : FanOut.State (Stream Double)}
    (ran : s.readerRun rt orders search fetchValues FanOut.everything schedule = .ok (some state)) :
    state.panicked = false ∧
    (∃ bound, ∀ more last, Runs.run (FanOut.State.step readerRoom FanOut.everything) state more = some last →
      more.length ≤ bound) ∧
    (state.Stopped readerRoom FanOut.everything →
      state.Ended ∧ ∃ arrival, s.reader rt arrival search fetchValues = .ok state.received) := by
  obtain ⟨jobs, started, ran⟩ := Fallible.bind_ok ran
  have sound := FanOut.sound_run (Except.ok.inj ran)
  refine ⟨sound.calm, ⟨state.work, fun more last ran => ?_⟩, fun stopped => ?_⟩
  · have bound := sound.run_length ran
    omega
  · obtain ⟨ended, merges⟩ := (sound.outcome stopped (by decide)).2.resolve_right nofun
    exact ⟨ended, Datastore.reader_of_goroutines started merges.perm⟩

def twoBlocks : Datastore UInt64 :=
  (Datastore.empty.insertBlock { newBlock (ascii "a") (ascii "1") with newStreams := [gauge "a" [7]] }).insertBlock
    { newBlock (ascii "b") (ascii "2") with newStreams := [gauge "b" [5, 9]] }

def everyVariable : Search := { v := { name := ascii "**", labels := ∅ }, minTimestamp := none, maxTimestamp := none }

def secondFirst : List FanOut.Action :=
  [.start, .start, .send 1, .receive, .done 1, .send 0, .done 0, .close, .receive, .finish]

theorem readerRun_refines_twoBlocks : ∃ state,
    twoBlocks.readerRun protoRuntime .listed everyVariable true FanOut.everything secondFirst =
      .ok (some state) ∧ state.received.length = 2 ∧
    state.panicked = false ∧
    (∃ bound, ∀ more last, Runs.run (FanOut.State.step readerRoom FanOut.everything) state more = some last →
      more.length ≤ bound) ∧
    (state.Stopped readerRoom FanOut.everything →
      state.Ended ∧ ∃ arrival, twoBlocks.reader protoRuntime arrival everyVariable true = .ok state.received) :=
  ⟨_, rfl, rfl, readerRun_refines
    (show twoBlocks.readerRun protoRuntime .listed everyVariable true FanOut.everything secondFirst =
      .ok (some _) from rfl)⟩

end OpenInstrument
