import OpenInstrument.Library.Merge
import OpenInstrument.Server.DiskDatastore

/-! # Iterating over several streams

`Datastore::iterator` goes through the values of some streams that a callback includes.  Each increment moves every
stream on to its next included value and takes the earliest of these, where the timestamp zero means that nothing has
been found yet.
-/

namespace OpenInstrument.Server

/-- A stream with the values from its position on. -/
structure Cursor where
  streamVariable : StreamVariable
  remaining : List (Value UInt64)

/-- `AddStream`. -/
def Cursor.ofStream (stream : ValueStream) : Cursor :=
  { streamVariable := stream.streamVariable, remaining := stream.value }

/-- The copy of a value that an iterator points to, with the variable and the index of its stream. -/
structure Node where
  stream : Nat
  streamVariable : StreamVariable
  value : Value UInt64

/-- `IncludeBetweenTimestamps`. -/
def includeBetweenTimestamps (start finish : UInt64) (node : Value UInt64) : Bool :=
  if start ≠ 0 ∧ node.timestamp < start then false
  else if finish ≠ 0 ∧ finish < node.timestamp then false
  else true

section Increment

variable (includeCallback : Value UInt64 → Bool)

/-- The inner loop: the position moves to the next included value. -/
def skipExcluded : List (Value UInt64) → List (Value UInt64)
  | [] => []
  | node :: rest => if includeCallback node then node :: rest else skipExcluded rest

/-- The variables of an increment, with the streams that have been looked at. -/
structure Search where
  cursors : List Cursor
  minTimestamp : UInt64
  minTimestampStream : Nat

def searchStream (search : Search) (cursor : Cursor) : Search :=
  let remaining := skipExcluded includeCallback cursor.remaining
  let cursors := search.cursors ++ [{ cursor with remaining }]
  match remaining with
  | [] => { search with cursors }
  | node :: _ =>
    if search.minTimestamp = 0 ∨ node.timestamp < search.minTimestamp then
      { cursors, minTimestamp := node.timestamp, minTimestampStream := search.cursors.length }
    else { search with cursors }

/-- `operator++`: the streams behind it, and what the iterator points to unless it is at the end. -/
def increment (cursors : List Cursor) : List Cursor × Option Node :=
  let search := cursors.foldl (searchStream includeCallback)
    { cursors := [], minTimestamp := 0, minTimestampStream := 0 }
  if search.minTimestamp = 0 then (search.cursors, none)
  else
    match search.cursors[search.minTimestampStream]? with
    | some { streamVariable, remaining := node :: rest } =>
      (search.cursors.set search.minTimestampStream { streamVariable, remaining := rest },
        some { stream := search.minTimestampStream, streamVariable, value := node })
    | _ => (search.cursors, none)

/-- What an iterator points to, one increment after another up to the end, unless there are too many. -/
def iterate : Nat → List Cursor → Option (List Node)
  | 0, _ => none
  | turns + 1, cursors =>
    match increment includeCallback cursors with
    | (_, none) => some []
    | (cursors, some node) => (iterate turns cursors).map (node :: ·)

end Increment

/-! ## One increment -/

variable {includeCallback : Value UInt64 → Bool}

def includedValues (includeCallback : Value UInt64 → Bool) (cursors : List Cursor) : List (List (Value UInt64)) :=
  cursors.map fun cursor => cursor.remaining.filter includeCallback

def Cursor.skip (includeCallback : Value UInt64 → Bool) (cursor : Cursor) : Cursor :=
  { cursor with remaining := skipExcluded includeCallback cursor.remaining }

theorem filter_skipExcluded (includeCallback : Value UInt64 → Bool) (values : List (Value UInt64)) :
    (skipExcluded includeCallback values).filter includeCallback = values.filter includeCallback := by
  induction values with
  | nil => rfl
  | cons node rest inductionHypothesis =>
    rw [skipExcluded]
    split
    · rfl
    · rename_i excluded
      rw [inductionHypothesis, List.filter_cons_of_neg excluded]

/-- The next included value is in front. -/
theorem head_skipExcluded (includeCallback : Value UInt64 → Bool) (values : List (Value UInt64)) :
    (skipExcluded includeCallback values).head? = (values.filter includeCallback).head? := by
  induction values with
  | nil => rfl
  | cons node rest inductionHypothesis =>
    rw [skipExcluded]
    split
    · rename_i included
      rw [List.filter_cons_of_pos included]
      rfl
    · rename_i excluded
      rw [inductionHypothesis, List.filter_cons_of_neg excluded]

/-- The search has found what is least among the streams that it has looked at. -/
structure Search.Finds (includeCallback : Value UInt64 → Bool) (search : Search) (seen : List Cursor)
    (found : Option (Nat × Value UInt64)) : Prop where
  cursors : search.cursors = seen.map (Cursor.skip includeCallback)
  /-- The minimum is zero as long as nothing is found. -/
  minimum : found.elim (search.minTimestamp = 0) fun best =>
    search.minTimestamp = best.2.timestamp ∧ search.minTimestampStream = best.1 ∧ best.2.timestamp ≠ 0

theorem Search.Finds.searchStream {search : Search} {seen : List Cursor} {found : Option (Nat × Value UInt64)}
    (finds : search.Finds includeCallback seen found) {cursor : Cursor}
    (nonzero : ∀ node ∈ cursor.remaining, node.timestamp ≠ 0) :
    (searchStream includeCallback search cursor).Finds includeCallback (seen ++ [cursor])
      (Merge.better Value.timestamp found seen.length (cursor.remaining.filter includeCallback)) := by
  have cursors : search.cursors ++ [cursor.skip includeCallback] =
      (seen ++ [cursor]).map (Cursor.skip includeCallback) := by
    rw [finds.cursors, List.map_append]
    rfl
  have length : search.cursors.length = seen.length := by rw [finds.cursors, List.length_map]
  rw [Merge.better, ← head_skipExcluded, Server.searchStream]
  rw [Cursor.skip] at cursors
  cases remaining : skipExcluded includeCallback cursor.remaining with
  | nil =>
    rw [remaining] at cursors
    exact ⟨cursors, finds.minimum⟩
  | cons node rest =>
    rw [remaining] at cursors
    have positive : node.timestamp ≠ 0 := by
      apply nonzero node
      have first : (cursor.remaining.filter includeCallback).head? = some node := by
        rw [← head_skipExcluded, remaining]
        rfl
      exact List.mem_of_mem_filter (List.mem_of_mem_head? first)
    cases found with
    | none =>
      -- It is the first value that is found.
      have nothing : search.minTimestamp = 0 := finds.minimum
      simp only [nothing, true_or, if_true, List.head?_cons, Option.elim_some, Option.elim_none]
      exact ⟨cursors, rfl, length, positive⟩
    | some best =>
      obtain ⟨minimum, stream, bestPositive⟩ := finds.minimum
      simp only [minimum, bestPositive, false_or, List.head?_cons, Option.elim_some]
      split
      · exact ⟨cursors, rfl, length, positive⟩
      · exact ⟨cursors, rfl, stream, bestPositive⟩

theorem Search.Finds.foldl {search : Search} {seen : List Cursor} {found : Option (Nat × Value UInt64)}
    (finds : search.Finds includeCallback seen found) {cursors : List Cursor}
    (nonzero : ∀ cursor ∈ cursors, ∀ node ∈ cursor.remaining, node.timestamp ≠ 0) :
    (cursors.foldl (Server.searchStream includeCallback) search).Finds includeCallback (seen ++ cursors)
      (Merge.leastFrom Value.timestamp found seen.length (includedValues includeCallback cursors)) := by
  induction cursors generalizing search seen found with
  | nil =>
    rw [List.append_nil]
    exact finds
  | cons cursor cursors inductionHypothesis =>
    obtain ⟨here, later⟩ := List.forall_mem_cons.mp nonzero
    have rest := inductionHypothesis (finds.searchStream here) later
    rw [List.append_assoc, List.length_append, List.length_singleton] at rest
    exact rest

/-- No value that is left has the timestamp zero. -/
def Stamped (cursors : List Cursor) : Prop := ∀ cursor ∈ cursors, ∀ node ∈ cursor.remaining, node.timestamp ≠ 0

theorem mem_skipExcluded {values : List (Value UInt64)} {node : Value UInt64}
    (member : node ∈ skipExcluded includeCallback values) : node ∈ values := by
  induction values with
  | nil => cases member
  | cons first rest inductionHypothesis =>
    rw [skipExcluded] at member
    split at member
    · exact member
    · exact .tail _ (inductionHypothesis member)

theorem includedValues_skip (cursors : List Cursor) :
    includedValues includeCallback (cursors.map (Cursor.skip includeCallback)) =
      includedValues includeCallback cursors := by
  simp only [includedValues, List.map_map]
  exact List.map_congr_left fun cursor _ => filter_skipExcluded includeCallback cursor.remaining

theorem Stamped.skip {cursors : List Cursor} (stamped : Stamped cursors) :
    Stamped (cursors.map (Cursor.skip includeCallback)) := by
  intro cursor member node inside
  obtain ⟨before, among, rfl⟩ := List.mem_map.mp member
  exact stamped before among node (mem_skipExcluded inside)

/-- Nothing is found when no included value is left. -/
theorem increment_end {cursors : List Cursor} (stamped : Stamped cursors)
    (none_ : Merge.least Value.timestamp (includedValues includeCallback cursors) = none) :
    (increment includeCallback cursors).2 = none := by
  have start : Search.Finds includeCallback { cursors := [], minTimestamp := 0, minTimestampStream := 0 } [] none :=
    ⟨rfl, rfl⟩
  have finds := (start.foldl stamped).minimum
  rw [List.length_nil, ← Merge.least, none_, Option.elim_none] at finds
  rw [increment, if_pos finds]

/-- Setting an element to its image is modifying it. -/
theorem set_eq_modify {Item : Type} {items : List Item} {index : Nat} {old new : Item} {f : Item → Item}
    (stands : items[index]? = some old) (image : f old = new) : items.set index new = items.modify index f := by
  apply List.ext_getElem?
  intro other
  by_cases same : index = other
  · subst same
    rw [List.getElem?_set_self (List.getElem?_eq_some_iff.mp stands).1, List.getElem?_modify_eq, stands]
    exact congrArg some image.symm
  · rw [List.getElem?_set_ne same, List.getElem?_modify_ne _ _ same]

/-- An increment takes the least of the included values that are next, and leaves the others. -/
theorem increment_node {cursors : List Cursor} (stamped : Stamped cursors) {best : Nat × Value UInt64}
    (some_ : Merge.least Value.timestamp (includedValues includeCallback cursors) = some best) :
    ∃ cursor after, cursors[best.1]? = some cursor ∧
      increment includeCallback cursors =
        (after, some { stream := best.1, streamVariable := cursor.streamVariable, value := best.2 }) ∧
      includedValues includeCallback after = (includedValues includeCallback cursors).modify best.1 List.tail ∧
      after.map Cursor.streamVariable = cursors.map Cursor.streamVariable ∧ Stamped after := by
  have start : Search.Finds includeCallback { cursors := [], minTimestamp := 0, minTimestampStream := 0 } [] none :=
    ⟨rfl, rfl⟩
  have finds := start.foldl stamped
  rw [List.length_nil, ← Merge.least, some_, List.nil_append] at finds
  obtain ⟨searched, minimum, stream, positive⟩ := finds
  obtain ⟨⟨later, stands⟩, -⟩ := Merge.least_eq_some some_
  rw [includedValues, List.getElem?_map, Option.map_eq_some_iff] at stands
  obtain ⟨cursor, here, included⟩ := stands
  have skipped : (cursors.map (Cursor.skip includeCallback))[best.1]? = some (cursor.skip includeCallback) := by
    rw [List.getElem?_map, here]
    rfl
  cases front : skipExcluded includeCallback cursor.remaining with
  | nil =>
    have first := head_skipExcluded includeCallback cursor.remaining
    rw [front, included] at first
    cases first
  | cons node rest =>
    have first := head_skipExcluded includeCallback cursor.remaining
    rw [front, included] at first
    cases Option.some.inj first
    have whole := filter_skipExcluded includeCallback cursor.remaining
    rw [front, included] at whole
    -- The value in front of the cursor is the one found, and it moves to the next one.
    have kept : includeCallback best.2 = true := by
      have member : best.2 ∈ cursor.remaining.filter includeCallback := included ▸ List.mem_cons_self
      exact (List.mem_filter.mp member).2
    rw [List.filter_cons_of_pos kept] at whole
    let moved : Cursor := { streamVariable := cursor.streamVariable, remaining := rest }
    refine ⟨cursor, (cursors.map (Cursor.skip includeCallback)).set best.1 moved, here, ?_, ?_, ?_, ?_⟩
    · have notZero : ¬ best.2.timestamp = 0 := positive
      rw [increment, if_neg (by rw [minimum]; exact notZero), searched, stream, skipped, Cursor.skip, front]
    · rw [includedValues, List.map_set, ← includedValues, includedValues_skip]
      refine @set_eq_modify _ _ _ (cursor.remaining.filter includeCallback) _ _ ?_ ?_
      · rw [includedValues, List.getElem?_map, here]
        rfl
      · rw [included]
        exact (List.cons.inj whole).2.symm
    · have named : (cursors.map Cursor.streamVariable)[best.1]? = some cursor.streamVariable := by
        rw [List.getElem?_map, here]
        rfl
      rw [List.map_set, List.map_map]
      exact (@set_eq_modify _ _ _ _ _ id named rfl).trans (List.modify_id _ _)
    · intro other member node' among
      cases List.mem_or_eq_of_mem_set member with
      | inl old => exact stamped.skip other old node' among
      | inr new =>
        subst new
        apply stamped cursor (List.mem_of_getElem? here)
        have behind : node' ∈ skipExcluded includeCallback cursor.remaining := front ▸ .tail _ among
        exact mem_skipExcluded behind

/-! ## Iterating to the end -/

/-- The nodes are what the merge of the included values gives, each with the variable of its stream. -/
def MergesTo (includeCallback : Value UInt64 → Bool) (turns : Nat) (cursors : List Cursor) (nodes : List Node) : Prop :=
  iterate includeCallback turns cursors = some nodes ∧
    nodes.map (fun node => (node.stream, node.value)) =
      Merge.run Value.timestamp turns (includedValues includeCallback cursors) ∧
    ∀ node ∈ nodes, (cursors.map Cursor.streamVariable)[node.stream]? = some node.streamVariable

theorem mergesTo_end {cursors : List Cursor} (stamped : Stamped cursors)
    (none_ : Merge.least Value.timestamp (includedValues includeCallback cursors) = none) (turns : Nat) :
    MergesTo includeCallback (turns + 1) cursors [] := by
  have ended := increment_end stamped none_
  refine ⟨?_, by rw [Merge.run, none_, List.map_nil], fun _ member => by cases member⟩
  rw [iterate]
  cases incremented : increment includeCallback cursors with
  | mk after node =>
    rw [incremented] at ended
    cases ended
    rfl

/-- The run: there are turns enough for each included value and the end. -/
theorem exists_mergesTo {turns : Nat} {cursors : List Cursor} (stamped : Stamped cursors)
    (enough : Merge.size (includedValues includeCallback cursors) ≤ turns) :
    ∃ nodes, MergesTo includeCallback (turns + 1) cursors nodes := by
  induction turns generalizing cursors with
  | zero =>
    cases some_ : Merge.least Value.timestamp (includedValues includeCallback cursors) with
    | none => exact ⟨[], mergesTo_end stamped some_ 0⟩
    | some best =>
      obtain ⟨⟨later, stands⟩, -⟩ := Merge.least_eq_some some_
      have smaller := Merge.size_modify stands
      omega
  | succ turns inductionHypothesis =>
    cases some_ : Merge.least Value.timestamp (includedValues includeCallback cursors) with
    | none => exact ⟨[], mergesTo_end stamped some_ (turns + 1)⟩
    | some best =>
      obtain ⟨⟨later, stands⟩, -⟩ := Merge.least_eq_some some_
      have smaller := Merge.size_modify stands
      obtain ⟨cursor, after, here, incremented, included, named_, stampedAfter⟩ := increment_node stamped some_
      obtain ⟨nodes, iterated, merged, named⟩ := inductionHypothesis stampedAfter (by rw [included]; omega)
      refine ⟨{ stream := best.1, streamVariable := cursor.streamVariable, value := best.2 } :: nodes, ?_, ?_, ?_⟩
      · simp only [iterate, incremented] at iterated ⊢
        rw [iterated, Option.map_some]
      · rw [List.map_cons, merged, included]
        exact (by rw [Merge.run, some_] : Merge.run Value.timestamp (turns + 1 + 1)
          (includedValues includeCallback cursors) = _).symm
      · rw [named_] at named
        refine List.forall_mem_cons.mpr ⟨?_, named⟩
        rw [List.getElem?_map, here]
        rfl

/-- The nodes of each stream are its included values in their order, under its variable, and all of them are in the
order of their timestamps if every stream is. -/
structure FilteredMerge (includeCallback : Value UInt64 → Bool) (streams : List ValueStream) (nodes : List Node) :
    Prop where
  given : ∀ index stream, streams[index]? = some stream →
    (nodes.filter fun node => node.stream = index).map Node.value = stream.value.filter includeCallback
  named : ∀ node ∈ nodes, ∃ stream, streams[node.stream]? = some stream ∧ node.streamVariable = stream.streamVariable
  sorted : (∀ stream ∈ streams, stream.value.Pairwise fun first second => first.timestamp ≤ second.timestamp) →
    nodes.Pairwise fun first second => first.value.timestamp ≤ second.value.timestamp

def countIncluded (includeCallback : Value UInt64 → Bool) (streams : List ValueStream) : Nat :=
  (streams.map fun stream => (stream.value.filter includeCallback).length).sum

theorem filter_givenBy (nodes : List Node) (index : Nat) :
    (nodes.filter fun node => node.stream = index).map Node.value =
      Merge.givenBy index (nodes.map fun node => (node.stream, node.value)) := by
  induction nodes with
  | nil => rfl
  | cons node nodes inductionHypothesis =>
    rw [Merge.givenBy, List.map_cons, List.filterMap_cons]
    by_cases here : node.stream = index
    · rw [List.filter_cons_of_pos (by simpa using here), if_pos here, List.map_cons, inductionHypothesis]
      rfl
    · rw [List.filter_cons_of_neg (by simpa using here), if_neg here, inductionHypothesis]
      rfl

/-- From the first increment to the end an iterator gives the included values of its streams, merged. -/
theorem iterate_filteredMerge (start finish : UInt64) {streams : List ValueStream}
    (stamped : ∀ stream ∈ streams, ∀ value ∈ stream.value, value.timestamp ≠ 0) :
    ∃ nodes, iterate (includeBetweenTimestamps start finish)
        (countIncluded (includeBetweenTimestamps start finish) streams + 1) (streams.map .ofStream) = some nodes ∧
      FilteredMerge (includeBetweenTimestamps start finish) streams nodes := by
  have stampedCursors : Stamped (streams.map .ofStream) := by
    intro cursor member
    obtain ⟨stream, among, rfl⟩ := List.mem_map.mp member
    exact stamped stream among
  have included : includedValues (includeBetweenTimestamps start finish) (streams.map .ofStream) =
      streams.map fun stream => stream.value.filter (includeBetweenTimestamps start finish) := by
    rw [includedValues, List.map_map]
    rfl
  have size : Merge.size (includedValues (includeBetweenTimestamps start finish) (streams.map .ofStream)) =
      countIncluded (includeBetweenTimestamps start finish) streams := by
    rw [included, Merge.size, List.map_map]
    rfl
  obtain ⟨nodes, iterated, merged, named⟩ := exists_mergesTo stampedCursors (le_of_eq size)
  rw [included] at merged
  refine ⟨nodes, iterated, ?_, ?_, ?_⟩
  · intro index stream stands
    rw [filter_givenBy, merged]
    apply Merge.givenBy_run
    · rw [← included, size]
      exact Nat.le_succ _
    · rw [List.getElem?_map, stands]
      rfl
  · intro node member
    have here := named node member
    rw [List.map_map, List.getElem?_map, Option.map_eq_some_iff] at here
    obtain ⟨stream, stands, same⟩ := here
    exact ⟨stream, stands, same.symm⟩
  · intro sorted
    have filtered : ∀ list ∈ streams.map (fun stream =>
        stream.value.filter (includeBetweenTimestamps start finish)),
        list.Pairwise fun first second => first.timestamp ≤ second.timestamp := by
      intro list member
      obtain ⟨stream, among, rfl⟩ := List.mem_map.mp member
      exact (sorted stream among).filter _
    -- Sorted streams are merged in order, whatever the filter leaves of them.
    have order := @Merge.run_sorted _ _ _ Value.timestamp
      (countIncluded (includeBetweenTimestamps start finish) streams + 1) _ filtered
    rw [← merged, List.pairwise_map] at order
    exact order

/-- Two streams of one variable, and a value outside the bounds. -/
theorem iterate_filteredMerge_two :
    ∃ nodes, iterate (includeBetweenTimestamps 1 3)
        (countIncluded (includeBetweenTimestamps 1 3) [⟨⟨ascii "a", [], none⟩, [⟨1, some 0, none, none⟩]⟩,
          ⟨⟨ascii "a", [], none⟩, [⟨2, some 0, none, none⟩, ⟨4, some 0, none, none⟩]⟩] + 1)
        ([⟨⟨ascii "a", [], none⟩, [⟨1, some 0, none, none⟩]⟩,
          ⟨⟨ascii "a", [], none⟩, [⟨2, some 0, none, none⟩, ⟨4, some 0, none, none⟩]⟩].map .ofStream) = some nodes ∧
      FilteredMerge (includeBetweenTimestamps 1 3) [⟨⟨ascii "a", [], none⟩, [⟨1, some 0, none, none⟩]⟩,
        ⟨⟨ascii "a", [], none⟩, [⟨2, some 0, none, none⟩, ⟨4, some 0, none, none⟩]⟩] nodes :=
  iterate_filteredMerge 1 3 (by decide)

end OpenInstrument.Server
