import OpenInstrument.Server.HashRing

/-! # Backup nodes

The backup of a key is the owner of the point behind the one that answers for the key.  A node stands at several
points, so that the two points may have the same owner.
-/

namespace OpenInstrument.Server

variable {Node Data : Type}

/-- `GetBackupNode`; it throws when the ring is empty. -/
def HashRing.getBackupNode (hash32 : Data → UInt32) (hashRing : HashRing Node) (data : Data) : Option Node :=
  let points := hashRing.ring.entries
  let lowerBound := points.findIdx fun entry => decide (hash32 data ≤ entry.1)
  let point := if lowerBound = points.length then 0 else lowerBound
  let backup := if point + 1 = points.length then 0 else point + 1
  points[backup]?.map Prod.snd

def HashRing.BackedUp (hash32 : Data → UInt32) (hashRing : HashRing Node) (data : Data) : Prop :=
  ∃ node backup, hashRing.getNode hash32 data = some node ∧ hashRing.getBackupNode hash32 data = some backup ∧
    backup ≠ node

theorem HashRing.getBackupNode_eq (hash32 : Data → UInt32) {hashRing : HashRing Node}
    (nonempty : hashRing.ring.entries ≠ []) (data : Data) :
    hashRing.getBackupNode hash32 data =
      (hashRing.ring.entries[(hashRing.ring.place (hash32 data) + 1) % hashRing.ring.entries.length]?).map
        Prod.snd := by
  have inside : hashRing.ring.place (hash32 data) < hashRing.ring.entries.length := by
    rw [OrderedMap.place]
    split
    · exact List.length_pos_iff.mpr nonempty
    · rename_i before
      exact Nat.lt_of_le_of_ne List.findIdx_le_length before
  -- Going round to the first point behind the last one is going on modulo the number of points.
  have around : (if hashRing.ring.place (hash32 data) + 1 = hashRing.ring.entries.length then 0
      else hashRing.ring.place (hash32 data) + 1) =
        (hashRing.ring.place (hash32 data) + 1) % hashRing.ring.entries.length := by
    split
    · rename_i last
      rw [last, Nat.mod_self]
    · rw [Nat.mod_eq_of_lt (by omega)]
  rw [← around]
  rfl

/-- The backup is the owner of the point behind the one that answers for the key. -/
theorem HashRing.getBackupNode_eq_some {hash32 : Data → UInt32} {hashRing : HashRing Node} {data : Data}
    {point other : UInt32 × Node} (answers : hashRing.ring.Answers point (hash32 data))
    (follows : hashRing.ring.Follows point other) : hashRing.getBackupNode hash32 data = some other.2 := by
  have found := OrderedMap.next_eq_some_iff.mpr answers
  rw [getBackupNode_eq hash32 (List.ne_nil_of_mem answers.1), (OrderedMap.follows_of_next found other).mp follows]
  rfl

theorem HashRing.getNode_eq_some {hash32 : Data → UInt32} {hashRing : HashRing Node} {data : Data}
    {point : UInt32 × Node} (answers : hashRing.ring.Answers point (hash32 data)) :
    hashRing.getNode hash32 data = some point.2 := by
  rw [getNode_eq, OrderedMap.next_eq_some_iff.mpr answers]
  rfl

theorem HashRing.exists_answers {hashRing : HashRing Node} (nonempty : hashRing.ring.entries ≠ []) (hash : UInt32) :
    ∃ point other, hashRing.ring.Answers point hash ∧ hashRing.ring.Follows point other := by
  cases found : hashRing.ring.next hash with
  | none => exact absurd (OrderedMap.next_eq_none.mp found) nonempty
  | some point =>
    obtain ⟨other, follows⟩ := OrderedMap.exists_follows (OrderedMap.mem_of_next found)
    exact ⟨point, other, OrderedMap.next_eq_some_iff.mp found, follows⟩

/-- A key is backed up by another node when the point that answers for it and the point behind that one belong to
two nodes. -/
theorem HashRing.backedUp_iff (hash32 : Data → UInt32) {hashRing : HashRing Node}
    (nonempty : hashRing.ring.entries ≠ []) (data : Data) :
    hashRing.BackedUp hash32 data ↔
      ∀ point other, hashRing.ring.Answers point (hash32 data) → hashRing.ring.Follows point other →
        other.2 ≠ point.2 := by
  constructor
  · intro backedUp point other answers follows
    obtain ⟨node, backup, here, behind, different⟩ := backedUp
    rw [getNode_eq_some answers] at here
    rw [getBackupNode_eq_some answers follows] at behind
    cases here
    cases behind
    exact different
  · intro apart
    obtain ⟨point, other, answers, follows⟩ := exists_answers nonempty (hash32 data)
    exact ⟨point.2, other.2, getNode_eq_some answers, getBackupNode_eq_some answers follows,
      apart point other answers follows⟩

theorem HashRing.backedUp_iff_second :
    (HashRing.mk 1 (OrderedMap.empty.set 5 true |>.set 9 false)).BackedUp (fun data : UInt32 => data) 6 ↔
      ∀ point other, (HashRing.mk 1 (OrderedMap.empty.set 5 true |>.set 9 false)).ring.Answers point 6 →
        (HashRing.mk 1 (OrderedMap.empty.set 5 true |>.set 9 false)).ring.Follows point other →
          other.2 ≠ point.2 :=
  HashRing.backedUp_iff (fun data => data) (by decide) 6

/-- The second point of `a` is also the first one of `b`, whose points then stand side by side. -/
theorem HashRing.not_backedUp :
    ∃ before after : HashRing Bytes,
      (HashRing.new 2).addNode (fun text => (text.foldl (· + ·) 0).toUInt32) id (ascii "a") = some before ∧
      before.addNode (fun text => (text.foldl (· + ·) 0).toUInt32) id (ascii "b") = some after ∧
      (∃ first ∈ after.ring.entries, ∃ second ∈ after.ring.entries, first.2 ≠ second.2) ∧
      ¬ after.BackedUp (fun text => (text.foldl (· + ·) 0).toUInt32) (ascii "a1") := by
  refine ⟨_, _, rfl, rfl, by decide, ?_⟩
  intro backedUp
  obtain ⟨node, backup, here, behind, different⟩ := backedUp
  have owner : some node = some (ascii "b") := here.symm.trans (by decide)
  have same : some backup = some (ascii "b") := behind.symm.trans (by decide)
  exact different (Option.some.inj (same.trans owner.symm))

/-! ## Rings that back up every key -/

/-- The keys of a ring are all backed up when no node owns two neighbouring points. -/
theorem HashRing.backedUp_all_iff [Nonempty Data] {hashRing : HashRing Node}
    (nonempty : hashRing.ring.entries ≠ []) :
    (∀ (hash32 : Data → UInt32) (data : Data), hashRing.BackedUp hash32 data) ↔
      ∀ point other, hashRing.ring.Follows point other → other.2 ≠ point.2 := by
  constructor
  · intro all point other follows
    -- A hash that is the point itself is answered by the point.
    obtain ⟨place, here, -⟩ := id follows
    obtain ⟨data⟩ := ‹Nonempty Data›
    have answers := OrderedMap.answers_self (List.mem_of_getElem? here)
    exact (backedUp_iff (fun _ => point.1) nonempty data).mp (all _ data) point other answers follows
  · intro apart hash32 data
    exact (backedUp_iff hash32 nonempty data).mpr fun point other _ follows => apart point other follows

/-- With one replica of each node, and two nodes, there is always a backup. -/
theorem HashRing.backedUp_of_nodup (hash32 : Data → UInt32) {hashRing : HashRing Node}
    (once : (hashRing.ring.entries.map Prod.snd).Nodup) (two : 2 ≤ hashRing.ring.entries.length) (data : Data) :
    hashRing.BackedUp hash32 data := by
  have nonempty : hashRing.ring.entries ≠ [] := List.ne_nil_of_length_pos (by omega)
  refine (backedUp_iff hash32 nonempty data).mpr fun point other _ follows same => ?_
  obtain ⟨place, here, behind⟩ := follows
  obtain ⟨inside, -⟩ := List.getElem?_eq_some_iff.mp here
  have owner : (hashRing.ring.entries.map Prod.snd)[place]? = some point.2 := by
    rw [List.getElem?_map, here, Option.map_some]
  have backup : (hashRing.ring.entries.map Prod.snd)[(place + 1) % hashRing.ring.entries.length]? = some point.2 := by
    rw [List.getElem?_map, behind, Option.map_some, same]
  have length : place < (hashRing.ring.entries.map Prod.snd).length := by rwa [List.length_map]
  -- The same owner twice is the same place, and a place is not behind itself in a ring of two points or more.
  have around : place = (place + 1) % hashRing.ring.entries.length :=
    (List.getElem?_inj length once).mp (owner.trans backup.symm)
  by_cases last : place + 1 = hashRing.ring.entries.length
  · rw [last, Nat.mod_self] at around
    omega
  · rw [Nat.mod_eq_of_lt (by omega)] at around
    omega

end OpenInstrument.Server
