import OpenInstrument.Datastore.Invariant

/-! # Sound stores

A store is sound when its blocks are, when they have different identifiers, and when every block can be
found through `blockKeys`.  The lemmas here say how soundness and the values held survive the three
things operations do: replace a block, write files for an identifier no block has, and insert a block.
-/

namespace OpenInstrument

variable {Double : Type}

/-! ## What a store holds -/

/-- The values of a block: those of its file, of its log streams and of its pending streams. -/
def DatastoreBlock.held (rt : Runtime Double) (disk : Disk) (block : DatastoreBlock Double) :
    Multiset (GoString × Value Double) :=
  match block.fileStreams rt disk with
  | .ok file => heldBy file + heldIn block.logStreams + heldBy block.newStreams
  | .error _ => heldIn block.logStreams + heldBy block.newStreams

/-- The values of all blocks of a store, each with the printed variable it belongs to. -/
def Datastore.held (rt : Runtime Double) (s : Datastore Double) : Multiset (GoString × Value Double) :=
  Keyed.total (fun _ block => block.held rt s.disk) s.blocks

theorem BlockSound.held {rt : Runtime Double} {disk : Disk} {block : DatastoreBlock Double}
    {file logged : List (Stream Double)} (sound : BlockSound rt disk.view block file logged)
    (reliable : disk.Reliable) :
    block.held rt disk = heldBy file + heldBy logged + heldBy block.newStreams := by
  rw [DatastoreBlock.held, sound.onDisk.fileStreams reliable, ← sound.heldIn_logStreams]

theorem DatastoreBlock.held_congr {rt : Runtime Double} {before after : Disk}
    {block : DatastoreBlock Double} (beforeReliable : before.Reliable) (afterReliable : after.Reliable)
    (unchanged : after.view block.filename = before.view block.filename) :
    block.held rt after = block.held rt before := by
  simp only [DatastoreBlock.held, DatastoreBlock.fileStreams, beforeReliable.readProtoFile,
    afterReliable.readProtoFile, unchanged]

/-- Writing the files of one block changes what no other block holds. -/
theorem OnlyTouches.held {rt : Runtime Double} {before after : Disk} {block other : DatastoreBlock Double}
    (touches : OnlyTouches (other.ownFiles rt) before.view after.view) (beforeReliable : before.Reliable)
    (afterReliable : after.Reliable) (valid : ValidId block.id) (otherValid : ValidId other.id)
    (different : block.id ≠ other.id) : block.held rt after = block.held rt before :=
  DatastoreBlock.held_congr beforeReliable afterReliable
    (touches.foreign valid otherValid different (by simp [DatastoreBlock.ownFiles]))

/-! ## Soundness -/

structure Datastore.Sound (rt : Runtime Double) (used : List GoString) (s : Datastore Double) : Prop where
  reliable : s.disk.Reliable
  complete : s.disk.incomplete = false
  valid : ∀ id ∈ used, ValidId id
  endKey : ∀ key block, s.blocks.lookup key = some block → block.endKey = key
  drawn : ∀ key block, s.blocks.lookup key = some block → block.id ∈ used
  block : ∀ key block, s.blocks.lookup key = some block →
    ∃ file logged, BlockSound rt s.disk.view block file logged
  distinct : ∀ first block second other, s.blocks.lookup first = some block →
    s.blocks.lookup second = some other → block.id = other.id → first = second
  files : ∀ name, s.disk.view name ≠ none → fileOwner name ∈ used
  bounded : ∀ key block, s.blocks.lookup key = some block → ∀ other ∈ block.keys, other ≤ key
  listed : ∀ key ∈ s.blocks, key ∈ s.blockKeys
  sorted : s.blockKeys.Pairwise (· ≤ ·)

theorem Datastore.sound_empty (rt : Runtime Double) : Datastore.Sound rt [] Datastore.empty where
  reliable _ := rfl
  complete := rfl
  valid _ member := absurd member List.not_mem_nil
  endKey _ _ found := by cases found
  drawn _ _ found := by cases found
  block _ _ found := by cases found
  distinct _ _ _ _ found := by cases found
  files _ present := absurd rfl present
  bounded _ _ found := by cases found
  listed _ member := absurd member (AList.notMem_empty _)
  sorted := .nil

section Sound

variable {rt : Runtime Double} {used : List GoString} {s : Datastore Double}

/-- Looking a key up after an insertion. -/
theorem lookup_insert_cases {blocks : AList fun _ : GoString => DatastoreBlock Double} {key other : GoString}
    {block found : DatastoreBlock Double} (lookup : (blocks.insert key block).lookup other = some found) :
    other = key ∧ found = block ∨ other ≠ key ∧ blocks.lookup other = some found := by
  by_cases same : other = key
  · subst same
    rw [AList.lookup_insert, Option.some.injEq] at lookup
    exact .inl ⟨rfl, lookup.symm⟩
  · rw [AList.lookup_insert_ne same] at lookup
    exact .inr ⟨same, lookup⟩

theorem Datastore.Sound.draw (sound : s.Sound rt used) {ids : List GoString}
    (valid : ∀ id ∈ ids, ValidId id) : s.Sound rt (used ++ ids) :=
  { sound with
    valid := fun id member => (List.mem_append.mp member).elim (sound.valid id) (valid id)
    drawn := fun key block found => List.mem_append_left _ (sound.drawn key block found)
    files := fun name present => List.mem_append_left _ (sound.files name present) }

/-- Writing files for a drawn identifier that no block has. -/
theorem Datastore.Sound.touch (sound : s.Sound rt used) {stranger : DatastoreBlock Double}
    (drawn : stranger.id ∈ used)
    (unowned : ∀ key block, s.blocks.lookup key = some block → block.id ≠ stranger.id) {after : Disk}
    (reliable : after.Reliable) (complete : after.incomplete = false)
    (touches : OnlyTouches (stranger.ownFiles rt) s.disk.view after.view) :
    Datastore.Sound rt used { s with disk := after } ∧
      Datastore.held rt { s with disk := after } = s.held rt := by
  have valid := sound.valid _ drawn
  have unchanged : ∀ key block, s.blocks.lookup key = some block →
      ∀ name ∈ block.ownFiles rt, after.view name = s.disk.view name := fun key block found name member =>
    touches.foreign (sound.valid _ (sound.drawn key block found)) valid (unowned key block found) member
  constructor
  · refine ⟨reliable, complete, sound.valid, sound.endKey, sound.drawn, fun key block found => ?_,
      sound.distinct, fun name present => ?_, sound.bounded, sound.listed, sound.sorted⟩
    · obtain ⟨file, logged, blockSound⟩ := sound.block key block found
      exact ⟨file, logged, blockSound.congr (unchanged key block found)⟩
    · by_cases own : name ∈ stranger.ownFiles rt
      · rw [DatastoreBlock.fileOwner_ownFiles valid own]
        exact drawn
      · rw [touches name own] at present
        exact sound.files name present
  · exact Keyed.total_congr fun key block found => touches.held sound.reliable reliable
      (sound.valid _ (sound.drawn key block found)) valid (unowned key block found)

theorem Datastore.Sound.erase (sound : s.Sound rt used) {key : GoString} {block : DatastoreBlock Double}
    (found : s.blocks.lookup key = some block) :
    Datastore.Sound rt used { s with blocks := s.blocks.erase key } ∧
      Datastore.held rt { s with blocks := s.blocks.erase key } + block.held rt s.disk = s.held rt := by
  have kept : ∀ {other found}, (s.blocks.erase key).lookup other = some found →
      s.blocks.lookup other = some found := fun lookup => (Keyed.lookup_erase_eq_some.mp lookup).2
  constructor
  · exact
      { sound with
        endKey := fun other found lookup => sound.endKey other found (kept lookup)
        drawn := fun other found lookup => sound.drawn other found (kept lookup)
        block := fun other found lookup => sound.block other found (kept lookup)
        distinct := fun first found second other lookup lookupOther =>
          sound.distinct first found second other (kept lookup) (kept lookupOther)
        bounded := fun other found lookup => sound.bounded other found (kept lookup)
        listed := fun other member => by
          obtain ⟨found, lookup⟩ := Keyed.mem_iff_lookup.mp member
          exact sound.listed other (Keyed.mem_iff_lookup.mpr ⟨found, kept lookup⟩) }
  · rw [Datastore.held, Datastore.held, Keyed.total_erase found, add_comm]

/-- Removing a block from the map, and changing its files. -/
theorem Datastore.Sound.drop (sound : s.Sound rt used) {key : GoString} {block : DatastoreBlock Double}
    (found : s.blocks.lookup key = some block) {after : Disk} (reliable : after.Reliable)
    (complete : after.incomplete = false)
    (touches : OnlyTouches (block.ownFiles rt) s.disk.view after.view) :
    Datastore.Sound rt used { s with disk := after, blocks := s.blocks.erase key } ∧
      Datastore.held rt { s with disk := after, blocks := s.blocks.erase key } + block.held rt s.disk =
        s.held rt := by
  obtain ⟨erased, held⟩ := sound.erase found
  have unowned : ∀ other kept, (s.blocks.erase key).lookup other = some kept → kept.id ≠ block.id := by
    intro other kept lookup same
    obtain ⟨different, old⟩ := Keyed.lookup_erase_eq_some.mp lookup
    exact different (sound.distinct other kept key block old found same)
  obtain ⟨touched, heldTouched⟩ := erased.touch (sound.drawn key block found) unowned reliable complete touches
  exact ⟨touched, by rw [← held, ← heldTouched]⟩

/-- Putting a block under a key that is listed.  Its identifier was drawn and belongs to no other block. -/
theorem Datastore.Sound.put (sound : s.Sound rt used) {block : DatastoreBlock Double}
    (drawn : block.id ∈ used)
    (unowned : ∀ key other, s.blocks.lookup key = some other → other.id ≠ block.id)
    (bounded : ∀ key ∈ block.keys, key ≤ block.endKey) (listed : block.endKey ∈ s.blockKeys)
    (blockSound : ∃ file logged, BlockSound rt s.disk.view block file logged) :
    Datastore.Sound rt used { s with blocks := s.blocks.insert block.endKey block } ∧
      Datastore.held rt { s with blocks := s.blocks.insert block.endKey block } +
          (s.blocks.lookup block.endKey).elim 0 (fun other => other.held rt s.disk) =
        s.held rt + block.held rt s.disk := by
  constructor
  · refine ⟨sound.reliable, sound.complete, sound.valid, fun other kept lookup => ?_,
      fun other kept lookup => ?_, fun other kept lookup => ?_,
      fun first kept second other lookup lookupOther same => ?_, sound.files,
      fun other kept lookup => ?_, fun other member => ?_, sound.sorted⟩
    · rcases lookup_insert_cases lookup with ⟨rfl, rfl⟩ | ⟨-, old⟩
      · rfl
      · exact sound.endKey other kept old
    · rcases lookup_insert_cases lookup with ⟨rfl, rfl⟩ | ⟨-, old⟩
      · exact drawn
      · exact sound.drawn other kept old
    · rcases lookup_insert_cases lookup with ⟨rfl, rfl⟩ | ⟨-, old⟩
      · exact blockSound
      · exact sound.block other kept old
    · rcases lookup_insert_cases lookup with ⟨rfl, rfl⟩ | ⟨-, old⟩ <;>
        rcases lookup_insert_cases lookupOther with ⟨rfl, rfl⟩ | ⟨-, oldOther⟩
      · rfl
      · exact absurd same.symm (unowned _ other oldOther)
      · exact absurd same (unowned _ kept old)
      · exact sound.distinct _ kept _ other old oldOther same
    · rcases lookup_insert_cases lookup with ⟨rfl, rfl⟩ | ⟨-, old⟩
      · exact bounded
      · exact sound.bounded other kept old
    · rcases (AList.mem_insert _).mp member with rfl | old
      · exact listed
      · exact sound.listed other old
  · exact Keyed.total_insert_add _ _ _

/-- Replacing a block by another with its key and identifier, on a disk where only its files differ. -/
theorem Datastore.Sound.replace (sound : s.Sound rt used) {key : GoString}
    {block renewed : DatastoreBlock Double} (found : s.blocks.lookup key = some block)
    (sameKey : renewed.endKey = block.endKey) (sameId : renewed.id = block.id) {after : Disk}
    (reliable : after.Reliable) (complete : after.incomplete = false)
    (touches : OnlyTouches (block.ownFiles rt) s.disk.view after.view)
    (bounded : ∀ other ∈ renewed.keys, other ≤ key)
    (renewedSound : ∃ file logged, BlockSound rt after.view renewed file logged) :
    Datastore.Sound rt used { s with disk := after, blocks := s.blocks.insert key renewed } ∧
      Datastore.held rt { s with disk := after, blocks := s.blocks.insert key renewed } +
          block.held rt s.disk = s.held rt + renewed.held rt after := by
  obtain rfl : renewed.endKey = key := sameKey.trans (sound.endKey key block found)
  obtain ⟨dropped, heldDropped⟩ := sound.drop found reliable complete touches
  have unowned : ∀ other kept, (s.blocks.erase renewed.endKey).lookup other = some kept →
      kept.id ≠ renewed.id := by
    intro other kept lookup same
    obtain ⟨different, old⟩ := Keyed.lookup_erase_eq_some.mp lookup
    exact different (sound.distinct other kept _ block old found (same.trans sameId))
  obtain ⟨put, held⟩ := dropped.put (sameId ▸ sound.drawn _ block found) unowned bounded
    (sound.listed _ (Keyed.mem_iff_lookup.mpr ⟨block, found⟩)) renewedSound
  simp only [Keyed.insert_erase, AList.lookup_erase, Option.elim_none, add_zero] at put held
  exact ⟨put, by rw [held, ← heldDropped, add_right_comm]⟩

/-- Inserting a block whose identifier was drawn and belongs to no other block. -/
theorem Datastore.Sound.insertBlock (sound : s.Sound rt used) {block : DatastoreBlock Double}
    (drawn : block.id ∈ used)
    (unowned : ∀ key other, s.blocks.lookup key = some other → other.id ≠ block.id)
    (bounded : ∀ key ∈ block.keys, key ≤ block.endKey)
    (blockSound : ∃ file logged, BlockSound rt s.disk.view block file logged) :
    (s.insertBlock block).Sound rt used ∧
      (s.insertBlock block).held rt +
          (s.blocks.lookup block.endKey).elim 0 (fun other => other.held rt s.disk) =
        s.held rt + block.held rt s.disk := by
  by_cases present : block.endKey ∈ s.blocks
  · rw [Datastore.insertBlock, if_pos present]
    exact sound.put drawn unowned bounded (sound.listed _ present) blockSound
  · have relisted : Datastore.Sound rt used
        { s with blockKeys := sortStrings (s.blockKeys ++ [block.endKey]) } :=
      { sound with
        listed := fun key member =>
          (sortStrings_perm _).mem_iff.mpr (List.mem_append_left _ (sound.listed key member))
        sorted := sortStrings_sorted _ }
    rw [Datastore.insertBlock, if_neg present]
    exact relisted.put drawn unowned bounded
      ((sortStrings_perm _).mem_iff.mpr (List.mem_append_right _ (List.mem_singleton_self _))) blockSound

end Sound

end OpenInstrument
