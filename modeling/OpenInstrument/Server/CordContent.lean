import OpenInstrument.Server.Cord

/-! # Cords as strings of bytes

What a cord is for: a string of bytes that is extended at its end and consumed from its front, with a size
that is always the length of the string.  An operation does that exactly when its inputs fit: the lengths
their 32 bits, the blocks two gigabytes, and what is consumed the first block that has any bytes.
-/

namespace OpenInstrument.Server

inductive CordOp where
  | copyFrom (data : Bytes)
  | copyFromCord (src : Cord)
  | append (data : Bytes)
  | consume (bytes : UInt64)
  | popFront
  | popBack
  | clear
  deriving DecidableEq

namespace Cord

/-- The result of an operation that returns nothing, or is undefined. -/
def outcomeOf (cord : Cord) : Option Cord → Outcome × Cord
  | none => (.undefined, cord)
  | some next => (.returned [], next)

def apply (cord : Cord) : CordOp → Outcome × Cord
  | .copyFrom data => cord.outcomeOf (cord.copyFrom data)
  | .copyFromCord src => cord.outcomeOf (cord.copyBlocks src.buffers)
  | .append data => (.returned [], cord.append data)
  | .consume bytes => cord.consume bytes
  | .popFront => cord.outcomeOf cord.popFront
  | .popBack => cord.outcomeOf cord.popBack
  | .clear => (.returned [], cord.clear)

/-! ## What the operations are for -/

def SizeIsLength (cord : Cord) : Prop := cord.size.toNat = cord.content.length

/-- What an operation does to the string. -/
def Effects (before : Cord) (result : Outcome × Cord) : CordOp → Prop
  | .copyFrom data => result.1 = .returned [] ∧ result.2.content = before.content ++ data
  | .copyFromCord src => result.1 = .returned [] ∧ result.2.content = before.content ++ src.content
  | .append data => result.1 = .returned [] ∧ result.2.content = before.content ++ data
  | .consume bytes =>
    if bytes ≤ before.size then
      result.1 = .returned (before.content.take bytes.toNat) ∧
        result.2.content = before.content.drop bytes.toNat
    else result = (.outOfRange, before)
  | .popFront => result.1 = .returned []
  | .popBack => result.1 = .returned []
  | .clear => result.1 = .returned []

def Correct (cord : Cord) (op : CordOp) : Prop :=
  (cord.apply op).2.SizeIsLength ∧ Effects cord (cord.apply op) op

def AllCorrect : Cord → List CordOp → Prop
  | _, [] => True
  | cord, op :: ops => cord.Correct op ∧ AllCorrect (cord.apply op).2 ops

/-! ## What fits -/

/-- How many of the bytes go into the last block as it is. -/
def room (cord : Cord) (bytes : Nat) : Nat :=
  match cord.buffers.getLast? with
  | none => 0
  | some back =>
    if bytes ≤ back.available then bytes
    else if cord.minimumAppendSize.toNat ≤ back.available then back.available
    else 0

def firstUnread (buffers : List CordBuffer) : Nat :=
  ((buffers.map CordBuffer.size).find? fun size => size != 0).getD 0

def Fits (cord : Cord) : CordOp → Prop
  | .copyFrom data =>
    data = [] ∨ (cord.defaultBufferSize.toNat ≤ 2 ^ 31 ∧ data.length - cord.room data.length ≤ 2 ^ 31 ∧
      data.length < 2 ^ 32 ∧ cord.size.toNat + data.length < 2 ^ 64)
  | .copyFromCord src =>
    (cord.defaultBufferSize.toNat ≤ 2 ^ 31 ∨ ∀ buffer ∈ src.buffers, buffer.dealloc = true → buffer.size = 0) ∧
      cord.size.toNat + src.content.length < 2 ^ 64
  | .append data => data.length < 2 ^ 32 ∧ cord.size.toNat + data.length < 2 ^ 64
  | .consume bytes => cord.size ≤ bytes ∨ bytes.toNat ≤ firstUnread cord.buffers
  | .popFront => cord.buffers ≠ []
  | .popBack => cord.buffers ≠ []
  | .clear => True

def AllFit : Cord → List CordOp → Prop
  | _, [] => True
  | cord, op :: ops => cord.Fits op ∧ AllFit (cord.apply op).2 ops

/-! ## Content -/

@[simp] theorem content_nil (d m : UInt32) (s : UInt64) : content ⟨[], d, m, s⟩ = [] := rfl

/-! ## Copying bytes -/

/-- The cord can be appended to with a block of its own if it has one, or if one can be allocated. -/
structure Usable (cord : Cord) : Prop where
  minimum : 1 ≤ cord.minimumAppendSize.toNat
  lent : 2 ^ 31 < cord.defaultBufferSize.toNat → ∀ buffer ∈ cord.buffers, buffer.dealloc = false

theorem write_eq_some {cord next : Cord} {data : Bytes} (wrote : cord.write data = some next) :
    next.content = cord.content ++ data ∧ next.size = cord.size + .ofNat data.length ∧
      next.defaultBufferSize = cord.defaultBufferSize ∧ next.minimumAppendSize = cord.minimumAppendSize := by
  unfold write at wrote
  split at wrote
  · cases wrote
  · rename_i back last
    split at wrote
    · rename_i room
      cases wrote
      obtain ⟨front, whole⟩ := List.getLast?_eq_some_iff.mp last
      refine ⟨?_, rfl, rfl, rfl⟩
      have extended : (back.extend data room.1 room.2).unread = back.unread ++ data :=
        List.drop_append_of_le_length back.used_le
      simp [content, whole, extended]
    · cases wrote

theorem unread_alloc (size : UInt32) : (CordBuffer.alloc size).unread = [] := rfl

theorem content_getAppendBuf (cord : Cord) (reqsize : Nat) :
    (cord.getAppendBuf reqsize).1.content = cord.content ∧ (cord.getAppendBuf reqsize).1.size = cord.size ∧
      (cord.getAppendBuf reqsize).1.defaultBufferSize = cord.defaultBufferSize ∧
      (cord.getAppendBuf reqsize).1.minimumAppendSize = cord.minimumAppendSize := by
  have pushed : (cord.pushAlloc reqsize).content = cord.content := by
    simp [content, pushAlloc, unread_alloc]
  unfold getAppendBuf
  split
  · exact ⟨pushed, rfl, rfl, rfl⟩
  · split
    · exact ⟨rfl, rfl, rfl, rfl⟩
    · split
      · exact ⟨rfl, rfl, rfl, rfl⟩
      · exact ⟨pushed, rfl, rfl, rfl⟩

/-- What is copied is there, and it is counted. -/
theorem copyBytes_eq_some {turns : Nat} {cord next : Cord} {data : Bytes}
    (copied : cord.copyBytes turns data = some next) :
    next.content = cord.content ++ data ∧ next.size = cord.size + .ofNat data.length ∧
      next.defaultBufferSize = cord.defaultBufferSize ∧ next.minimumAppendSize = cord.minimumAppendSize := by
  induction turns generalizing cord data with
  | zero =>
    cases data with
    | nil => cases copied; simp
    | cons byte data => cases copied
  | succ turns inductionHypothesis =>
    cases data with
    | nil => cases copied; simp
    | cons byte data =>
      obtain ⟨middle, wrote, rest⟩ := Option.bind_eq_some_iff.mp copied
      obtain ⟨content, size, default, minimum⟩ := content_getAppendBuf cord (byte :: data).length
      obtain ⟨content', size', default', minimum'⟩ := write_eq_some wrote
      obtain ⟨content'', size'', default'', minimum''⟩ := inductionHypothesis rest
      have lengths : UInt64.ofNat (byte :: data).length =
          .ofNat ((byte :: data).take (cord.getAppendBuf (byte :: data).length).2).length +
            .ofNat ((byte :: data).drop (cord.getAppendBuf (byte :: data).length).2).length := by
        rw [← UInt64.ofNat_add, ← List.length_append, List.take_append_drop]
      refine ⟨?_, ?_, default''.trans (default'.trans default), minimum''.trans (minimum'.trans minimum)⟩
      · rw [content'', content', content, List.append_assoc, List.take_append_drop]
      · rw [size'', size', size, lengths, UInt64.add_assoc]

theorem toNat_max (first second : UInt32) : (max first second).toNat = max first.toNat second.toNat := by
  by_cases order : first ≤ second
  · rw [max_eq_right order, Nat.max_eq_right (UInt32.le_iff_toNat_le.mp order)]
  · have reverse : second ≤ first := UInt32.le_of_lt (UInt32.not_le.mp order)
    rw [max_eq_left reverse, Nat.max_eq_left (UInt32.le_iff_toNat_le.mp reverse)]

/-- A block of the cord's own can be allocated up to two gigabytes. -/
theorem write_pushAlloc_isSome {cord : Cord} {data : Bytes} (nonempty : data ≠ [])
    (short : data.length < 2 ^ 32) :
    ((cord.pushAlloc data.length).write data).isSome ↔
      cord.defaultBufferSize.toNat ≤ 2 ^ 31 ∧ data.length ≤ 2 ^ 31 := by
  have positive := List.length_pos_iff.mpr nonempty
  have length : (UInt32.ofNat data.length).toNat = data.length := UInt32.toNat_ofNat_of_lt' short
  have largest : (max cord.defaultBufferSize (UInt32.ofNat data.length)).toNat =
      max cord.defaultBufferSize.toNat data.length := by
    rw [toNat_max, length]
  have capacity : data.length ≤
      (CordBuffer.allocCapacity (max cord.defaultBufferSize (UInt32.ofNat data.length))).toNat ↔
        cord.defaultBufferSize.toNat ≤ 2 ^ 31 ∧ data.length ≤ 2 ^ 31 := by
    constructor
    · intro fits
      by_contra tooLarge
      rw [CordBuffer.allocCapacity_large (by omega)] at fits
      exact absurd fits (Nat.not_le_of_lt positive)
    · intro small
      have next := @CordBuffer.allocCapacity_small (max cord.defaultBufferSize (UInt32.ofNat data.length))
        (by omega) (by omega)
      omega
  rw [← capacity, write]
  simp only [pushAlloc, List.getLast?_concat, CordBuffer.alloc, List.length_nil, Nat.zero_add, and_true]
  split
  · rename_i fits
    exact iff_of_true rfl fits
  · rename_i fails
    exact iff_of_false Bool.noConfusion fails

theorem copyBytes_succ (turns : Nat) (cord : Cord) {data : Bytes} (nonempty : data ≠ []) :
    cord.copyBytes (turns + 1) data =
      ((cord.getAppendBuf data.length).1.write (data.take (cord.getAppendBuf data.length).2)).bind
        fun next => copyBytes turns next (data.drop (cord.getAppendBuf data.length).2) := by
  cases data with
  | nil => exact absurd rfl nonempty
  | cons byte rest => rfl

/-- Bytes for which a new block is needed. -/
theorem copyBytes_pushAlloc_isSome {turns : Nat} {cord : Cord} {data : Bytes} (nonempty : data ≠ [])
    (short : data.length < 2 ^ 32)
    (pushes : cord.getAppendBuf data.length = (cord.pushAlloc data.length, data.length)) :
    (cord.copyBytes (turns + 1) data).isSome ↔
      cord.defaultBufferSize.toNat ≤ 2 ^ 31 ∧ data.length ≤ 2 ^ 31 := by
  rw [← write_pushAlloc_isSome nonempty short]
  rw [copyBytes_succ turns cord nonempty]
  simp only [pushes, List.take_length, List.drop_length]
  cases (cord.pushAlloc data.length).write data with
  | none => rfl
  | some next => cases turns <;> rfl

/-- A block with room is the cord's own. -/
theorem dealloc_of_available {buffer : CordBuffer} (space : 0 < buffer.available) : buffer.dealloc = true := by
  cases owned : buffer.dealloc with
  | true => rfl
  | false =>
    have full := buffer.lent_full owned
    rw [CordBuffer.available, full] at space
    omega

theorem copyBytes_isSome_iff {turns : Nat} {cord : Cord} (usable : cord.Usable) {data : Bytes}
    (nonempty : data ≠ []) (short : data.length < 2 ^ 32) (enough : data.length ≤ turns) :
    (cord.copyBytes turns data).isSome ↔
      cord.defaultBufferSize.toNat ≤ 2 ^ 31 ∧ data.length - cord.room data.length ≤ 2 ^ 31 := by
  have positive := List.length_pos_iff.mpr nonempty
  obtain ⟨turns, rfl⟩ : ∃ more, turns = more + 1 := ⟨turns - 1, by omega⟩
  cases last : cord.buffers.getLast? with
  | none =>
    have pushes : cord.getAppendBuf data.length = (cord.pushAlloc data.length, data.length) := by
      simp [getAppendBuf, last]
    rw [copyBytes_pushAlloc_isSome nonempty short pushes, room, last]
    simp
  | some back =>
    obtain ⟨front, whole⟩ := List.getLast?_eq_some_iff.mp last
    by_cases fits : data.length ≤ back.available
    · -- All goes into the last block.
      have owned := dealloc_of_available (Nat.lt_of_lt_of_le positive fits)
      have space : back.bytes.length + data.length ≤ back.capacity := by
        have full := back.fits
        rw [CordBuffer.available] at fits
        omega
      have buffer : cord.getAppendBuf data.length = (cord, data.length) := by
        simp [getAppendBuf, last, fits]
      have room : cord.room data.length = data.length := by simp [room, last, fits]
      have small : cord.defaultBufferSize.toNat ≤ 2 ^ 31 := by
        by_contra large
        have lent := usable.lent (by omega) back (by simp [whole])
        rw [owned] at lent
        cases lent
      rw [copyBytes_succ turns cord nonempty, buffer, room]
      simp only [List.take_length, List.drop_length, write, last, space, owned, and_self, dite_true,
        Option.bind_some]
      cases turns <;> simpa [copyBytes] using small
    · by_cases some_ : cord.minimumAppendSize.toNat ≤ back.available
      · -- The last block is filled, and the rest needs a new one.
        have atLeast := usable.minimum
        have owned := @dealloc_of_available back (by omega)
        have buffer : cord.getAppendBuf data.length = (cord, back.available) := by
          simp [getAppendBuf, last, fits, some_]
        have room : cord.room data.length = back.available := by simp [room, last, fits, some_]
        have taken : (data.take back.available).length = back.available := by
          rw [List.length_take]
          omega
        have space : back.bytes.length + (data.take back.available).length ≤ back.capacity := by
          have full := back.fits
          rw [taken, CordBuffer.available]
          omega
        have rest : (data.drop back.available).length = data.length - back.available := List.length_drop
        obtain ⟨turns, rfl⟩ : ∃ more, turns = more + 1 := ⟨turns - 1, by omega⟩
        rw [copyBytes_succ _ cord nonempty, buffer, room, ← rest]
        simp only [write, last, space, owned, and_self, dite_true, Option.bind_some]
        apply copyBytes_pushAlloc_isSome
        · apply List.ne_nil_of_length_pos
          omega
        · omega
        · have none_ : (back.extend (data.take back.available) space owned).available = 0 := by
            show back.capacity - (back.bytes ++ data.take back.available).length = 0
            rw [List.length_append, taken, CordBuffer.available]
            omega
          simp only [getAppendBuf, List.getLast?_concat, none_, rest]
          rw [if_neg (by omega), if_neg (by omega)]
      · have pushes : cord.getAppendBuf data.length = (cord.pushAlloc data.length, data.length) := by
          simp [getAppendBuf, last, fits, some_]
        rw [copyBytes_pushAlloc_isSome nonempty short pushes, room, last]
        simp [fits, some_]

/-- A cord that cannot allocate blocks copies nothing, so that all its blocks stay lent. -/
theorem usable_copyBytes {cord next : Cord} (usable : cord.Usable) {data : Bytes}
    (short : data.length < 2 ^ 32) (copied : cord.copyBytes data.length data = some next) : next.Usable := by
  obtain ⟨_, _, default, minimum⟩ := copyBytes_eq_some copied
  refine ⟨by rw [minimum]; exact usable.minimum, fun large => ?_⟩
  rw [default] at large
  by_cases nonempty : data = []
  · subst nonempty
    cases copied
    exact usable.lent large
  · have small := ((copyBytes_isSome_iff usable nonempty short (Nat.le_refl _)).mp (by rw [copied]; rfl)).1
    omega

theorem unread_lend {data : Bytes} (short : data.length < 2 ^ 32) : (CordBuffer.lend data).unread = data := by
  show (data.take (data.length % 2 ^ 32)).drop 0 = data
  rw [Nat.mod_eq_of_lt short, List.drop_zero, List.take_length]

theorem content_append_lend (cord : Cord) (data : Bytes) :
    (cord.append data).content = cord.content ++ (CordBuffer.lend data).unread := by
  simp [content, append]

theorem usable_append {cord : Cord} (usable : cord.Usable) (data : Bytes) : (cord.append data).Usable := by
  refine ⟨usable.minimum, fun large buffer member => ?_⟩
  cases List.mem_append.mp member with
  | inl earlier => exact usable.lent large buffer earlier
  | inr last =>
    rw [List.mem_singleton.mp last]
    rfl

theorem size_lt (buffer : CordBuffer) : buffer.size < 2 ^ 32 :=
  Nat.lt_of_le_of_lt (Nat.le_trans (Nat.sub_le _ _) buffer.fits) buffer.small

/-! ## Copying a cord -/

theorem copyBlocks_eq_some {cord next : Cord} (usable : cord.Usable) {buffers : List CordBuffer}
    (copied : cord.copyBlocks buffers = some next) :
    next.content = cord.content ++ (buffers.map CordBuffer.unread).flatten ∧
      next.size = cord.size + .ofNat (buffers.map CordBuffer.unread).flatten.length ∧ next.Usable := by
  induction buffers generalizing cord with
  | nil => cases copied; simpa using usable
  | cons buffer buffers inductionHypothesis =>
    have short : buffer.unread.length < 2 ^ 32 := by
      rw [CordBuffer.length_unread]
      exact size_lt buffer
    rw [copyBlocks] at copied
    split at copied
    · obtain ⟨middle, first, rest⟩ := Option.bind_eq_some_iff.mp copied
      rw [← CordBuffer.length_unread] at first
      obtain ⟨content, size, _, _⟩ := copyBytes_eq_some first
      obtain ⟨content', size', usable'⟩ := inductionHypothesis (usable_copyBytes usable short first) rest
      refine ⟨by simp [content', content], ?_, usable'⟩
      rw [size', size, UInt64.add_assoc, ← UInt64.ofNat_add, ← List.length_append]
      rfl
    · obtain ⟨content', size', usable'⟩ := inductionHypothesis (usable_append usable _) copied
      refine ⟨?_, ?_, usable'⟩
      · rw [content', content_append_lend, unread_lend short]
        simp
      · rw [size']
        show cord.size + .ofNat buffer.unread.length + _ = _
        rw [UInt64.add_assoc, ← UInt64.ofNat_add, ← List.length_append]
        rfl

theorem copyBlocks_isSome_iff {cord : Cord} (usable : cord.Usable) (buffers : List CordBuffer) :
    (cord.copyBlocks buffers).isSome ↔
      (cord.defaultBufferSize.toNat ≤ 2 ^ 31 ∨ ∀ buffer ∈ buffers, buffer.dealloc = true → buffer.size = 0) := by
  induction buffers generalizing cord with
  | nil => simp [copyBlocks]
  | cons buffer buffers inductionHypothesis =>
    have short : buffer.unread.length < 2 ^ 32 := by
      rw [CordBuffer.length_unread]
      exact size_lt buffer
    rw [copyBlocks]
    cases owned : buffer.dealloc with
    | false =>
      -- A lent block is appended as it is.
      rw [if_neg Bool.false_ne_true, inductionHypothesis (usable_append usable _)]
      simp [append, owned]
    | true =>
      rw [if_pos rfl, ← CordBuffer.length_unread]
      by_cases nonempty : buffer.unread = []
      · have none_ : buffer.size = 0 := by rw [← CordBuffer.length_unread, nonempty]; rfl
        rw [nonempty]
        show (cord.copyBlocks buffers).isSome ↔ _
        rw [inductionHypothesis usable]
        simp [none_]
      · -- A block of a cord's own is no longer than what can be allocated.
        have positive := List.length_pos_iff.mpr nonempty
        have fits : buffer.unread.length ≤ 2 ^ 31 := by
          have small := buffer.owned_small owned
          have inside := buffer.fits
          rw [CordBuffer.length_unread, CordBuffer.size]
          omega
        have first := copyBytes_isSome_iff usable nonempty short (Nat.le_refl _)
        have size : buffer.size ≠ 0 := by rw [← CordBuffer.length_unread]; omega
        cases copied : cord.copyBytes buffer.unread.length buffer.unread with
        | none =>
          rw [copied] at first
          have large : ¬ cord.defaultBufferSize.toNat ≤ 2 ^ 31 := fun small =>
            absurd (first.mpr ⟨small, by omega⟩) Bool.noConfusion
          simp [owned, size] at large ⊢
          exact large
        | some next =>
          obtain ⟨_, _, default, _⟩ := copyBytes_eq_some copied
          have small := (first.mp (by rw [copied]; rfl)).1
          rw [Option.bind_some, inductionHypothesis (usable_copyBytes usable short copied), default]
          exact iff_of_true (.inl small) (.inl small)

/-! ## Consuming -/

theorem unread_consume {buffer : CordBuffer} {bytes : Nat} (enough : bytes ≤ buffer.size) :
    (buffer.consume bytes).unread = buffer.unread.drop bytes := by
  have inside := buffer.used_le
  show buffer.bytes.drop (min (buffer.used + bytes) buffer.bytes.length) = (buffer.bytes.drop buffer.used).drop bytes
  rw [CordBuffer.size] at enough
  rw [List.drop_drop, Nat.min_eq_left (by omega)]

theorem firstUnread_cons (buffer : CordBuffer) (buffers : List CordBuffer) :
    firstUnread (buffer :: buffers) = if buffer.size = 0 then firstUnread buffers else buffer.size := by
  by_cases none_ : buffer.size = 0 <;> simp [firstUnread, none_]

/-- The loop takes the bytes off the front.  What it subtracts is what it takes from the last block, which is
all of it only if no block before that one had any. -/
theorem consumeLoop_spec (bytes left : Nat) (size : UInt64) (buffers : List CordBuffer) (below : left ≤ bytes)
    (enough : left ≤ (buffers.map CordBuffer.unread).flatten.length) :
    (consumeLoop bytes left size buffers).left = 0 ∧
      (consumeLoop bytes left size buffers).output = (buffers.map CordBuffer.unread).flatten.take left ∧
      ((consumeLoop bytes left size buffers).buffers.map CordBuffer.unread).flatten =
        (buffers.map CordBuffer.unread).flatten.drop left ∧
      ∃ last ≤ left, (consumeLoop bytes left size buffers).size = size - .ofNat last ∧
        (last = left ↔ left ≤ firstUnread buffers) := by
  induction buffers generalizing left with
  | nil =>
    obtain rfl : left = 0 := Nat.le_zero.mp enough
    exact ⟨rfl, rfl, rfl, 0, Nat.le_refl 0, (UInt64.sub_zero _).symm, by simp⟩
  | cons buffer buffers inductionHypothesis =>
    rw [consumeLoop]
    by_cases done : left = 0
    · subst done
      rw [if_pos (.inl rfl)]
      exact ⟨rfl, rfl, rfl, 0, Nat.le_refl 0, (UInt64.sub_zero _).symm, by simp⟩
    · have go : ¬ (left = 0 ∨ bytes < left) := by omega
      rw [if_neg go]
      have length := CordBuffer.length_unread buffer
      simp only [List.map_cons, List.flatten_cons, List.length_append] at enough ⊢
      -- The block either has all that is left, or is used up whole.
      by_cases here : left ≤ buffer.size
      · rw [if_pos here]
        refine ⟨rfl, ?_, ?_, left, Nat.le_refl _, rfl, ?_⟩
        · rw [List.take_append_of_le_length (by omega)]
        · rw [List.drop_append_of_le_length (by omega), ← unread_consume here]
          split
          · rename_i gone
            rw [← CordBuffer.length_unread] at gone
            rw [List.length_eq_zero_iff.mp gone, List.nil_append]
          · rfl
        · rw [firstUnread_cons, if_neg (by omega)]
          exact iff_of_true rfl here
      · rw [if_neg here]
        obtain ⟨none_, output, content, last, fewer, subtracted, whole⟩ :=
          inductionHypothesis (left - buffer.size) (by omega) (by omega)
        refine ⟨none_, ?_, ?_, last, by omega, subtracted, ?_⟩
        · have all : buffer.unread.take left = buffer.unread := List.take_of_length_le (by omega)
          rw [List.take_append, all, length, ← output]
        · have none_left : buffer.unread.drop left = [] := List.drop_of_length_le (by omega)
          rw [List.drop_append, none_left, length, ← content]
          rfl
        · rw [firstUnread_cons]
          by_cases none_ : buffer.size = 0
          · rw [none_, Nat.sub_zero] at whole
            rwa [if_pos none_]
          · rw [if_neg none_]
            exact iff_of_false (by omega) here

/-- The blocks that are left are blocks of before, perhaps used up further. -/
theorem consumeLoop_dealloc (bytes left : Nat) (size : UInt64) (buffers : List CordBuffer) :
    ∀ buffer ∈ (consumeLoop bytes left size buffers).buffers,
      ∃ earlier ∈ buffers, earlier.dealloc = buffer.dealloc := by
  induction buffers generalizing left with
  | nil => simp [consumeLoop]
  | cons front buffers inductionHypothesis =>
    intro buffer member
    rw [consumeLoop] at member
    split at member
    · exact ⟨buffer, member, rfl⟩
    · split at member
      · change buffer ∈ (if (front.consume left).size = 0 then buffers else front.consume left :: buffers) at member
        split at member
        · exact ⟨buffer, .tail _ member, rfl⟩
        · cases member with
          | head => exact ⟨front, List.mem_cons_self .., rfl⟩
          | tail _ member => exact ⟨buffer, .tail _ member, rfl⟩
      · obtain ⟨earlier, inside, same⟩ := inductionHypothesis (left - front.size) buffer member
        exact ⟨earlier, .tail _ inside, same⟩

/-! ## One operation -/

/-- Bytes that are added and counted keep the size right as long as it has 64 bits. -/
theorem sizeIsLength_add {cord next : Cord} (exact_ : cord.SizeIsLength) {data : Bytes}
    (content : next.content = cord.content ++ data) (size : next.size = cord.size + .ofNat data.length) :
    next.SizeIsLength ↔ cord.size.toNat + data.length < 2 ^ 64 := by
  rw [SizeIsLength, content, size, List.length_append, ← exact_, UInt64.toNat_add, UInt64.toNat_ofNat',
    Nat.add_mod_mod]
  exact Nat.mod_eq_iff_lt (by decide)

theorem sizeIsLength_sub {cord next : Cord} (exact_ : cord.SizeIsLength) {bytes last : Nat}
    (inside : last ≤ bytes) (below : bytes ≤ cord.size.toNat)
    (content : next.content.length = cord.content.length - bytes) (size : next.size = cord.size - .ofNat last) :
    next.SizeIsLength ↔ last = bytes := by
  have limit := cord.size.toNat_lt
  have small : (UInt64.ofNat last).toNat = last :=
    UInt64.toNat_ofNat_of_lt' (Nat.lt_of_le_of_lt (inside.trans below) limit)
  have smaller : UInt64.ofNat last ≤ cord.size := UInt64.le_iff_toNat_le.mpr (by omega)
  rw [SizeIsLength, content, size, UInt64.toNat_sub_of_le _ _ smaller, small, ← exact_]
  omega

theorem correct_copyFrom_iff {cord : Cord} (exact_ : cord.SizeIsLength) (usable : cord.Usable) (data : Bytes) :
    cord.Correct (.copyFrom data) ↔ cord.Fits (.copyFrom data) := by
  have truncated : (data.take (data.length % 2 ^ 32)).length = data.length % 2 ^ 32 := by
    rw [List.length_take, Nat.min_eq_left (Nat.mod_le _ _)]
  by_cases nonempty : data = []
  · subst nonempty
    have same : cord.apply (.copyFrom []) = (.returned [], cord) := rfl
    simp [Correct, Effects, Fits, same, exact_]
  · constructor
    · intro ⟨size, returned, content⟩
      simp only [apply, copyFrom] at size returned content
      cases copied : cord.copyBytes (data.take (data.length % 2 ^ 32)).length
          (data.take (data.length % 2 ^ 32)) with
      | none => rw [copied] at returned; cases returned
      | some next =>
        rw [copied] at size content
        obtain ⟨content', size', _, _⟩ := copyBytes_eq_some copied
        -- Only the bytes that are left of the length in 32 bits are copied.
        have all : data.take (data.length % 2 ^ 32) = data := List.append_cancel_left (content'.symm.trans content)
        have short : data.length < 2 ^ 32 := by
          rw [all] at truncated
          rw [truncated]
          exact Nat.mod_lt _ (by decide)
        rw [all] at copied content' size'
        have room := (copyBytes_isSome_iff usable nonempty short (Nat.le_refl _)).mp (by rw [copied]; rfl)
        exact .inr ⟨room.1, room.2, short, (sizeIsLength_add exact_ content' size').mp size⟩
    · intro fits
      cases fits with
      | inl none_ => exact absurd none_ nonempty
      | inr fits =>
        obtain ⟨small, room, short, limit⟩ := fits
        have isSome := (copyBytes_isSome_iff usable nonempty short (Nat.le_refl _)).mpr ⟨small, room⟩
        obtain ⟨next, copied⟩ := Option.isSome_iff_exists.mp isSome
        obtain ⟨content, size, _, _⟩ := copyBytes_eq_some copied
        have same : cord.apply (.copyFrom data) = (.returned [], next) := by
          simp only [apply, copyFrom, Nat.mod_eq_of_lt short, List.take_length, copied, outcomeOf]
        rw [Correct, same]
        exact ⟨(sizeIsLength_add exact_ content size).mpr limit, rfl, content⟩

theorem correct_copyFromCord_iff {cord : Cord} (exact_ : cord.SizeIsLength) (usable : cord.Usable) (src : Cord) :
    cord.Correct (.copyFromCord src) ↔ cord.Fits (.copyFromCord src) := by
  have isSome := copyBlocks_isSome_iff usable src.buffers
  cases copied : cord.copyBlocks src.buffers with
  | none =>
    have same : cord.apply (.copyFromCord src) = (.undefined, cord) := by
      simp only [apply, copied, outcomeOf]
    rw [copied] at isSome
    apply iff_of_false
    · intro ⟨_, returned, _⟩
      rw [same] at returned
      cases returned
    · intro fits
      exact absurd (isSome.mpr fits.1) Bool.noConfusion
  | some next =>
    have same : cord.apply (.copyFromCord src) = (.returned [], next) := by
      simp only [apply, copied, outcomeOf]
    obtain ⟨content, size, _⟩ := copyBlocks_eq_some usable copied
    rw [Correct, same]
    constructor
    · intro ⟨counted, _⟩
      exact ⟨isSome.mp (by rw [copied]; rfl), (sizeIsLength_add exact_ content size).mp counted⟩
    · intro fits
      exact ⟨(sizeIsLength_add exact_ content size).mpr fits.2, rfl, content⟩

theorem correct_append_iff {cord : Cord} (exact_ : cord.SizeIsLength) (data : Bytes) :
    cord.Correct (.append data) ↔ cord.Fits (.append data) := by
  have content := content_append_lend cord data
  constructor
  · intro ⟨size, _, extended⟩
    have all : (CordBuffer.lend data).unread = data := List.append_cancel_left (content.symm.trans extended)
    have short : data.length < 2 ^ 32 := by
      have length := CordBuffer.length_unread (CordBuffer.lend data)
      rw [all] at length
      rw [length]
      exact size_lt _
    exact ⟨short, (sizeIsLength_add exact_ extended rfl).mp size⟩
  · intro ⟨short, limit⟩
    rw [unread_lend short] at content
    exact ⟨(sizeIsLength_add exact_ content rfl).mpr limit, rfl, content⟩

theorem correct_consume_iff {cord : Cord} (exact_ : cord.SizeIsLength) (bytes : UInt64) :
    cord.Correct (.consume bytes) ↔ cord.Fits (.consume bytes) := by
  have whole : cord.size.toNat = cord.content.length := exact_
  by_cases more : cord.size < bytes
  · have same : cord.apply (.consume bytes) = (.outOfRange, cord) := if_pos more
    rw [Correct, same]
    apply iff_of_true
    · refine ⟨exact_, ?_⟩
      rw [Effects, if_neg (UInt64.not_le.mpr more)]
    · exact .inl (UInt64.le_of_lt more)
  · by_cases all : bytes = cord.size
    · have same : cord.apply (.consume bytes) = (.returned cord.content, cord.clear) := by
        simp only [apply, consume, all, UInt64.lt_irrefl, if_false, if_true]
      rw [Correct, same]
      apply iff_of_true
      · refine ⟨rfl, ?_⟩
        rw [Effects, if_pos (all ▸ UInt64.le_refl _), all, whole, List.take_length, List.drop_length]
        exact ⟨rfl, rfl⟩
      · exact .inl (all ▸ UInt64.le_refl _)
    · have less : bytes ≤ cord.size := UInt64.not_lt.mp more
      have fewer : bytes.toNat ≤ cord.size.toNat := UInt64.le_iff_toNat_le.mp less
      -- A part is consumed: the size is reduced by the last piece alone.
      obtain ⟨none_, output, content, last, inside, size, first⟩ :=
        consumeLoop_spec bytes.toNat bytes.toNat cord.size cord.buffers (Nat.le_refl _) (by
          rw [whole] at fewer
          exact fewer)
      let next : Cord :=
        { cord with
          buffers := (consumeLoop bytes.toNat bytes.toNat cord.size cord.buffers).buffers
          size := (consumeLoop bytes.toNat bytes.toNat cord.size cord.buffers).size }
      have same : cord.apply (.consume bytes) = (.returned (cord.content.take bytes.toNat), next) := by
        simp only [apply, consume, more, all, if_false, none_, if_true, output]
        rfl
      have rest : next.content = cord.content.drop bytes.toNat := content
      rw [Correct, same]
      have counted : next.SizeIsLength ↔ last = bytes.toNat :=
        sizeIsLength_sub exact_ inside fewer (by rw [rest, List.length_drop]) size
      rw [counted, first, Effects, if_pos less]
      constructor
      · intro ⟨inFirst, _⟩
        exact .inr inFirst
      · intro fits
        refine ⟨?_, rfl, rest⟩
        cases fits with
        | inl atLeast => exact absurd (UInt64.le_antisymm less atLeast) all
        | inr inFirst => exact inFirst

theorem correct_popFront_iff {cord : Cord} (exact_ : cord.SizeIsLength) :
    cord.Correct .popFront ↔ cord.Fits .popFront := by
  obtain ⟨buffers, default, minimum, size⟩ := cord
  cases buffers with
  | nil =>
    apply iff_of_false
    · intro ⟨_, returned⟩
      cases returned
    · intro fits
      exact fits rfl
  | cons front rest =>
    apply iff_of_true
    · refine ⟨?_, rfl⟩
      have length : (content ⟨front :: rest, default, minimum, size⟩).length =
          front.size + (content ⟨rest, default, minimum, size - .ofNat front.size⟩).length := by
        simp [content]
      have counted : size.toNat = _ := exact_
      exact (sizeIsLength_sub exact_ (Nat.le_refl _) (by rw [counted, length]; omega)
        (by rw [length]; exact (Nat.add_sub_cancel_left ..).symm) rfl).mpr rfl
    · exact List.cons_ne_nil _ _

theorem correct_popBack_iff {cord : Cord} (exact_ : cord.SizeIsLength) :
    cord.Correct .popBack ↔ cord.Fits .popBack := by
  obtain ⟨buffers, default, minimum, size⟩ := cord
  cases List.eq_nil_or_concat buffers with
  | inl none_ =>
    subst none_
    apply iff_of_false
    · intro ⟨_, returned⟩
      cases returned
    · intro fits
      exact fits rfl
  | inr found =>
    obtain ⟨front, back, rfl⟩ := found
    have same : apply ⟨front.concat back, default, minimum, size⟩ .popBack =
        (.returned [], ⟨front, default, minimum, size - .ofNat back.size⟩) := by
      simp [apply, popBack, outcomeOf]
    rw [Correct, same]
    apply iff_of_true
    · refine ⟨?_, rfl⟩
      have length : (content ⟨front.concat back, default, minimum, size⟩).length =
          (content ⟨front, default, minimum, size - .ofNat back.size⟩).length + back.size := by
        simp [content]
      have counted : size.toNat = _ := exact_
      exact (sizeIsLength_sub exact_ (Nat.le_refl _) (by rw [counted, length]; omega)
        (by rw [length]; exact (Nat.add_sub_cancel ..).symm) rfl).mpr rfl
    · simp [Fits]

theorem correct_iff {cord : Cord} (exact_ : cord.SizeIsLength) (usable : cord.Usable) (op : CordOp) :
    cord.Correct op ↔ cord.Fits op := by
  cases op with
  | copyFrom data => exact correct_copyFrom_iff exact_ usable data
  | copyFromCord src => exact correct_copyFromCord_iff exact_ usable src
  | append data => exact correct_append_iff exact_ data
  | consume bytes => exact correct_consume_iff exact_ bytes
  | popFront => exact correct_popFront_iff exact_
  | popBack => exact correct_popBack_iff exact_
  | clear => exact iff_of_true ⟨rfl, rfl⟩ trivial

/-! ## Every sequence of operations -/

/-- An operation leaves the blocks of a cord that cannot allocate any lent. -/
theorem usable_apply {cord : Cord} (usable : cord.Usable) (op : CordOp) : (cord.apply op).2.Usable := by
  -- What takes blocks away, or shortens them, leaves the cord usable.
  have fewer : ∀ {next : Cord}, next.defaultBufferSize = cord.defaultBufferSize →
      next.minimumAppendSize = cord.minimumAppendSize →
      (∀ buffer ∈ next.buffers, ∃ earlier ∈ cord.buffers, earlier.dealloc = buffer.dealloc) → next.Usable := by
    intro next default minimum kept
    refine ⟨by rw [minimum]; exact usable.minimum, fun large buffer member => ?_⟩
    rw [default] at large
    obtain ⟨earlier, inside, same⟩ := kept buffer member
    rw [← same]
    exact usable.lent large earlier inside
  cases op with
  | copyFrom data =>
    have short : (data.take (data.length % 2 ^ 32)).length < 2 ^ 32 := by
      rw [List.length_take]
      exact Nat.lt_of_le_of_lt (Nat.min_le_left _ _) (Nat.mod_lt _ (by decide))
    show (cord.outcomeOf (cord.copyFrom data)).2.Usable
    cases copied : cord.copyFrom data with
    | none => exact usable
    | some next => exact usable_copyBytes usable short copied
  | copyFromCord src =>
    show (cord.outcomeOf (cord.copyBlocks src.buffers)).2.Usable
    cases copied : cord.copyBlocks src.buffers with
    | none => exact usable
    | some next => exact (copyBlocks_eq_some usable copied).2.2
  | append data => exact usable_append usable data
  | consume bytes =>
    show (cord.consume bytes).2.Usable
    unfold consume
    split
    · exact usable
    · split
      · exact fewer rfl rfl (by simp [clear])
      · have kept := consumeLoop_dealloc bytes.toNat bytes.toNat cord.size cord.buffers
        dsimp only
        split <;> exact fewer rfl rfl kept
  | popFront =>
    show (cord.outcomeOf cord.popFront).2.Usable
    unfold popFront
    split
    · exact usable
    · rename_i front rest buffers
      exact fewer rfl rfl fun buffer member => ⟨buffer, by rw [buffers]; exact .tail _ member, rfl⟩
  | popBack =>
    show (cord.outcomeOf cord.popBack).2.Usable
    unfold popBack
    cases cord.buffers.getLast? with
    | none => exact usable
    | some back =>
      exact fewer rfl rfl fun buffer member => ⟨buffer, List.dropLast_subset _ member, rfl⟩
  | clear => exact fewer rfl rfl (by simp [apply, clear])

theorem allCorrect_iff {cord : Cord} (exact_ : cord.SizeIsLength) (usable : cord.Usable) (ops : List CordOp) :
    cord.AllCorrect ops ↔ cord.AllFit ops := by
  induction ops generalizing cord with
  | nil => exact Iff.rfl
  | cons op ops inductionHypothesis =>
    have first := correct_iff exact_ usable op
    constructor
    · intro ⟨correct, rest⟩
      exact ⟨first.mp correct, (inductionHypothesis correct.1 (usable_apply usable op)).mp rest⟩
    · intro ⟨fits, rest⟩
      have correct := first.mpr fits
      exact ⟨correct, (inductionHypothesis correct.1 (usable_apply usable op)).mpr rest⟩

/-- From an empty cord on, every operation does what it is for, and the size is the length of the content
after each of them, exactly when every operation fits. -/
theorem cord_refines_iff (defaultBufferSize minimumAppendSize : UInt32) (minimum : 1 ≤ minimumAppendSize)
    (ops : List CordOp) :
    (empty defaultBufferSize minimumAppendSize).AllCorrect ops ↔
      (empty defaultBufferSize minimumAppendSize).AllFit ops := by
  have exact_ : (empty defaultBufferSize minimumAppendSize).SizeIsLength := by
    simp [SizeIsLength, empty]
  exact allCorrect_iff exact_ ⟨UInt32.le_iff_toNat_le.mp minimum, by simp [empty]⟩ ops

theorem cord_refines_abc :
    (empty 4 1).AllCorrect [.copyFrom [97, 98], .append [99], .consume 1, .popBack] ↔
      (empty 4 1).AllFit [.copyFrom [97, 98], .append [99], .consume 1, .popBack] :=
  cord_refines_iff 4 1 (by decide) _

/-- After two of three bytes are consumed that lie in blocks of one, the size is still two. -/
theorem cord_size_wrong :
    ((((empty 1 1).copyFrom [97]).bind fun cord => (cord.append [98]).copyFrom [99]).map fun cord =>
        ((cord.consume 2).1, (cord.consume 2).2.size, (cord.consume 2).2.content)) =
      some (.returned [97, 98], 2, [99]) ∧
    ¬ (empty 1 1).AllCorrect [.copyFrom [97], .append [98], .copyFrom [99], .consume 2] := by
  constructor
  · decide
  · intro correct
    have wrong := correct.2.2.2.1.1
    revert wrong
    unfold SizeIsLength
    decide

end Cord

end OpenInstrument.Server
