import OpenInstrument.Server.CordContent

/-! # Lines from a socket

What has been read from a socket stands in a cord, and it is taken from there line by line.  The size of
the cord may be too large by then, but the lines are those of its content all the same.
-/

namespace OpenInstrument.Server.Cord

/-- The read buffer of a socket: no block is used up, and no byte is missing from the size. -/
structure Tidy (cord : Cord) : Prop where
  usable : cord.Usable
  small : cord.defaultBufferSize.toNat ≤ 2 ^ 31
  unread : ∀ buffer ∈ cord.buffers, 0 < buffer.size
  counted : cord.content.length ≤ cord.size.toNat

/-! ## Reading more -/

theorem getAppendBuf_spec (cord : Cord) {reqsize : Nat} (positive : 0 < reqsize)
    (minimum : 1 ≤ cord.minimumAppendSize.toNat) :
    0 < (cord.getAppendBuf reqsize).2 ∧
      ∀ buffer ∈ (cord.getAppendBuf reqsize).1.buffers.dropLast, buffer ∈ cord.buffers := by
  have pushed : ∀ buffer ∈ (cord.pushAlloc reqsize).buffers.dropLast, buffer ∈ cord.buffers := by
    intro buffer member
    rw [pushAlloc, List.dropLast_concat] at member
    exact member
  unfold getAppendBuf
  split
  · exact ⟨positive, pushed⟩
  · split
    · exact ⟨positive, fun buffer member => List.dropLast_subset _ member⟩
    · split
      · rename_i room
        exact ⟨Nat.lt_of_lt_of_le minimum room, fun buffer member => List.dropLast_subset _ member⟩
      · exact ⟨positive, pushed⟩

/-- Only the last block grows. -/
theorem unread_write {cord next : Cord} {data : Bytes} (nonempty : data ≠ [])
    (unread : ∀ buffer ∈ cord.buffers.dropLast, 0 < buffer.size) (wrote : cord.write data = some next) :
    ∀ buffer ∈ next.buffers, 0 < buffer.size := by
  have positive := List.length_pos_iff.mpr nonempty
  unfold write at wrote
  split at wrote
  · cases wrote
  · rename_i back last
    split at wrote
    · cases wrote
      intro buffer member
      cases List.mem_append.mp member with
      | inl earlier => exact unread buffer earlier
      | inr written =>
        rw [List.mem_singleton.mp written]
        have used := back.used_le
        show 0 < (back.bytes ++ data).length - back.used
        rw [List.length_append]
        omega
    · cases wrote

theorem unread_copyBytes {turns : Nat} {cord next : Cord} (minimum : 1 ≤ cord.minimumAppendSize.toNat)
    (unread : ∀ buffer ∈ cord.buffers, 0 < buffer.size) {data : Bytes}
    (copied : cord.copyBytes turns data = some next) : ∀ buffer ∈ next.buffers, 0 < buffer.size := by
  induction turns generalizing cord data with
  | zero =>
    cases data with
    | nil => cases copied; exact unread
    | cons byte data => cases copied
  | succ turns inductionHypothesis =>
    cases data with
    | nil => cases copied; exact unread
    | cons byte data =>
      obtain ⟨middle, wrote, rest⟩ := Option.bind_eq_some_iff.mp copied
      obtain ⟨some_, earlier⟩ := getAppendBuf_spec cord (Nat.succ_pos data.length) minimum
      obtain ⟨_, _, _, minimum'⟩ := content_getAppendBuf cord (byte :: data).length
      obtain ⟨_, _, _, minimum''⟩ := write_eq_some wrote
      have nonempty : (byte :: data).take (cord.getAppendBuf (byte :: data).length).2 ≠ [] := by
        apply List.ne_nil_of_length_pos
        rw [List.length_take]
        exact Nat.lt_min.mpr ⟨some_, Nat.succ_pos _⟩
      have written := unread_write nonempty (fun buffer member => unread buffer (earlier buffer member)) wrote
      exact inductionHypothesis (by rw [minimum'', minimum']; exact minimum) written rest

/-- A read adds what it gets to the content. -/
theorem tidy_copyFrom {cord : Cord} (tidy : cord.Tidy) {data : Bytes} (short : data.length ≤ 2 ^ 31)
    (limit : cord.size.toNat + data.length < 2 ^ 64) :
    ∃ next, cord.copyFrom data = some next ∧ next.content = cord.content ++ data ∧ next.Tidy ∧
      next.size.toNat = cord.size.toNat + data.length := by
  have below : data.length < 2 ^ 32 := by omega
  have whole : cord.copyFrom data = cord.copyBytes data.length data := by
    simp only [copyFrom, Nat.mod_eq_of_lt below, List.take_length]
  rw [whole]
  by_cases nonempty : data = []
  · subst nonempty
    exact ⟨cord, rfl, (List.append_nil _).symm, tidy, rfl⟩
  · have isSome := (copyBytes_isSome_iff tidy.usable nonempty below (Nat.le_refl _)).mpr
      ⟨tidy.small, by omega⟩
    obtain ⟨next, copied⟩ := Option.isSome_iff_exists.mp isSome
    obtain ⟨content, size, default, minimum⟩ := copyBytes_eq_some copied
    have counted : next.size.toNat = cord.size.toNat + data.length := by
      rw [size, UInt64.toNat_add, UInt64.toNat_ofNat', Nat.add_mod_mod, Nat.mod_eq_of_lt limit]
    refine ⟨next, copied, content, ⟨usable_copyBytes tidy.usable below copied, by rw [default]; exact tidy.small,
      unread_copyBytes tidy.usable.minimum tidy.unread copied, ?_⟩, counted⟩
    have before := tidy.counted
    rw [content, List.length_append, counted]
    omega

/-! ## Taking bytes -/

theorem unread_consumeLoop (bytes left : Nat) (size : UInt64) {buffers : List CordBuffer}
    (unread : ∀ buffer ∈ buffers, 0 < buffer.size) :
    ∀ buffer ∈ (consumeLoop bytes left size buffers).buffers, 0 < buffer.size := by
  induction buffers generalizing left with
  | nil => simp [consumeLoop]
  | cons front buffers inductionHypothesis =>
    have later := fun other member => unread other (.tail _ member)
    intro buffer member
    rw [consumeLoop] at member
    split at member
    · exact unread buffer member
    · split at member
      · change buffer ∈ (if (front.consume left).size = 0 then buffers else front.consume left :: buffers) at member
        split at member
        · exact later buffer member
        · rename_i some_
          cases member with
          | head => exact Nat.pos_of_ne_zero some_
          | tail _ member => exact later buffer member
      · exact inductionHypothesis (left - front.size) later buffer member

/-- Bytes that are there can be consumed, even if the size is too large. -/
theorem tidy_consume {cord : Cord} (tidy : cord.Tidy) {bytes : UInt64}
    (enough : bytes.toNat ≤ cord.content.length) :
    ∃ next, cord.consume bytes = (.returned (cord.content.take bytes.toNat), next) ∧
      next.content = cord.content.drop bytes.toNat ∧ next.Tidy ∧ next.size.toNat ≤ cord.size.toNat := by
  have counted := tidy.counted
  have notMore : ¬ cord.size < bytes := by
    rw [UInt64.lt_iff_toNat_lt]
    omega
  by_cases all : bytes = cord.size
  · subst all
    have whole : cord.content.length = cord.size.toNat := by omega
    refine ⟨cord.clear, ?_, ?_, ⟨?_, tidy.small, by simp [clear], Nat.zero_le _⟩, Nat.zero_le _⟩
    · rw [consume, if_neg notMore, if_pos rfl, ← whole, List.take_length]
    · rw [← whole, List.drop_length]
      rfl
    · exact ⟨tidy.usable.minimum, fun _ => by simp [clear]⟩
  · obtain ⟨none_, output, content, last, inside, size, _⟩ :=
      consumeLoop_spec bytes.toNat bytes.toNat cord.size cord.buffers (Nat.le_refl _) enough
    have kept := unread_consumeLoop bytes.toNat bytes.toNat cord.size tidy.unread
    have usable := usable_apply tidy.usable (.consume bytes)
    let next : Cord :=
      { cord with
        buffers := (consumeLoop bytes.toNat bytes.toNat cord.size cord.buffers).buffers
        size := (consumeLoop bytes.toNat bytes.toNat cord.size cord.buffers).size }
    have same : cord.consume bytes = (.returned (cord.content.take bytes.toNat), next) := by
      simp only [consume, notMore, all, if_false, none_, if_true, output]
      rfl
    have rest : next.content = cord.content.drop bytes.toNat := content
    have limit := cord.size.toNat_lt
    -- The size may stay too large by the earlier pieces, but never gets too small.
    have small : (UInt64.ofNat last).toNat = last := by
      apply UInt64.toNat_ofNat_of_lt'
      exact Nat.lt_of_le_of_lt (by omega) limit
    have left : next.size.toNat = cord.size.toNat - last := by
      show (consumeLoop bytes.toNat bytes.toNat cord.size cord.buffers).size.toNat = _
      rw [size, UInt64.toNat_sub_of_le _ _ (UInt64.le_iff_toNat_le.mpr (by omega)), small]
    refine ⟨next, same, rest, ⟨?_, tidy.small, kept, ?_⟩, by omega⟩
    · have applied : (cord.apply (.consume bytes)).2 = next := congrArg Prod.snd same
      rwa [applied] at usable
    · rw [rest, List.length_drop, left]
      omega

/-! ## Taking a line -/

def emptyBlocks (buffers : List CordBuffer) : Nat := buffers.countP fun buffer => decide (buffer.size = 0)

/-- The blocks in front of the one in which the first line ends. -/
def blocksBefore (buffers : List CordBuffer) : List CordBuffer :=
  buffers.takeWhile fun buffer => decide (newline ∉ buffer.unread)

theorem unread_of_size {buffer : CordBuffer} (none_ : buffer.size = 0) : buffer.unread = [] := by
  rw [← CordBuffer.length_unread] at none_
  exact List.length_eq_zero_iff.mp none_

theorem emptyBlocks_eq_zero {buffers : List CordBuffer} (unread : ∀ buffer ∈ buffers, 0 < buffer.size) :
    emptyBlocks buffers = 0 := by
  rw [emptyBlocks, List.countP_eq_zero]
  intro buffer member
  simpa using Nat.ne_of_gt (unread buffer member)

/-- Without a newline all blocks are gone through. -/
theorem scanLine_missing {buffers : List CordBuffer} (noLine : newline ∉ (buffers.map CordBuffer.unread).flatten) :
    (scanLine buffers).found = false ∧ (scanLine buffers).pops = emptyBlocks buffers ∧
      (scanLine buffers).output = (buffers.map CordBuffer.unread).flatten := by
  induction buffers with
  | nil => exact ⟨rfl, rfl, rfl⟩
  | cons buffer buffers inductionHypothesis =>
    rw [List.map_cons, List.flatten_cons, List.mem_append, not_or] at noLine
    obtain ⟨found, pops, output⟩ := inductionHypothesis noLine.2
    rw [scanLine, emptyBlocks]
    by_cases none_ : buffer.size = 0
    · rw [if_pos none_, List.countP_cons_of_pos (by simpa using none_), List.map_cons, List.flatten_cons,
        unread_of_size none_]
      exact ⟨found, congrArg (· + 1) pops, output⟩
    · rw [if_neg none_, if_neg noLine.1, List.countP_cons_of_neg (by simpa using none_), List.map_cons,
        List.flatten_cons]
      exact ⟨found, pops, congrArg (buffer.unread ++ ·) output⟩

theorem takeWhile_line {line : Bytes} (first : newline ∉ line) (rest : Bytes) :
    (line ++ newline :: rest).takeWhile (· != newline) = line := by
  rw [List.takeWhile_append_of_pos]
  · simp
  · intro char member
    exact bne_iff_ne.mpr fun same => first (same ▸ member)

theorem takeWhile_append_of_mem {front : Bytes} (here : newline ∈ front) (back : Bytes) :
    (front ++ back).takeWhile (· != newline) = front.takeWhile (· != newline) := by
  rw [List.takeWhile_append, if_neg]
  intro whole
  have all := List.takeWhile_sublist (· != newline) |>.eq_of_length whole
  have kept := List.all_takeWhile (l := front) (p := (· != newline))
  rw [all, List.all_eq_true] at kept
  exact absurd (kept newline here) (by simp)

/-- A line that does not end in the bytes in front goes on behind them. -/
theorem line_behind {front back line rest : Bytes} (split : front ++ back = line ++ newline :: rest)
    (missing : newline ∉ front) : ∃ later, line = front ++ later ∧ back = later ++ newline :: rest := by
  cases List.append_eq_append_iff.mp split with
  | inl longer => exact longer
  | inr shorter =>
    obtain ⟨beyond, front', back'⟩ := shorter
    cases beyond with
    | nil => exact ⟨[], by simpa using front'.symm, by simpa using back'.symm⟩
    | cons char beyond =>
      rw [List.cons_append, List.cons.injEq] at back'
      exact absurd (by rw [front', ← back'.1]; simp) missing

/-- The first line is found, whatever blocks it lies in. -/
theorem scanLine_found {buffers : List CordBuffer} {line rest : Bytes}
    (split : (buffers.map CordBuffer.unread).flatten = line ++ newline :: rest) (first : newline ∉ line) :
    scanLine buffers =
      { found := true
        pops := emptyBlocks (blocksBefore buffers)
        bytesUsed := line.length + 1
        output := line ++ [newline] } := by
  induction buffers generalizing line with
  | nil => simp at split
  | cons buffer buffers inductionHypothesis =>
    rw [List.map_cons, List.flatten_cons] at split
    rw [scanLine, blocksBefore]
    by_cases here : newline ∈ buffer.unread
    · -- The line ends in this block.
      have inside : buffer.unread.takeWhile (· != newline) = line := by
        rw [← takeWhile_append_of_mem here (buffers.map CordBuffer.unread).flatten, split, takeWhile_line first]
      have some_ : buffer.size ≠ 0 := fun none_ => by simp [unread_of_size none_] at here
      rw [if_neg some_, if_pos here, inside, List.takeWhile_cons_of_neg (by simpa using here)]
      simp [emptyBlocks]
    · obtain ⟨later, line', rest'⟩ := line_behind split here
      rw [line', List.mem_append, not_or] at first
      rw [List.takeWhile_cons_of_pos (by simpa using here), emptyBlocks]
      have scan := inductionHypothesis rest' first.2
      by_cases none_ : buffer.size = 0
      · rw [if_pos none_, scan, List.countP_cons_of_pos (by simpa using none_), line', unread_of_size none_]
        rfl
      · rw [if_neg none_, if_neg here, scan, List.countP_cons_of_neg (by simpa using none_), line']
        simp [Nat.add_assoc, emptyBlocks, blocksBefore]

theorem scanLine_none {buffers : List CordBuffer} (unread : ∀ buffer ∈ buffers, 0 < buffer.size)
    (noLine : newline ∉ (buffers.map CordBuffer.unread).flatten) :
    (scanLine buffers).found = false ∧ (scanLine buffers).pops = 0 := by
  obtain ⟨found, pops, -⟩ := scanLine_missing noLine
  exact ⟨found, pops.trans (emptyBlocks_eq_zero unread)⟩

theorem scanLine_some {buffers : List CordBuffer} (unread : ∀ buffer ∈ buffers, 0 < buffer.size)
    {line rest : Bytes} (split : (buffers.map CordBuffer.unread).flatten = line ++ newline :: rest)
    (first : newline ∉ line) :
    scanLine buffers =
      { found := true, pops := 0, bytesUsed := line.length + 1, output := line ++ [newline] } := by
  have before : emptyBlocks (blocksBefore buffers) = 0 :=
    emptyBlocks_eq_zero fun buffer member => unread buffer (List.takeWhile_sublist _ |>.subset member)
  rw [scanLine_found split first, before]

/-- A line that has arrived is the first line of all that arrives. -/
theorem line_of_mem {content later line rest : Bytes} (whole : content ++ later = line ++ newline :: rest)
    (first : newline ∉ line) (here : newline ∈ content) :
    ∃ more, content = line ++ newline :: more ∧ rest = more ++ later := by
  obtain ⟨front, more, split, before⟩ := List.eq_append_cons_of_mem here
  have same : front = line := by
    have taken := congrArg (List.takeWhile (· != newline)) whole
    rwa [takeWhile_append_of_mem here, split, takeWhile_line before, takeWhile_line first] at taken
  subst same
  refine ⟨more, split, ?_⟩
  rw [split, List.append_assoc, List.cons_append, List.append_right_inj, List.cons.injEq] at whole
  exact whole.2.symm

/-- Without a whole line nothing happens. -/
theorem consumeLine_none {cord : Cord} (tidy : cord.Tidy) (noLine : newline ∉ cord.content) :
    cord.consumeLine = (.outOfRange, cord) := by
  obtain ⟨found, pops⟩ := scanLine_none tidy.unread noLine
  unfold consumeLine
  split
  · rfl
  · simp [found, pops]

/-- The first line goes, and what follows it is left. -/
theorem consumeLine_some {cord : Cord} (tidy : cord.Tidy) {line rest : Bytes}
    (split : cord.content = line ++ newline :: rest) (first : newline ∉ line) :
    ∃ next, cord.consumeLine = (.returned (trimLine (line ++ [newline])), next) ∧ next.content = rest ∧
      next.Tidy ∧ next.size.toNat ≤ cord.size.toNat := by
  have scan := scanLine_some tidy.unread split first
  have counted := tidy.counted
  have length : cord.content.length = line.length + 1 + rest.length := by
    rw [split, List.length_append, List.length_cons]
    omega
  have limit := cord.size.toNat_lt
  have some_ : cord.size ≠ 0 := by
    intro none_
    rw [none_, UInt64.toNat_zero] at counted
    omega
  have used : (UInt64.ofNat (line.length + 1)).toNat = line.length + 1 :=
    UInt64.toNat_ofNat_of_lt' (Nat.lt_of_le_of_lt (by omega) limit)
  obtain ⟨next, consumed, content, tidy', fewer⟩ := tidy_consume tidy (by rw [used]; omega)
  refine ⟨next, ?_, ?_, tidy', fewer⟩
  · rw [consumeLine, if_neg some_, scan]
    simp only [List.drop_zero, if_true, consumed]
  · rw [content, used, split, List.append_cons, List.drop_left' (by simp)]

end OpenInstrument.Server.Cord
