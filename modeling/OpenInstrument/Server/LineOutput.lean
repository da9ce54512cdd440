import OpenInstrument.Server.CordLines

/-! # Lines appended to a string

`ConsumeLine` appends to a string of the caller, block by block, before it is known whether there is a line, and
trims the whole string in the end.  A block without bytes is taken out by taking a block off the front of the cord.
-/

namespace OpenInstrument.Server.Cord

/-- How `ConsumeLine` ends: whether it throws, the string, and the cord. -/
structure LineTaken where
  thrown : Bool
  output : Bytes
  cord : Cord

def consumeLineInto (cord : Cord) (output : Bytes) : LineTaken :=
  if cord.size = 0 then { thrown := true, output, cord }
  else
    let scan := scanLine cord.buffers
    let popped := { cord with buffers := cord.buffers.drop scan.pops }
    if scan.found then
      { thrown := false
        output := trimLine (output ++ scan.output)
        cord := (popped.consume (.ofNat scan.bytesUsed)).2 }
    -- What has been appended stays, and the blocks that were taken out are gone.
    else { thrown := true, output := output ++ scan.output, cord := popped }

theorem consumeLine_eq (cord : Cord) :
    cord.consumeLine =
      (if (cord.consumeLineInto []).thrown then .outOfRange else .returned (cord.consumeLineInto []).output,
        (cord.consumeLineInto []).cord) := by
  rw [consumeLine, consumeLineInto]
  split
  · rfl
  · cases found : (scanLine cord.buffers).found <;> simp [found]

/-- The first line goes from the cord to the end of the string, and nothing happens where there is no line. -/
def TakesLine (cord : Cord) (output : Bytes) : Prop :=
  (newline ∉ cord.content → (cord.consumeLineInto output).thrown = true ∧
    (cord.consumeLineInto output).output = output ∧ (cord.consumeLineInto output).cord.content = cord.content) ∧
  ∀ line rest, newline ∉ line → cord.content = line ++ newline :: rest →
    (cord.consumeLineInto output).thrown = false ∧
    (cord.consumeLineInto output).output = output ++ line.rdropWhile (· == carriageReturn) ∧
    (cord.consumeLineInto output).cord.content = rest

/-- In front of the end of the line, the blocks without bytes come before the others. -/
def EmptiesFirst (cord : Cord) : Prop :=
  (blocksBefore cord.buffers).Pairwise fun first second => second.size = 0 → first.size = 0

/-- When trimming the string leaves what was in it: something of the line is left, or there is nothing to trim. -/
def Shielded (line output : Bytes) : Prop :=
  (∃ char ∈ line, char ≠ carriageReturn) ∨
    ∀ last, output.getLast? = some last → last ≠ newline ∧ last ≠ carriageReturn

/-- When `ConsumeLine` does what it is for. -/
def LineFits (cord : Cord) (output : Bytes) : Prop :=
  (newline ∉ cord.content → cord.size = 0 ∨ cord.content = []) ∧
  ∀ line rest, newline ∉ line → cord.content = line ++ newline :: rest →
    line.length + 1 ≤ cord.size.toNat ∧
    (rest = [] ∨ (line.length + 1 < cord.size.toNat ∧ cord.EmptiesFirst)) ∧
    Shielded line output

/-! ## Trimming -/

theorem rdropWhile_append {Item : Type} (test : Item → Bool) (front back : List Item) :
    (front ++ back).rdropWhile test =
      if back.rdropWhile test = [] then front.rdropWhile test else front ++ back.rdropWhile test := by
  simp only [List.rdropWhile, List.reverse_append, List.dropWhile_append, List.reverse_eq_nil_iff]
  split
  · rename_i gone
    rw [if_pos (List.isEmpty_iff.mp gone)]
  · rename_i left
    rw [if_neg fun none_ => left (List.isEmpty_iff.mpr none_), List.reverse_append, List.reverse_reverse]

theorem rdropWhile_line {line : Bytes} (first : newline ∉ line) :
    (line.rdropWhile fun char => char == newline || char == carriageReturn) =
      line.rdropWhile (· == carriageReturn) := by
  induction line using List.reverseRecOn with
  | nil => rfl
  | append_singleton line char inductionHypothesis =>
    have other : (char == newline) = false := by
      rw [beq_eq_false_iff_ne]
      intro same
      exact first (by simp [same])
    have inside : newline ∉ line := fun member => first (List.mem_append_left _ member)
    by_cases trimmed : char = carriageReturn
    · rw [List.rdropWhile_concat_pos _ _ _ (by simp [trimmed]), List.rdropWhile_concat_pos _ _ _ (by simp [trimmed])]
      exact inductionHypothesis inside
    · rw [List.rdropWhile_concat_neg _ _ _ (by simp [trimmed, other]),
        List.rdropWhile_concat_neg _ _ _ (by simp [trimmed])]

/-- The line is trimmed, and the string in front of it with it when nothing is left of the line. -/
theorem trimLine_append_iff {line : Bytes} (first : newline ∉ line) (output : Bytes) :
    trimLine (output ++ (line ++ [newline])) = output ++ line.rdropWhile (· == carriageReturn) ↔
      Shielded line output := by
  have whole : trimLine (output ++ (line ++ [newline])) =
      (output ++ line).rdropWhile fun char => char == newline || char == carriageReturn := by
    rw [trimLine, ← List.append_assoc, List.rdropWhile_concat_pos _ _ _ (by simp)]
  rw [whole, rdropWhile_append, rdropWhile_line first, Shielded]
  split
  · rename_i gone
    have nothing : ¬ ∃ char ∈ line, char ≠ carriageReturn := by
      simpa [List.rdropWhile_eq_nil_iff] using gone
    rw [gone, List.append_nil, List.rdropWhile_eq_self_iff]
    constructor
    · intro kept
      refine .inr fun last here => ?_
      have behind := kept (by rintro rfl; cases here)
      rw [List.getLast?_eq_some_getLast (by rintro rfl; cases here)] at here
      rw [Option.some.inj here] at behind
      simpa using behind
    · intro shielded some_
      cases shielded with
      | inl left => exact absurd left nothing
      | inr apart => simpa using apart _ (List.getLast?_eq_some_getLast some_)
  · rename_i left
    refine iff_of_true rfl (.inl ?_)
    simpa [List.rdropWhile_eq_nil_iff] using left

/-! ## Taking the bytes of the line -/

/-- The loop takes all there is when it is asked for more. -/
theorem consumeLoop_short {bytes left : Nat} {size : UInt64} {buffers : List CordBuffer} (below : left ≤ bytes)
    (short : (buffers.map CordBuffer.unread).flatten.length < left) :
    (consumeLoop bytes left size buffers).buffers = [] := by
  induction buffers generalizing left with
  | nil => rfl
  | cons buffer buffers inductionHypothesis =>
    rw [List.map_cons, List.flatten_cons, List.length_append, CordBuffer.length_unread] at short
    rw [consumeLoop, if_neg (by omega), if_neg (by omega)]
    exact inductionHypothesis (by omega) (by omega)

/-- What is left of the content, also when fewer bytes are there than are asked for. -/
theorem content_consume {cord : Cord} {bytes : UInt64} (counted : bytes < cord.size) :
    (cord.consume bytes).2.content = cord.content.drop bytes.toNat := by
  have looped : (cord.consume bytes).2.content =
      ((consumeLoop bytes.toNat bytes.toNat cord.size cord.buffers).buffers.map CordBuffer.unread).flatten := by
    rw [consume, if_neg (UInt64.not_lt.mpr (UInt64.le_of_lt counted)), if_neg (UInt64.ne_of_lt counted)]
    by_cases whole : (consumeLoop bytes.toNat bytes.toNat cord.size cord.buffers).left = 0 <;> simp [whole, content]
  rw [looped]
  by_cases enough : bytes.toNat ≤ cord.content.length
  · exact (consumeLoop_spec bytes.toNat bytes.toNat cord.size cord.buffers (Nat.le_refl _) enough).2.2.1
  · rw [consumeLoop_short (Nat.le_refl _) (Nat.lt_of_not_le enough), List.drop_of_length_le (by omega)]
    rfl

/-- The bytes of the blocks that come first when as many are taken off as there are empty ones. -/
def bytesPopped (buffers : List CordBuffer) : Nat :=
  ((buffers.take (emptyBlocks buffers)).map CordBuffer.unread).flatten.length

theorem bytesPopped_eq_zero {buffers : List CordBuffer} :
    bytesPopped buffers = 0 ↔ buffers.Pairwise fun first second => second.size = 0 → first.size = 0 := by
  induction buffers with
  | nil => simp [bytesPopped]
  | cons buffer buffers inductionHypothesis =>
    rw [bytesPopped, emptyBlocks, List.pairwise_cons]
    by_cases none_ : buffer.size = 0
    · rw [List.countP_cons_of_pos (by simpa using none_), List.take_succ_cons, List.map_cons, List.flatten_cons,
        unread_of_size none_, List.nil_append]
      exact inductionHypothesis.trans (by simp [none_])
    · rw [List.countP_cons_of_neg (by simpa using none_)]
      cases count : buffers.countP fun buffer => decide (buffer.size = 0) with
      | zero =>
        -- No block behind this one is empty, and none is taken off.
        have all : ∀ other ∈ buffers, other.size ≠ 0 := by simpa using List.countP_eq_zero.mp count
        have rest : bytesPopped buffers = 0 := by
          rw [bytesPopped, emptyBlocks, count]
          rfl
        refine iff_of_true rfl ⟨fun other member gone => absurd gone (all other member), inductionHypothesis.mp rest⟩
      | succ more =>
        -- An empty block further on takes this one off, with its bytes.
        obtain ⟨other, member, gone⟩ := List.countP_pos_iff.mp (by rw [count]; exact Nat.succ_pos _)
        refine iff_of_false ?_ fun apart => none_ (apart.1 other member (by simpa using gone))
        rw [List.take_succ_cons, List.map_cons, List.flatten_cons, List.length_append, CordBuffer.length_unread]
        omega

/-- The blocks that are taken off during the scan are blocks in front of the end of the line. -/
theorem take_emptyBlocks (buffers : List CordBuffer) :
    buffers.take (emptyBlocks (blocksBefore buffers)) =
      (blocksBefore buffers).take (emptyBlocks (blocksBefore buffers)) := by
  obtain ⟨behind, split⟩ : blocksBefore buffers <+: buffers := List.takeWhile_prefix _
  have few : emptyBlocks (blocksBefore buffers) ≤ (blocksBefore buffers).length := List.countP_le_length
  calc
    _ = (blocksBefore buffers ++ behind).take (emptyBlocks (blocksBefore buffers)) := by rw [split]
    _ = _ := List.take_append_of_le_length few

theorem flatten_take_drop (buffers : List CordBuffer) (count : Nat) :
    (buffers.map CordBuffer.unread).flatten =
      ((buffers.take count).map CordBuffer.unread).flatten ++ ((buffers.drop count).map CordBuffer.unread).flatten := by
  rw [← List.flatten_append, ← List.map_append, List.take_append_drop]

/-- Less is taken off than the line has bytes. -/
theorem bytesPopped_le {buffers : List CordBuffer} {line rest : Bytes}
    (split : (buffers.map CordBuffer.unread).flatten = line ++ newline :: rest) :
    bytesPopped (blocksBefore buffers) ≤ line.length := by
  obtain ⟨behind, whole⟩ : blocksBefore buffers <+: buffers := List.takeWhile_prefix _
  have missing : newline ∉ ((blocksBefore buffers).map CordBuffer.unread).flatten := by
    intro member
    obtain ⟨bytes, inside, here⟩ := List.mem_flatten.mp member
    obtain ⟨buffer, before, same⟩ := List.mem_map.mp inside
    subst same
    exact absurd here (by simpa using List.mem_takeWhile_imp before)
  have parts : (buffers.map CordBuffer.unread).flatten =
      ((blocksBefore buffers).map CordBuffer.unread).flatten ++ (behind.map CordBuffer.unread).flatten := by
    rw [← List.flatten_append, ← List.map_append, whole]
  rw [parts] at split
  obtain ⟨later, longer, -⟩ := line_behind split missing
  have shorter := congrArg List.length
    (flatten_take_drop (blocksBefore buffers) (emptyBlocks (blocksBefore buffers)))
  rw [List.length_append] at shorter
  rw [longer, List.length_append, bytesPopped]
  omega

theorem content_drop (cord : Cord) (count : Nat) :
    ({ cord with buffers := cord.buffers.drop count } : Cord).content =
      cord.content.drop ((cord.buffers.take count).map CordBuffer.unread).flatten.length := by
  rw [content, content, flatten_take_drop cord.buffers count, List.drop_left]

/-- The line is gone and what is behind it is left when the size is large enough, and either nothing is behind the
line or nothing but empty blocks went during the scan. -/
theorem content_consume_line {cord : Cord} {line rest : Bytes} (limit : cord.content.length < 2 ^ 64)
    (split : cord.content = line ++ newline :: rest) :
    (({ cord with buffers := cord.buffers.drop (emptyBlocks (blocksBefore cord.buffers)) } : Cord).consume
      (.ofNat (line.length + 1))).2.content = rest ↔
        line.length + 1 ≤ cord.size.toNat ∧
          (rest = [] ∨ (line.length + 1 < cord.size.toNat ∧ cord.EmptiesFirst)) := by
  have popped := content_drop cord (emptyBlocks (blocksBefore cord.buffers))
  rw [take_emptyBlocks] at popped
  change _ = cord.content.drop (bytesPopped (blocksBefore cord.buffers)) at popped
  have few : bytesPopped (blocksBefore cord.buffers) ≤ line.length := bytesPopped_le split
  have length : cord.content.length = line.length + 1 + rest.length := by
    rw [split, List.length_append, List.length_cons]
    omega
  have used : (UInt64.ofNat (line.length + 1)).toNat = line.length + 1 :=
    UInt64.toNat_ofNat_of_lt' (Nat.lt_of_le_of_lt (by omega) limit)
  generalize into : ({ cord with buffers := cord.buffers.drop (emptyBlocks (blocksBefore cord.buffers)) } : Cord) =
    rest_ at popped ⊢
  have size : rest_.size = cord.size := by rw [← into]
  cases Nat.lt_trichotomy cord.size.toNat (line.length + 1) with
  | inl small =>
    -- `Consume` throws, and the line stays.
    have throws : rest_.size < .ofNat (line.length + 1) := by rwa [UInt64.lt_iff_toNat_lt, used, size]
    rw [consume, if_pos throws]
    refine iff_of_false (fun same => ?_) (by omega)
    have lengths := congrArg List.length (popped.symm.trans same)
    rw [List.length_drop] at lengths
    omega
  | inr more =>
    cases more with
    | inl exact_ =>
      -- All that the cord should have is asked for, and it is cleared.
      have all : UInt64.ofNat (line.length + 1) = rest_.size := UInt64.toNat_inj.mp (by rw [used, size, exact_])
      rw [consume, if_neg (by rw [all]; exact UInt64.lt_irrefl _), if_pos all]
      have cleared : rest_.clear.content = [] := rfl
      rw [cleared, eq_comm]
      exact ⟨fun none_ => ⟨by omega, .inl none_⟩, fun fits => fits.2.resolve_right (by omega)⟩
    | inr large =>
      have below : UInt64.ofNat (line.length + 1) < rest_.size := by rwa [UInt64.lt_iff_toNat_lt, used, size]
      -- Bytes that went during the scan are taken off in addition.
      rw [content_consume below, used, popped, List.drop_drop, Nat.add_comm, ← List.drop_drop, split, List.append_cons,
        List.drop_left' (by simp)]
      constructor
      · intro same
        have lengths := congrArg List.length same
        rw [List.length_drop] at lengths
        refine ⟨by omega, ?_⟩
        by_cases none_ : rest = []
        · exact .inl none_
        · have positive := List.length_pos_iff.mpr none_
          exact .inr ⟨large, bytesPopped_eq_zero.mp (by omega)⟩
      · intro fits
        cases fits.2 with
        | inl none_ => rw [none_, List.drop_nil]
        | inr first => rw [bytesPopped_eq_zero.mpr first.2, List.drop_zero]

/-! ## `ConsumeLine` -/

theorem takesLine_missing {cord : Cord} (noLine : newline ∉ cord.content) (output : Bytes) :
    ((cord.consumeLineInto output).thrown = true ∧ (cord.consumeLineInto output).output = output ∧
      (cord.consumeLineInto output).cord.content = cord.content) ↔ cord.size = 0 ∨ cord.content = [] := by
  obtain ⟨found, pops, scanned⟩ := scanLine_missing noLine
  rw [consumeLineInto]
  by_cases none_ : cord.size = 0
  · simp [none_]
  · change (scanLine cord.buffers).output = cord.content at scanned
    rw [if_neg none_]
    simp only [found, scanned, content_drop, Bool.false_eq_true, if_false, List.append_right_eq_self, true_and]
    constructor
    · exact fun kept => .inr kept.1
    · intro nothing
      have empty : cord.content = [] := nothing.resolve_left none_
      rw [empty, List.drop_nil]
      exact ⟨rfl, rfl⟩

theorem takesLine_found {cord : Cord} {line rest : Bytes} (limit : cord.content.length < 2 ^ 64)
    (first : newline ∉ line) (split : cord.content = line ++ newline :: rest) (output : Bytes) :
    ((cord.consumeLineInto output).thrown = false ∧
      (cord.consumeLineInto output).output = output ++ line.rdropWhile (· == carriageReturn) ∧
      (cord.consumeLineInto output).cord.content = rest) ↔
        line.length + 1 ≤ cord.size.toNat ∧
          (rest = [] ∨ (line.length + 1 < cord.size.toNat ∧ cord.EmptiesFirst)) ∧ Shielded line output := by
  rw [consumeLineInto]
  by_cases none_ : cord.size = 0
  · simp [none_]
  · rw [if_neg none_, scanLine_found split first]
    have consumed := content_consume_line limit split
    have trimmed := trimLine_append_iff first output
    simp only [if_true, true_and]
    rw [trimmed, consumed, and_comm, and_assoc]

/-- When `ConsumeLine` takes the first line and nothing else, and when it changes nothing without one. -/
theorem takesLine_iff {cord : Cord} (limit : cord.content.length < 2 ^ 64) (output : Bytes) :
    cord.TakesLine output ↔ cord.LineFits output := by
  refine and_congr (forall_congr' fun noLine => takesLine_missing noLine output) ?_
  refine forall_congr' fun line => forall_congr' fun rest => forall_congr' fun first => forall_congr' fun split => ?_
  exact takesLine_found limit first split output

theorem takesLine_iff_two :
    ((((empty 2 1).append (ascii "ab")).append (ascii "\r\ncd")).TakesLine (ascii "x") ↔
      (((empty 2 1).append (ascii "ab")).append (ascii "\r\ncd")).LineFits (ascii "x")) :=
  takesLine_iff (by decide) _

/-- Without a line, the string has grown by all that is in the cord. -/
theorem not_takesLine :
    newline ∉ ((empty 2 1).append (ascii "ab")).content ∧
      ¬ ((empty 2 1).append (ascii "ab")).TakesLine (ascii "x") := by
  have missing : newline ∉ ((empty 2 1).append (ascii "ab")).content := by decide
  refine ⟨missing, fun takes => ?_⟩
  have grown : (((empty 2 1).append (ascii "ab")).consumeLineInto (ascii "x")).output = ascii "xab" := by
    decide
  exact absurd ((takes.1 missing).2.1.symm.trans grown) (by decide)

end OpenInstrument.Server.Cord
