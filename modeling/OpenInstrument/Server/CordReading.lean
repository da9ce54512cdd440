import OpenInstrument.Server.CordLines

/-! # Reading from a cord

A position in a cord is found by subtracting the sizes of the blocks in front of it.  A position at which a block
ends is behind the last byte of that block.

Two cords are compared block by block, and the length that is passed to `strncmp` is whether there are any bytes.
-/

namespace OpenInstrument.Server.Cord

/-- The loop of `at`.  Behind the bytes of a block stands whatever the memory holds. -/
def byteAtLoop : Nat → List CordBuffer → Outcome
  | _, [] => .runtimeError
  | start, buffer :: buffers =>
    -- A position right behind the block is taken for one inside it.
    if buffer.size < start then byteAtLoop (start - buffer.size) buffers
    else
      match buffer.unread[start]? with
      | some char => .returned [char]
      | none => .undefined

/-- `at`. -/
def byteAt (cord : Cord) (start : UInt64) : Outcome :=
  if cord.size ≤ start then .outOfRange else byteAtLoop start.toNat cord.buffers

/-- The loop of `Substr`, with the number of bytes that are wanted. -/
def substrLoop : Nat → Nat → List CordBuffer → Bytes
  | _, _, [] => []
  | start, reallen, buffer :: buffers =>
    if buffer.size < start then substrLoop (start - buffer.size) reallen buffers
    else
      -- At the end of a block this takes no bytes, and goes on at the beginning of the next one.
      let bytes := min reallen (buffer.size - start)
      (buffer.unread.drop start).take bytes ++
        if reallen - bytes = 0 then [] else substrLoop 0 (reallen - bytes) buffers

/-- `Substr`. -/
def substr (cord : Cord) (start len : UInt64) : Outcome :=
  if cord.size ≤ start then .outOfRange
  else .returned (substrLoop start.toNat (min (cord.size - start) len).toNat cord.buffers)

/-- `strncmp`, of strings that have the bytes which are compared. -/
def strncmp : Nat → Bytes → Bytes → Int
  | length + 1, left :: lefts, right :: rights =>
    if left ≠ right then left.toNat - right.toNat
    else if left = 0 then 0
    else strncmp length lefts rights
  | _, _, _ => 0

/-- The loop of `operator==`. -/
def equalsLoop : List CordBuffer → List CordBuffer → Bool
  | left :: lefts, right :: rights =>
    if left.size ≠ right.size then false
    -- The length is a comparison: it is 1 when there are any bytes.
    else if strncmp (if left.size ≠ 0 then 1 else 0) left.unread right.unread ≠ 0 then false
    else equalsLoop lefts rights
  | _, _ => true

/-- `operator==`. -/
def equals (left right : Cord) : Bool :=
  if right.size ≠ left.size then false else equalsLoop left.buffers right.buffers

/-! ## Single bytes -/

/-- A block ends at the position. -/
def EndsAt (buffers : List CordBuffer) (position : Nat) : Prop :=
  ∃ front behind, buffers = front ++ behind ∧ front ≠ [] ∧ (front.map CordBuffer.unread).flatten.length = position

theorem endsAt_cons {buffer : CordBuffer} {buffers : List CordBuffer} {position : Nat} :
    EndsAt (buffer :: buffers) position ↔
      position = buffer.size ∨ (buffer.size ≤ position ∧ EndsAt buffers (position - buffer.size)) := by
  constructor
  · intro ends
    obtain ⟨front, behind, split, nonempty, length⟩ := ends
    cases front with
    | nil => exact absurd rfl nonempty
    | cons first front =>
      rw [List.cons_append, List.cons.injEq] at split
      obtain ⟨same, split⟩ := split
      subst same
      rw [List.map_cons, List.flatten_cons, List.length_append, CordBuffer.length_unread] at length
      cases front with
      | nil => exact .inl length.symm
      | cons second front =>
        exact .inr ⟨by omega, second :: front, behind, split, List.cons_ne_nil _ _, by omega⟩
  · intro ends
    cases ends with
    | inl here => exact ⟨[buffer], buffers, rfl, List.cons_ne_nil _ _, by simp [here]⟩
    | inr later =>
      obtain ⟨reached, front, behind, split, -, length⟩ := later
      refine ⟨buffer :: front, behind, by rw [split, List.cons_append], List.cons_ne_nil _ _, ?_⟩
      rw [List.map_cons, List.flatten_cons, List.length_append, CordBuffer.length_unread, length]
      omega

/-- A byte is found unless a block ends in front of it. -/
theorem byteAtLoop_eq {buffers : List CordBuffer} {start : Nat} {char : UInt8}
    (here : (buffers.map CordBuffer.unread).flatten[start]? = some char) :
    byteAtLoop start buffers = .returned [char] ↔ ¬ EndsAt buffers start := by
  induction buffers generalizing start with
  | nil => simp at here
  | cons buffer buffers inductionHypothesis =>
    have length := buffer.length_unread
    rw [List.map_cons, List.flatten_cons] at here
    rw [byteAtLoop, endsAt_cons]
    -- Inside the block, right behind it, or further on.
    cases Nat.lt_trichotomy start buffer.size with
    | inl inside =>
      rw [List.getElem?_append_left (by omega)] at here
      rw [if_neg (by omega), here]
      exact iff_of_true rfl (by omega)
    | inr more =>
      cases more with
      | inl last =>
        rw [if_neg (by omega), List.getElem?_eq_none (by omega)]
        exact iff_of_false nofun (by simp [last])
      | inr behind =>
        rw [List.getElem?_append_right (by omega), length] at here
        rw [if_pos behind, inductionHypothesis here]
        have reached : buffer.size ≤ start := by omega
        have other : start ≠ buffer.size := by omega
        simp [reached, other]

theorem byteAt_eq_iff {cord : Cord} (exact_ : cord.SizeIsLength) {start : UInt64} {char : UInt8}
    (here : cord.content[start.toNat]? = some char) :
    cord.byteAt start = .returned [char] ↔ ¬ EndsAt cord.buffers start.toNat := by
  obtain ⟨inside, -⟩ := List.getElem?_eq_some_iff.mp here
  have below : ¬ cord.size ≤ start := by
    rw [UInt64.le_iff_toNat_le, exact_]
    omega
  rw [byteAt, if_neg below]
  exact byteAtLoop_eq here

/-! ## Parts -/

theorem substrLoop_eq (start reallen : Nat) (buffers : List CordBuffer) :
    substrLoop start reallen buffers = ((buffers.map CordBuffer.unread).flatten.drop start).take reallen := by
  induction buffers generalizing start reallen with
  | nil => simp [substrLoop]
  | cons buffer buffers inductionHypothesis =>
    have length := buffer.length_unread
    rw [substrLoop, List.map_cons, List.flatten_cons, List.drop_append, length]
    dsimp only
    split
    · rename_i behind
      have none_ : buffer.unread.drop start = [] := List.drop_of_length_le (by omega)
      rw [inductionHypothesis, none_, List.nil_append]
    · rename_i reached
      have left : (buffer.unread.drop start).length = buffer.size - start := by rw [List.length_drop, length]
      have whole : start - buffer.size = 0 := by omega
      have first : (buffer.unread.drop start).take (min reallen (buffer.size - start)) =
          (buffer.unread.drop start).take reallen := by
        rw [← left, ← List.take_take, List.take_of_length_le (Nat.le_refl _)]
      have more : reallen - min reallen (buffer.size - start) = reallen - (buffer.size - start) := by omega
      rw [List.take_append, left, whole, List.drop_zero, first, more]
      split
      · rename_i done
        rw [done, List.take_zero]
      · rw [inductionHypothesis, List.drop_zero]

theorem substr_eq {cord : Cord} (exact_ : cord.SizeIsLength) {start : UInt64} (inside : start < cord.size)
    (len : UInt64) : cord.substr start len = .returned ((cord.content.drop start.toNat).take len.toNat) := by
  have below : start.toNat < cord.content.length := by rwa [← exact_, ← UInt64.lt_iff_toNat_lt]
  have left : (cord.size - start).toNat = (cord.content.drop start.toNat).length := by
    rw [UInt64.toNat_sub_of_le _ _ (UInt64.le_of_lt inside), exact_, List.length_drop]
  have wanted : (min (cord.size - start) len).toNat = min (cord.size - start).toNat len.toNat := by
    by_cases order : cord.size - start ≤ len
    · rw [min_eq_left order, Nat.min_eq_left (UInt64.le_iff_toNat_le.mp order)]
    · have reverse : len ≤ cord.size - start := UInt64.le_of_lt (UInt64.not_le.mp order)
      rw [min_eq_right reverse, Nat.min_eq_right (UInt64.le_iff_toNat_le.mp reverse)]
  rw [substr, if_neg (UInt64.not_le.mpr inside), substrLoop_eq, wanted, left]
  change Outcome.returned ((cord.content.drop start.toNat).take _) = _
  rw [Nat.min_comm, ← List.take_take, List.take_of_length_le (Nat.le_refl _)]

/-- A byte is read where it is, no byte is read behind the end, and a part is what the content has there. -/
def ReadsAt (cord : Cord) (index start len : UInt64) : Prop :=
  (∀ char, cord.content[index.toNat]? = some char → cord.byteAt index = .returned [char]) ∧
  (cord.size ≤ index → cord.byteAt index = .outOfRange) ∧
  (start < cord.size → cord.substr start len = .returned ((cord.content.drop start.toNat).take len.toNat))

/-- `at` finds each byte that does not stand behind the end of a block, and `Substr` is always right. -/
theorem readsAt_iff {cord : Cord} (exact_ : cord.SizeIsLength) (index start len : UInt64) :
    cord.ReadsAt index start len ↔ (index < cord.size → ¬ EndsAt cord.buffers index.toNat) := by
  constructor
  · intro reads inside
    have below : index.toNat < cord.content.length := by rwa [← exact_, ← UInt64.lt_iff_toNat_lt]
    have here := List.getElem?_eq_getElem below
    exact (byteAt_eq_iff exact_ here).mp (reads.1 _ here)
  · intro apart
    refine ⟨fun char here => ?_, fun behind => if_pos behind, fun inside => substr_eq exact_ inside len⟩
    obtain ⟨below, -⟩ := List.getElem?_eq_some_iff.mp here
    rw [← exact_, ← UInt64.lt_iff_toNat_lt] at below
    exact (byteAt_eq_iff exact_ here).mpr (apart below)

theorem readsAt_iff_two :
    (((empty 2 1).append (ascii "ab")).append (ascii "cd")).ReadsAt 3 1 2 ↔
      ((3 : UInt64) < (((empty 2 1).append (ascii "ab")).append (ascii "cd")).size →
        ¬ EndsAt (((empty 2 1).append (ascii "ab")).append (ascii "cd")).buffers (3 : UInt64).toNat) :=
  readsAt_iff (show _ = _ by decide) 3 1 2

/-- The first byte of the second block is looked for behind the first one. -/
theorem not_readsAt :
    (((empty 2 1).append (ascii "ab")).append (ascii "cd")).SizeIsLength ∧
      ¬ (((empty 2 1).append (ascii "ab")).append (ascii "cd")).ReadsAt 2 0 0 := by
  refine ⟨show _ = _ by decide, fun reads => ?_⟩
  have read := reads.1 99 (by decide)
  exact absurd read (by decide)

/-! ## Equality -/

/-- Two lists agree in what is at the same places, as far as both go. -/
def Pairs (related : CordBuffer → CordBuffer → Prop) (left right : List CordBuffer) : Prop :=
  ∀ pair ∈ left.zip right, related pair.1 pair.2

theorem pairs_cons {related : CordBuffer → CordBuffer → Prop} {left right : CordBuffer}
    {lefts rights : List CordBuffer} :
    Pairs related (left :: lefts) (right :: rights) ↔ related left right ∧ Pairs related lefts rights := by
  simp [Pairs]

/-- The same sizes, of the cords and of the blocks that are at the same places. -/
def SameSizes (left right : Cord) : Prop :=
  left.size = right.size ∧ Pairs (fun left right => left.size = right.size) left.buffers right.buffers

/-- The same first bytes of the blocks that are at the same places. -/
def SameFirsts (left right : Cord) : Prop :=
  Pairs (fun left right => left.unread.head? = right.unread.head?) left.buffers right.buffers

/-- At most one byte is compared. -/
theorem strncmp_eq_zero {left right : CordBuffer} (same : left.size = right.size) :
    strncmp (if left.size ≠ 0 then 1 else 0) left.unread right.unread = 0 ↔
      left.unread.head? = right.unread.head? := by
  rw [← CordBuffer.length_unread, ← CordBuffer.length_unread] at same
  rw [← CordBuffer.length_unread]
  cases here : left.unread with
  | nil =>
    rw [here] at same
    rw [List.length_eq_zero_iff.mp same.symm]
    simp [strncmp]
  | cons first rest =>
    cases there : right.unread with
    | nil =>
      rw [here, there] at same
      cases same
    | cons second others =>
      by_cases equal : first = second
      · simp [strncmp, equal]
      · have values : first.toNat ≠ second.toNat := fun value => equal (UInt8.toNat_inj.mp value)
        simp only [List.length_cons, ne_eq, Nat.succ_ne_zero, not_false_eq_true, if_true, strncmp, equal,
          List.head?_cons, Option.some.injEq, iff_false]
        omega

theorem equalsLoop_eq_true (left right : List CordBuffer) :
    equalsLoop left right = true ↔
      Pairs (fun left right => left.size = right.size) left right ∧
        Pairs (fun left right => left.unread.head? = right.unread.head?) left right := by
  induction left generalizing right with
  | nil => simp [equalsLoop, Pairs]
  | cons left lefts inductionHypothesis =>
    cases right with
    | nil => simp [equalsLoop, Pairs]
    | cons right rights =>
      rw [equalsLoop, pairs_cons, pairs_cons]
      by_cases size : left.size = right.size
      · have compared := strncmp_eq_zero size
        by_cases first : left.unread.head? = right.unread.head?
        · simp only [size, ne_eq, not_true_eq_false, if_false, true_and, first] at compared ⊢
          rw [if_neg (by simpa using compared)]
          exact inductionHypothesis rights
        · simp only [first, iff_false] at compared
          simp [size, first] at compared ⊢
          simp [compared]
      · simp [size]

theorem equals_eq_true (left right : Cord) :
    left.equals right = true ↔ SameSizes left right ∧ SameFirsts left right := by
  rw [equals, SameSizes, SameFirsts, and_assoc, ← equalsLoop_eq_true]
  by_cases size : left.size = right.size
  · simp [size]
  · simp [size, Ne.symm size]

/-- The same content in the same division has the same first bytes. -/
theorem sameFirsts_of_content {left right : Cord} (sizes : SameSizes left right) (same : left.content = right.content) :
    SameFirsts left right := by
  have loop : ∀ {left right : List CordBuffer},
      Pairs (fun left right => left.size = right.size) left right →
      (left.map CordBuffer.unread).flatten = (right.map CordBuffer.unread).flatten →
        Pairs (fun left right => left.unread.head? = right.unread.head?) left right := by
    intro left
    induction left with
    | nil => simp [Pairs]
    | cons left lefts inductionHypothesis =>
      intro right pairs same
      cases right with
      | nil => simp [Pairs]
      | cons right rights =>
        rw [pairs_cons] at pairs ⊢
        simp only [List.map_cons, List.flatten_cons] at same
        -- Blocks of the same size at the same place of the same content are the same bytes.
        obtain ⟨here, behind⟩ := List.append_inj same (by simpa using pairs.1)
        exact ⟨by rw [here], inductionHypothesis pairs.2 behind⟩
  exact loop sizes.2 same

/-- Equality is right for two cords of the same content when they are divided alike, and for two cords of other
contents when they are divided in another way or differ in the first byte of a block. -/
theorem equals_iff (left right : Cord) :
    (left.equals right = true ↔ left.content = right.content) ↔
      (left.content = right.content → SameSizes left right) ∧
        (left.content ≠ right.content → ¬ (SameSizes left right ∧ SameFirsts left right)) := by
  rw [equals_eq_true]
  by_cases same : left.content = right.content
  · simp only [same, iff_true, true_implies, ne_eq, not_true_eq_false, false_implies, and_true]
    exact ⟨And.left, fun sizes => ⟨sizes, sameFirsts_of_content sizes same⟩⟩
  · simp [same]

/-- Only the first byte of a block is compared, and the same bytes in other blocks are not the same. -/
theorem equals_wrong :
    (((empty 2 1).append (ascii "ab")).equals ((empty 2 1).append (ascii "ac")) = true ∧
      ((empty 2 1).append (ascii "ab")).content ≠ ((empty 2 1).append (ascii "ac")).content) ∧
    (((empty 2 1).append (ascii "ab")).equals (((empty 2 1).append (ascii "a")).append (ascii "b")) = false ∧
      ((empty 2 1).append (ascii "ab")).content = (((empty 2 1).append (ascii "a")).append (ascii "b")).content) := by
  decide

end OpenInstrument.Server.Cord
