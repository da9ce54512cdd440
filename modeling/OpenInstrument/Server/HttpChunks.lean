import OpenInstrument.Server.CordLines

/-! # Chunked bodies

A body is written block by block, each behind a line with its size in hexadecimal digits, and a last line
with a zero.  The client takes the lines and the chunks from what it has read from its socket; when a line
is not there as a whole, it reads more and starts over with the line of a size.
-/

namespace OpenInstrument.Server

/-! ## Sizes -/

/-- `hexdigits[digit]`. -/
def hexDigit (digit : UInt32) : UInt8 :=
  if digit < 10 then 48 + digit.toUInt8 else 87 + digit.toUInt8

/-- The loop of `HexToBuffer`: the digits from the last one on.  A number of 32 bits has at most eight. -/
def hexLoop : Nat → UInt32 → Bytes
  | 0, _ => []
  | turns + 1, i => hexDigit (i &&& 15) :: if (0 : UInt32) < i >>> 4 then hexLoop turns (i >>> 4) else []

/-- What `HexToBuffer` writes, and at which index of its buffer: first the byte at the end of the string,
then the digits in front of it. -/
def hexToBuffer (i : UInt32) : List (Int × UInt8) :=
  (21, 0) :: (hexLoop 8 i).zipIdx.map fun digit => (20 - (digit.2 : Int), digit.1)

/-- The size of the buffer that `HexToBuffer` is called with. -/
def hexBufferSize : Int := 21

/-- The string that `HexToBuffer` returns. -/
def hexString (i : UInt32) : Bytes := (hexLoop 8 i).reverse

def hexValue (char : UInt8) : Option Nat :=
  if 48 ≤ char ∧ char ≤ 57 then some (char.toNat - 48)
  else if 97 ≤ char ∧ char ≤ 102 then some (char.toNat - 87)
  else if 65 ≤ char ∧ char ≤ 70 then some (char.toNat - 55)
  else none

def isHexDigit (char : UInt8) : Bool := (hexValue char).isSome

def isSpace (char : UInt8) : Bool := char == 32 || (9 ≤ char && char ≤ 13)

/-- The sign that a number may have: whether it is a minus, and what follows. -/
def readSign : Bytes → Bool × Bytes
  | [] => (false, [])
  | char :: rest =>
    if char = 43 then (false, rest) else if char = 45 then (true, rest) else (false, char :: rest)

/-- The number without the `0x` that it may start with. -/
def skipHexMark : Bytes → Bytes
  | zero :: mark :: digit :: rest =>
    if zero = 48 ∧ (mark = 120 ∨ mark = 88) ∧ isHexDigit digit = true then digit :: rest
    else zero :: mark :: digit :: rest
  | text => text

def hexNumber (digits : Bytes) : Nat := digits.foldl (fun number digit => number * 16 + (hexValue digit).getD 0) 0

/-- `HexToUint32`, by `sscanf` with `%08lx`: at most eight characters after leading blanks. -/
def hexToUint32 (line : Bytes) : Option UInt32 :=
  let signed := readSign ((line.dropWhile isSpace).take 8)
  let digits := (skipHexMark signed.2).takeWhile isHexDigit
  if digits = [] then none
  else if signed.1 then some (-.ofNat (hexNumber digits)) else some (.ofNat (hexNumber digits))

/-! ## Writing -/

def crlf : Bytes := [carriageReturn, newline]

def writeChunk (chunk : Bytes) : Bytes :=
  if chunk.length = 0 then [] else hexString (.ofNat chunk.length) ++ crlf ++ chunk ++ crlf

def writeLastChunk : Bytes := ascii "0" ++ crlf ++ crlf

/-- What `HttpMessage::Write` writes of a body with chunked encoding. -/
def writeChunked (body : Cord) : Bytes :=
  (body.buffers.map fun buffer => writeChunk buffer.unread).flatten ++ writeLastChunk

/-! ## Reading -/

/-- `Socket::Read`: the read buffer with the next bytes that arrive, and the reads after it. -/
def readMore (buffer : Cord) : List Bytes → Option (Cord × List Bytes)
  | [] => none
  | read :: reads => (buffer.copyFrom read).map fun next => (next, reads)

/-- The reads until the buffer seems to hold a chunk and its end.  The number of bytes has 32 bits. -/
def readEnough (len : UInt32) : Cord → List Bytes → Option (Cord × List Bytes)
  | buffer, [] => if buffer.size < (len + 2).toUInt64 then none else some (buffer, [])
  | buffer, read :: reads =>
    if buffer.size < (len + 2).toUInt64 then
      (buffer.copyFrom read).bind fun next => readEnough len next reads
    else some (buffer, read :: reads)

/-- The loop of `SendRequest` that reads a chunked body: the body of the reply when it ends, in the regular
way or by an exception, which is only logged.  There is none while it waits for bytes that do not come. -/
def chunkLoop : Nat → Cord → List Bytes → Cord → Option Cord
  | 0, _, _, _ => none
  | turns + 1, buffer, reads, body =>
    let again := fun buffer reads body =>
      (readMore buffer reads).bind fun next => chunkLoop turns next.1 next.2 body
    match buffer.consumeLine with
    | (.returned line, buffer) =>
      match hexToUint32 line with
      | none => some body
      | some len =>
        if len = 0 then
          match buffer.consumeLine with
          | (.returned _, _) => some body
          | (_, buffer) => again buffer reads body
        else
          (readEnough len buffer reads).bind fun enough =>
            match enough.1.consume len.toUInt64 with
            | (.returned data, buffer) =>
              (body.copyFrom data).bind fun body =>
                match buffer.consumeLine with
                | (.returned _, buffer) => chunkLoop turns buffer enough.2 body
                | (_, buffer) => again buffer enough.2 body
            | (.outOfRange, buffer) => again buffer enough.2 body
            | (_, _) => some body
    | (_, buffer) => again buffer reads body

/-- What chunked encoding is for: the sizes are written within their buffer and read back, and however the
bytes arrive, the reply ends up with the body. -/
structure ChunkedRoundTrip (body : Cord) : Prop where
  inBuffer : ∀ buffer ∈ body.buffers, 0 < buffer.size →
    ∀ write ∈ hexToBuffer (.ofNat buffer.size), 0 ≤ write.1 ∧ write.1 < hexBufferSize
  readsBack : ∀ buffer ∈ body.buffers, 0 < buffer.size →
    hexToUint32 (hexString (.ofNat buffer.size)) = some (.ofNat buffer.size)
  delivered : ∀ (buffered : Cord) (reads : List Bytes), buffered.Tidy →
    (∀ read ∈ reads, read ≠ [] ∧ read.length ≤ 4096) →
    buffered.size.toNat + reads.flatten.length < 2 ^ 64 →
    buffered.content ++ reads.flatten = writeChunked body →
    ∃ turns reply, chunkLoop turns buffered reads (.empty 1024 16) = some reply ∧ reply.content = body.content

/-! ## Sizes read back -/

theorem hexValue_hexDigit (i : UInt32) : hexValue (hexDigit (i &&& 15)) = some (i.toNat % 16) := by
  have digit : (i &&& 15).toNat = i.toNat % 16 := by
    rw [UInt32.toNat_and]
    exact Nat.and_two_pow_sub_one_eq_mod i.toNat 4
  have below : i.toNat % 16 < 16 := Nat.mod_lt _ (by decide)
  have same : i &&& 15 = .ofNat (i.toNat % 16) := by
    apply UInt32.toNat_inj.mp
    rw [digit]
    exact (UInt32.toNat_ofNat_of_lt' (Nat.lt_trans below (by decide))).symm
  rw [same]
  interval_cases i.toNat % 16 <;> decide

theorem hexLoop_value (turns : Nat) {i : UInt32} (fits : i.toNat < 16 ^ turns) :
    (hexLoop turns i).foldr (fun digit number => number * 16 + (hexValue digit).getD 0) 0 = i.toNat := by
  induction turns generalizing i with
  | zero =>
    rw [hexLoop, List.foldr_nil]
    omega
  | succ turns inductionHypothesis =>
    have rest : (i >>> 4).toNat = i.toNat / 16 := by
      rw [UInt32.toNat_shiftRight]
      exact Nat.shiftRight_eq_div_pow _ 4
    rw [hexLoop, List.foldr_cons, hexValue_hexDigit, Option.getD_some]
    split
    · rw [inductionHypothesis (by rw [rest, Nat.pow_succ] at *; omega), rest]
      omega
    · rename_i small
      have none_ : (i >>> 4).toNat = 0 := by
        have notPositive := mt UInt32.lt_iff_toNat_lt.mpr small
        rw [UInt32.toNat_zero] at notPositive
        omega
      rw [List.foldr_nil]
      omega

theorem isHexDigit_hexLoop (turns : Nat) (i : UInt32) : ∀ char ∈ hexLoop turns i, isHexDigit char = true := by
  induction turns generalizing i with
  | zero => simp [hexLoop]
  | succ turns inductionHypothesis =>
    intro char member
    rw [hexLoop] at member
    cases member with
    | head => rw [isHexDigit, hexValue_hexDigit]; rfl
    | tail _ member =>
      split at member
      · exact inductionHypothesis _ char member
      · cases member

theorem length_hexLoop_le (turns : Nat) (i : UInt32) : (hexLoop turns i).length ≤ turns := by
  induction turns generalizing i with
  | zero => exact Nat.le_refl 0
  | succ turns inductionHypothesis =>
    rw [hexLoop, List.length_cons]
    split
    · exact Nat.succ_le_succ (inductionHypothesis _)
    · exact Nat.succ_le_succ (Nat.zero_le _)

/-- A hexadecimal digit is not a blank, a sign or the mark of a hexadecimal number. -/
theorem not_special {char : UInt8} (digit : isHexDigit char = true) :
    isSpace char = false ∧ char ≠ 43 ∧ char ≠ 45 ∧ char ≠ 120 ∧ char ≠ 88 := by
  have all : ∀ code : Fin 256, isHexDigit (.ofNat code) = true →
      isSpace (.ofNat code) = false ∧ UInt8.ofNat code ≠ 43 ∧ UInt8.ofNat code ≠ 45 ∧
        UInt8.ofNat code ≠ 120 ∧ UInt8.ofNat code ≠ 88 := by
    decide +kernel
  have here := all ⟨char.toNat, char.toNat_lt⟩
  rw [UInt8.ofNat_toNat] at here
  exact here digit

theorem readSign_digits {digits : Bytes} (hex : ∀ char ∈ digits, isHexDigit char = true) :
    readSign digits = (false, digits) := by
  cases digits with
  | nil => rfl
  | cons char rest =>
    obtain ⟨_, plus, minus, _⟩ := not_special (hex char (List.mem_cons_self ..))
    rw [readSign, if_neg plus, if_neg minus]

theorem skipHexMark_digits {digits : Bytes} (hex : ∀ char ∈ digits, isHexDigit char = true) :
    skipHexMark digits = digits := by
  match digits with
  | [] | [_] | [_, _] => rfl
  | zero :: mark :: digit :: rest =>
    obtain ⟨_, _, _, small, large⟩ := not_special (hex mark (by simp))
    rw [skipHexMark, if_neg]
    intro ⟨_, marked, _⟩
    cases marked with
    | inl same => exact small same
    | inr same => exact large same

theorem isHexDigit_hexString (i : UInt32) : ∀ char ∈ hexString i, isHexDigit char = true := fun char member =>
  isHexDigit_hexLoop 8 i char (List.mem_reverse.mp member)

/-- A size is read back from the line that is written for it. -/
theorem hexToUint32_hexString (i : UInt32) : hexToUint32 (hexString i) = some i := by
  have hex := isHexDigit_hexString i
  have noBlank : (hexString i).dropWhile isSpace = hexString i := by
    cases digits : hexString i with
    | nil => rfl
    | cons char rest =>
      rw [List.dropWhile_cons_of_neg]
      rw [(not_special (hex char (by rw [digits]; exact List.mem_cons_self ..))).1]
      exact Bool.false_ne_true
  have short : (hexString i).take 8 = hexString i := by
    apply List.take_of_length_le
    rw [hexString, List.length_reverse]
    exact length_hexLoop_le 8 i
  have nonempty : hexString i ≠ [] := by
    rw [hexString, ne_eq, List.reverse_eq_nil_iff, hexLoop]
    exact List.cons_ne_nil _ _
  have number : hexNumber (hexString i) = i.toNat := by
    rw [hexNumber, hexString, List.foldl_reverse]
    exact hexLoop_value 8 i.toNat_lt
  have all : (hexString i).takeWhile isHexDigit = hexString i := List.takeWhile_eq_self_iff.mpr hex
  simp only [hexToUint32, noBlank, short, readSign_digits hex, skipHexMark_digits hex, all, nonempty, if_false,
    Bool.false_eq_true, number, UInt32.ofNat_toNat]

/-! ## Bodies without bytes -/

theorem writeChunked_empty {body : Cord} (empty : body.content = []) : writeChunked body = writeLastChunk := by
  have none_ : ∀ buffer ∈ body.buffers, writeChunk buffer.unread = [] := by
    intro buffer member
    have unread : buffer.unread = [] :=
      List.flatten_eq_nil_iff.mp empty _ (List.mem_map_of_mem member)
    rw [unread]
    rfl
  have flat : (body.buffers.map fun buffer => writeChunk buffer.unread).flatten = [] := by
    rw [List.flatten_eq_nil_iff]
    intro chunk member
    obtain ⟨buffer, inside, rfl⟩ := List.mem_map.mp member
    exact none_ buffer inside
  rw [writeChunked, flat, List.nil_append]

/-- A read that arrives is added to what has been read. -/
theorem readMore_cons {buffered : Cord} {read : Bytes} {reads : List Bytes} (tidy : buffered.Tidy)
    (short : read.length ≤ 4096)
    (limit : buffered.size.toNat + (read :: reads).flatten.length < 2 ^ 64) :
    ∃ next : Cord, readMore buffered (read :: reads) = some (next, reads) ∧ next.Tidy ∧
      next.content = buffered.content ++ read ∧ next.size.toNat + reads.flatten.length < 2 ^ 64 := by
  rw [List.flatten_cons, List.length_append] at limit
  obtain ⟨next, copied, content, tidy', size⟩ 
    := @Cord.tidy_copyFrom _ tidy read (by omega) (by omega)
  exact ⟨next, by rw [readMore, copied]; rfl, tidy', content, by omega⟩

/-- What stands behind the zero: when the client starts over there, it takes the end for a size and stops. -/
theorem chunkLoop_end {buffered body : Cord} {reads : List Bytes} (tidy : buffered.Tidy)
    (short : ∀ read ∈ reads, read.length ≤ 4096)
    (limit : buffered.size.toNat + reads.flatten.length < 2 ^ 64)
    (content : buffered.content ++ reads.flatten = crlf) :
    ∃ turns, chunkLoop turns buffered reads body = some body := by
  induction reads generalizing buffered with
  | nil =>
    have line : buffered.content = [carriageReturn] ++ newline :: [] := by simpa [crlf] using content
    obtain ⟨next, consumed, _⟩ := Cord.consumeLine_some tidy line (by decide)
    refine ⟨1, ?_⟩
    rw [chunkLoop, consumed]
    rfl
  | cons read reads inductionHypothesis =>
    by_cases here : newline ∈ buffered.content
    · have whole : buffered.content ++ (read :: reads).flatten = [carriageReturn] ++ newline :: [] := content
      obtain ⟨more, line, _⟩ := Cord.line_of_mem whole (by decide) here
      obtain ⟨next, consumed, _⟩ := Cord.consumeLine_some tidy line (by decide)
      refine ⟨1, ?_⟩
      rw [chunkLoop, consumed]
      rfl
    · obtain ⟨next, added, tidy', content', limit'⟩ := readMore_cons tidy (short read (List.mem_cons_self ..)) limit
      obtain ⟨turns, ends⟩ := inductionHypothesis tidy' (fun other member => short other (.tail _ member)) limit'
        (by rw [content', List.append_assoc]; exact content)
      refine ⟨turns + 1, ?_⟩
      rw [chunkLoop, Cord.consumeLine_none tidy here]
      simp only [added, Option.bind_some, ends]

/-- The client with the zero in front of it. -/
theorem chunkLoop_zero {buffered body : Cord} {reads : List Bytes} (tidy : buffered.Tidy)
    (short : ∀ read ∈ reads, read.length ≤ 4096)
    (limit : buffered.size.toNat + reads.flatten.length < 2 ^ 64) {more : Bytes}
    (line : buffered.content = [48, carriageReturn] ++ newline :: more) (content : crlf = more ++ reads.flatten) :
    ∃ turns, chunkLoop turns buffered reads body = some body := by
  obtain ⟨next, consumed, left, tidy', fewer⟩ := Cord.consumeLine_some tidy line (by decide)
  have zero : hexToUint32 (Cord.trimLine ([48, carriageReturn] ++ [newline])) = some 0 := by decide
  by_cases here : newline ∈ more
  · -- The end has arrived as well.
    obtain ⟨front, rest, split, first⟩ := List.eq_append_cons_of_mem here
    obtain ⟨_, ended, _⟩ := Cord.consumeLine_some tidy' (left.trans split) first
    refine ⟨1, ?_⟩
    simp only [chunkLoop, consumed, zero, if_true, ended]
  · have waits := Cord.consumeLine_none tidy' (by rw [left]; exact here)
    cases reads with
    | nil =>
      rw [List.flatten_nil, List.append_nil] at content
      exact absurd (by rw [← content]; decide) here
    | cons read reads =>
      obtain ⟨later, added, tidy'', content'', limit''⟩ :=
        @readMore_cons next read reads tidy' (short read (List.mem_cons_self ..)) (by omega)
      obtain ⟨turns, ends⟩ := @chunkLoop_end later body reads tidy'' (fun other member => short other (.tail _ member))
        limit'' (by rw [content'', left, content, List.append_assoc]; rfl)
      refine ⟨turns + 1, ?_⟩
      simp only [chunkLoop, consumed, zero, if_true, waits, added, Option.bind_some, ends]

/-- The last chunk alone leaves the body as it is, however it arrives. -/
theorem chunkLoop_lastChunk {buffered body : Cord} {reads : List Bytes} (tidy : buffered.Tidy)
    (short : ∀ read ∈ reads, read.length ≤ 4096)
    (limit : buffered.size.toNat + reads.flatten.length < 2 ^ 64)
    (content : buffered.content ++ reads.flatten = writeLastChunk) :
    ∃ turns, chunkLoop turns buffered reads body = some body := by
  have whole : writeLastChunk = [48, carriageReturn] ++ newline :: crlf := by decide
  induction reads generalizing buffered with
  | nil =>
    rw [List.flatten_nil, List.append_nil, whole] at content
    exact chunkLoop_zero tidy short limit content (List.append_nil _).symm
  | cons read reads inductionHypothesis =>
    by_cases here : newline ∈ buffered.content
    · obtain ⟨more, line, rest⟩ := Cord.line_of_mem (content.trans whole) (by decide) here
      exact chunkLoop_zero tidy short limit line rest
    · obtain ⟨next, added, tidy', content', limit'⟩ := readMore_cons tidy (short read (List.mem_cons_self ..)) limit
      obtain ⟨turns, ends⟩ := inductionHypothesis tidy' (fun other member => short other (.tail _ member)) limit'
        (by rw [content', List.append_assoc]; exact content)
      refine ⟨turns + 1, ?_⟩
      simp only [chunkLoop, Cord.consumeLine_none tidy here, added, Option.bind_some, ends]

/-! ## Bodies that have arrived -/

theorem newline_notMem_hexString (i : UInt32) : newline ∉ hexString i := fun member =>
  absurd (not_special (isHexDigit_hexString i newline member)).1 (by decide)

/-- The end of the line with a size is taken off. -/
theorem trimLine_hexString (i : UInt32) :
    Cord.trimLine (hexString i ++ [carriageReturn] ++ [newline]) = hexString i := by
  rw [Cord.trimLine, List.rdropWhile_concat_pos _ _ _ (by decide), List.rdropWhile_concat_pos _ _ _ (by decide),
    List.rdropWhile_eq_self_iff]
  intro nonempty ends
  obtain ⟨blank, -⟩ := not_special (isHexDigit_hexString i _ (List.getLast_mem nonempty))
  rcases Bool.or_eq_true _ _ ▸ ends with same | same <;>
    rw [beq_iff_eq.mp same] at blank <;> exact absurd blank (by decide)

/-- A buffer that is long enough is not read to any more. -/
theorem readEnough_of_le {len : UInt32} {buffered : Cord} (enough : (len + 2).toNat ≤ buffered.size.toNat)
    (reads : List Bytes) : readEnough len buffered reads = some (buffered, reads) := by
  have stops : ¬ buffered.size < (len + 2).toUInt64 := by
    rw [UInt64.lt_iff_toNat_lt, UInt32.toNat_toUInt64]
    omega
  cases reads <;> rw [readEnough, if_neg stops]

/-- A chunk that is there as a whole is taken in one turn, whatever is still to arrive. -/
theorem chunkLoop_chunk {buffered body : Cord} {chunk rest : Bytes} (tidy : buffered.Tidy) (bodyTidy : body.Tidy)
    (nonempty : chunk ≠ []) (short : chunk.length ≤ 2 ^ 31) (limit : body.size.toNat + chunk.length < 2 ^ 64)
    (content : buffered.content = writeChunk chunk ++ rest) :
    ∃ next longer : Cord, next.Tidy ∧ next.content = rest ∧ next.size.toNat ≤ buffered.size.toNat ∧ longer.Tidy ∧
      longer.content = body.content ++ chunk ∧ longer.size.toNat = body.size.toNat + chunk.length ∧
      ∀ turns reads, chunkLoop (turns + 1) buffered reads body = chunkLoop turns next reads longer := by
  have positive := List.length_pos_iff.mpr nonempty
  have length : (UInt32.ofNat chunk.length).toNat = chunk.length :=
    UInt32.toNat_ofNat_of_lt' (by rw [UInt32.size]; omega)
  have some_ : UInt32.ofNat chunk.length ≠ 0 := fun zero => by
    rw [zero, UInt32.toNat_zero] at length
    omega
  have withEnd : (UInt32.ofNat chunk.length + 2).toNat = chunk.length + 2 := by
    rw [UInt32.toNat_add, length, show (2 : UInt32).toNat = 2 from rfl]
    exact Nat.mod_eq_of_lt (by omega)
  -- The line with the size, the chunk, and the line that is left behind it.
  have line : buffered.content =
      (hexString (.ofNat chunk.length) ++ [carriageReturn]) ++ newline :: (chunk ++ (crlf ++ rest)) := by
    rw [content, writeChunk, if_neg (by omega)]
    simp [crlf]
  have noNewline : newline ∉ hexString (.ofNat chunk.length) ++ [carriageReturn] := by
    rw [List.mem_append, List.mem_singleton]
    rintro (inside | same)
    · exact newline_notMem_hexString _ inside
    · exact absurd same (by decide)
  obtain ⟨sized, sizeTaken, sizedContent, sizedTidy, sizedFewer⟩ := Cord.consumeLine_some tidy line noNewline
  have whole : chunk.length + 2 ≤ sized.content.length := by
    rw [sizedContent, List.length_append, List.length_append]
    exact Nat.add_le_add_left (Nat.le_add_right 2 _) _
  have counted := sizedTidy.counted
  obtain ⟨ended, taken, endedContent, endedTidy, endedFewer⟩ :=
    @Cord.tidy_consume _ sizedTidy (UInt32.ofNat chunk.length).toUInt64
      (by rw [UInt32.toNat_toUInt64, length]; omega)
  rw [UInt32.toNat_toUInt64, length, sizedContent, List.take_left] at taken
  rw [UInt32.toNat_toUInt64, length, sizedContent, List.drop_left] at endedContent
  obtain ⟨longer, copied, longerContent, longerTidy, longerSize⟩ := Cord.tidy_copyFrom bodyTidy short limit
  obtain ⟨next, ending, nextContent, nextTidy, nextFewer⟩ :=
    @Cord.consumeLine_some _ endedTidy [carriageReturn] rest endedContent (by decide)
  refine ⟨next, longer, nextTidy, nextContent, by omega, longerTidy, longerContent, longerSize, fun turns reads => ?_⟩
  rw [chunkLoop]
  simp only [sizeTaken, trimLine_hexString, hexToUint32_hexString, some_, if_false,
    readEnough_of_le (by omega : (UInt32.ofNat chunk.length + 2).toNat ≤ sized.size.toNat), Option.bind_some, taken,
    copied, ending]

/-- Chunks that have all arrived are taken one after the other, and the last one may still be on its way. -/
theorem chunkLoop_arrived {chunks : List Bytes} {buffered body : Cord} {reads : List Bytes} {more : Bytes}
    (tidy : buffered.Tidy) (bodyTidy : body.Tidy) (short : ∀ chunk ∈ chunks, chunk.length ≤ 2 ^ 31)
    (arriving : ∀ read ∈ reads, read.length ≤ 4096)
    (limit : buffered.size.toNat + reads.flatten.length < 2 ^ 64)
    (bodyLimit : body.size.toNat + chunks.flatten.length < 2 ^ 64)
    (content : buffered.content = (chunks.map writeChunk).flatten ++ more)
    (last : more ++ reads.flatten = writeLastChunk) :
    ∃ turns reply, chunkLoop turns buffered reads body = some reply ∧
      reply.content = body.content ++ chunks.flatten := by
  induction chunks generalizing buffered body with
  | nil =>
    rw [List.map_nil, List.flatten_nil, List.nil_append] at content
    obtain ⟨turns, ends⟩ := @chunkLoop_lastChunk buffered body reads tidy arriving limit (by rw [content, last])
    exact ⟨turns, body, ends, by simp⟩
  | cons chunk chunks inductionHypothesis =>
    rw [List.flatten_cons, List.length_append] at bodyLimit
    rw [List.map_cons, List.flatten_cons, List.append_assoc] at content
    have shortRest : ∀ other ∈ chunks, other.length ≤ 2 ^ 31 := fun other member => short other (.tail _ member)
    by_cases empty : chunk = []
    · -- Nothing is written for a block without bytes.
      subst empty
      exact inductionHypothesis tidy bodyTidy shortRest limit (by simpa using bodyLimit) content
    · obtain ⟨next, longer, nextTidy, nextContent, fewer, longerTidy, longerContent, longerSize, turn⟩ :=
        chunkLoop_chunk tidy bodyTidy empty (short chunk List.mem_cons_self) (by omega) content
      obtain ⟨turns, reply, ends, replyContent⟩ :=
        inductionHypothesis nextTidy longerTidy shortRest (by omega) (by omega) nextContent
      refine ⟨turns + 1, reply, (turn turns reads).trans ends, ?_⟩
      rw [replyContent, longerContent, List.flatten_cons, List.append_assoc]

/-- Apart from the writes behind the buffer for sizes, a body whose chunks have all arrived is delivered.  While a chunk
is still on its way, the size of the read buffer may be too large after a line or a chunk that lay in several blocks,
and then the client takes the chunk too early. -/
theorem delivered_of_arrived {body buffered : Cord} {reads : List Bytes} {more : Bytes} (tidy : buffered.Tidy)
    (short : ∀ buffer ∈ body.buffers, buffer.size ≤ 2 ^ 31) (arriving : ∀ read ∈ reads, read.length ≤ 4096)
    (limit : buffered.size.toNat + reads.flatten.length < 2 ^ 64) (bodyLimit : body.content.length < 2 ^ 64)
    (content : buffered.content = (body.buffers.map fun buffer => writeChunk buffer.unread).flatten ++ more)
    (last : more ++ reads.flatten = writeLastChunk) :
    ∃ turns reply, chunkLoop turns buffered reads (.empty 1024 16) = some reply ∧ reply.content = body.content := by
  have start : (Cord.empty 1024 16).Tidy := ⟨⟨by decide, nofun⟩, by decide, nofun, Nat.zero_le _⟩
  refine @chunkLoop_arrived (body.buffers.map CordBuffer.unread) _ _ _ _ tidy start ?_ arriving limit ?_ ?_ last
  · intro chunk member
    obtain ⟨buffer, inside, rfl⟩ := List.mem_map.mp member
    rw [CordBuffer.length_unread]
    exact short buffer inside
  · rw [show (Cord.empty 1024 16).size.toNat = 0 from rfl, Nat.zero_add]
    exact bodyLimit
  · rw [content, List.map_map]
    rfl

/-- Chunked encoding does what it is for exactly when there is nothing to encode: with any byte there is a
size to write, and the end of its string is written behind the buffer. -/
theorem chunkedRoundTrip_iff (body : Cord) : ChunkedRoundTrip body ↔ body.content = [] := by
  constructor
  · intro roundTrip
    apply List.flatten_eq_nil_iff.mpr
    intro chunk member
    obtain ⟨buffer, inside, rfl⟩ := List.mem_map.mp member
    apply List.eq_nil_of_length_eq_zero
    rw [CordBuffer.length_unread]
    by_contra some_
    have written := roundTrip.inBuffer buffer inside (Nat.pos_of_ne_zero some_) (21, 0) (List.mem_cons_self ..)
    exact absurd written.2 (by decide)
  · intro empty
    have none_ : ∀ buffer ∈ body.buffers, ¬ 0 < buffer.size := by
      intro buffer member
      have unread : buffer.unread = [] := List.flatten_eq_nil_iff.mp empty _ (List.mem_map_of_mem member)
      rw [← CordBuffer.length_unread, unread]
      exact Nat.lt_irrefl 0
    refine ⟨fun buffer member some_ => absurd some_ (none_ buffer member),
      fun buffer _ _ => hexToUint32_hexString _, ?_⟩
    intro buffered reads tidy short limit content
    rw [writeChunked_empty empty] at content
    obtain ⟨turns, ends⟩ := @chunkLoop_lastChunk buffered (.empty 1024 16) reads tidy
      (fun read member => (short read member).2) limit content
    exact ⟨turns, _, ends, by rw [empty]; rfl⟩

/-- For a body of one byte, the end of the string with its size is written behind the buffer. -/
theorem chunkedRoundTrip_one :
    ((Cord.empty 1024 16).append [97]).content = [97] ∧
      writeChunked ((Cord.empty 1024 16).append [97]) = ascii "1\r\na\r\n0\r\n\r\n" ∧
      hexToBuffer 1 = [(21, 0), (20, 49)] ∧ ¬ (21 : Int) < hexBufferSize ∧
      ¬ ChunkedRoundTrip ((Cord.empty 1024 16).append [97]) := by
  refine ⟨by decide, by decide, by decide, by decide, ?_⟩
  intro roundTrip
  have member : CordBuffer.lend [97] ∈ ((Cord.empty 1024 16).append [97]).buffers := List.mem_singleton.mpr rfl
  have written := roundTrip.inBuffer _ member (by decide) (21, 0) (List.mem_cons_self ..)
  exact absurd written.2 (by decide)

end OpenInstrument.Server
