import OpenInstrument.Library.Base64
import OpenInstrument.ProtoWire
import OpenInstrument.Server.CordContent
import OpenInstrument.Server.QueryStrings

/-! # The bodies of requests and replies

A message is sent as text in the 64 letters of `base64_chars`.  The C++ side has loops of its own for that, and takes
up what it can read of any text.  The Go side uses the standard encoding of its library, which refuses a text that is
malformed.
-/

namespace OpenInstrument.Server

def base64Chars : Bytes := ascii "ABCDEFGHIJKLMNOPQRSTUVWXYZabcdefghijklmnopqrstuvwxyz0123456789+/"

/-- `isalnum` of the C locale, or `+`, or `/`. -/
def isBase64 (c : UInt8) : Bool :=
  (48 ≤ c && c ≤ 57) || (65 ≤ c && c ≤ 90) || (97 ≤ c && c ≤ 122) || c == 43 || c == 47

/-! ## Encoding -/

/-- `char_array_4` of `char_array_3`. -/
def encodeGroup (first second third : UInt8) : List UInt8 :=
  [(first &&& 0xfc) >>> 2, ((first &&& 0x03) <<< 4) + ((second &&& 0xf0) >>> 4),
    ((second &&& 0x0f) <<< 2) + ((third &&& 0xc0) >>> 6), third &&& 0x3f]

/-- `base64_chars[i]`. -/
def base64Char (i : UInt8) : UInt8 := base64Chars[i.toNat]?.getD 0

/-- The loop: the bytes in `char_array_3` that are left over, and the text. -/
def encodeLoop : Bytes → Bytes → Bytes → Bytes × Bytes
  | [], group, ret => (group, ret)
  | byte :: rest, group, ret =>
    match group ++ [byte] with
    | [first, second, third] => encodeLoop rest [] (ret ++ (encodeGroup first second third).map base64Char)
    | group => encodeLoop rest group ret

/-- `Base64Encode`. -/
def base64Encode (bytesToEncode : Bytes) (inLen : UInt32) : Bytes :=
  let (group, ret) := encodeLoop (bytesToEncode.take inLen.toNat) [] []
  if group = [] then ret
  else
    let filled := encodeGroup (group[0]?.getD 0) (group[1]?.getD 0) (group[2]?.getD 0)
    ret ++ (filled.take (group.length + 1)).map base64Char ++ List.replicate (3 - group.length) equals

/-! ## Decoding -/

/-- `char_array_3` of `char_array_4`. -/
def decodeGroup (first second third fourth : UInt8) : List UInt8 :=
  [(first <<< 2) + ((second &&& 0x30) >>> 4), ((second &&& 0xf) <<< 4) + ((third &&& 0x3c) >>> 2),
    ((third &&& 0x3) <<< 6) + fourth]

/-- `base64_chars.find(c)` in an `unsigned char`; `npos` becomes 255. -/
def base64Find (c : UInt8) : UInt8 :=
  if c ∈ base64Chars then UInt8.ofNat (base64Chars.idxOf c) else 255

/-- The condition of the loop. -/
def isLetter (c : UInt8) : Bool := c ≠ equals && isBase64 c

def decodeLoop : Bytes → Bytes → Bytes → Bytes × Bytes
  | [], group, ret => (group, ret)
  | c :: rest, group, ret =>
    if isLetter c then
      match group ++ [c] with
      | [first, second, third, fourth] =>
        decodeLoop rest []
          (ret ++ decodeGroup (base64Find first) (base64Find second) (base64Find third) (base64Find fourth))
      | group => decodeLoop rest group ret
    else (group, ret)

/-- `Base64Decode`, of a text whose length is an `int`. -/
def base64Decode (encodedString : Bytes) : Option Bytes :=
  if encodedString.length < 2 ^ 31 then
    let (group, ret) := decodeLoop encodedString [] []
    let filled := decodeGroup (base64Find (group[0]?.getD 0)) (base64Find (group[1]?.getD 0))
      (base64Find (group[2]?.getD 0)) (base64Find (group[3]?.getD 0))
    some (ret ++ filled.take (group.length - 1))
  else none

/-! ## Messages -/

variable {Message : Type}

/-- `SerializeProtobuf`.  A message of two gigabytes is not serialized. -/
def serializeProtobuf (codec : Codec Message) (message : Message) (output : Cord) : Option Cord := do
  let temp ← codec.marshal message
  output.copyFrom (base64Encode temp (UInt32.ofNat temp.length))

/-- `UnserializeProtobuf`. -/
def unserializeProtobuf (codec : Codec Message) (input : Cord) : Option Message := do
  codec.decode (← base64Decode input.content)

/-- `base64.StdEncoding` of the Go side. -/
def stdEncoding : Base64.Alphabet where
  letters := base64Chars
  length := by decide
  nodup := by decide
  pad := equals
  padOutside := by decide

/-- `EncodeToString`, and what a `NewEncoder` writes until it is closed. -/
def encodeToString (data : Bytes) : Bytes := stdEncoding.encode data

/-- `DecodeString`, which passes over line ends. -/
def decodeString (text : Bytes) : Option Bytes :=
  stdEncoding.decode (text.filter fun char => char ≠ newline && char ≠ carriageReturn)

/-- The body that `returnResponse` and `doRequest` send. -/
def sentBody (codec : Codec Message) (message : Message) : Option Bytes := do
  return encodeToString (← codec.marshal message)

/-- `parseRequest`, and how `doRequest` reads the body of a reply. -/
def parsedBody (codec : Codec Message) (body : Bytes) : Option Message := do
  codec.decode (← decodeString body)

/-! ## The groups as numbers -/

/-- The parts of a byte that are moved to its letters. -/
theorem byte_parts (byte : UInt8) :
    ((byte &&& 0xfc) >>> 2).toNat = byte.toNat / 4 ∧ ((byte &&& 0x03) <<< 4).toNat = byte.toNat % 4 * 16 ∧
      ((byte &&& 0xf0) >>> 4).toNat = byte.toNat / 16 ∧ ((byte &&& 0x0f) <<< 2).toNat = byte.toNat % 16 * 4 ∧
      ((byte &&& 0xc0) >>> 6).toNat = byte.toNat / 64 ∧ (byte &&& 0x3f).toNat = byte.toNat % 64 := by
  refine forall_byte (motive := fun byte =>
    ((byte &&& 0xfc) >>> 2).toNat = byte.toNat / 4 ∧ ((byte &&& 0x03) <<< 4).toNat = byte.toNat % 4 * 16 ∧
      ((byte &&& 0xf0) >>> 4).toNat = byte.toNat / 16 ∧ ((byte &&& 0x0f) <<< 2).toNat = byte.toNat % 16 * 4 ∧
      ((byte &&& 0xc0) >>> 6).toNat = byte.toNat / 64 ∧ (byte &&& 0x3f).toNat = byte.toNat % 64) ?_ byte
  decide +kernel

theorem base64Char_eq {i : UInt8} {number : Nat} (same : i.toNat = number) (small : number < 64) :
    base64Char i = stdEncoding.letter number := by
  have inside : number < base64Chars.length := small
  rw [base64Char, Base64.Alphabet.letter, same]
  show base64Chars[number]?.getD 0 = base64Chars[number]?.getD _
  rw [List.getElem?_eq_getElem inside, Option.getD_some, Option.getD_some]

theorem encodeGroup_eq (first second third : UInt8) :
    (encodeGroup first second third).map base64Char =
      [stdEncoding.letter (first.toNat / 4), stdEncoding.letter (first.toNat % 4 * 16 + second.toNat / 16),
        stdEncoding.letter (second.toNat % 16 * 4 + third.toNat / 64), stdEncoding.letter (third.toNat % 64)] := by
  have bound := first.toNat_lt
  have bound2 := second.toNat_lt
  have bound3 := third.toNat_lt
  obtain ⟨one, high, _, _, _, _⟩ := byte_parts first
  obtain ⟨_, _, low, high2, _, _⟩ := byte_parts second
  obtain ⟨_, _, _, _, low2, four⟩ := byte_parts third
  have two : (((first &&& 0x03) <<< 4) + ((second &&& 0xf0) >>> 4)).toNat =
      first.toNat % 4 * 16 + second.toNat / 16 := by
    rw [UInt8.toNat_add, high, low]
    omega
  have three : (((second &&& 0x0f) <<< 2) + ((third &&& 0xc0) >>> 6)).toNat =
      second.toNat % 16 * 4 + third.toNat / 64 := by
    rw [UInt8.toNat_add, high2, low2]
    omega
  simp only [encodeGroup, List.map_cons, List.map_nil, base64Char_eq one (by omega), base64Char_eq two (by omega),
    base64Char_eq three (by omega), base64Char_eq four (by omega)]

/-- What is written is the standard encoding. -/
theorem encodeLoop_eq (bytes ret : Bytes) :
    (let (group, text) := encodeLoop bytes [] ret
      if group = [] then text
      else
        text ++ ((encodeGroup (group[0]?.getD 0) (group[1]?.getD 0) (group[2]?.getD 0)).take (group.length + 1)).map
          base64Char ++ List.replicate (3 - group.length) equals) = ret ++ encodeToString bytes := by
  induction bytes using Base64.Alphabet.encode.induct generalizing ret with
  | case1 first second third rest inductionHypothesis =>
    have turn : encodeLoop (first :: second :: third :: rest) [] ret =
        encodeLoop rest [] (ret ++ (encodeGroup first second third).map base64Char) := rfl
    rw [turn, inductionHypothesis, encodeGroup_eq, List.append_assoc]
    rfl
  | case2 first second =>
    have turn : encodeLoop [first, second] [] ret = ([first, second], ret) := rfl
    have letters := congrArg (List.take 3) (encodeGroup_eq first second 0)
    rw [← List.map_take] at letters
    rw [turn]
    dsimp only
    rw [if_neg (List.cons_ne_nil _ _), List.append_assoc]
    exact congrArg (ret ++ ·) (congrArg (· ++ [equals]) letters)
  | case3 first =>
    have turn : encodeLoop [first] [] ret = ([first], ret) := rfl
    have letters := congrArg (List.take 2) (encodeGroup_eq first 0 0)
    rw [← List.map_take] at letters
    rw [turn]
    dsimp only
    rw [if_neg (List.cons_ne_nil _ _), List.append_assoc]
    exact congrArg (ret ++ ·) (congrArg (· ++ [equals, equals]) letters)
  | case4 => exact (List.append_nil ret).symm

theorem base64Encode_eq (bytes : Bytes) (inLen : UInt32) :
    base64Encode bytes inLen = encodeToString (bytes.take inLen.toNat) := by
  have whole := encodeLoop_eq (bytes.take inLen.toNat) []
  rw [List.nil_append] at whole
  exact whole

/-! ## Reading letters -/

/-- The parts of numbers below 64 that make up bytes. -/
theorem letter_parts (number : UInt8) : number.toNat < 64 →
    (number <<< 2).toNat = number.toNat * 4 ∧ ((number &&& 0x30) >>> 4).toNat = number.toNat / 16 ∧
      ((number &&& 0xf) <<< 4).toNat = number.toNat % 16 * 16 ∧ ((number &&& 0x3c) >>> 2).toNat = number.toNat / 4 ∧
      ((number &&& 0x3) <<< 6).toNat = number.toNat % 4 * 64 := by
  refine forall_byte (motive := fun number => number.toNat < 64 →
    (number <<< 2).toNat = number.toNat * 4 ∧ ((number &&& 0x30) >>> 4).toNat = number.toNat / 16 ∧
      ((number &&& 0xf) <<< 4).toNat = number.toNat % 16 * 16 ∧ ((number &&& 0x3c) >>> 2).toNat = number.toNat / 4 ∧
      ((number &&& 0x3) <<< 6).toNat = number.toNat % 4 * 64) ?_ number
  decide +kernel

/-- A character is a letter if it is one of the 64, and the pad is none of them. -/
theorem isLetter_iff (c : UInt8) : isLetter c ↔ c ∈ base64Chars := by
  refine forall_byte (motive := fun c => isLetter c ↔ c ∈ base64Chars) ?_ c
  decide +kernel

theorem base64Find_eq {c : UInt8} {number : Nat} (stands : stdEncoding.number c = some number) :
    base64Find c = UInt8.ofNat number := by
  rw [Base64.Alphabet.number] at stands
  split at stands
  · rename_i inside
    cases stands
    exact if_pos inside
  · cases stands

theorem isLetter_of_number {c : UInt8} {number : Nat} (stands : stdEncoding.number c = some number) :
    isLetter c := by
  rw [isLetter_iff]
  by_contra outside
  rw [Base64.Alphabet.number] at stands
  exact absurd ((if_neg outside).symm.trans stands) (Option.some_ne_none number).symm

theorem decodeGroup_eq {one two three four : Nat} (small : one < 64) (small2 : two < 64) (small3 : three < 64)
    (small4 : four < 64) :
    decodeGroup (UInt8.ofNat one) (UInt8.ofNat two) (UInt8.ofNat three) (UInt8.ofNat four) =
      [UInt8.ofNat (one * 4 + two / 16), UInt8.ofNat (two % 16 * 16 + three / 4),
        UInt8.ofNat (three % 4 * 64 + four)] := by
  have toNat : ∀ {number : Nat}, number < 64 → (UInt8.ofNat number).toNat = number := by
    intro number small
    rw [UInt8.toNat_ofNat', Nat.mod_eq_of_lt (by omega)]
  obtain ⟨high, _, _, _, _⟩ := letter_parts (UInt8.ofNat one) (by rw [toNat small]; exact small)
  obtain ⟨_, low, high2, _, _⟩ := letter_parts (UInt8.ofNat two) (by rw [toNat small2]; exact small2)
  obtain ⟨_, _, _, low2, high3⟩ := letter_parts (UInt8.ofNat three) (by rw [toNat small3]; exact small3)
  simp only [decodeGroup, List.cons.injEq, and_true, ← UInt8.toNat_inj, UInt8.toNat_add, high, low, high2, low2, high3,
    toNat small, toNat small2, toNat small3, toNat small4, UInt8.toNat_ofNat']

/-- Four letters are a turn of the loop. -/
theorem decodeLoop_four {first second third fourth : UInt8} {one two three four : Nat}
    (stands : stdEncoding.number first = some one) (stands2 : stdEncoding.number second = some two)
    (stands3 : stdEncoding.number third = some three) (stands4 : stdEncoding.number fourth = some four)
    (rest ret : Bytes) :
    decodeLoop (first :: second :: third :: fourth :: rest) [] ret =
      decodeLoop rest [] (ret ++ [UInt8.ofNat (one * 4 + two / 16), UInt8.ofNat (two % 16 * 16 + three / 4),
        UInt8.ofNat (three % 4 * 64 + four)]) := by
  rw [← decodeGroup_eq (Base64.Alphabet.number_lt stands) (Base64.Alphabet.number_lt stands2)
    (Base64.Alphabet.number_lt stands3) (Base64.Alphabet.number_lt stands4), ← base64Find_eq stands,
    ← base64Find_eq stands2, ← base64Find_eq stands3, ← base64Find_eq stands4]
  rw [decodeLoop, if_pos (isLetter_of_number stands)]
  dsimp only [List.nil_append]
  rw [decodeLoop, if_pos (isLetter_of_number stands2)]
  dsimp only [List.cons_append, List.nil_append]
  rw [decodeLoop, if_pos (isLetter_of_number stands3)]
  dsimp only [List.cons_append, List.nil_append]
  rw [decodeLoop, if_pos (isLetter_of_number stands4)]
  rfl

/-- What the loop leaves over is the last of the text. -/
def decodeRest (text ret : Bytes) : Bytes :=
  let (group, ret) := decodeLoop text [] ret
  ret ++ (decodeGroup (base64Find (group[0]?.getD 0)) (base64Find (group[1]?.getD 0))
    (base64Find (group[2]?.getD 0)) (base64Find (group[3]?.getD 0))).take (group.length - 1)

/-- A text that the standard decoder accepts stands for the same bytes here. -/
theorem decodeRest_eq {text bytes : Bytes} (decoded : stdEncoding.decode text = some bytes) (ret : Bytes) :
    decodeRest text ret = ret ++ bytes := by
  have stop : ∀ (rest group ret : Bytes), decodeLoop (stdEncoding.pad :: rest) group ret = (group, ret) :=
    fun _ _ _ => if_neg (by decide)
  fun_induction Base64.Alphabet.decode stdEncoding text generalizing ret bytes with
  | case1 =>
    cases decoded
    rfl
  | case2 first second third fourth rest inductionHypothesis =>
    obtain ⟨one, stands, decoded⟩ := Option.bind_eq_some_iff.mp decoded
    obtain ⟨two, stands2, decoded⟩ := Option.bind_eq_some_iff.mp decoded
    by_cases padded : third = stdEncoding.pad ∧ fourth = stdEncoding.pad ∧ rest = []
    · rw [if_pos padded] at decoded
      cases decoded
      obtain ⟨rfl, rfl, rfl⟩ := padded
      have turned : decodeLoop [first, second, stdEncoding.pad, stdEncoding.pad] [] ret = ([first, second], ret) := by
        rw [decodeLoop, if_pos (isLetter_of_number stands)]
        dsimp only [List.nil_append]
        rw [decodeLoop, if_pos (isLetter_of_number stands2)]
        exact stop _ _ _
      have group := congrArg (List.take 1) (decodeGroup_eq (Base64.Alphabet.number_lt stands)
        (Base64.Alphabet.number_lt stands2) (by decide : 0 < 64) (by decide : 0 < 64))
      rw [← base64Find_eq stands, ← base64Find_eq stands2] at group
      rw [decodeRest, turned]
      exact congrArg (ret ++ ·) group
    · rw [if_neg padded] at decoded
      obtain ⟨three, stands3, decoded⟩ := Option.bind_eq_some_iff.mp decoded
      by_cases padded : fourth = stdEncoding.pad ∧ rest = []
      · rw [if_pos padded] at decoded
        cases decoded
        obtain ⟨rfl, rfl⟩ := padded
        have turned : decodeLoop [first, second, third, stdEncoding.pad] [] ret = ([first, second, third], ret) := by
          rw [decodeLoop, if_pos (isLetter_of_number stands)]
          dsimp only [List.nil_append]
          rw [decodeLoop, if_pos (isLetter_of_number stands2)]
          dsimp only [List.cons_append, List.nil_append]
          rw [decodeLoop, if_pos (isLetter_of_number stands3)]
          exact stop _ _ _
        have group := congrArg (List.take 2) (decodeGroup_eq (Base64.Alphabet.number_lt stands)
          (Base64.Alphabet.number_lt stands2) (Base64.Alphabet.number_lt stands3) (by decide : 0 < 64))
        rw [← base64Find_eq stands, ← base64Find_eq stands2, ← base64Find_eq stands3] at group
        rw [decodeRest, turned]
        exact congrArg (ret ++ ·) group
      · rw [if_neg padded] at decoded
        obtain ⟨four, stands4, decoded⟩ := Option.bind_eq_some_iff.mp decoded
        obtain ⟨others, decodedRest, decoded⟩ := Option.bind_eq_some_iff.mp decoded
        cases decoded
        have later := inductionHypothesis decodedRest (ret ++ [UInt8.ofNat (one * 4 + two / 16),
          UInt8.ofNat (two % 16 * 16 + three / 4), UInt8.ofNat (three % 4 * 64 + four)])
        rw [decodeRest, decodeLoop_four stands stands2 stands3 stands4]
        rw [List.append_assoc] at later
        exact later
  | case3 => cases decoded

theorem base64Decode_eq {text : Bytes} (short : text.length < 2 ^ 31) :
    base64Decode text = some (decodeRest text []) := if_pos short

/-! ## What the loop reads of any text -/

/-- Letters with the pads that are missing.  A single letter that is left over stands for no byte. -/
def fillUp : Bytes → Bytes
  | first :: second :: third :: fourth :: rest => first :: second :: third :: fourth :: fillUp rest
  | [first, second, third] => [first, second, third, stdEncoding.pad]
  | [first, second] => [first, second, stdEncoding.pad, stdEncoding.pad]
  | _ => []

theorem number_of_isLetter {c : UInt8} (letter : isLetter c) : ∃ number, stdEncoding.number c = some number :=
  ⟨_, if_pos ((isLetter_iff c).mp letter)⟩

/-- Nothing behind the first other character is looked at. -/
theorem decodeLoop_takeWhile (text group ret : Bytes) :
    decodeLoop text group ret = decodeLoop (text.takeWhile isLetter) group ret := by
  induction text generalizing group ret with
  | nil => rfl
  | cons c rest inductionHypothesis =>
    by_cases letter : isLetter c
    · rw [List.takeWhile_cons_of_pos letter, decodeLoop, decodeLoop, if_pos letter, if_pos letter]
      split
      · exact inductionHypothesis _ _
      · exact inductionHypothesis _ _
    · rw [List.takeWhile_cons_of_neg letter]
      exact if_neg letter

theorem decodeRest_takeWhile (text ret : Bytes) : decodeRest text ret = decodeRest (text.takeWhile isLetter) ret := by
  rw [decodeRest, decodeRest, decodeLoop_takeWhile]

theorem takeWhile_pad (letters rest : Bytes) :
    (letters ++ stdEncoding.pad :: rest).takeWhile isLetter = letters.takeWhile isLetter := by
  induction letters with
  | nil => exact List.takeWhile_cons_of_neg (by decide)
  | cons c letters inductionHypothesis =>
    rw [List.cons_append, List.takeWhile_cons, List.takeWhile_cons, inductionHypothesis]

/-- Letters with their pads stand for the bytes that are read of the letters. -/
theorem decode_fillUp {text : Bytes} (letters : ∀ c ∈ text, isLetter c) :
    ∃ bytes, stdEncoding.decode (fillUp text) = some bytes ∧ ∀ ret, decodeRest text ret = ret ++ bytes := by
  fun_induction fillUp text with
  | case1 first second third fourth rest inductionHypothesis =>
    obtain ⟨one, stands⟩ := number_of_isLetter (letters first (by simp))
    obtain ⟨two, stands2⟩ := number_of_isLetter (letters second (by simp))
    obtain ⟨three, stands3⟩ := number_of_isLetter (letters third (by simp))
    obtain ⟨four, stands4⟩ := number_of_isLetter (letters fourth (by simp))
    obtain ⟨bytes, decoded, read⟩ := inductionHypothesis fun c member => letters c (by simp [member])
    refine ⟨_, by rw [Base64.Alphabet.decode_four stands stands2 stands3 stands4, decoded, Option.map_some],
      fun ret => ?_⟩
    rw [← List.append_assoc, ← read, decodeRest, decodeLoop_four stands stands2 stands3 stands4]
    rfl
  | case2 first second third =>
    obtain ⟨one, stands⟩ := number_of_isLetter (letters first (by simp))
    obtain ⟨two, stands2⟩ := number_of_isLetter (letters second (by simp))
    obtain ⟨three, stands3⟩ := number_of_isLetter (letters third (by simp))
    have decoded := Base64.Alphabet.decode_three stands stands2 stands3
    refine ⟨_, decoded, fun ret => ?_⟩
    rw [← decodeRest_eq decoded, decodeRest_takeWhile, ← takeWhile_pad [first, second, third] [],
      ← decodeRest_takeWhile]
    rfl
  | case3 first second =>
    obtain ⟨one, stands⟩ := number_of_isLetter (letters first (by simp))
    obtain ⟨two, stands2⟩ := number_of_isLetter (letters second (by simp))
    have decoded := Base64.Alphabet.decode_two stands stands2
    refine ⟨_, decoded, fun ret => ?_⟩
    rw [← decodeRest_eq decoded, decodeRest_takeWhile, ← takeWhile_pad [first, second] [stdEncoding.pad],
      ← decodeRest_takeWhile]
    rfl
  | case4 text notFour notThree notTwo =>
    refine ⟨[], rfl, fun ret => ?_⟩
    match text with
    | [] => rfl
    | [c] =>
      have letter : isLetter c := letters c (List.mem_singleton_self c)
      rw [decodeRest, decodeLoop, if_pos letter]
      rfl
    | [first, second] => exact absurd rfl (notTwo first second)
    | [first, second, third] => exact absurd rfl (notThree first second third)
    | first :: second :: third :: fourth :: rest => exact absurd rfl (notFour first second third fourth rest)

/-- Of any text the letters in front of the first other character are read, as the standard decoder reads them when they
are filled up with pads, so a text that the standard decoder accepts gives the same bytes here.  The standard decoder
refuses line ends, as RFC 4648 has it; Go's `DecodeString` is this decoder behind a filter that drops them. -/
theorem base64Decode_law {text : Bytes} (short : text.length < 2 ^ 31) :
    base64Decode text = stdEncoding.decode (fillUp (text.takeWhile isLetter)) ∧
      ∀ bytes, stdEncoding.decode text = some bytes → base64Decode text = some bytes := by
  rw [base64Decode_eq short]
  constructor
  · have letters : ∀ c ∈ text.takeWhile isLetter, isLetter c := fun _ member => List.mem_takeWhile_imp member
    obtain ⟨bytes, decoded, read⟩ := decode_fillUp letters
    rw [decodeRest_takeWhile, decoded, read, List.nil_append]
  · intro bytes decoded
    rw [decodeRest_eq decoded, List.nil_append]

/-- Letters behind an end of the text are lost, and so is a letter of its own. -/
theorem base64Decode_law_cut : base64Decode (ascii "T3BlTg=SW5") = some (ascii "OpeN") ∧
    stdEncoding.decode (ascii "T3BlTg=SW5") = none := by
  have short : (ascii "T3BlTg=SW5").length < 2 ^ 31 := by decide
  refine ⟨?_, by decide +kernel⟩
  rw [(base64Decode_law short).1]
  decide +kernel

/-! ## Messages between the two sides -/

theorem encodeToString_letters (bytes : Bytes) (char : UInt8) (member : char ∈ encodeToString bytes) :
    isLetter char ∨ char = equals := by
  have letter : ∀ {number : Nat}, number < 64 → isLetter (stdEncoding.letter number) ∨
      stdEncoding.letter number = equals :=
    fun small => .inl (isLetter_of_number (Base64.Alphabet.number_letter small))
  unfold encodeToString at member
  fun_induction Base64.Alphabet.encode stdEncoding bytes with
  | case1 first second third rest inductionHypothesis =>
    have bound := first.toNat_lt
    have bound2 := second.toNat_lt
    have bound3 := third.toNat_lt
    simp only [List.mem_cons] at member
    rcases member with rfl | rfl | rfl | rfl | member
    · exact letter (by omega)
    · exact letter (by omega)
    · exact letter (by omega)
    · exact letter (by omega)
    · exact inductionHypothesis member
  | case2 first second =>
    have bound := first.toNat_lt
    have bound2 := second.toNat_lt
    simp only [List.mem_cons, List.not_mem_nil, or_false] at member
    rcases member with rfl | rfl | rfl | rfl
    · exact letter (by omega)
    · exact letter (by omega)
    · exact letter (by omega)
    · exact .inr rfl
  | case3 first =>
    have bound := first.toNat_lt
    simp only [List.mem_cons, List.not_mem_nil, or_false] at member
    rcases member with rfl | rfl | rfl | rfl
    · exact letter (by omega)
    · exact letter (by omega)
    · exact .inr rfl
    · exact .inr rfl
  | case4 => cases member

theorem decodeString_encodeToString (data : Bytes) : decodeString (encodeToString data) = some data := by
  have kept : (encodeToString data).filter (fun char => char ≠ newline && char ≠ carriageReturn) =
      encodeToString data := by
    refine List.filter_eq_self.mpr fun char member => ?_
    have different : ∀ char : UInt8, (isLetter char ∨ char = equals) →
        (char ≠ newline && char ≠ carriageReturn) = true := by
      refine fun char => forall_byte (motive := fun char => (isLetter char ∨ char = equals) →
        (char ≠ newline && char ≠ carriageReturn) = true) ?_ char
      decide +kernel
    exact different char (encodeToString_letters data char member)
  rw [decodeString, kept]
  exact Base64.Alphabet.decode_encode data

/-- Both sides send the same text for a message, and both read the message off it, however the text is spread over
blocks. -/
theorem bodies_agree {Message : Type} (codec : Codec Message) (message : Message) (output : Cord)
    (empty : output.content = []) (usable : output.Usable) (allocates : output.defaultBufferSize.toNat ≤ 2 ^ 31)
    (short : 4 * (((codec.encode message).length + 2) / 3) < 2 ^ 31) :
    ∃ sent, serializeProtobuf codec message output = some sent ∧ sentBody codec message = some sent.content ∧
      parsedBody codec sent.content = some message ∧
      ∀ input : Cord, input.content = sent.content → unserializeProtobuf codec input = some message := by
  have marshalled : codec.marshal message = some (codec.encode message) := by
    refine if_pos ?_
    rw [maxMarshalSize]
    omega
  -- The text fits the 32 bits in which its length and that of the message are passed.
  have length : (encodeToString (codec.encode message)).length = 4 * (((codec.encode message).length + 2) / 3) :=
    Base64.Alphabet.encode_length _
  have below : (codec.encode message).length < UInt32.size := by
    rw [UInt32.size]
    omega
  have whole : base64Encode (codec.encode message) (.ofNat (codec.encode message).length) =
      encodeToString (codec.encode message) := by
    rw [base64Encode_eq, UInt32.toNat_ofNat_of_lt' below, List.take_length]
  have taken : (encodeToString (codec.encode message)).take ((encodeToString (codec.encode message)).length % 2 ^ 32) =
      encodeToString (codec.encode message) := by
    rw [Nat.mod_eq_of_lt (by omega), List.take_length]
  have copies : (output.copyFrom (encodeToString (codec.encode message))).isSome := by
    rw [Cord.copyFrom, taken]
    by_cases nonempty : encodeToString (codec.encode message) = []
    · rw [nonempty]
      rfl
    · exact (Cord.copyBytes_isSome_iff usable nonempty (by omega) (Nat.le_refl _)).mpr ⟨allocates, by omega⟩
  obtain ⟨sent, copied⟩ := Option.isSome_iff_exists.mp copies
  have content : sent.content = encodeToString (codec.encode message) := by
    rw [Cord.copyFrom, taken] at copied
    rw [(Cord.copyBytes_eq_some copied).1, empty, List.nil_append]
  refine ⟨sent, ?_, ?_, ?_, ?_⟩
  · rw [serializeProtobuf, marshalled]
    show output.copyFrom _ = _
    rw [whole, copied]
  · rw [sentBody, marshalled, content]
    rfl
  · rw [parsedBody, content, decodeString_encodeToString]
    exact codec.decode_encode message
  · intro input same
    have standard : stdEncoding.decode (encodeToString (codec.encode message)) = some (codec.encode message) :=
      Base64.Alphabet.decode_encode _
    rw [unserializeProtobuf, same, content, (base64Decode_law (by omega)).2 _ standard]
    exact codec.decode_encode message

theorem bodies_agree_gauge :
    ∃ sent, serializeProtobuf protoRuntime.stream (gauge "a" [5]) ⟨[], 1024, 64, 0⟩ = some sent ∧
      sentBody protoRuntime.stream (gauge "a" [5]) = some sent.content ∧
      parsedBody protoRuntime.stream sent.content = some (gauge "a" [5]) ∧
      ∀ input : Cord, input.content = sent.content →
        unserializeProtobuf protoRuntime.stream input = some (gauge "a" [5]) :=
  bodies_agree protoRuntime.stream (gauge "a" [5]) ⟨[], 1024, 64, 0⟩ rfl ⟨by decide, fun _ _ member => nomatch member⟩ (by decide)
    (by decide)

end OpenInstrument.Server
