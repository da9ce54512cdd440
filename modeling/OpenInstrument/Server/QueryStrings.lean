import OpenInstrument.Server.HttpConnection

/-! # Query strings

The parameters of a request are written with percent signs and hexadecimal digits, and joined by `=` and `&`.  A
plain `char` has a sign, so that a byte from 128 on is printed with eight digits, of which only two are read back.
-/

namespace OpenInstrument.Server

def percentSign : UInt8 := 37
def ampersand : UInt8 := 38
def plusSign : UInt8 := 43

structure RequestParam where
  key : Bytes
  value : Bytes
  deriving DecidableEq

/-! ## Encoding -/

/-- The characters that `UrlEncode` appends as they are. -/
def isNormal (char : UInt8) : Bool :=
  (97 ≤ char && char ≤ 122) || (65 ≤ char && char ≤ 90) || (48 ≤ char && char ≤ 57) || char == 47

/-- What `%02x` prints of a plain `char`, which is widened to an `int` with its sign. -/
def printHex (char : UInt8) : Bytes :=
  let digits := hexString char.toInt8.toInt32.toUInt32
  List.replicate (2 - digits.length) 48 ++ digits

def encodeChar (char : UInt8) : Bytes := if isNormal char then [char] else percentSign :: printHex char

def urlEncode (text : Bytes) : Bytes := text.flatMap encodeChar

/-- The query part of `Assemble`, behind the `?`. -/
def assembleParams (params : List RequestParam) : Bytes :=
  [ampersand].intercalate (params.map fun param => urlEncode param.key ++ [equals] ++ urlEncode param.value)

/-! ## Decoding -/

/-- `HexToChar`, by `sscanf` with `%02hhx`; it throws when there is no number. -/
def hexToChar (text : Bytes) : Option UInt8 :=
  let signed := readSign ((text.dropWhile isSpace).take 2)
  let digits := (skipHexMark signed.2).takeWhile isHexDigit
  if digits = [] then none
  else if signed.1 then some (-.ofNat (hexNumber digits)) else some (.ofNat (hexNumber digits))

/-- The loop of `UrlDecode`.  There is no result when `HexToChar` throws, and no text when fewer than two characters
follow a percent sign. -/
def urlDecodeLoop : Bytes → Option (Option Bytes)
  | [] => some (some [])
  | char :: text =>
    if char = percentSign then
      match text with
      -- Two digits are read, however many were printed.
      | first :: second :: text =>
        (hexToChar [first, second]).bind fun value => (urlDecodeLoop text).map (Option.map (value :: ·))
      | _ => some none
    else (urlDecodeLoop text).map (Option.map ((if char = plusSign then space else char) :: ·))

/-- `UrlDecode`; the empty string stands for a text that cannot be decoded. -/
def urlDecode (text : Bytes) : Option Bytes := (urlDecodeLoop text).map (·.getD [])

def decodeParam (key value : Bytes) : Option RequestParam :=
  (urlDecode key).bind fun key => (urlDecode value).map fun value => { key, value }

/-- The loop of `ParseQueryString`, with whether it reads a value, and what it has read of the key and the value. -/
def parseQueryLoop : Bytes → Bool → Bytes → Bytes → Option (List RequestParam)
  | [], _, key, value => if key = [] then some [] else (decodeParam key value).map ([·])
  | char :: text, false, key, value =>
    -- An empty key ends the reading with what has been read so far.
    if char = equals then if key = [] then some [] else parseQueryLoop text true key value
    else parseQueryLoop text false (key ++ [char]) value
  | char :: text, true, key, value =>
    if char = ampersand then
      (decodeParam key value).bind fun param => (parseQueryLoop text false [] []).map (param :: ·)
    else parseQueryLoop text true key (value ++ [char])

def parseQueryString (text : Bytes) : Option (List RequestParam) := parseQueryLoop text false [] []

/-! ## One byte -/

/-- What comes back of a byte: two of the eight digits as a byte, and the others as they are. -/
def decodedChar (char : UInt8) : Bytes := if char < 128 then [char] else 255 :: (printHex char).drop 2

/-- What is true of all numbers below 256 is true of all bytes. -/
theorem forall_byte {motive : UInt8 → Prop} (all : ∀ number < 256, motive (.ofNat number)) (char : UInt8) :
    motive char := by
  have here := all char.toNat char.toNat_lt
  rwa [UInt8.ofNat_toNat] at here

/-- Two digits are printed of a byte below 128, and they are read back. -/
theorem printHex_small (char : UInt8) :
    char < 128 → (printHex char).length = 2 ∧ hexToChar (printHex char) = some char := by
  refine forall_byte (motive := fun char =>
    char < 128 → (printHex char).length = 2 ∧ hexToChar (printHex char) = some char) ?_ char
  decide +kernel

/-- Eight digits are printed of another byte, the first ones of them `ff`. -/
theorem printHex_large (char : UInt8) :
    ¬ char < 128 → (printHex char).length = 8 ∧ (printHex char).take 2 = ascii "ff" := by
  refine forall_byte (motive := fun char =>
    ¬ char < 128 → (printHex char).length = 8 ∧ (printHex char).take 2 = ascii "ff") ?_ char
  decide +kernel

/-- No character stands for itself and for something else. -/
theorem encodeChar_special (char : UInt8) :
    (∀ written ∈ encodeChar char, written ≠ equals ∧ written ≠ ampersand) ∧
      ∀ written ∈ printHex char, written ≠ percentSign ∧ written ≠ plusSign := by
  have checked : ((encodeChar char).all fun written => written != equals && written != ampersand) ∧
      ((printHex char).all fun written => written != percentSign && written != plusSign) := by
    refine forall_byte (motive := fun char =>
      ((encodeChar char).all fun written => written != equals && written != ampersand) ∧
        ((printHex char).all fun written => written != percentSign && written != plusSign)) ?_ char
    decide +kernel
  simpa only [List.all_eq_true, Bool.and_eq_true, bne_iff_ne] using checked

theorem isNormal_special {char : UInt8} (normal : isNormal char) :
    char ≠ percentSign ∧ char ≠ plusSign ∧ char < 128 := by
  revert normal
  refine forall_byte (motive := fun char =>
    isNormal char → char ≠ percentSign ∧ char ≠ plusSign ∧ char < 128) ?_ char
  decide +kernel

theorem urlDecodeLoop_other {char : UInt8} (other : char ≠ percentSign) (text : Bytes) :
    urlDecodeLoop (char :: text) =
      (urlDecodeLoop text).map (Option.map ((if char = plusSign then space else char) :: ·)) := by
  cases text with
  | nil => simp [urlDecodeLoop, other]
  | cons first text =>
    cases text with
    | nil => simp [urlDecodeLoop, other]
    | cons second text => rw [urlDecodeLoop, if_neg other]

/-- Characters that stand for themselves. -/
theorem urlDecodeLoop_plain {front : Bytes} (plain : ∀ char ∈ front, char ≠ percentSign ∧ char ≠ plusSign)
    (text : Bytes) : urlDecodeLoop (front ++ text) = (urlDecodeLoop text).map (Option.map (front ++ ·)) := by
  induction front with
  | nil => simp
  | cons char front inductionHypothesis =>
    obtain ⟨noPercent, noPlus⟩ := plain char List.mem_cons_self
    rw [List.cons_append, urlDecodeLoop_other noPercent, if_neg noPlus,
      inductionHypothesis fun other member => plain other (List.mem_cons_of_mem _ member), Option.map_map]
    congr 1
    funext decoded
    rw [Function.comp_apply, Option.map_map]
    rfl

/-- What `UrlDecode` makes of an encoded character. -/
theorem urlDecodeLoop_encodeChar (char : UInt8) (text : Bytes) :
    urlDecodeLoop (encodeChar char ++ text) = (urlDecodeLoop text).map (Option.map (decodedChar char ++ ·)) := by
  rw [encodeChar, decodedChar]
  by_cases normal : isNormal char
  · obtain ⟨noPercent, noPlus, small⟩ := isNormal_special normal
    rw [if_pos normal, if_pos small]
    exact urlDecodeLoop_plain (fun other member => List.mem_singleton.mp member ▸ ⟨noPercent, noPlus⟩) text
  · rw [if_neg normal]
    by_cases small : char < 128
    · rw [if_pos small]
      obtain ⟨two, value⟩ := printHex_small char small
      obtain ⟨first, second, digits⟩ := List.length_eq_two.mp two
      rw [digits] at value ⊢
      rw [List.cons_append, List.cons_append, List.cons_append, List.nil_append, urlDecodeLoop, if_pos rfl]
      simp [value]
    · rw [if_neg small]
      -- The first two of eight digits are read back as the byte 255, and the other six stand for themselves.
      obtain ⟨-, start⟩ := printHex_large char small
      have plain : ∀ other ∈ (printHex char).drop 2, other ≠ percentSign ∧ other ≠ plusSign :=
        fun other member => (encodeChar_special char).2 other (List.mem_of_mem_drop member)
      have value : hexToChar (ascii "ff") = some 255 := by decide
      have split : percentSign :: printHex char ++ text =
          percentSign :: 102 :: 102 :: ((printHex char).drop 2 ++ text) := by
        conv_lhs => rw [← List.take_append_drop 2 (printHex char), start]
        rfl
      rw [split, urlDecodeLoop, if_pos rfl]
      simp only [show hexToChar [102, 102] = some 255 from value, Option.bind_some, urlDecodeLoop_plain plain,
        Option.map_map]
      congr 1
      funext decoded
      rw [Function.comp_apply, Option.map_map]
      rfl

/-! ## Texts -/

def readBackText (text : Bytes) : Bytes := text.flatMap decodedChar

theorem urlDecode_urlEncode (text : Bytes) : urlDecode (urlEncode text) = some (readBackText text) := by
  have loop : urlDecodeLoop (urlEncode text) = some (some (readBackText text)) := by
    induction text with
    | nil => rfl
    | cons char text inductionHypothesis =>
      rw [urlEncode, List.flatMap_cons, urlDecodeLoop_encodeChar]
      change (urlDecodeLoop (urlEncode text)).map _ = _
      rw [inductionHypothesis]
      rfl
  rw [urlDecode, loop]
  rfl

theorem length_decodedChar (char : UInt8) :
    if char < 128 then decodedChar char = [char] else 1 < (decodedChar char).length := by
  rw [decodedChar]
  split
  · rfl
  · rename_i large
    rw [List.length_cons, List.length_drop, (printHex_large char large).1]
    omega

theorem length_readBackText (text : Bytes) :
    text.length ≤ (readBackText text).length ∧ (readBackText text = text ↔ ∀ char ∈ text, char < 128) := by
  induction text with
  | nil => simp [readBackText]
  | cons char text inductionHypothesis =>
    obtain ⟨longer, same⟩ := inductionHypothesis
    have here := length_decodedChar char
    have split : readBackText (char :: text) = decodedChar char ++ readBackText text := List.flatMap_cons
    rw [split, List.length_append, List.length_cons, List.forall_mem_cons]
    by_cases small : char < 128
    · rw [if_pos small] at here
      rw [here, List.length_singleton]
      refine ⟨by omega, ?_⟩
      rw [List.cons_append, List.nil_append, List.cons.injEq, same]
      simp [small]
    · rw [if_neg small] at here
      refine ⟨by omega, iff_of_false (fun equal => ?_) fun all => small all.1⟩
      have lengths := congrArg List.length equal
      rw [List.length_append, List.length_cons] at lengths
      omega

/-- A text comes back when it has no byte from 128 on. -/
theorem readBackText_eq_iff (text : Bytes) : readBackText text = text ↔ ∀ char ∈ text, char < 128 :=
  (length_readBackText text).2

theorem urlEncode_special (text : Bytes) : ∀ written ∈ urlEncode text, written ≠ equals ∧ written ≠ ampersand := by
  intro written member
  obtain ⟨char, -, here⟩ := List.mem_flatMap.mp member
  exact (encodeChar_special char).1 written here

theorem urlEncode_ne_nil {text : Bytes} (nonempty : text ≠ []) : urlEncode text ≠ [] := by
  cases text with
  | nil => exact absurd rfl nonempty
  | cons char text =>
    rw [urlEncode, List.flatMap_cons, encodeChar]
    split
    · exact List.cons_ne_nil _ _
    · exact List.cons_ne_nil _ _

/-! ## Lists of parameters -/

theorem parseQueryLoop_key {front : Bytes} (plain : ∀ char ∈ front, char ≠ equals) (text key value : Bytes) :
    parseQueryLoop (front ++ text) false key value = parseQueryLoop text false (key ++ front) value := by
  induction front generalizing key with
  | nil => simp
  | cons char front inductionHypothesis =>
    rw [List.cons_append, parseQueryLoop, if_neg (plain char List.mem_cons_self),
      inductionHypothesis fun other member => plain other (List.mem_cons_of_mem _ member), List.append_assoc]
    rfl

theorem parseQueryLoop_value {front : Bytes} (plain : ∀ char ∈ front, char ≠ ampersand) (text key value : Bytes) :
    parseQueryLoop (front ++ text) true key value = parseQueryLoop text true key (value ++ front) := by
  induction front generalizing value with
  | nil => simp
  | cons char front inductionHypothesis =>
    rw [List.cons_append, parseQueryLoop, if_neg (plain char List.mem_cons_self),
      inductionHypothesis fun other member => plain other (List.mem_cons_of_mem _ member), List.append_assoc]
    rfl

def decodedParam (param : RequestParam) : RequestParam :=
  { key := readBackText param.key, value := readBackText param.value }

theorem decodeParam_urlEncode (param : RequestParam) :
    decodeParam (urlEncode param.key) (urlEncode param.value) = some (decodedParam param) := by
  rw [decodeParam, urlDecode_urlEncode, urlDecode_urlEncode]
  rfl

/-- The key and the value of the first parameter are read, and the loop is in front of what follows them. -/
theorem parseQueryLoop_param {param : RequestParam} (nonempty : param.key ≠ []) (text : Bytes) :
    parseQueryLoop (urlEncode param.key ++ [equals] ++ urlEncode param.value ++ text) false [] [] =
      parseQueryLoop text true (urlEncode param.key) (urlEncode param.value) := by
  rw [List.append_assoc, List.append_assoc,
    parseQueryLoop_key (fun char member => (urlEncode_special _ char member).1), List.nil_append, List.cons_append,
    parseQueryLoop, if_pos rfl, if_neg (urlEncode_ne_nil nonempty), List.nil_append,
    parseQueryLoop_value (fun char member => (urlEncode_special _ char member).2), List.nil_append]

theorem parseQueryString_assembleParams {params : List RequestParam} (nonempty : ∀ param ∈ params, param.key ≠ []) :
    parseQueryString (assembleParams params) = some (params.map decodedParam) := by
  induction params with
  | nil => rfl
  | cons param params inductionHypothesis =>
    have here := nonempty param List.mem_cons_self
    cases params with
    | nil =>
      have single := parseQueryLoop_param here []
      rw [List.append_nil] at single
      rw [parseQueryString, assembleParams, List.map_singleton, List.intercalate_singleton, single, parseQueryLoop,
        if_neg (urlEncode_ne_nil here), decodeParam_urlEncode]
      rfl
    | cons next params =>
      have rest := inductionHypothesis fun other member => nonempty other (List.mem_cons_of_mem _ member)
      have joined : assembleParams (param :: next :: params) =
          urlEncode param.key ++ [equals] ++ urlEncode param.value ++
            (ampersand :: assembleParams (next :: params)) := by
        simp [assembleParams, List.intercalate]
      rw [parseQueryString, joined, parseQueryLoop_param here, parseQueryLoop, if_pos rfl, decodeParam_urlEncode]
      rw [parseQueryString] at rest
      rw [rest]
      rfl

/-- A key and a value without bytes from 128 on. -/
def RequestParam.SevenBit (param : RequestParam) : Prop :=
  (∀ char ∈ param.key, char < 128) ∧ ∀ char ∈ param.value, char < 128

theorem decodedParam_eq_iff (param : RequestParam) : decodedParam param = param ↔ param.SevenBit := by
  rw [RequestParam.SevenBit, ← readBackText_eq_iff, ← readBackText_eq_iff, decodedParam]
  cases param
  simp

/-- Parameters come back when no byte of them is 128 or more. -/
theorem parse_assemble_iff {params : List RequestParam} (nonempty : ∀ param ∈ params, param.key ≠ []) :
    parseQueryString (assembleParams params) = some params ↔ ∀ param ∈ params, param.SevenBit := by
  rw [parseQueryString_assembleParams nonempty, Option.some.injEq]
  clear nonempty
  induction params with
  | nil => simp
  | cons param params inductionHypothesis =>
    rw [List.map_cons, List.cons.injEq, inductionHypothesis, decodedParam_eq_iff, List.forall_mem_cons]

theorem parse_assemble_iff_two :
    parseQueryString (assembleParams [⟨ascii "a b", ascii "1&2"⟩, ⟨ascii "c", []⟩]) =
        some [⟨ascii "a b", ascii "1&2"⟩, ⟨ascii "c", []⟩] ↔
      ∀ param ∈ [⟨ascii "a b", ascii "1&2"⟩, ⟨ascii "c", []⟩], RequestParam.SevenBit param :=
  parse_assemble_iff (by decide)

/-- A byte of 200 is written as `%ffffffc8`. -/
theorem parse_assemble_wrong :
    assembleParams [⟨ascii "k", [200]⟩] = ascii "k=%ffffffc8" ∧
      parseQueryString (assembleParams [⟨ascii "k", [200]⟩]) = some [⟨ascii "k", 255 :: ascii "ffffc8"⟩] ∧
      parseQueryString (assembleParams [⟨ascii "k", [200]⟩]) ≠ some [⟨ascii "k", [200]⟩] := by
  decide

end OpenInstrument.Server
