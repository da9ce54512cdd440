import Mathlib.Data.List.Basic
import OpenInstrument.Server.HashRing
import OpenInstrument.Server.HttpConnection

/-! # Durations as text

A duration is written as numbers with units, like `1y 47w 6d`, and read in the same form.  The seconds that are
written are taken apart from the greatest unit on; what is read is added up, whatever the order of the units is.
-/

namespace OpenInstrument.Server

/-- A `Duration`, in milliseconds. -/
structure Duration where
  ms : UInt64
  deriving DecidableEq

namespace Duration

/-! ## Writing -/

/-- `StringAppendf`, given the text that is to be printed.  Its buffer is that of `StringPrintf`. -/
def stringAppendf (output text : Bytes) : Option Bytes := (stringPrintf text).map (output ++ ·)

/-- The unit of the next number, in seconds, and its letter.  One year alone is written in weeks. -/
def unitOf (s : UInt64) : UInt64 × UInt8 :=
  if s > 60 * 60 * 24 * 365 then (60 * 60 * 24 * 365, 'y'.toUInt8)
  else if s ≥ 60 * 60 * 24 * 7 then (60 * 60 * 24 * 7, 'w'.toUInt8)
  else if s ≥ 60 * 60 * 24 then (60 * 60 * 24, 'd'.toUInt8)
  else if s ≥ 60 * 60 then (60 * 60, 'h'.toUInt8)
  else if s ≥ 60 then (60, 'm'.toUInt8)
  else (1, 's'.toUInt8)

theorem unitOf_le {s : UInt64} (positive : s ≠ 0) : 0 < (unitOf s).1.toNat ∧ (unitOf s).1.toNat ≤ s.toNat := by
  have one : 1 ≤ s.toNat := UInt64.lt_iff_toNat_lt.mp (UInt64.pos_iff_ne_zero.mpr positive)
  rw [unitOf]
  split_ifs with year week day hour minute
  · exact ⟨by decide, Nat.le_of_lt (UInt64.lt_iff_toNat_lt.mp year)⟩
  · exact ⟨by decide, UInt64.le_iff_toNat_le.mp week⟩
  · exact ⟨by decide, UInt64.le_iff_toNat_le.mp day⟩
  · exact ⟨by decide, UInt64.le_iff_toNat_le.mp hour⟩
  · exact ⟨by decide, UInt64.le_iff_toNat_le.mp minute⟩
  · exact ⟨by decide, one⟩

def numberText (number : UInt64) (letter : UInt8) : Bytes := ascii number.toNat.repr ++ [letter, space]

/-- The loop of `ToString`.  After the seconds nothing is left. -/
def appendUnits (longformat : Bool) (s : UInt64) (output : Bytes) : Option Bytes :=
  if _ : s ≠ 0 then
    (stringAppendf output (numberText (s / (unitOf s).1) (unitOf s).2)).bind fun output =>
      if longformat then appendUnits longformat (s % (unitOf s).1) output else some output
  else some output
termination_by s.toNat
decreasing_by
  have unit := unitOf_le ‹s ≠ 0›
  rw [UInt64.toNat_mod]
  exact Nat.lt_of_lt_of_le (Nat.mod_lt _ unit.1) unit.2

/-- `ToString`.  The last space is cut off. -/
def toString (duration : Duration) (longformat : Bool) : Option Bytes :=
  if duration.ms < 1000 then stringPrintf (ascii duration.ms.toNat.repr ++ ascii "ms")
  else (appendUnits longformat (duration.ms / 1000) []).map List.dropLast

/-! ## Reading -/

/-- A number of seconds or milliseconds in an `int64_t`, unless it overflows. -/
def int64 (number : Nat) : Option Nat := if number < 9223372036854775808 then some number else none

/-- `atoll`, of digits and spaces. -/
def atoll (start : Bytes) : Option Nat := int64 (decimal ((start.dropWhile (· == space)).takeWhile isDigit))

def unitSeconds (multiplier : UInt8) : Option Nat :=
  if multiplier = 's'.toUInt8 then some 1
  else if multiplier = 'm'.toUInt8 then some 60
  else if multiplier = 'h'.toUInt8 then some 3600
  else if multiplier = 'd'.toUInt8 then some 86400
  else if multiplier = 'w'.toUInt8 then some (60 * 60 * 24 * 7)
  else if multiplier = 'y'.toUInt8 then some (60 * 60 * 24 * 365)
  else none

/-- A number and its unit.  A unit that is not known is passed over with a warning. -/
def addUnit (seconds : Nat) (start : Bytes) (multiplier : UInt8) : Option Nat :=
  match unitSeconds multiplier with
  | none => some seconds
  | some unit => (atoll start).bind fun number => (int64 (number * unit)).bind fun product => int64 (seconds + product)

/-- The loop of `FromString`, with what has been passed since the last unit. -/
def addUnits : Bytes → Bytes → Nat → Option Nat
  | [], _, seconds => some seconds
  | p :: rest, start, seconds =>
    if isDigit p ∨ p = space then addUnits rest (start ++ [p]) seconds
    else (addUnit seconds start p).bind (addUnits rest [])

/-- `FromString`, unless it overflows.  The text is copied up to its first zero byte; behind that byte the loop would
read what is not in the copy. -/
def fromString (duration : Bytes) : Option Duration :=
  if 0 ∈ duration.dropLast then none
  else ((addUnits duration [] 0).bind fun seconds => int64 (seconds * 1000)).map fun ms => { ms := .ofNat ms }

/-! ## Numbers -/

theorem toNat_digit {letter : Char} (digit : letter.isDigit = true) :
    letter.val.toUInt8.toNat = letter.toNat ∧ 48 ≤ letter.toNat ∧ letter.toNat ≤ 57 := by
  have range := Char.isDigit_iff_toNat.mp digit
  refine ⟨?_, range⟩
  rw [UInt32.toNat_toUInt8]
  exact Nat.mod_eq_of_lt (Nat.lt_of_le_of_lt range.2 (by decide))

theorem isDigit_digits (number : Nat) : ∀ char ∈ ascii number.repr, isDigit char = true := by
  intro char member
  rw [ascii, Nat.toList_repr] at member
  obtain ⟨letter, among, rfl⟩ := List.mem_map.mp member
  have digit := toNat_digit (Nat.isDigit_of_mem_toDigits (by decide) (by decide) among)
  rw [isDigit, Bool.and_eq_true, decide_eq_true_eq, decide_eq_true_eq, UInt8.le_iff_toNat_le, UInt8.le_iff_toNat_le,
    digit.1]
  exact digit.2

theorem decimal_digits (number : Nat) : decimal (ascii number.repr) = number := by
  have steps : ∀ sofar, ∀ letter ∈ Nat.toDigits 10 number,
      sofar * 10 + (letter.val.toUInt8.toNat - 48) = 10 * sofar + (letter.toNat - '0'.toNat) := by
    intro sofar letter among
    rw [(toNat_digit (Nat.isDigit_of_mem_toDigits (by decide) (by decide) among)).1, Nat.mul_comm]
    rfl
  rw [decimal, ascii, Nat.toList_repr, List.foldl_map, List.foldl_ext _ _ 0 steps, ← Nat.ofDigitChars_eq_foldl,
    Nat.ofDigitChars_ten_toDigits]

theorem digits_length (number : UInt64) : (ascii number.toNat.repr).length ≤ 20 := by
  rw [ascii, List.length_map, String.length_toList]
  exact (Nat.length_repr_le_iff (by decide)).mpr (Nat.lt_trans number.toNat_lt (by decide))

theorem stringAppendf_numberText (output : Bytes) (number : UInt64) (letter : UInt8) :
    stringAppendf output (numberText number letter) = some (output ++ numberText number letter) := by
  have digits := digits_length number
  have length : (numberText number letter).length ≤ 22 := by
    rw [numberText, List.length_append]
    exact Nat.add_le_add_right digits 2
  rw [stringAppendf, stringPrintf, if_neg (by omega), List.take_of_length_le (by omega)]
  rfl

/-! ## Reading what was written -/

theorem unitSeconds_unitOf (s : UInt64) : unitSeconds (unitOf s).2 = some (unitOf s).1.toNat := by
  rw [unitOf]
  split_ifs <;> rfl

/-- A letter of a unit ends a number. -/
theorem not_passed_unitOf (s : UInt64) : ¬(isDigit (unitOf s).2 = true ∨ (unitOf s).2 = space) ∧ (unitOf s).2 ≠ 0 := by
  rw [unitOf]
  split_ifs <;> decide

theorem addUnits_passed {text : Bytes} (passed : ∀ p ∈ text, isDigit p = true ∨ p = space) (rest start : Bytes)
    (seconds : Nat) : addUnits (text ++ rest) start seconds = addUnits rest (start ++ text) seconds := by
  induction text generalizing start with
  | nil => rw [List.append_nil, List.nil_append]
  | cons p text inductionHypothesis =>
    obtain ⟨here, later⟩ := List.forall_mem_cons.mp passed
    rw [List.cons_append, addUnits, if_pos here, inductionHypothesis later, List.append_assoc, List.singleton_append]

/-- A last space is passed over. -/
theorem addUnits_space (text start : Bytes) (seconds : Nat) :
    addUnits (text ++ [space]) start seconds = addUnits text start seconds := by
  induction text generalizing start seconds with
  | nil => rfl
  | cons p text inductionHypothesis =>
    rw [List.cons_append, addUnits, addUnits]
    split_ifs
    · exact inductionHypothesis _ _
    · cases addUnit seconds start p with
      | none => rfl
      | some seconds => exact inductionHypothesis _ _

theorem atoll_digits {start : Bytes} (blank : ∀ p ∈ start, p = space) {number : Nat}
    (small : number < 9223372036854775808) : atoll (start ++ ascii number.repr) = some number := by
  have skipped : (start ++ ascii number.repr).dropWhile (· == space) = ascii number.repr := by
    rw [List.dropWhile_append_of_pos fun p member => beq_iff_eq.mpr (blank p member)]
    cases digits : ascii number.repr with
    | nil => rfl
    | cons digit rest =>
      have isDigit_ := isDigit_digits number digit (by rw [digits]; exact List.mem_cons_self)
      rw [List.dropWhile_cons_of_neg]
      intro isSpace
      rw [beq_iff_eq.mp isSpace] at isDigit_
      revert isDigit_
      decide
  have taken : (ascii number.repr).takeWhile isDigit = ascii number.repr :=
    List.takeWhile_eq_self_iff.mpr (isDigit_digits number)
  rw [atoll, skipped, taken, decimal_digits, int64, if_pos small]

/-- What stands for some seconds: it adds them up wherever it is read. -/
structure Stands (text : Bytes) (amount : Nat) : Prop where
  added : ∀ start : Bytes, (∀ p ∈ start, p = space) → ∀ seconds, seconds + amount < 9223372036854775808 →
    addUnits text start seconds = some (seconds + amount)
  noZero : (0 : UInt8) ∉ text

theorem stands_nil : Stands [] 0 := { added := fun _ _ _ _ => rfl, noZero := List.not_mem_nil }

theorem addUnit_unitOf {start : Bytes} (blank : ∀ p ∈ start, p = space) (number s : UInt64) {seconds : Nat}
    (small : seconds + number.toNat * (unitOf s).1.toNat < 9223372036854775808) (positive : 0 < (unitOf s).1.toNat) :
    addUnit seconds (start ++ ascii number.toNat.repr) (unitOf s).2 =
      some (seconds + number.toNat * (unitOf s).1.toNat) := by
  have factor : number.toNat ≤ number.toNat * (unitOf s).1.toNat := Nat.le_mul_of_pos_right _ positive
  have number_ : atoll (start ++ ascii number.toNat.repr) = some number.toNat := atoll_digits blank (by omega)
  have product : int64 (number.toNat * (unitOf s).1.toNat) = some (number.toNat * (unitOf s).1.toNat) :=
    if_pos (by omega)
  simp only [addUnit, unitSeconds_unitOf, number_, Option.bind_some, product]
  exact if_pos small

/-- A number with its unit, before what stands for the rest. -/
theorem Stands.cons {rest : Bytes} {amount : Nat} (stands : Stands rest amount) (number s : UInt64)
    (positive : 0 < (unitOf s).1.toNat) :
    Stands (numberText number (unitOf s).2 ++ rest) (number.toNat * (unitOf s).1.toNat + amount) := by
  obtain ⟨ends, notZero⟩ := not_passed_unitOf s
  constructor
  · intro start blank seconds small
    have passed : ∀ p ∈ ascii number.toNat.repr, isDigit p = true ∨ p = space := fun p member =>
      .inl (isDigit_digits _ p member)
    rw [numberText, List.append_assoc, addUnits_passed passed, List.cons_append, addUnits, if_neg ends,
      addUnit_unitOf blank number s (by omega) positive, Option.bind_some, List.cons_append, List.nil_append, addUnits,
      if_pos (.inr rfl), List.nil_append,
      stands.added [space] (fun p member => List.mem_singleton.mp member) _ (by omega), Nat.add_assoc]
  · intro zero
    obtain inNumber | inRest := List.mem_append.mp zero
    · obtain digit | unit := List.mem_append.mp inNumber
      · have isDigit_ := isDigit_digits _ _ digit
        revert isDigit_
        decide
      · cases List.mem_cons.mp unit with
        | inl isLetter => exact notZero isLetter.symm
        | inr isSpace => exact absurd (List.mem_singleton.mp isSpace) (by decide)
    · exact stands.noZero inRest

/-- What the loop of `ToString` appends stands for the seconds, and ends with a space. -/
theorem appendUnits_stands (s : UInt64) :
    ∃ text, (∀ output, appendUnits true s output = some (output ++ text)) ∧ Stands text s.toNat ∧
      (text = [] ∨ ∃ front, text = front ++ [space]) := by
  induction measured : s.toNat using Nat.strong_induction_on generalizing s with
  | h measure inductionHypothesis =>
    by_cases positive : s = 0
    · subst positive
      refine ⟨[], fun output => ?_, measured ▸ stands_nil, .inl rfl⟩
      rw [appendUnits, dif_neg (fun some_ => some_ rfl), List.append_nil]
    · have unit := unitOf_le positive
      have smaller : (s % (unitOf s).1).toNat < measure := by
        rw [UInt64.toNat_mod]
        exact Nat.lt_of_lt_of_le (Nat.mod_lt _ unit.1) (measured ▸ unit.2)
      obtain ⟨rest, appended, stands, ends⟩ := inductionHypothesis _ smaller (s % (unitOf s).1) rfl
      refine ⟨numberText (s / (unitOf s).1) (unitOf s).2 ++ rest, fun output => ?_, ?_, .inr ?_⟩
      · rw [appendUnits, dif_pos positive, stringAppendf_numberText, Option.bind_some, if_pos rfl, appended,
          List.append_assoc]
      · have whole : (s / (unitOf s).1).toNat * (unitOf s).1.toNat + (s % (unitOf s).1).toNat = measure := by
          rw [UInt64.toNat_div, UInt64.toNat_mod, Nat.mul_comm, Nat.div_add_mod, measured]
        exact whole ▸ stands.cons (s / (unitOf s).1) s unit.1
      · obtain rfl | ⟨front, rfl⟩ := ends
        · exact ⟨ascii (s / (unitOf s).1).toNat.repr ++ [(unitOf s).2], by simp [numberText]⟩
        · exact ⟨numberText (s / (unitOf s).1) (unitOf s).2 ++ front, (List.append_assoc _ _ _).symm⟩

/-- A duration of a second or more comes back in whole seconds. -/
theorem fromString_roundTrip (duration : Duration) (long : 1000 ≤ duration.ms)
    (small : duration.ms < 9223372036854775808) :
    (duration.toString true).bind fromString = some { ms := duration.ms / 1000 * 1000 } := by
  obtain ⟨text, appended, stands, ends⟩ := appendUnits_stands (duration.ms / 1000)
  have seconds : (duration.ms / 1000).toNat * 1000 < 9223372036854775808 := by
    have small := UInt64.lt_iff_toNat_lt.mp small
    rw [UInt64.toNat_div]
    exact Nat.lt_of_le_of_lt (Nat.div_mul_le_self _ _) small
  have cut : addUnits text.dropLast [] 0 = addUnits text [] 0 := by
    obtain rfl | ⟨front, rfl⟩ := ends
    · rfl
    · rw [List.dropLast_concat, addUnits_space]
  have noZero : (0 : UInt8) ∉ text.dropLast.dropLast := fun zero =>
    stands.noZero (List.dropLast_subset _ (List.dropLast_subset _ zero))
  have ms : UInt64.ofNat ((duration.ms / 1000).toNat * 1000) = duration.ms / 1000 * 1000 := by
    rw [UInt64.ofNat_mul, UInt64.ofNat_toNat]
    rfl
  have added := stands.added [] (fun _ member => absurd member List.not_mem_nil) 0 (by omega)
  rw [toString, if_neg (UInt64.not_lt.mpr long), appended, Option.map_some, List.nil_append, Option.bind_some,
    fromString, if_neg noZero, cut, added, Nat.zero_add, Option.bind_some, int64, if_pos seconds, Option.map_some, ms]

theorem fromString_roundTrip_minute :
    (toString { ms := 61999 } true).bind fromString = some { ms := 61999 / 1000 * 1000 } :=
  fromString_roundTrip { ms := 61999 } (by decide) (by decide)

end Duration

end OpenInstrument.Server
