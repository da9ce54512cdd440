import Mathlib.Data.List.Nodup
import Mathlib.Data.List.Basic

/-! # Bytes as letters

Three bytes are written as four letters of an alphabet of 64.  The last letters stand for what is left over, and are
filled up with a pad to four.
-/

namespace Base64

structure Alphabet where
  letters : List UInt8
  length : letters.length = 64
  nodup : letters.Nodup
  pad : UInt8
  padOutside : pad ∉ letters

namespace Alphabet

variable (alphabet : Alphabet)

def letter (number : Nat) : UInt8 := alphabet.letters[number]?.getD alphabet.pad

def number (char : UInt8) : Option Nat :=
  if char ∈ alphabet.letters then some (alphabet.letters.idxOf char) else none

def encode : List UInt8 → List UInt8
  | first :: second :: third :: rest =>
    alphabet.letter (first.toNat / 4) :: alphabet.letter (first.toNat % 4 * 16 + second.toNat / 16) ::
      alphabet.letter (second.toNat % 16 * 4 + third.toNat / 64) :: alphabet.letter (third.toNat % 64) :: encode rest
  | [first, second] =>
    [alphabet.letter (first.toNat / 4), alphabet.letter (first.toNat % 4 * 16 + second.toNat / 16),
      alphabet.letter (second.toNat % 16 * 4), alphabet.pad]
  | [first] => [alphabet.letter (first.toNat / 4), alphabet.letter (first.toNat % 4 * 16), alphabet.pad, alphabet.pad]
  | [] => []

/-- What four letters stand for; the pad may only be at the end of the text. -/
def decode : List UInt8 → Option (List UInt8)
  | [] => some []
  | first :: second :: third :: fourth :: rest => do
    let one ← alphabet.number first
    let two ← alphabet.number second
    if third = alphabet.pad ∧ fourth = alphabet.pad ∧ rest = [] then return [UInt8.ofNat (one * 4 + two / 16)]
    let three ← alphabet.number third
    if fourth = alphabet.pad ∧ rest = [] then
      return [UInt8.ofNat (one * 4 + two / 16), UInt8.ofNat (two % 16 * 16 + three / 4)]
    let four ← alphabet.number fourth
    return UInt8.ofNat (one * 4 + two / 16) :: UInt8.ofNat (two % 16 * 16 + three / 4) ::
      UInt8.ofNat (three % 4 * 64 + four) :: (← decode rest)
  | _ => none

variable {alphabet}

theorem number_letter {number : Nat} (small : number < 64) :
    alphabet.number (alphabet.letter number) = some number := by
  have inside : number < alphabet.letters.length := alphabet.length ▸ small
  rw [letter, List.getElem?_eq_getElem inside, Option.getD_some, Alphabet.number, if_pos (List.getElem_mem inside),
    alphabet.nodup.idxOf_getElem number inside]

theorem number_lt {char : UInt8} {number : Nat} (stands : alphabet.number char = some number) : number < 64 := by
  rw [Alphabet.number] at stands
  split at stands
  · rename_i inside
    cases stands
    exact alphabet.length ▸ List.idxOf_lt_length_of_mem inside
  · cases stands

@[simp] theorem number_pad : alphabet.number alphabet.pad = none := if_neg alphabet.padOutside

@[simp] theorem encode_length (bytes : List UInt8) : (alphabet.encode bytes).length = 4 * ((bytes.length + 2) / 3) := by
  fun_induction encode alphabet bytes with
  | case1 first second third rest inductionHypothesis =>
    simp only [List.length_cons, inductionHypothesis]
    omega
  | case2 | case3 | case4 => simp

theorem ne_pad_of_number {char : UInt8} {number : Nat} (stands : alphabet.number char = some number) :
    char ≠ alphabet.pad := by
  rintro rfl
  rw [number_pad] at stands
  cases stands

theorem decode_four {first second third fourth : UInt8} {one two three four : Nat}
    (stands : alphabet.number first = some one) (stands2 : alphabet.number second = some two)
    (stands3 : alphabet.number third = some three) (stands4 : alphabet.number fourth = some four)
    (rest : List UInt8) :
    alphabet.decode (first :: second :: third :: fourth :: rest) = (alphabet.decode rest).map
      ([UInt8.ofNat (one * 4 + two / 16), UInt8.ofNat (two % 16 * 16 + three / 4), UInt8.ofNat (three % 4 * 64 + four)]
        ++ ·) := by
  rw [decode, stands, stands2, stands3, stands4]
  simp only [Option.bind_eq_bind, Option.bind_some, ne_pad_of_number stands3, ne_pad_of_number stands4, false_and,
    if_false]
  cases alphabet.decode rest <;> rfl

theorem decode_three {first second third : UInt8} {one two three : Nat}
    (stands : alphabet.number first = some one) (stands2 : alphabet.number second = some two)
    (stands3 : alphabet.number third = some three) :
    alphabet.decode [first, second, third, alphabet.pad] =
      some [UInt8.ofNat (one * 4 + two / 16), UInt8.ofNat (two % 16 * 16 + three / 4)] := by
  rw [decode, stands, stands2, stands3]
  simp only [Option.bind_eq_bind, Option.bind_some, ne_pad_of_number stands3, false_and, if_false, and_self, if_true,
    Option.pure_def]

theorem decode_two {first second : UInt8} {one two : Nat} (stands : alphabet.number first = some one)
    (stands2 : alphabet.number second = some two) :
    alphabet.decode [first, second, alphabet.pad, alphabet.pad] = some [UInt8.ofNat (one * 4 + two / 16)] := by
  rw [decode, stands, stands2]
  simp only [Option.bind_eq_bind, Option.bind_some, and_self, if_true, Option.pure_def]

theorem decode_encode (bytes : List UInt8) : alphabet.decode (alphabet.encode bytes) = some bytes := by
  fun_induction encode alphabet bytes with
  | case1 first second third rest inductionHypothesis =>
    have bound := first.toNat_lt
    have bound2 := second.toNat_lt
    have bound3 := third.toNat_lt
    rw [decode_four (number_letter (by omega)) (number_letter (by omega)) (number_letter (by omega))
      (number_letter (by omega)), inductionHypothesis]
    simp only [Option.map_some, List.cons_append, List.nil_append, Option.some.injEq, List.cons.injEq, and_true,
      ← UInt8.toNat_inj, UInt8.toNat_ofNat']
    omega
  | case2 first second =>
    have bound := first.toNat_lt
    have bound2 := second.toNat_lt
    rw [decode_three (number_letter (by omega)) (number_letter (by omega)) (number_letter (by omega))]
    simp only [Option.some.injEq, List.cons.injEq, and_true, ← UInt8.toNat_inj, UInt8.toNat_ofNat']
    omega
  | case3 first =>
    have bound := first.toNat_lt
    rw [decode_two (number_letter (by omega)) (number_letter (by omega))]
    simp only [Option.some.injEq, List.cons.injEq, and_true, ← UInt8.toNat_inj, UInt8.toNat_ofNat']
    omega
  | case4 => rfl

end Alphabet

end Base64
