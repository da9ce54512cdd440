import Mathlib.Tactic.Ring
import Mathlib.Tactic.Linarith

/-! # Fixed-width little-endian numbers -/

namespace LittleEndian

/-- The low `width` bytes of a number, least significant first. -/
def encode : Nat → Nat → List UInt8
  | 0, _ => []
  | width + 1, number => UInt8.ofNat number :: encode width (number / 256)

def decode : List UInt8 → Nat
  | [] => 0
  | byte :: rest => byte.toNat + 256 * decode rest

@[simp] theorem encode_length (width number : Nat) : (encode width number).length = width := by
  induction width generalizing number with
  | zero => rfl
  | succ width inductionHypothesis => simp [encode, inductionHypothesis]

theorem decode_encode (width number : Nat) : decode (encode width number) = number % 256 ^ width := by
  induction width generalizing number with
  | zero => simp [encode, decode, Nat.mod_one]
  | succ width inductionHypothesis =>
    have split : number % 256 ^ (width + 1) = number % 256 + 256 * (number / 256 % 256 ^ width) := by
      rw [pow_succ', Nat.mod_mul]
    rw [encode, decode, inductionHypothesis, split, UInt8.toNat_ofNat']

theorem decode_encode_of_lt {width number : Nat} (bound : number < 256 ^ width) :
    decode (encode width number) = number := by
  rw [decode_encode, Nat.mod_eq_of_lt bound]

theorem decode_lt (bytes : List UInt8) : decode bytes < 256 ^ bytes.length := by
  induction bytes with
  | nil => simp [decode]
  | cons byte rest inductionHypothesis =>
    have bound := byte.toNat_lt
    rw [decode, List.length_cons, pow_succ]
    omega

/-- Texts of one length are told apart by their numbers. -/
theorem decode_inj {bytes others : List UInt8} (sameLength : bytes.length = others.length)
    (same : decode bytes = decode others) : bytes = others := by
  induction bytes generalizing others with
  | nil => exact (List.length_eq_zero_iff.mp sameLength.symm).symm
  | cons byte rest inductionHypothesis =>
    cases others with
    | nil => cases sameLength
    | cons other others =>
      have low := byte.toNat_lt
      have low' := other.toNat_lt
      rw [decode, decode] at same
      have bytesSame : byte = other := UInt8.toNat_inj.mp (by omega)
      rw [bytesSame, inductionHypothesis (Nat.succ.inj sameLength) (by omega)]

end LittleEndian
