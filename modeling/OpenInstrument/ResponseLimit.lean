import Mathlib.Data.List.DropRight
import OpenInstrument.StreamWriter

/-! # The number of values in a response

`Get` sends the values of a group that lie in the range of the request to a writer, counts them, and cuts the
stream that was written down to its last values.  It counts what it sends, and the stream holds what is left
of it after run-length encoding, so the stream can have fewer values than are asked for when there were
enough to count.

The writer is taken to be done when its stream is cut.
-/

namespace OpenInstrument

variable {Double : Type}

/-- The checks for values that are too old or too new. -/
def inRange (minTimestamp maxTimestamp : Option UInt64) (value : Value Double) : Bool :=
  !(minTimestamp.any fun bound => value.timestamp < bound) &&
    !(maxTimestamp.any fun bound => value.timestamp > bound)

/-- `values[low:]`. -/
def sliceFrom (values : List (Value Double)) (low : UInt32) : Except Panic (List (Value Double)) :=
  if low.toNat ≤ values.length then .ok (values.drop low.toNat) else .error .sliceOutOfRange

/-- The end of the response loop: `value_count` values were sent to the writer. -/
def limitValues (maxValues : Option UInt32) (valueCount : UInt32) (written : List (Value Double)) :
    Except Panic (List (Value Double)) :=
  match maxValues with
  | none => .ok written
  | some maxValues =>
    if valueCount ≥ maxValues then sliceFrom written (UInt32.ofNat written.length - maxValues) else .ok written

/-- The stream of a group in the response, from the values that its mutations deliver. -/
def responseValues (eq : Double → Double → Bool) (zero : Double) (minTimestamp maxTimestamp : Option UInt64)
    (maxValues : Option UInt32) (values : List (Value Double)) : Except Panic (List (Value Double)) :=
  let sent := values.filter (inRange minTimestamp maxTimestamp)
  limitValues maxValues (UInt32.ofNat sent.length) (sent.foldl (writeValue eq zero) [])

/-- For a number of values that are sent and a number that are written: where the count, which wraps around,
reaches the limit, so does what was written, and by less than the count can tell apart; and where it does not,
no more was written. -/
def LimitSafe (maxValues : UInt32) (sent written : Nat) : Prop :=
  if sent % 2 ^ 32 < maxValues.toNat then written ≤ maxValues.toNat
  else maxValues.toNat ≤ written ∧ written < maxValues.toNat + 2 ^ 32

theorem limitSafe_iff {maxValues : UInt32} {sent written : Nat} (small : sent < 2 ^ 32) (encoded : written ≤ sent) :
    LimitSafe maxValues sent written ↔ sent < maxValues.toNat ∨ maxValues.toNat ≤ written := by
  rw [LimitSafe, Nat.mod_eq_of_lt small]
  split <;> omega

theorem writeValue_length (eq : Double → Double → Bool) (zero : Double) (written : List (Value Double))
    (value : Value Double) : (writeValue eq zero written value).length ≤ written.length + 1 := by
  rw [writeValue]
  split
  · simp
  · split
    · simp only [List.length_append, List.length_dropLast, List.length_singleton]
      omega
    · simp

/-- The encoding of some values is not longer than they are. -/
theorem foldl_writeValue_length (eq : Double → Double → Bool) (zero : Double) (values written : List (Value Double)) :
    (values.foldl (writeValue eq zero) written).length ≤ written.length + values.length := by
  induction values generalizing written with
  | nil => simp
  | cons value values inductionHypothesis =>
    have first := writeValue_length eq zero written value
    have rest := inductionHypothesis (writeValue eq zero written value)
    rw [List.foldl_cons, List.length_cons]
    omega

/-- Cutting off all but the last values: the bound is a difference of unsigned integers. -/
theorem sliceFrom_eq_rtake_iff (written : List (Value Double)) (maxValues : UInt32) :
    sliceFrom written (UInt32.ofNat written.length - maxValues) = .ok (written.rtake maxValues.toNat) ↔
      maxValues.toNat ≤ written.length ∧ written.length < maxValues.toNat + 2 ^ 32 := by
  have bound := maxValues.toNat_lt
  have low : (UInt32.ofNat written.length - maxValues).toNat =
      (2 ^ 32 - maxValues.toNat + written.length % 2 ^ 32) % 2 ^ 32 := by
    rw [UInt32.toNat_sub, UInt32.toNat_ofNat']
  rw [sliceFrom, List.rtake_eq_reverse_take_reverse, List.take_reverse, List.reverse_reverse, low]
  constructor
  · intro same
    split at same
    · rename_i inside
      -- Lists that lack equally many values in front are equally long.
      have lengths := congrArg List.length (Except.ok.inj same)
      rw [List.length_drop, List.length_drop] at lengths
      omega
    · cases same
  · rintro ⟨enough, within⟩
    have index : (2 ^ 32 - maxValues.toNat + written.length % 2 ^ 32) % 2 ^ 32 =
        written.length - maxValues.toNat := by omega
    rw [index, if_pos (Nat.sub_le _ _)]

theorem rtake_eq_self_iff (written : List (Value Double)) (limit : Nat) :
    written.rtake limit = written ↔ written.length ≤ limit := by
  constructor
  · intro same
    have lengths := congrArg List.length same
    rw [List.rtake_eq_reverse_take_reverse, List.length_reverse, List.length_take, List.length_reverse] at lengths
    omega
  · intro short
    rw [List.rtake_eq_reverse_take_reverse, List.take_of_length_le (by simpa using short), List.reverse_reverse]

theorem limitValues_last_iff (maxValues : UInt32) (sent : Nat) (written : List (Value Double)) :
    limitValues (some maxValues) (UInt32.ofNat sent) written = .ok (written.rtake maxValues.toNat) ↔
      LimitSafe maxValues sent written.length := by
  have count : UInt32.ofNat sent ≥ maxValues ↔ ¬ sent % 2 ^ 32 < maxValues.toNat := by
    rw [ge_iff_le, UInt32.le_iff_toNat_le, UInt32.toNat_ofNat', not_lt]
  simp only [limitValues, LimitSafe, count]
  by_cases few : sent % 2 ^ 32 < maxValues.toNat
  · rw [if_neg (not_not.mpr few), if_pos few, Except.ok.injEq, eq_comm, rtake_eq_self_iff]
  · rw [if_pos few, if_neg few]
    exact sliceFrom_eq_rtake_iff written maxValues

/-- The response holds the last values that were written, as many as are asked for, exactly where the limit is
safe. -/
theorem responseValues_last_iff (eq : Double → Double → Bool) (zero : Double)
    (minTimestamp maxTimestamp : Option UInt64) (maxValues : UInt32) (values : List (Value Double)) :
    responseValues eq zero minTimestamp maxTimestamp (some maxValues) values =
        .ok (((values.filter (inRange minTimestamp maxTimestamp)).foldl (writeValue eq zero) []).rtake
          maxValues.toNat) ↔
      LimitSafe maxValues (values.filter (inRange minTimestamp maxTimestamp)).length
        ((values.filter (inRange minTimestamp maxTimestamp)).foldl (writeValue eq zero) []).length :=
  limitValues_last_iff _ _ _

/-- With fewer than `2 ^ 32` values it is enough that the limit lies behind what is sent or not behind what is
written. -/
theorem limitValues_last_of_small {maxValues : UInt32} {sent written : List (Value Double)}
    (eq : Double → Double → Bool)
    (zero : Double) (small : sent.length < 2 ^ 32) (runs : sent.foldl (writeValue eq zero) [] = written)
    (enough : sent.length < maxValues.toNat ∨ maxValues.toNat ≤ written.length) :
    limitValues (some maxValues) (UInt32.ofNat sent.length) written = .ok (written.rtake maxValues.toNat) := by
  have encoded := foldl_writeValue_length eq zero sent []
  rw [runs, List.length_nil, Nat.zero_add] at encoded
  rw [limitValues_last_iff, limitSafe_iff small encoded]
  exact enough

/-- Two equal values become one, and the last two of them are asked for. -/
theorem responseValues_panics :
    responseValues Server.doubleEq 0 none none (some 2) [doubleAt 1 5, doubleAt 2 5] = .error .sliceOutOfRange := by
  decide

end OpenInstrument
