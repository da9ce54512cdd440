import Mathlib.Data.List.Lex
import Mathlib.Data.List.Sort
import Mathlib.Order.Defs.LinearOrder

/-! # Strings, integers and panics of the Go side

A Go string is a sequence of bytes, compared byte by byte; indexing and slicing count bytes.
Unsigned integers are Lean's fixed-width ones, which wrap as Go's do.  An operation that
panics ends the process: nothing in the store recovers.
-/

namespace OpenInstrument

instance linearOrderUInt8 : LinearOrder UInt8 where
  le_refl := UInt8.le_refl
  le_trans _ _ _ := UInt8.le_trans
  le_antisymm _ _ := UInt8.le_antisymm
  le_total := UInt8.le_total
  lt_iff_le_not_ge first second := by
    simp only [UInt8.lt_iff_toNat_lt, UInt8.le_iff_toNat_le]
    omega
  toDecidableLE := inferInstance

instance linearOrderUInt32 : LinearOrder UInt32 where
  le_refl := UInt32.le_refl
  le_trans _ _ _ := UInt32.le_trans
  le_antisymm _ _ := UInt32.le_antisymm
  le_total := UInt32.le_total
  lt_iff_le_not_ge first second := by
    simp only [UInt32.lt_iff_toNat_lt, UInt32.le_iff_toNat_le]
    omega
  toDecidableLE := inferInstance

instance linearOrderUInt64 : LinearOrder UInt64 where
  le_refl := UInt64.le_refl
  le_trans _ _ _ := UInt64.le_trans
  le_antisymm _ _ := UInt64.le_antisymm
  le_total := UInt64.le_total
  lt_iff_le_not_ge first second := by
    simp only [UInt64.lt_iff_toNat_lt, UInt64.le_iff_toNat_le]
    omega
  toDecidableLE := inferInstance

abbrev Bytes := List UInt8

abbrev GoString := List UInt8

/-- The bytes of an ASCII literal of the source. -/
def ascii (literal : String) : GoString := literal.toList.map fun letter => letter.val.toUInt8

def comma : UInt8 := 44
def equals : UInt8 := 61
def quote : UInt8 := 34
def openBrace : UInt8 := 123
def closeBrace : UInt8 := 125
def newline : UInt8 := 10
def star : UInt8 := 42
def dot : UInt8 := 46

@[simp] theorem comma_ne_equals : comma ≠ equals := by decide
@[simp] theorem comma_ne_quote : comma ≠ quote := by decide
@[simp] theorem quote_ne_equals : quote ≠ equals := by decide
@[simp] theorem newline_ne_equals : newline ≠ equals := by decide
@[simp] theorem newline_ne_quote : newline ≠ quote := by decide
@[simp] theorem newline_ne_comma : newline ≠ comma := by decide

theorem nil_le (str : GoString) : [] ≤ str := not_lt.mp (List.not_lt_nil str)

/-- The run-time errors the store can hit; a nil pointer may be to a message or to an open file. -/
inductive Panic where
  | nilMessage
  | nilFile
  | indexOutOfRange
  | sliceOutOfRange
  | divideByZero
  deriving DecidableEq, Repr

/-- `sort.Strings`. -/
def sortStrings (strings : List GoString) : List GoString := strings.insertionSort (· ≤ ·)

theorem sortStrings_perm (strings : List GoString) : (sortStrings strings).Perm strings :=
  List.perm_insertionSort _ _

theorem sortStrings_sorted (strings : List GoString) :
    (sortStrings strings).Pairwise (· ≤ ·) := by
  simpa [sortStrings] using List.pairwise_insertionSort (· ≤ ·) strings

end OpenInstrument
