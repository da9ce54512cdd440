import Mathlib.Tactic.IntervalCases
import OpenInstrument.Go.Text
import OpenInstrument.Library.LittleEndian

/-! # The hash function

`hashlittle` reads its key in words, in half words or in bytes, depending on where the key lies.  It stirs three
registers with each twelve bytes.  As the machine is little-endian, the three ways of reading give the same hash, and
no way of reading leaves the key.  Stirring can be undone, so that nothing of the key is lost before one of the
registers is reported.
-/

namespace OpenInstrument.Server

namespace Lookup3

/-- The internal state `a`, `b`, `c`. -/
@[ext] structure Registers where
  a : UInt32
  b : UInt32
  c : UInt32
deriving DecidableEq

def rot (x k : UInt32) : UInt32 := (x <<< k) ||| (x >>> (32 - k))

/-- A line of `mix`: `x -= z; x ^= rot(z, k); z += y;`. -/
def mixLine (k x z y : UInt32) : UInt32 × UInt32 := ((x - z) ^^^ rot z k, z + y)

def mix (r : Registers) : Registers :=
  let (a, c) := mixLine 4 r.a r.c r.b
  let (b, a) := mixLine 6 r.b a c
  let (c, b) := mixLine 8 c b a
  let (a, c) := mixLine 16 a c b
  let (b, a) := mixLine 19 b a c
  let (c, b) := mixLine 4 c b a
  { a, b, c }

/-- A line of `final`: `x ^= y; x -= rot(y, k);`. -/
def finalLine (k x y : UInt32) : UInt32 := (x ^^^ y) - rot y k

def final (r : Registers) : Registers :=
  let c := finalLine 14 r.c r.b
  let a := finalLine 11 r.a c
  let b := finalLine 25 r.b a
  let c := finalLine 16 c b
  let a := finalLine 4 a c
  let b := finalLine 14 b a
  let c := finalLine 24 c b
  { a, b, c }

/-! ## Reading the key -/

/-- `k[i]` of a key read in bytes; nothing is read outside the key. -/
def readByte (k : Bytes) (i : Nat) : Option UInt32 := k[i]?.map UInt8.toUInt32

/-- `k[i]` of a key read in half words of the little-endian machine. -/
def readHalf (k : Bytes) (i : Nat) : Option UInt32 := do
  let low ← k[2 * i]?
  let high ← k[2 * i + 1]?
  return UInt32.ofNat (LittleEndian.decode [low, high])

/-- `k[i]` of a key read in words. -/
def readWord (k : Bytes) (i : Nat) : Option UInt32 := do
  let first ← k[4 * i]?
  let second ← k[4 * i + 1]?
  let third ← k[4 * i + 2]?
  let fourth ← k[4 * i + 3]?
  return UInt32.ofNat (LittleEndian.decode [first, second, third, fourth])

/-- `k[i]+(((uint32_t)k[i + 1])<<16)` of half words. -/
def readHalves (k : Bytes) (i : Nat) : Option UInt32 := do
  return (← readHalf k i) + (← readHalf k (i + 1)) <<< 16

/-- The body of the loop, without `mix`, where the address is a multiple of four. -/
def wordTurn (k : Bytes) (r : Registers) : Option Registers := do
  return { a := r.a + (← readWord k 0), b := r.b + (← readWord k 1), c := r.c + (← readWord k 2) }

/-- The last block, with the `switch` for Valgrind, which `hash.cc` asks for.  A case that falls through goes on with
the one below it. -/
def wordTail (k : Bytes) : Nat → Registers → Option Registers
  | 12, r => wordTurn k r
  | 11, r => do wordTail k 10 { r with c := r.c + (← readByte k 10) <<< 16 }
  | 10, r => do wordTail k 9 { r with c := r.c + (← readByte k 9) <<< 8 }
  | 9, r => do wordTail k 8 { r with c := r.c + (← readByte k 8) }
  | 8, r => do return { r with b := r.b + (← readWord k 1), a := r.a + (← readWord k 0) }
  | 7, r => do wordTail k 6 { r with b := r.b + (← readByte k 6) <<< 16 }
  | 6, r => do wordTail k 5 { r with b := r.b + (← readByte k 5) <<< 8 }
  | 5, r => do wordTail k 4 { r with b := r.b + (← readByte k 4) }
  | 4, r => do return { r with a := r.a + (← readWord k 0) }
  | 3, r => do wordTail k 2 { r with a := r.a + (← readByte k 2) <<< 16 }
  | 2, r => do wordTail k 1 { r with a := r.a + (← readByte k 1) <<< 8 }
  | 1, r => do return { r with a := r.a + (← readByte k 0) }
  | _, r => some r

/-- The body of the loop where the address is even. -/
def halfTurn (k : Bytes) (r : Registers) : Option Registers := do
  return { a := r.a + (← readHalves k 0), b := r.b + (← readHalves k 2), c := r.c + (← readHalves k 4) }

def halfTail (k : Bytes) : Nat → Registers → Option Registers
  | 12, r => halfTurn k r
  | 11, r => do halfTail k 10 { r with c := r.c + (← readByte k 10) <<< 16 }
  | 10, r => do
    return { c := r.c + (← readHalf k 4), b := r.b + (← readHalves k 2), a := r.a + (← readHalves k 0) }
  | 9, r => do halfTail k 8 { r with c := r.c + (← readByte k 8) }
  | 8, r => do return { r with b := r.b + (← readHalves k 2), a := r.a + (← readHalves k 0) }
  | 7, r => do halfTail k 6 { r with b := r.b + (← readByte k 6) <<< 16 }
  | 6, r => do return { r with b := r.b + (← readHalf k 2), a := r.a + (← readHalves k 0) }
  | 5, r => do halfTail k 4 { r with b := r.b + (← readByte k 4) }
  | 4, r => do return { r with a := r.a + (← readHalves k 0) }
  | 3, r => do halfTail k 2 { r with a := r.a + (← readByte k 2) <<< 16 }
  | 2, r => do return { r with a := r.a + (← readHalf k 0) }
  | 1, r => do return { r with a := r.a + (← readByte k 0) }
  | _, r => some r

/-- The `switch` of a key that is read one byte at a time; all its cases fall through. -/
def byteTail (k : Bytes) : Nat → Registers → Option Registers
  | 12, r => do byteTail k 11 { r with c := r.c + (← readByte k 11) <<< 24 }
  | 11, r => do byteTail k 10 { r with c := r.c + (← readByte k 10) <<< 16 }
  | 10, r => do byteTail k 9 { r with c := r.c + (← readByte k 9) <<< 8 }
  | 9, r => do byteTail k 8 { r with c := r.c + (← readByte k 8) }
  | 8, r => do byteTail k 7 { r with b := r.b + (← readByte k 7) <<< 24 }
  | 7, r => do byteTail k 6 { r with b := r.b + (← readByte k 6) <<< 16 }
  | 6, r => do byteTail k 5 { r with b := r.b + (← readByte k 5) <<< 8 }
  | 5, r => do byteTail k 4 { r with b := r.b + (← readByte k 4) }
  | 4, r => do byteTail k 3 { r with a := r.a + (← readByte k 3) <<< 24 }
  | 3, r => do byteTail k 2 { r with a := r.a + (← readByte k 2) <<< 16 }
  | 2, r => do byteTail k 1 { r with a := r.a + (← readByte k 1) <<< 8 }
  | 1, r => do return { r with a := r.a + (← readByte k 0) }
  | _, r => some r

/-- The body of the loop where the address is odd. -/
def byteTurn (k : Bytes) (r : Registers) : Option Registers := do
  let a := r.a + (← readByte k 0) + (← readByte k 1) <<< 8 + (← readByte k 2) <<< 16 + (← readByte k 3) <<< 24
  let b := r.b + (← readByte k 4) + (← readByte k 5) <<< 8 + (← readByte k 6) <<< 16 + (← readByte k 7) <<< 24
  let c := r.c + (← readByte k 8) + (← readByte k 9) <<< 8 + (← readByte k 10) <<< 16 + (← readByte k 11) <<< 24
  return { a, b, c }

/-! ## Hashing -/

/-- `while (length > 12)`, for at most so many turns. -/
def whileLong (turn : Bytes → Registers → Option Registers) : Nat → Bytes → Registers → Option (Bytes × Registers)
  | 0, k, r => some (k, r)
  | turns + 1, k, r =>
    if k.length > 12 then do whileLong turn turns (k.drop 12) (mix (← turn k r)) else some (k, r)

/-- The loop, the last block and `final`.  A key of no bytes is not mixed. -/
def absorb (turn : Bytes → Registers → Option Registers) (tail : Bytes → Nat → Registers → Option Registers)
    (key : Bytes) (r : Registers) : Option Registers := do
  let (k, r) ← whileLong turn key.length key r
  if k.length = 0 then return r else return final (← tail k k.length r)

/-- What `hashlittle` and `hashlittle2` have in common: the registers they end with, for a key at an address. -/
def stirKey (address : UInt64) (key : Bytes) (r : Registers) : Option Registers :=
  if address &&& 3 = 0 then absorb wordTurn wordTail key r
  else if address &&& 1 = 0 then absorb halfTurn halfTail key r
  else absorb byteTurn byteTail key r

def initial (length : Nat) (initval : UInt32) : UInt32 := 0xdeadbeef + UInt32.ofNat length + initval

def hashlittle (address : UInt64) (key : Bytes) (initval : UInt32) : Option UInt32 := do
  let start := initial key.length initval
  return (← stirKey address key { a := start, b := start, c := start }).c

/-- `hashlittle2`, with `*pc` and `*pb` before and after it. -/
def hashlittle2 (address : UInt64) (key : Bytes) (pc pb : UInt32) : Option (UInt32 × UInt32) := do
  let start := initial key.length pc
  let r ← stirKey address key { a := start, b := start, c := start + pb }
  return (r.c, r.b)


/-! ## The ways of reading -/

/-- The byte at an index, or zero behind the end of the key. -/
def byteAt (k : Bytes) (i : Nat) : UInt32 := (k[i]?.getD 0).toUInt32

/-- The word at an index, filled up with zeros behind the end of the key. -/
def wordAt (k : Bytes) (i : Nat) : UInt32 :=
  byteAt k (4 * i) + byteAt k (4 * i + 1) <<< 8 + byteAt k (4 * i + 2) <<< 16 + byteAt k (4 * i + 3) <<< 24

/-- The registers with the next twelve bytes of the key. -/
def Registers.add (r : Registers) (k : Bytes) : Registers :=
  { a := r.a + wordAt k 0, b := r.b + wordAt k 1, c := r.c + wordAt k 2 }

theorem readByte_eq {k : Bytes} {i : Nat} (inside : i < k.length) : readByte k i = some (byteAt k i) := by
  rw [readByte, byteAt, List.getElem?_eq_getElem inside]
  rfl

theorem byteAt_eq_zero {k : Bytes} {i : Nat} (behind : k.length ≤ i) : byteAt k i = 0 := by
  rw [byteAt, List.getElem?_eq_none behind]
  rfl

/-- A byte that is shifted to another place of its word. -/
theorem toNat_shifted (byte : UInt8) {k : UInt32} (inside : k.toNat ≤ 24) :
    (byte.toUInt32 <<< k).toNat = byte.toNat * 2 ^ k.toNat := by
  have bound := byte.toNat_lt
  have weight : 2 ^ k.toNat ≤ 2 ^ 24 := Nat.pow_le_pow_right (by decide) inside
  have product : byte.toNat * 2 ^ k.toNat ≤ 255 * 2 ^ 24 := Nat.mul_le_mul (by omega) weight
  rw [UInt32.toNat_shiftLeft, UInt8.toNat_toUInt32, Nat.shiftLeft_eq, Nat.mod_eq_of_lt (by omega : k.toNat < 32),
    Nat.mod_eq_of_lt (by omega)]

/-- What the little-endian machine reads is the sum that the bytes give. -/
theorem ofNat_decode (first second third fourth : UInt8) :
    UInt32.ofNat (LittleEndian.decode [first, second, third, fourth]) =
      first.toUInt32 + second.toUInt32 <<< 8 + third.toUInt32 <<< 16 + fourth.toUInt32 <<< 24 := by
  have bound := first.toNat_lt
  have bound1 := second.toNat_lt
  have bound2 := third.toNat_lt
  have bound3 := fourth.toNat_lt
  have shifted : (second.toUInt32 <<< 8).toNat = second.toNat * 256 := toNat_shifted second (by decide)
  have shifted2 : (third.toUInt32 <<< 16).toNat = third.toNat * 65536 := toNat_shifted third (by decide)
  have shifted3 : (fourth.toUInt32 <<< 24).toNat = fourth.toNat * 16777216 := toNat_shifted fourth (by decide)
  rw [← UInt32.toNat_inj]
  simp only [LittleEndian.decode, UInt32.toNat_ofNat', UInt32.toNat_add, UInt8.toNat_toUInt32, shifted, shifted2,
    shifted3]
  omega

theorem readWord_eq {k : Bytes} {i : Nat} (inside : 4 * i + 3 < k.length) : readWord k i = some (wordAt k i) := by
  have first : 4 * i < k.length := by omega
  have second : 4 * i + 1 < k.length := by omega
  have third : 4 * i + 2 < k.length := by omega
  rw [readWord, wordAt, byteAt, byteAt, byteAt, byteAt, List.getElem?_eq_getElem inside,
    List.getElem?_eq_getElem first, List.getElem?_eq_getElem second, List.getElem?_eq_getElem third]
  exact congrArg some (ofNat_decode _ _ _ _)

theorem readHalf_eq {k : Bytes} {i : Nat} (inside : 2 * i + 1 < k.length) :
    readHalf k i = some (byteAt k (2 * i) + byteAt k (2 * i + 1) <<< 8) := by
  have before : 2 * i < k.length := by omega
  rw [readHalf, byteAt, byteAt, List.getElem?_eq_getElem inside, List.getElem?_eq_getElem before]
  have padded := ofNat_decode k[2 * i] k[2 * i + 1] 0 0
  have nothing : (0 : UInt8).toUInt32 = 0 := rfl
  rw [nothing, UInt32.zero_shiftLeft, UInt32.zero_shiftLeft, UInt32.add_zero, UInt32.add_zero] at padded
  exact congrArg some padded

theorem add_shiftLeft (x y k : UInt32) : (x + y) <<< k = x <<< k + y <<< k := by
  rw [← UInt32.toNat_inj]
  simp only [UInt32.toNat_shiftLeft, UInt32.toNat_add, Nat.shiftLeft_eq, Nat.mod_mul_mod, ← Nat.add_mod, Nat.add_mul]

theorem readHalves_eq {k : Bytes} {i : Nat} (inside : 4 * i + 3 < k.length) :
    readHalves k (2 * i) = some (wordAt k i) := by
  rw [readHalves, readHalf_eq (by omega), readHalf_eq (by omega), wordAt]
  have places : 2 * (2 * i) = 4 * i ∧ 2 * (2 * i) + 1 = 4 * i + 1 ∧ 2 * (2 * i + 1) = 4 * i + 2 ∧
    2 * (2 * i + 1) + 1 = 4 * i + 3 := by omega
  rw [places.1, places.2.2.1]
  show some _ = some _
  rw [Option.some.injEq, add_shiftLeft, ← UInt32.shiftLeft_add_of_toNat_lt (by decide), UInt32.add_assoc,
    UInt32.add_assoc, UInt32.add_assoc]
  rfl

/-! ## The ways agree -/

theorem wordTurn_eq {k : Bytes} (long : 12 ≤ k.length) (r : Registers) : wordTurn k r = some (r.add k) := by
  rw [wordTurn, readWord_eq (by omega), readWord_eq (by omega), readWord_eq (by omega)]
  rfl

theorem halfTurn_eq {k : Bytes} (long : 12 ≤ k.length) (r : Registers) : halfTurn k r = some (r.add k) := by
  rw [halfTurn, readHalves_eq (by omega : 4 * 0 + 3 < k.length), readHalves_eq (by omega : 4 * 1 + 3 < k.length),
    readHalves_eq (by omega : 4 * 2 + 3 < k.length)]
  rfl

theorem byteTurn_eq {k : Bytes} (long : 12 ≤ k.length) (r : Registers) : byteTurn k r = some (r.add k) := by
  have read : ∀ i, i < 12 → readByte k i = some (byteAt k i) := fun i inside => readByte_eq (by omega)
  simp only [byteTurn, read, Nat.reduceLT, Option.bind_eq_bind, Option.bind_some, Option.pure_def, Registers.add,
    wordAt, Nat.reduceMul, Nat.reduceAdd, UInt32.add_assoc]

theorem add_swap (x y z : UInt32) : x + (y + z) = y + (x + z) := by
  rw [← UInt32.add_assoc, UInt32.add_comm x, UInt32.add_assoc]

/-- The last block where it is read in bytes. -/
theorem byteTail_eq {k : Bytes} (short : k.length ≤ 12) (r : Registers) :
    byteTail k k.length r = some (r.add k) := by
  have read : ∀ i, i < k.length → readByte k i = some (byteAt k i) := fun i inside => readByte_eq inside
  have behind : ∀ i, k.length ≤ i → byteAt k i = 0 := fun i outside => byteAt_eq_zero outside
  generalize k.length = length at *
  simp only [Registers.add, wordAt]
  interval_cases length <;>
    simp [byteTail, read, behind, UInt32.add_assoc, UInt32.add_comm, add_swap]

theorem wordTail_eq {k : Bytes} (short : k.length ≤ 12) (r : Registers) :
    wordTail k k.length r = some (r.add k) := by
  have read : ∀ i, i < k.length → readByte k i = some (byteAt k i) := fun i inside => readByte_eq inside
  have word : ∀ i, 4 * i + 3 < k.length → readWord k i = some (wordAt k i) := fun i inside => readWord_eq inside
  have behind : ∀ i, k.length ≤ i → byteAt k i = 0 := fun i outside => byteAt_eq_zero outside
  generalize k.length = length at *
  simp only [Registers.add]
  interval_cases length <;>
    simp [wordTail, wordTurn, read, word, wordAt, behind, UInt32.add_assoc, UInt32.add_comm, add_swap]

theorem halfTail_eq {k : Bytes} (short : k.length ≤ 12) (r : Registers) :
    halfTail k k.length r = some (r.add k) := by
  have read : ∀ i, i < k.length → readByte k i = some (byteAt k i) := fun i inside => readByte_eq inside
  have half : ∀ i, 2 * i + 1 < k.length → readHalf k i = some (byteAt k (2 * i) + byteAt k (2 * i + 1) <<< 8) :=
    fun i inside => readHalf_eq inside
  have halves : ∀ i, 4 * i + 3 < k.length → readHalves k (2 * i) = some (wordAt k i) :=
    fun i inside => readHalves_eq inside
  have behind : ∀ i, k.length ≤ i → byteAt k i = 0 := fun i outside => byteAt_eq_zero outside
  generalize k.length = length at *
  have halves0 := halves 0
  have halves1 := halves 1
  have halves2 := halves 2
  simp only [Registers.add]
  interval_cases length <;>
    simp_all [halfTail, halfTurn, wordAt, UInt32.add_assoc, UInt32.add_comm]

/-- The registers after a key, in whichever way it is read. -/
def stirred : Nat → Bytes → Registers → Registers
  | 0, _, r => r
  | turns + 1, k, r =>
    if k.length > 12 then stirred turns (k.drop 12) (mix (r.add k))
    else if k.length = 0 then r else final (r.add k)

theorem whileLong_finish {turn : Bytes → Registers → Option Registers}
    {tail : Bytes → Nat → Registers → Option Registers}
    (turns : ∀ {k r}, 12 ≤ k.length → turn k r = some (r.add k))
    (tails : ∀ {k r}, k.length ≤ 12 → tail k k.length r = some (r.add k)) {count : Nat} {k : Bytes}
    (enough : k.length ≤ count) (r : Registers) :
    (whileLong turn count k r).bind (fun (k, r) =>
      if k.length = 0 then some r else (tail k k.length r).bind fun r => some (final r)) =
        some (stirred count k r) := by
  induction count generalizing k r with
  | zero =>
    cases List.length_eq_zero_iff.mp (Nat.le_zero.mp enough)
    rfl
  | succ count inductionHypothesis =>
    rw [whileLong, stirred]
    split
    · rename_i long
      rw [turns long.le]
      exact inductionHypothesis (by rw [List.length_drop]; omega) _
    · rename_i short
      rw [Option.bind_some]
      dsimp only
      rw [tails (not_lt.mp short)]
      split <;> rfl

/-- However a key lies in memory, the registers end in the same way, and nothing outside the key is read. -/
theorem stirKey_eq (address : UInt64) (key : Bytes) (r : Registers) :
    stirKey address key r = some (stirred key.length key r) := by
  rw [stirKey]
  split_ifs
  · exact whileLong_finish (fun long => wordTurn_eq long _) (fun short => wordTail_eq short _) le_rfl r
  · exact whileLong_finish (fun long => halfTurn_eq long _) (fun short => halfTail_eq short _) le_rfl r
  · exact whileLong_finish (fun long => byteTurn_eq long _) (fun short => byteTail_eq short _) le_rfl r

/-! ## Nothing is lost -/

theorem mixLine_undo {k x x' z z' y y' : UInt32} (kept : y = y') (same : mixLine k x z y = mixLine k x' z' y') :
    x = x' ∧ z = z' := by
  subst kept
  rw [mixLine, mixLine, Prod.mk.injEq, UInt32.add_left_inj] at same
  obtain ⟨same, rfl⟩ := same
  rw [UInt32.xor_left_inj, UInt32.sub_left_inj] at same
  exact ⟨same, rfl⟩

theorem finalLine_undo {k x x' y y' : UInt32} (kept : y = y') (same : finalLine k x y = finalLine k x' y') :
    x = x' := by
  subst kept
  rwa [finalLine, finalLine, UInt32.sub_left_inj, UInt32.xor_left_inj] at same

/-- `mix` is undone line by line, from the last one on. -/
theorem mix_injective : Function.Injective mix := by
  intro r r' same
  rw [mix, mix, Registers.mk.injEq] at same
  obtain ⟨a, b, c⟩ := same
  obtain ⟨c, b⟩ := mixLine_undo a (Prod.ext c b)
  obtain ⟨b, a⟩ := mixLine_undo c (Prod.ext b a)
  obtain ⟨a, c⟩ := mixLine_undo b (Prod.ext a c)
  obtain ⟨c, b⟩ := mixLine_undo a (Prod.ext c b)
  obtain ⟨b, a⟩ := mixLine_undo c (Prod.ext b a)
  obtain ⟨a, c⟩ := mixLine_undo b (Prod.ext a c)
  exact Registers.ext a b c

theorem final_injective : Function.Injective final := by
  intro r r' same
  rw [final, final, Registers.mk.injEq] at same
  obtain ⟨a, b, c⟩ := same
  have c := finalLine_undo b c
  have b := finalLine_undo a b
  have a := finalLine_undo c a
  have c := finalLine_undo b c
  have b := finalLine_undo a b
  have a := finalLine_undo c a
  have c := finalLine_undo b c
  exact Registers.ext a b c

/-- A word is put together of four bytes, and they can be read off it. -/
theorem ofNat_decode_inj {bytes others : Bytes} (length : bytes.length = 4) (length' : others.length = 4)
    (same : UInt32.ofNat (LittleEndian.decode bytes) = UInt32.ofNat (LittleEndian.decode others)) :
    bytes = others := by
  have bound : LittleEndian.decode bytes < 2 ^ 32 := by
    have here := LittleEndian.decode_lt bytes
    rwa [length] at here
  have bound' : LittleEndian.decode others < 2 ^ 32 := by
    have here := LittleEndian.decode_lt others
    rwa [length'] at here
  rw [← UInt32.toNat_inj, UInt32.toNat_ofNat', UInt32.toNat_ofNat', Nat.mod_eq_of_lt bound,
    Nat.mod_eq_of_lt bound'] at same
  exact LittleEndian.decode_inj (length.trans length'.symm) same

theorem wordAt_eq (k : Bytes) (i : Nat) :
    wordAt k i = UInt32.ofNat (LittleEndian.decode
      [k[4 * i]?.getD 0, k[4 * i + 1]?.getD 0, k[4 * i + 2]?.getD 0, k[4 * i + 3]?.getD 0]) :=
  (ofNat_decode _ _ _ _).symm

theorem wordAt_inj {k k' : Bytes} {i : Nat} (same : wordAt k i = wordAt k' i) {place : Nat} (inside : place < 4) :
    byteAt k (4 * i + place) = byteAt k' (4 * i + place) := by
  rw [wordAt_eq, wordAt_eq] at same
  have bytes := ofNat_decode_inj rfl rfl same
  simp only [List.cons.injEq] at bytes
  interval_cases place <;> simp [byteAt, bytes]

theorem Registers.add_inj {k : Bytes} {r r' : Registers} : r.add k = r'.add k ↔ r = r' := by
  rw [Registers.add, Registers.add, Registers.mk.injEq, UInt32.add_left_inj, UInt32.add_left_inj,
    UInt32.add_left_inj, Registers.ext_iff]

theorem byteAt_of_add {k k' : Bytes} {r : Registers} (same : r.add k = r.add k') {i : Nat} (inside : i < 12) :
    byteAt k i = byteAt k' i := by
  rw [Registers.add, Registers.add, Registers.mk.injEq, UInt32.add_right_inj, UInt32.add_right_inj,
    UInt32.add_right_inj] at same
  obtain ⟨a, b, c⟩ := same
  have places := Nat.div_add_mod i 4
  have inWord : i % 4 < 4 := Nat.mod_lt i (by decide)
  rw [← places]
  have word : i / 4 < 3 := by omega
  interval_cases i / 4
  · exact wordAt_inj a inWord
  · exact wordAt_inj b inWord
  · exact wordAt_inj c inWord

theorem stirred_injective (turns : Nat) (k : Bytes) : Function.Injective (stirred turns k) := by
  induction turns generalizing k with
  | zero => exact fun _ _ => id
  | succ turns inductionHypothesis =>
    intro r r' same
    rw [stirred, stirred] at same
    split at same
    · exact Registers.add_inj.mp (mix_injective (inductionHypothesis _ same))
    · split at same
      · exact same
      · exact Registers.add_inj.mp (final_injective same)

theorem byteAt_inj {k k' : Bytes} {i : Nat} (inside : i < k.length) (inside' : i < k'.length)
    (same : byteAt k i = byteAt k' i) : k[i]? = k'[i]? := by
  rw [byteAt, byteAt, List.getElem?_eq_getElem inside, List.getElem?_eq_getElem inside', Option.getD_some,
    Option.getD_some, ← UInt32.toNat_inj, UInt8.toNat_toUInt32, UInt8.toNat_toUInt32, UInt8.toNat_inj] at same
  rw [List.getElem?_eq_getElem inside, List.getElem?_eq_getElem inside', same]

theorem Registers.add_congr {k k' : Bytes} (same : ∀ i, i < 12 → byteAt k i = byteAt k' i) (r : Registers) :
    r.add k = r.add k' := by
  have words : ∀ i, i < 3 → wordAt k i = wordAt k' i := by
    intro i inside
    rw [wordAt, wordAt, same _ (by omega), same _ (by omega), same _ (by omega), same _ (by omega)]
  rw [Registers.add, Registers.add, words 0 (by decide), words 1 (by decide), words 2 (by decide)]

/-- Keys of one length are told apart by the first twelve bytes and what is behind them. -/
theorem eq_of_blocks {k k' : Bytes} (sameLength : k.length = k'.length)
    (first : ∀ i, i < 12 → byteAt k i = byteAt k' i) (behind : k.drop 12 = k'.drop 12) : k = k' := by
  apply List.ext_getElem?
  intro i
  by_cases inside : i < 12
  · by_cases held : i < k.length
    · exact byteAt_inj held (sameLength ▸ held) (first i inside)
    · rw [List.getElem?_eq_none (not_lt.mp held), List.getElem?_eq_none (sameLength ▸ not_lt.mp held)]
  · have shifted : (k.drop 12)[i - 12]? = (k'.drop 12)[i - 12]? := by rw [behind]
    rwa [List.getElem?_drop, List.getElem?_drop, Nat.add_sub_cancel' (not_lt.mp inside)] at shifted

/-- Two keys of one length that agree outside one block are stirred into the same registers only if they are
the same. -/
theorem stirred_block {turns block : Nat} {k k' : Bytes} (sameLength : k.length = k'.length)
    (elsewhere : ∀ i, i / 12 ≠ block → k[i]? = k'[i]?) (enough : k.length ≤ turns) {r : Registers}
    (same : stirred turns k r = stirred turns k' r) : k = k' := by
  induction turns generalizing block k k' r with
  | zero =>
    cases List.length_eq_zero_iff.mp (Nat.le_zero.mp enough)
    exact (List.length_eq_zero_iff.mp sameLength.symm).symm
  | succ turns inductionHypothesis =>
    rw [stirred, stirred, ← sameLength] at same
    split at same
    · rename_i long
      -- Either the block is in front, or it is left in what follows under a number less.
      by_cases first : block = 0
      · -- The keys differ at most in this block, and all that follows can be undone.
        have behind : k.drop 12 = k'.drop 12 := by
          apply List.ext_getElem?
          intro i
          rw [List.getElem?_drop, List.getElem?_drop, elsewhere _ (by omega)]
        rw [← behind] at same
        have added := mix_injective (stirred_injective _ _ same)
        exact eq_of_blocks sameLength (fun i inside => byteAt_of_add added inside) behind
      · have agree : ∀ i, i < 12 → byteAt k i = byteAt k' i := by
          intro i inside
          rw [byteAt, byteAt, elsewhere i (by omega)]
        rw [Registers.add_congr agree r] at same
        refine eq_of_blocks sameLength agree (@inductionHypothesis (block - 1) _ _ ?_ ?_ ?_ _ same)
        · rw [List.length_drop, List.length_drop, sameLength]
        · intro i other
          rw [List.getElem?_drop, List.getElem?_drop, elsewhere _ (by omega)]
        · rw [List.length_drop]
          omega
    · rename_i short
      have behind : k.drop 12 = k'.drop 12 := by
        rw [List.drop_eq_nil_of_le (not_lt.mp short), List.drop_eq_nil_of_le (sameLength ▸ not_lt.mp short)]
      split at same
      · rename_i empty
        cases List.length_eq_zero_iff.mp empty
        exact (List.length_eq_zero_iff.mp sameLength.symm).symm
      · exact eq_of_blocks sameLength (fun i inside => byteAt_of_add (final_injective same) inside) behind

/-- Before a register is reported, the registers tell what they started with, and they tell keys of one length apart
that differ in one block of twelve bytes. -/
theorem stirKey_keeps (address address' : UInt64) {key other : Bytes} (sameLength : key.length = other.length)
    {block : Nat} (elsewhere : ∀ i, i / 12 ≠ block → key[i]? = other[i]?) (r r' : Registers) :
    (stirKey address key r = stirKey address' other r ↔ key = other) ∧
      (stirKey address key r = stirKey address' key r' ↔ r = r') := by
  rw [stirKey_eq, stirKey_eq, stirKey_eq, Option.some.injEq, Option.some.injEq, ← sameLength]
  constructor
  · constructor
    · exact stirred_block sameLength elsewhere le_rfl
    · rintro rfl
      rfl
  · exact (stirred_injective _ _).eq_iff

theorem stirKey_keeps_pair :
    (stirKey 0 [1, 2] ⟨1, 2, 3⟩ = stirKey 1 [1, 3] ⟨1, 2, 3⟩ ↔ ([1, 2] : Bytes) = [1, 3]) ∧
      (stirKey 0 [1, 2] ⟨1, 2, 3⟩ = stirKey 1 [1, 2] ⟨3, 2, 1⟩ ↔ (⟨1, 2, 3⟩ : Registers) = ⟨3, 2, 1⟩) := by
  refine @stirKey_keeps 0 1 [1, 2] [1, 3] rfl 0 ?_ ⟨1, 2, 3⟩ ⟨3, 2, 1⟩
  intro i behind
  rw [List.getElem?_eq_none (by simp only [List.length_cons, List.length_nil]; omega),
    List.getElem?_eq_none (by simp only [List.length_cons, List.length_nil]; omega)]

/-! ## The hashes -/

/-- There is one hash of a key, wherever it lies in memory, and the first hash of `hashlittle2` is that hash too. -/
theorem hashlittle_eq (key : Bytes) (initval : UInt32) : ∃ hash second, ∀ address,
    hashlittle address key initval = some hash ∧ hashlittle2 address key initval 0 = some (hash, second) := by
  let start := initial key.length initval
  let r := stirred key.length key { a := start, b := start, c := start }
  refine ⟨r.c, r.b, fun address => ⟨?_, ?_⟩⟩
  · rw [hashlittle, stirKey_eq]
    rfl
  · rw [hashlittle2, stirKey_eq, UInt32.add_zero]
    rfl

/-- The hash of the test of this function. -/
example : hashlittle 0 (ascii "This is a test string") 0 = some 2119216193 := by decide +kernel

end Lookup3

end OpenInstrument.Server
