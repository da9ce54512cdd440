import Mathlib.Tactic.IntervalCases
import Mathlib.Data.List.DropRight
import OpenInstrument.Go.Text

/-! # Cords

A `Cord` holds a string of bytes in a deque of blocks.  A block is the cord's own, with room behind its
bytes, or it is lent by the caller; either way bytes are consumed from its front.  The number of unread
bytes is kept in a field of the cord.

The lengths in a block have 32 bits.  Writing past the end of a block, and taking a block out of an empty
deque, are undefined.
-/

namespace OpenInstrument.Server

/-- `CordBuffer`.  `bytes` are the first `size_` bytes of the block, those that are in use. -/
structure CordBuffer where
  bytes : Bytes
  capacity : Nat
  used : Nat
  dealloc : Bool
  used_le : used ≤ bytes.length
  fits : bytes.length ≤ capacity
  small : capacity < 2 ^ 32
  /-- The cord's own blocks are at most two gigabytes long. -/
  owned_small : dealloc = true → capacity ≤ 2 ^ 31
  /-- A block that is lent has no room. -/
  lent_full : dealloc = false → bytes.length = capacity
  deriving DecidableEq

namespace CordBuffer

def size (buffer : CordBuffer) : Nat := buffer.bytes.length - buffer.used

def available (buffer : CordBuffer) : Nat := buffer.capacity - buffer.bytes.length

/-- What `buffer()` points to. -/
def unread (buffer : CordBuffer) : Bytes := buffer.bytes.drop buffer.used

@[simp] theorem length_unread (buffer : CordBuffer) : buffer.unread.length = buffer.size :=
  List.length_drop

/-! ### The next power of two -/

/-- `capacity_ |= (capacity_ >> shift)`. -/
def orShift (capacity shift : UInt32) : UInt32 := capacity ||| (capacity >>> shift)

/-- The capacity that `Alloc` computes: the next power of two, in 32 bits. -/
def allocCapacity (size : UInt32) : UInt32 :=
  orShift (orShift (orShift (orShift (orShift (size - 1) 1) 2) 4) 8) 16 + 1

theorem le_orShift (capacity shift : UInt32) : capacity.toNat ≤ (orShift capacity shift).toNat := by
  rw [orShift, UInt32.toNat_or]
  exact Nat.left_le_or

theorem orShift_lt {capacity : UInt32} (below : capacity.toNat < 2 ^ 31) (shift : UInt32) :
    (orShift capacity shift).toNat < 2 ^ 31 := by
  rw [orShift, UInt32.toNat_or, UInt32.toNat_shiftRight]
  exact Nat.or_lt_two_pow below (Nat.lt_of_le_of_lt (Nat.shiftRight_le _ _) below)

/-- Bit 31 is shifted onto each of the bits below it. -/
theorem orShift_eq_allOnes {capacity : UInt32} (high : capacity.toBitVec.getLsbD 31 = true) :
    orShift (orShift (orShift (orShift (orShift capacity 1) 2) 4) 8) 16 = 0xFFFFFFFF := by
  apply UInt32.toBitVec_inj.mp
  apply BitVec.eq_of_getLsbD_eq
  intro i below
  interval_cases i <;> simp [orShift, high]

theorem toNat_sub_one {size : UInt32} (positive : 0 < size.toNat) : (size - 1).toNat = size.toNat - 1 := by
  apply UInt32.toNat_sub_of_le
  rw [UInt32.le_iff_toNat_le]
  exact positive

theorem allocCapacity_large {size : UInt32} (large : 2 ^ 31 < size.toNat) : allocCapacity size = 0 := by
  have value : (size - 1).toBitVec.toNat = size.toNat - 1 := toNat_sub_one (by omega)
  have high : (size - 1).toBitVec.getLsbD 31 = true := by
    have below := size.toNat_lt
    rw [BitVec.getLsbD, value]
    exact Nat.testBit_of_two_pow_le_and_two_pow_add_one_gt (by omega) (by omega)
  rw [allocCapacity, orShift_eq_allOnes high]
  rfl

theorem allocCapacity_small {size : UInt32} (positive : 0 < size.toNat) (small : size.toNat ≤ 2 ^ 31) :
    size.toNat ≤ (allocCapacity size).toNat ∧ (allocCapacity size).toNat ≤ 2 ^ 31 := by
  have start := toNat_sub_one positive
  have above := (le_orShift (size - 1) 1).trans <| (le_orShift _ 2).trans <| (le_orShift _ 4).trans <|
    (le_orShift _ 8).trans (le_orShift _ 16)
  have first : (size - 1).toNat < 2 ^ 31 := by omega
  have below := orShift_lt (orShift_lt (orShift_lt (orShift_lt (orShift_lt first 1) 2) 4) 8) 16
  rw [allocCapacity, UInt32.toNat_add, UInt32.toNat_one, Nat.mod_eq_of_lt (by omega)]
  omega

/-- The largest block that can be allocated has two gigabytes. -/
theorem allocCapacity_le (size : UInt32) : (allocCapacity size).toNat ≤ 2 ^ 31 := by
  by_cases large : 2 ^ 31 < size.toNat
  · rw [allocCapacity_large large]
    exact Nat.zero_le _
  · by_cases positive : 0 < size.toNat
    · exact (allocCapacity_small positive (by omega)).2
    · obtain rfl : size = 0 := UInt32.toNat_inj.mp (by rw [UInt32.toNat_zero]; omega)
      decide

/-! ### Blocks -/

/-- `CordBuffer(size)`: an empty block of the cord's own. -/
def alloc (size : UInt32) : CordBuffer where
  bytes := []
  capacity := (allocCapacity size).toNat
  used := 0
  dealloc := true
  used_le := Nat.le_refl 0
  fits := Nat.zero_le _
  small := UInt32.toNat_lt _
  owned_small _ := allocCapacity_le size
  lent_full := Bool.noConfusion

/-- `CordBuffer(ptr, size)`: a block that the caller lends.  Its size is cut to 32 bits. -/
def lend (data : Bytes) : CordBuffer where
  bytes := data.take (data.length % 2 ^ 32)
  capacity := data.length % 2 ^ 32
  used := 0
  dealloc := false
  used_le := Nat.zero_le _
  fits := List.length_take_le _ _
  small := Nat.mod_lt _ (by decide)
  owned_small := Bool.noConfusion
  lent_full _ := by rw [List.length_take, Nat.min_eq_left (Nat.mod_le _ _)]

/-- Bytes written behind those in use. -/
def extend (buffer : CordBuffer) (data : Bytes) (room : buffer.bytes.length + data.length ≤ buffer.capacity)
    (owned : buffer.dealloc = true) : CordBuffer where
  bytes := buffer.bytes ++ data
  capacity := buffer.capacity
  used := buffer.used
  dealloc := buffer.dealloc
  used_le := by
    rw [List.length_append]
    exact Nat.le_add_right_of_le buffer.used_le
  fits := by
    rw [List.length_append]
    exact room
  small := buffer.small
  owned_small := buffer.owned_small
  lent_full lent := absurd (owned.symm.trans lent) Bool.noConfusion

/-- `Consume`: the first unread bytes are used up. -/
def consume (buffer : CordBuffer) (bytes : Nat) : CordBuffer where
  bytes := buffer.bytes
  capacity := buffer.capacity
  used := min (buffer.used + bytes) buffer.bytes.length
  dealloc := buffer.dealloc
  used_le := Nat.min_le_right _ _
  fits := buffer.fits
  small := buffer.small
  owned_small := buffer.owned_small
  lent_full := buffer.lent_full

end CordBuffer

/-! ## Cords -/

structure Cord where
  buffers : List CordBuffer
  defaultBufferSize : UInt32
  minimumAppendSize : UInt32
  size : UInt64
  deriving DecidableEq

def carriageReturn : UInt8 := 13

/-- How an operation ends. -/
inductive Outcome where
  | returned (output : Bytes)
  | outOfRange
  | runtimeError
  | undefined
  deriving DecidableEq

namespace Cord

def empty (defaultBufferSize minimumAppendSize : UInt32) : Cord :=
  { buffers := [], defaultBufferSize, minimumAppendSize, size := 0 }

/-- The unread bytes of the blocks, one after another. -/
def content (cord : Cord) : Bytes := (cord.buffers.map CordBuffer.unread).flatten

/-! ### Adding bytes -/

def pushAlloc (cord : Cord) (reqsize : Nat) : Cord :=
  { cord with buffers := cord.buffers ++ [.alloc (max cord.defaultBufferSize (.ofNat reqsize))] }

/-- `GetAppendBuf`: the cord whose last block is to be written to, and how many bytes. -/
def getAppendBuf (cord : Cord) (reqsize : Nat) : Cord × Nat :=
  match cord.buffers.getLast? with
  | none => (cord.pushAlloc reqsize, reqsize)
  | some back =>
    if reqsize ≤ back.available then (cord, reqsize)
    else if cord.minimumAppendSize.toNat ≤ back.available then (cord, back.available)
    else (cord.pushAlloc reqsize, reqsize)

/-- The bytes that `memcpy` writes to the last block, and `Use`. -/
def write (cord : Cord) (data : Bytes) : Option Cord :=
  match cord.buffers.getLast? with
  | none => none
  | some back =>
    if room : back.bytes.length + data.length ≤ back.capacity ∧ back.dealloc = true then
      some { cord with
        buffers := cord.buffers.dropLast ++ [back.extend data room.1 room.2]
        size := cord.size + .ofNat data.length }
    else none

/-- The loop of `CopyFrom`.  There is no result when it writes past a block, or never comes to an end. -/
def copyBytes : Nat → Cord → Bytes → Option Cord
  | _, cord, [] => some cord
  | 0, _, _ :: _ => none
  | turns + 1, cord, data =>
    let space := cord.getAppendBuf data.length
    (space.1.write (data.take space.2)).bind fun next => copyBytes turns next (data.drop space.2)

/-- `CopyFrom` of a string, whose length is passed in 32 bits. -/
def copyFrom (cord : Cord) (data : Bytes) : Option Cord :=
  let data := data.take (data.length % 2 ^ 32)
  copyBytes data.length cord data

/-- `Append`. -/
def append (cord : Cord) (data : Bytes) : Cord :=
  { cord with buffers := cord.buffers ++ [.lend data], size := cord.size + .ofNat data.length }

/-- `CopyFrom` of a cord: its own blocks are copied, those that are lent to it are lent on. -/
def copyBlocks : Cord → List CordBuffer → Option Cord
  | cord, [] => some cord
  | cord, buffer :: buffers =>
    if buffer.dealloc then
      (copyBytes buffer.size cord buffer.unread).bind fun next => copyBlocks next buffers
    else copyBlocks (cord.append buffer.unread) buffers

/-! ### Taking bytes -/

def clear (cord : Cord) : Cord := { cord with buffers := [], size := 0 }

def popBack (cord : Cord) : Option Cord :=
  cord.buffers.getLast?.map fun back =>
    { cord with buffers := cord.buffers.dropLast, size := cord.size - .ofNat back.size }

def popFront (cord : Cord) : Option Cord :=
  match cord.buffers with
  | [] => none
  | front :: rest => some { cord with buffers := rest, size := cord.size - .ofNat front.size }

/-- What the loop of `Consume` leaves. -/
structure Consumed where
  output : Bytes
  left : Nat
  size : UInt64
  buffers : List CordBuffer

/-- The loop of `Consume`.  A block that is used up goes; only the bytes that are taken from the last one
are subtracted from the size. -/
def consumeLoop (bytes : Nat) : Nat → UInt64 → List CordBuffer → Consumed
  | left, size, [] => { output := [], left, size, buffers := [] }
  | left, size, buffer :: buffers =>
    if left = 0 ∨ bytes < left then { output := [], left, size, buffers := buffer :: buffers }
    else if left ≤ buffer.size then
      { output := buffer.unread.take left
        left := 0
        size := size - .ofNat left
        buffers := if (buffer.consume left).size = 0 then buffers else buffer.consume left :: buffers }
    else
      let rest := consumeLoop bytes (left - buffer.size) size buffers
      { rest with output := buffer.unread ++ rest.output }

def consume (cord : Cord) (bytes : UInt64) : Outcome × Cord :=
  if cord.size < bytes then (.outOfRange, cord)
  else if bytes = cord.size then (.returned cord.content, cord.clear)
  else
    let consumed := consumeLoop bytes.toNat bytes.toNat cord.size cord.buffers
    let rest := { cord with buffers := consumed.buffers, size := consumed.size }
    if consumed.left = 0 then (.returned consumed.output, rest) else (.runtimeError, rest)

/-! ### Taking lines -/

/-- What the loop of `ConsumeLine` finds. -/
structure LineScan where
  found : Bool
  pops : Nat
  bytesUsed : Nat
  output : Bytes

/-- The loop of `ConsumeLine`, up to the first newline.  For each block without unread bytes it takes a block
off the front, whichever is there. -/
def scanLine : List CordBuffer → LineScan
  | [] => { found := false, pops := 0, bytesUsed := 0, output := [] }
  | buffer :: buffers =>
    if buffer.size = 0 then
      let rest := scanLine buffers
      { rest with pops := rest.pops + 1 }
    else if newline ∈ buffer.unread then
      let line := buffer.unread.takeWhile (· != newline) ++ [newline]
      { found := true, pops := 0, bytesUsed := line.length, output := line }
    else
      let rest := scanLine buffers
      { rest with bytesUsed := buffer.size + rest.bytesUsed, output := buffer.unread ++ rest.output }

/-- The line without the carriage returns and newlines at its end. -/
def trimLine (line : Bytes) : Bytes := line.rdropWhile fun char => char == newline || char == carriageReturn

/-- `ConsumeLine` into an empty string.  An exception in `Consume` is ignored. -/
def consumeLine (cord : Cord) : Outcome × Cord :=
  if cord.size = 0 then (.outOfRange, cord)
  else
    let scan := scanLine cord.buffers
    let popped := { cord with buffers := cord.buffers.drop scan.pops }
    if scan.found then (.returned (trimLine scan.output), (popped.consume (.ofNat scan.bytesUsed)).2)
    else (.outOfRange, popped)

end Cord

end OpenInstrument.Server
