import OpenInstrument.Library.Scan
import OpenInstrument.ProtoFile

/-! # Record files of the C++ server

`ProtoStreamWriter` appends a message as a record: a magic number, the size of the encoding, the
encoding, and its checksum.  `ProtoStreamReader` checks all four, and looks byte by byte for the next
header behind a record that it rejects.

The checksum is a parameter; `crc16` is the one that `boost::crc_16_type` computes.
-/

namespace OpenInstrument.Server

def crc16Bit (register : UInt16) : UInt16 :=
  if register &&& 1 = 1 then (register >>> 1) ^^^ 0xA001 else register >>> 1

def crc16Byte (register : UInt16) (byte : UInt8) : UInt16 :=
  crc16Bit (crc16Bit (crc16Bit (crc16Bit (crc16Bit (crc16Bit (crc16Bit (crc16Bit
    (register ^^^ byte.toUInt16))))))))

def crc16 (bytes : Bytes) : UInt16 := bytes.foldl crc16Byte 0

example : crc16 [0x31, 0x32, 0x33, 0x34, 0x35, 0x36, 0x37, 0x38, 0x39] = 0xBB3D := by decide +kernel

/-! ## Writing -/

/-- A file that is open for writing. -/
structure File where
  content : Bytes
  position : Nat
  /-- How much a `write` at a position transfers, where that is not everything. -/
  short : Nat → Option Nat

/-- Opening an absent file with mode `a`. -/
def File.create (short : Nat → Option Nat) : File := { content := [], position := 0, short }

/-- The part of some bytes that a `write` transfers. -/
def File.transferred (file : File) (data : Bytes) : Bytes :=
  match file.short file.position with
  | none => data
  | some count => data.take count

/-- `File::Write`, and whether it transferred everything. -/
def File.write (file : File) (data : Bytes) : File × Bool :=
  let written := file.transferred data
  ({ file with
      content := overwrite file.content file.position written
      position := file.position + written.length },
    decide (written.length = data.length))

/-- Writes one after another, up to the first that falls short. -/
def File.writeParts : File → List Bytes → File × Bool
  | file, [] => (file, true)
  | file, part :: parts =>
    match file.write part with
    | (file, true) => file.writeParts parts
    | (file, false) => (file, false)

section Codec

variable {Message : Type} (crc : Bytes → UInt16) (codec : Codec Message)

def protomagic : Nat := 0xDEAD

/-- `ProtoStreamWriter::Write`. -/
def protoStreamWrite (file : File) (message : Message) : File × Bool :=
  match codec.marshal message with
  | none => (file, false)
  | some buf =>
    file.writeParts
      [LittleEndian.encode 2 protomagic, LittleEndian.encode 4 buf.length, buf,
        LittleEndian.encode 2 (crc buf).toNat]

/-- Messages written one after another, and whether every `Write` returned true. -/
def protoStreamWriteAll : File → List Message → File × Bool
  | file, [] => (file, true)
  | file, message :: messages =>
    let (file, written) := protoStreamWrite crc codec file message
    let (file, rest) := protoStreamWriteAll file messages
    (file, written && rest)

/-! ## Reading -/

/-- `MmapFile::Read`. -/
def read (content : Bytes) (position length : Nat) : Bytes := (content.drop position).take length

/-- A number as a signed 32-bit integer. -/
def signed (number : Nat) : Int := if number < 2 ^ 31 then number else number - 2 ^ 32

/-- The magic number at a position, if it is all there. -/
def readMagic (content : Bytes) (position : Nat) : Option Nat :=
  let bytes := read content position 2
  if bytes.length = 2 then some (LittleEndian.decode bytes) else none

def readSize (content : Bytes) (position : Nat) : Option Int :=
  let bytes := read content position 4
  if bytes.length = 4 then some (signed (LittleEndian.decode bytes)) else none

def readCrc (content : Bytes) (position : Nat) : Option Nat :=
  let bytes := read content position 2
  if bytes.length = 2 then some (LittleEndian.decode bytes) else none

/-- One turn of the loop in `FindNextHeader`: whether it finds a header here, or from where to go on. -/
def findNextHeaderTurn (content : Bytes) (startpos : Nat) : Option Nat ⊕ Nat :=
  match readMagic content startpos with
  | none => .inl none
  | some magic =>
    if magic ≠ protomagic then .inr (startpos + 1)
    else
      match readSize content (startpos + 2) with
      | none => .inl none
      | some size =>
        if size ≥ content.length - 2 then .inr (startpos + 1)
        else .inl (some startpos)

/-- `FindNextHeader`: the position to which it moves the file when it returns true. -/
def findNextHeader (content : Bytes) (position : Nat) : Option Nat :=
  Scan.run (findNextHeaderTurn content) none (content.length + 1) position

/-- The largest message that `Next` accepts. -/
def maxMessageSize : Nat := 4 * 1024 * 1024

/-- `if (FindNextHeader()) continue; return false;` -/
def resynchronise (content : Bytes) (position : Nat) : Option (Message × Nat) ⊕ Nat :=
  match findNextHeader content position with
  | none => .inl none
  | some header => .inr header

/-- The turn of the loop in `Next` behind a header whose size is accepted. -/
def nextPayload (content : Bytes) (startpos size : Nat) : Option (Message × Nat) ⊕ Nat :=
  let buf := read content (startpos + 6) size
  if buf.length ≠ size then .inl none
  else
    match readCrc content (startpos + 6 + size) with
    | none => .inl none
    | some stored =>
      if stored ≠ (crc buf).toNat then resynchronise content (startpos + 1)
      else
        match codec.decode buf with
        | none => resynchronise content (startpos + 6 + size + 2)
        | some message => .inl (some (message, startpos + 6 + size + 2))

/-- One turn of the loop in `Next`: its result (a message and the position behind it, or nothing), or
from where to go on. -/
def nextTurn (content : Bytes) (startpos : Nat) : Option (Message × Nat) ⊕ Nat :=
  match readMagic content startpos with
  | none => .inl none
  | some magic =>
    if magic ≠ protomagic then resynchronise content (startpos + 1)
    else
      match readSize content (startpos + 2) with
      | none => .inl none
      | some size =>
        if size ≥ content.length then resynchronise content (startpos + 1)
        else if size < 0 ∨ size > maxMessageSize then .inl none
        else nextPayload crc codec content startpos size.toNat

/-- `ProtoStreamReader::Next`: the message and the position behind it when it returns true. -/
def next (content : Bytes) (position : Nat) : Option (Message × Nat) :=
  Scan.run (nextTurn crc codec content) none (content.length + 1) position

/-- The messages that repeated calls of `Next` on a newly opened file deliver. -/
def protoStreamRead (content : Bytes) : List Message :=
  Scan.collect (next crc codec content) (content.length + 1) 0

end Codec

end OpenInstrument.Server
