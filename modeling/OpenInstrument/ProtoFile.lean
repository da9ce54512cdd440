import OpenInstrument.Library.LittleEndian
import OpenInstrument.Proto

/-! # Files of framed messages

`ProtoFileWriter` appends a message as a frame: a magic number, the length of the encoding, the
encoding, and two bytes meant for a checksum.  `ProtoFileReader` reads frames back, skipping the
six bytes of a frame header that does not fit.

File calls can fail: `Disk.fault` says which do and how many bytes they transfer before that.
-/

namespace OpenInstrument

inductive FileCall where
  | readDirectory
  | openRead (name : GoString)
  | openWrite (name : GoString)
  | write (name : GoString) (position : Nat)
  | rename (source target : GoString)
  | remove (name : GoString)
  deriving DecidableEq

/-- A directory of files.  `incomplete` records that some `ProtoFileWriter.Write` has reported an
error; it is not part of the store, whose callers often ignore that error. -/
structure Disk where
  files : AList fun _ : GoString => Bytes
  fault : FileCall → Option Nat
  incomplete : Bool

/-- No file call fails. -/
def Disk.Reliable (disk : Disk) : Prop := ∀ call, disk.fault call = none

def Disk.empty : Disk := { files := ∅, fault := fun _ => none, incomplete := false }

def Disk.content (disk : Disk) (name : GoString) : Bytes := (disk.files.lookup name).getD []

def Disk.store (disk : Disk) (name : GoString) (content : Bytes) : Disk :=
  { disk with files := disk.files.insert name content }

/-- `os.Remove`; every caller ignores its error. -/
def Disk.remove (disk : Disk) (name : GoString) : Disk :=
  match disk.fault (.remove name) with
  | none => { disk with files := disk.files.erase name }
  | some _ => disk

/-- `os.Rename`, or `none` when it fails. -/
def Disk.rename (disk : Disk) (source target : GoString) : Option Disk :=
  match disk.fault (.rename source target) with
  | none =>
    some { disk with files := (disk.files.erase source).insert target (disk.content source) }
  | some _ => none

/-! ## Writing -/

structure ProtoFileWriter where
  filename : GoString
  position : Nat

/-- File offsets are signed 64-bit integers. -/
def maxFileSize : Nat := 2 ^ 63 - 1

def protoMagic : Nat := 0xDEAD

def frame (data : Bytes) : Bytes :=
  LittleEndian.encode 2 protoMagic ++ LittleEndian.encode 4 data.length ++ data ++
    LittleEndian.encode 2 0

/-- Bytes written at a position replace what was there, and the file grows as needed. -/
def overwrite (content : Bytes) (position : Nat) (data : Bytes) : Bytes :=
  content.take position ++ data ++ content.drop (position + data.length)

/-- `WriteProtoFile` opens or creates the file and moves to its end. -/
def writeProtoFile (disk : Disk) (filename : GoString) : Disk × Option ProtoFileWriter :=
  match disk.fault (.openWrite filename) with
  | none =>
    (disk.store filename (disk.content filename),
      some { filename, position := (disk.content filename).length })
  | some _ => (disk, none)

/-- Writes bytes at the current position.  A failing write may have written some of them. -/
def ProtoFileWriter.put (writer : ProtoFileWriter) (disk : Disk) (data : Bytes) :
    ProtoFileWriter × Disk × Bool :=
  let written := match disk.fault (.write writer.filename writer.position) with
    | none => data.take (maxFileSize - writer.position)
    | some count => data.take count
  let complete := (disk.fault (.write writer.filename writer.position)).isNone &&
    decide (writer.position + data.length ≤ maxFileSize)
  ({ writer with position := writer.position + written.length },
    { disk.store writer.filename (overwrite (disk.content writer.filename) writer.position written) with
      incomplete := disk.incomplete || !complete },
    complete)

def ProtoFileWriter.write {Message : Type} (codec : Codec Message) (writer : ProtoFileWriter)
    (disk : Disk) (message : Message) : ProtoFileWriter × Disk × Bool :=
  match codec.marshal message with
  | none => (writer, { disk with incomplete := true }, false)
  | some data => writer.put disk (frame data)

def ProtoFileWriter.writeAt {Message : Type} (codec : Codec Message) (writer : ProtoFileWriter)
    (disk : Disk) (position : Nat) (message : Message) : ProtoFileWriter × Disk × Bool :=
  ProtoFileWriter.write codec { writer with position } disk message

/-! ## Reading -/

inductive OpenResult where
  | missing
  | failed
  | opened (content : Bytes)

/-- `ReadProtoFile`: a missing file is told apart from other errors. -/
def Disk.readProtoFile (disk : Disk) (name : GoString) : OpenResult :=
  match disk.fault (.openRead name) with
  | some _ => .failed
  | none =>
    match disk.files.lookup name with
    | none => .missing
    | some content => .opened content

/-- The outcome of `ProtoFileReader.Read`: a message and the position behind it, `io.EOF`, or
another error. -/
inductive ReadResult (Message : Type) where
  | message (message : Message) (position : Nat)
  | endOfFile
  | failed
  deriving DecidableEq

/-- One turn of the loop in `Read`: a result, or the position from which it tries again. -/
def readFrame {Message : Type} (codec : Codec Message) (content : Bytes) (position : Nat) :
    ReadResult Message ⊕ Nat :=
  let rest := content.drop position
  if rest = [] then .inl .endOfFile
  else if rest.length < 6 then .inl .failed
  else
    let length := LittleEndian.decode ((rest.drop 2).take 4)
    let data := (rest.drop 6).take length
    if LittleEndian.decode (rest.take 2) ≠ protoMagic then .inr (position + 6)
    else if length ≥ content.length then .inr (position + 6)
    else if data.length ≠ length then .inl .endOfFile
    else if rest.length < 6 + length + 2 then .inr content.length
    else
      match codec.decode data with
      | none => .inl .failed
      | some message => .inl (.message message (position + 6 + length + 2))

/-- The loop of `Read`.  Every new turn starts further on, so a turn for each byte is enough. -/
def readFrom {Message : Type} (codec : Codec Message) (content : Bytes) : Nat → Nat → ReadResult Message
  | 0, _ => .endOfFile
  | fuel + 1, position =>
    match readFrame codec content position with
    | .inl result => result
    | .inr next => readFrom codec content fuel next

def protoRead {Message : Type} (codec : Codec Message) (content : Bytes) (position : Nat) :
    ReadResult Message :=
  readFrom codec content (content.length + 1) position

/-- The loop of `ValueStreamReader` (no limit) and of `ValueStreamReaderUntil`: the messages read
from a position on, and the position where it stops. -/
def readMessages {Message : Type} (codec : Codec Message) (content : Bytes) (limit : Option Nat) :
    Nat → Nat → List Message
  | 0, _ => []
  | fuel + 1, position =>
    if limit.all (fun maxPosition => decide (position < maxPosition)) then
      match protoRead codec content position with
      | .message message next => message :: readMessages codec content limit fuel next
      | _ => []
    else []

def valueStreamReader {Double : Type} (rt : Runtime Double) (content : Bytes) : List (Stream Double) :=
  readMessages rt.stream content none (content.length + 1) 0

def valueStreamReaderUntil {Double : Type} (rt : Runtime Double) (content : Bytes)
    (position maxPosition : Nat) : List (Stream Double) :=
  readMessages rt.stream content (some maxPosition) (content.length + 1) position

end OpenInstrument
