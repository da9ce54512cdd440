import OpenInstrument.Variable

/-! # Messages and their encoding

The messages the store keeps in files.  The type of the double in a `Value` is a parameter: the
store copies doubles and compares their timestamps, it does not compute with them here.

The protocol-buffer library is not part of the repository.  A `Codec` is what the store relies on:
decoding undoes encoding, and `Marshal` refuses a message that encodes to more than two gigabytes.
-/

namespace OpenInstrument

structure Value (Double : Type) where
  timestamp : UInt64
  doubleValue : Option Double
  stringValue : Option GoString
  endTimestamp : Option UInt64
  deriving DecidableEq

/-- `ValueStream`, over whatever stands for a value: the value itself, or a cell that holds one. -/
structure ValueStream (Cell : Type) where
  streamVariable : Option StreamVariable
  value : List Cell
  deriving DecidableEq

abbrev Stream (Double : Type) := ValueStream (Value Double)

structure StoreFileHeaderIndex where
  streamVariable : Option StreamVariable
  offset : UInt64
  numValues : Option UInt32
  minTimestamp : Option UInt64
  maxTimestamp : Option UInt64
  deriving DecidableEq

structure StoreFileHeader where
  version : Option UInt32
  startTimestamp : Option UInt64
  endTimestamp : Option UInt64
  index : List StoreFileHeaderIndex
  endKey : Option GoString
  footerPosition : Option UInt64
  deriving DecidableEq

/-- The record a compaction leaves in the footer. -/
structure CompactionLog where
  startTime : UInt64
  deriving DecidableEq

structure StoreFileFooter where
  compactionLog : List CompactionLog
  deriving DecidableEq

def StoreFileHeaderIndex.getNumValues (entry : StoreFileHeaderIndex) : UInt32 := entry.numValues.getD 0

/-- `GetVersion`: the declared default is 1. -/
def StoreFileHeader.getVersion (header : StoreFileHeader) : UInt32 := header.version.getD 1

def StoreFileHeader.getEndKey (header : StoreFileHeader) : GoString := header.endKey.getD []

def StoreFileHeader.getFooterPosition (header : StoreFileHeader) : UInt64 :=
  header.footerPosition.getD 0

/-- The header with every 64-bit fixed-width field that is present set to zero. -/
def StoreFileHeader.zeroFixed (header : StoreFileHeader) : StoreFileHeader :=
  { header with
    index := header.index.map fun entry =>
      { entry with
        offset := 0
        minTimestamp := entry.minTimestamp.map fun _ => 0
        maxTimestamp := entry.maxTimestamp.map fun _ => 0 }
    footerPosition := header.footerPosition.map fun _ => 0 }

/-! ## Encoding -/

structure Codec (Message : Type) where
  encode : Message → Bytes
  decode : Bytes → Option Message
  decode_encode : ∀ message, decode (encode message) = some message

/-- The largest message `proto.Marshal` accepts. -/
def maxMarshalSize : Nat := 2 ^ 31 - 1

/-- `proto.Marshal`. -/
def Codec.marshal {Message : Type} (codec : Codec Message) (message : Message) : Option Bytes :=
  if (codec.encode message).length ≤ maxMarshalSize then some (codec.encode message) else none

theorem Codec.marshal_eq_some {Message : Type} {codec : Codec Message} {message : Message}
    {data : Bytes} (marshalled : codec.marshal message = some data) :
    data = codec.encode message ∧ data.length < 2 ^ 31 := by
  unfold Codec.marshal at marshalled
  split at marshalled
  · rename_i small
    rw [Option.some.injEq] at marshalled
    subst marshalled
    exact ⟨rfl, by simp only [maxMarshalSize] at small; omega⟩
  · cases marshalled

/-- What the store relies on outside its own code: the codecs of the three messages it writes to
files, `sort.Sort` on values, and the decimal process id. -/
structure Runtime (Double : Type) where
  stream : Codec (Stream Double)
  header : Codec StoreFileHeader
  footer : Codec StoreFileFooter
  /-- The length of a header does not depend on the values of the fixed-width fields it has. -/
  header_fixed : ∀ message, (header.encode message.zeroFixed).length = (header.encode message).length
  /-- Each value of a stream takes at least one byte. -/
  stream_values : ∀ message, message.value.length ≤ (stream.encode message).length
  /-- `sort.Sort` by timestamp, which need not keep the order of equal timestamps. -/
  sortValues : List (Value Double) → List (Value Double)
  sort_perm : ∀ values, (sortValues values).Perm values
  sort_sorted : ∀ values,
    (sortValues values).Pairwise fun first second => first.timestamp ≤ second.timestamp
  pid : GoString

/-- The order in which a loop visits the entries of a Go map: any order at all. -/
structure Iteration where
  order : {Entry : Type} → List Entry → List Entry
  perm : ∀ {Entry : Type} (entries : List Entry), (order entries).Perm entries

/-- The order in which the entries happen to be listed. -/
def Iteration.listed : Iteration where
  order entries := entries
  perm _ := List.Perm.refl _

end OpenInstrument
