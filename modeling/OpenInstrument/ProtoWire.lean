import OpenInstrument.Library.Wire
import OpenInstrument.Proto

/-! # The messages on the wire

The encodings of the messages, with the field numbers and types that `openinstrument.proto` declares.
They give a `Runtime` on which a run of the store can be computed; doubles are their 64 bits.
-/

namespace OpenInstrument

open Wire (Format)

def labelFormat : Format Label where
  toFields message := Wire.string.fields 1 [message.label] ++ Wire.string.fields 2 message.value.toList
  ofFields fields :=
    match Wire.string.all 1 fields, Wire.string.all 2 fields with
    | some [label], some value => some { label, value := value.head? }
    | _, _ => none
  ofFields_toFields message := by
    simp [Wire.Scalar.all, Wire.payloads_fields_ne]

def streamVariableFormat : Format StreamVariable where
  toFields message :=
    Wire.string.fields 1 [message.name] ++ (Wire.embedded labelFormat).fields 2 message.label
  ofFields fields :=
    match Wire.string.all 1 fields, (Wire.embedded labelFormat).all 2 fields with
    | some [name], some label => some { name, label }
    | _, _ => none
  ofFields_toFields message := by
    simp [Wire.Scalar.all, Wire.payloads_fields_ne]

def valueFormat : Format (Value UInt64) where
  toFields message :=
    Wire.uint64.fields 1 [message.timestamp] ++ (Wire.fixed64.fields 2 message.doubleValue.toList ++
      (Wire.string.fields 3 message.stringValue.toList ++
        Wire.uint64.fields 4 message.endTimestamp.toList))
  ofFields fields :=
    match Wire.uint64.all 1 fields, Wire.fixed64.all 2 fields, Wire.string.all 3 fields,
        Wire.uint64.all 4 fields with
    | some [timestamp], some doubleValue, some stringValue, some endTimestamp =>
      some
        { timestamp
          doubleValue := doubleValue.head?
          stringValue := stringValue.head?
          endTimestamp := endTimestamp.head? }
    | _, _, _, _ => none
  ofFields_toFields message := by
    simp [Wire.Scalar.all, Wire.payloads_fields_ne]

def streamFormat : Format (Stream UInt64) where
  toFields message :=
    (Wire.embedded streamVariableFormat).fields 2 message.streamVariable.toList ++
      (Wire.embedded valueFormat).fields 4 message.value
  ofFields fields :=
    match (Wire.embedded streamVariableFormat).all 2 fields, (Wire.embedded valueFormat).all 4 fields with
    | some streamVariable, some value => some { streamVariable := streamVariable.head?, value }
    | _, _ => none
  ofFields_toFields message := by
    simp [Wire.Scalar.all, Wire.payloads_fields_ne]

def headerIndexFormat : Format StoreFileHeaderIndex where
  toFields message :=
    (Wire.embedded streamVariableFormat).fields 1 message.streamVariable.toList ++
      (Wire.fixed64.fields 2 [message.offset] ++ (Wire.fixed32.fields 3 message.numValues.toList ++
        (Wire.fixed64.fields 4 message.minTimestamp.toList ++
          Wire.fixed64.fields 5 message.maxTimestamp.toList)))
  ofFields fields :=
    match (Wire.embedded streamVariableFormat).all 1 fields, Wire.fixed64.all 2 fields,
        Wire.fixed32.all 3 fields, Wire.fixed64.all 4 fields, Wire.fixed64.all 5 fields with
    | some streamVariable, some [offset], some numValues, some minTimestamp, some maxTimestamp =>
      some
        { streamVariable := streamVariable.head?
          offset
          numValues := numValues.head?
          minTimestamp := minTimestamp.head?
          maxTimestamp := maxTimestamp.head? }
    | _, _, _, _, _ => none
  ofFields_toFields message := by
    simp [Wire.Scalar.all, Wire.payloads_fields_ne]

def headerFormat : Format StoreFileHeader where
  toFields message :=
    Wire.uint64.fields 1 message.startTimestamp.toList ++
      (Wire.uint64.fields 2 message.endTimestamp.toList ++
        ((Wire.embedded headerIndexFormat).fields 5 message.index ++
          (Wire.uint32.fields 6 message.version.toList ++
            (Wire.string.fields 7 message.endKey.toList ++
              Wire.fixed64.fields 9 message.footerPosition.toList))))
  ofFields fields :=
    match Wire.uint64.all 1 fields, Wire.uint64.all 2 fields, (Wire.embedded headerIndexFormat).all 5 fields,
        Wire.uint32.all 6 fields, Wire.string.all 7 fields, Wire.fixed64.all 9 fields with
    | some startTimestamp, some endTimestamp, some index, some version, some endKey, some footerPosition =>
      some
        { version := version.head?
          startTimestamp := startTimestamp.head?
          endTimestamp := endTimestamp.head?
          index
          endKey := endKey.head?
          footerPosition := footerPosition.head? }
    | _, _, _, _, _, _ => none
  ofFields_toFields message := by
    simp [Wire.Scalar.all, Wire.payloads_fields_ne]

def compactionLogFormat : Format CompactionLog where
  toFields message := Wire.uint64.fields 1 [message.startTime]
  ofFields fields :=
    match Wire.uint64.all 1 fields with
    | some [startTime] => some { startTime }
    | _ => none
  ofFields_toFields message := by
    simp [Wire.Scalar.all]

def footerFormat : Format StoreFileFooter where
  toFields message := (Wire.embedded compactionLogFormat).fields 1 message.compactionLog
  ofFields fields := ((Wire.embedded compactionLogFormat).all 1 fields).map fun compactionLog => { compactionLog }
  ofFields_toFields message := by
    simp [Wire.Scalar.all]

def Format.codec {Message : Type} (format : Format Message) : Codec Message where
  encode := format.encode
  decode := format.decode
  decode_encode := format.decode_encode

/-- The offset and the timestamps of an index entry take eight bytes each, whatever they are. -/
theorem headerIndex_length (entry : StoreFileHeaderIndex) (offset : UInt64) (change : UInt64 → UInt64) :
    (headerIndexFormat.encode
        { entry with
          offset
          minTimestamp := entry.minTimestamp.map change
          maxTimestamp := entry.maxTimestamp.map change }).length =
      (headerIndexFormat.encode entry).length := by
  have offsets : (Wire.encodeFields (Wire.fixed64.fields 2 [offset])).length =
      (Wire.encodeFields (Wire.fixed64.fields 2 [entry.offset])).length :=
    Wire.encodeFields_length_congr (.cons (Wire.fixed64_length 2 _ _) .nil)
  simp only [Format.encode, headerIndexFormat, Wire.encodeFields_append, List.length_append, offsets,
    Wire.fixed64_option_length]

theorem zeroFixed_length (message : StoreFileHeader) :
    (headerFormat.encode message.zeroFixed).length = (headerFormat.encode message).length := by
  have index : (Wire.encodeFields ((Wire.embedded headerIndexFormat).fields 5 message.zeroFixed.index)).length =
      (Wire.encodeFields ((Wire.embedded headerIndexFormat).fields 5 message.index)).length := by
    refine Wire.encodeFields_length_congr ?_
    rw [StoreFileHeader.zeroFixed, List.forall₂_map_left_iff, List.forall₂_same]
    exact fun entry _ => Wire.embedded_length 5 (headerIndex_length entry 0 fun _ => 0)
  simp only [Format.encode, headerFormat, Wire.encodeFields_append, List.length_append, index]
  simp only [StoreFileHeader.zeroFixed, Wire.fixed64_option_length]

theorem stream_values_length (message : Stream UInt64) :
    message.value.length ≤ (streamFormat.encode message).length := by
  have := Wire.fields_length_le (Wire.embedded valueFormat) 4 message.value
  simp only [Format.encode, streamFormat, Wire.encodeFields_append, List.length_append]
  omega

def protoRuntime : Runtime UInt64 where
  stream := Format.codec streamFormat
  header := Format.codec headerFormat
  footer := Format.codec footerFormat
  header_fixed := zeroFixed_length
  stream_values := stream_values_length
  sortValues values := values.insertionSort fun first second => first.timestamp ≤ second.timestamp
  sort_perm _ := List.perm_insertionSort _ _
  sort_sorted _ := List.pairwise_insertionSort _ _
  pid := ascii "1"

/-- A stream of a variable without labels that has the value zero at each of some times. -/
def gauge (name : String) (times : List UInt64) : Stream UInt64 :=
  { streamVariable := some { name := ascii name, label := [] }
    value := times.map fun timestamp =>
      { timestamp, doubleValue := some 0, stringValue := none, endTimestamp := none } }

end OpenInstrument
