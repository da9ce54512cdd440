import OpenInstrument.ProtoWire
import OpenInstrument.Server.DiskDatastore

/-! # The messages of the C++ server on the wire

The encoding of the streams in the record log.  It differs from the encoding of the Go programs in the
type of a variable, which they do not use.
-/

namespace OpenInstrument.Server

open Wire (Format)

def ValueType.number : ValueType → Nat
  | .unknown => 0
  | .gauge => 1
  | .rate => 2

def ValueType.ofNumber : Nat → ValueType
  | 1 => .gauge
  | 2 => .rate
  | _ => .unknown

def valueTypeScalar : Wire.Scalar ValueType where
  put type := .varint type.number
  get
    | .varint number => some (.ofNumber number)
    | _ => none
  get_put type := by cases type <;> rfl

def streamVariableFormat : Format StreamVariable where
  toFields message :=
    Wire.string.fields 1 [message.name] ++ ((Wire.embedded labelFormat).fields 2 message.label ++
      valueTypeScalar.fields 3 message.type.toList)
  ofFields fields :=
    match Wire.string.all 1 fields, (Wire.embedded labelFormat).all 2 fields,
        valueTypeScalar.all 3 fields with
    | some [name], some label, some type => some { name, label, type := type.head? }
    | _, _, _ => none
  ofFields_toFields message := by
    simp [Wire.Scalar.all, Wire.payloads_fields_ne]

def valueStreamFormat : Format ValueStream where
  toFields message :=
    (Wire.embedded streamVariableFormat).fields 2 [message.streamVariable] ++
      (Wire.embedded valueFormat).fields 4 message.value
  ofFields fields :=
    match (Wire.embedded streamVariableFormat).all 2 fields, (Wire.embedded valueFormat).all 4 fields with
    | some [streamVariable], some value => some { streamVariable, value }
    | _, _ => none
  ofFields_toFields message := by
    simp [Wire.Scalar.all, Wire.payloads_fields_ne]

def valueStreamCodec : Codec ValueStream := Format.codec valueStreamFormat

end OpenInstrument.Server
