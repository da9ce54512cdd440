import OpenInstrument.Library.LittleEndian

/-! # The protocol-buffer wire format

A message is a sequence of numbered fields: varints, fixed-width numbers, and byte strings that may
hold further messages.  `Scalar` puts one kind of value into a field, `Format` puts a whole message
into a sequence of fields, and both come with the proof that reading undoes writing.
-/

namespace Wire

abbrev Bytes := List UInt8

/-! ## Varints -/

/-- Base-128 digits, least significant first; the first argument bounds the number of digits. -/
def varintFrom : Nat → Nat → Bytes
  | 0, number => [UInt8.ofNat number]
  | bound + 1, number =>
    if number < 128 then [UInt8.ofNat number]
    else UInt8.ofNat (number % 128 + 128) :: varintFrom bound (number / 128)

def varint (number : Nat) : Bytes := varintFrom number number

def readVarint : Bytes → Option (Nat × Bytes)
  | [] => none
  | byte :: rest =>
    if byte.toNat < 128 then some (byte.toNat, rest)
    else (readVarint rest).map fun result => (byte.toNat - 128 + 128 * result.1, result.2)

theorem readVarint_varintFrom {bound number : Nat} (enough : number ≤ bound) (rest : Bytes) :
    readVarint (varintFrom bound number ++ rest) = some (number, rest) := by
  induction bound generalizing number with
  | zero =>
    obtain rfl := Nat.le_zero.mp enough
    rfl
  | succ bound inductionHypothesis =>
    by_cases small : number < 128
    · have byte : (UInt8.ofNat number).toNat = number := by rw [UInt8.toNat_ofNat']; omega
      simp [varintFrom, small, readVarint, byte]
    · have byte : (UInt8.ofNat (number % 128 + 128)).toNat = number % 128 + 128 := by
        rw [UInt8.toNat_ofNat']
        omega
      have next : readVarint (varintFrom bound (number / 128) ++ rest) = some (number / 128, rest) :=
        inductionHypothesis (by omega)
      simp only [varintFrom, if_neg small, List.cons_append, readVarint, byte, next]
      rw [if_neg (by omega), Option.map_some, Nat.add_sub_cancel, Nat.mod_add_div]

@[simp] theorem readVarint_varint (number : Nat) (rest : Bytes) :
    readVarint (varint number ++ rest) = some (number, rest) :=
  readVarint_varintFrom le_rfl rest

theorem varint_length_pos (number : Nat) : 0 < (varint number).length := by
  cases number with
  | zero => simp [varint, varintFrom]
  | succ number =>
    simp only [varint, varintFrom]
    split <;> simp

/-! ## Fields -/

inductive Payload where
  | varint (number : Nat)
  | fixed64 (word : UInt64)
  | bytes (data : Bytes)
  | fixed32 (word : UInt32)
  deriving DecidableEq

def Payload.wireType : Payload → Nat
  | .varint _ => 0
  | .fixed64 _ => 1
  | .bytes _ => 2
  | .fixed32 _ => 5

def Payload.body : Payload → Bytes
  | .varint number => Wire.varint number
  | .fixed64 word => LittleEndian.encode 8 word.toNat
  | .bytes data => Wire.varint data.length ++ data
  | .fixed32 word => LittleEndian.encode 4 word.toNat

abbrev Field := Nat × Payload

def encodeField (field : Field) : Bytes := varint (field.1 * 8 + field.2.wireType) ++ field.2.body

def readPayload (wireType : Nat) (bytes : Bytes) : Option (Payload × Bytes) :=
  match wireType with
  | 0 => (readVarint bytes).map fun result => (.varint result.1, result.2)
  | 1 =>
    if bytes.length < 8 then none
    else some (.fixed64 (UInt64.ofNat (LittleEndian.decode (bytes.take 8))), bytes.drop 8)
  | 2 =>
    match readVarint bytes with
    | none => none
    | some (length, rest) =>
      if rest.length < length then none else some (.bytes (rest.take length), rest.drop length)
  | 5 =>
    if bytes.length < 4 then none
    else some (.fixed32 (UInt32.ofNat (LittleEndian.decode (bytes.take 4))), bytes.drop 4)
  | _ => none

def readField (bytes : Bytes) : Option (Field × Bytes) :=
  match readVarint bytes with
  | none => none
  | some (key, rest) => (readPayload (key % 8) rest).map fun result => ((key / 8, result.1), result.2)

theorem readPayload_body (payload : Payload) (rest : Bytes) :
    readPayload payload.wireType (payload.body ++ rest) = some (payload, rest) := by
  cases payload with
  | varint number => simp [readPayload, Payload.wireType, Payload.body]
  | fixed64 word =>
    have width : (LittleEndian.encode 8 word.toNat).length = 8 := LittleEndian.encode_length 8 _
    have value : LittleEndian.decode (LittleEndian.encode 8 word.toNat) = word.toNat :=
      LittleEndian.decode_encode_of_lt word.toNat_lt
    simp [readPayload, Payload.wireType, Payload.body, List.take_left' width, List.drop_left' width, value]
  | bytes data => simp [readPayload, Payload.wireType, Payload.body]
  | fixed32 word =>
    have width : (LittleEndian.encode 4 word.toNat).length = 4 := LittleEndian.encode_length 4 _
    have value : LittleEndian.decode (LittleEndian.encode 4 word.toNat) = word.toNat :=
      LittleEndian.decode_encode_of_lt word.toNat_lt
    simp [readPayload, Payload.wireType, Payload.body, List.take_left' width, List.drop_left' width, value]

theorem readField_encodeField (field : Field) (rest : Bytes) :
    readField (encodeField field ++ rest) = some (field, rest) := by
  obtain ⟨number, payload⟩ := field
  have small : payload.wireType < 8 := by cases payload <;> simp [Payload.wireType]
  have type : (number * 8 + payload.wireType) % 8 = payload.wireType := by omega
  have tag : (number * 8 + payload.wireType) / 8 = number := by omega
  simp [readField, encodeField, type, tag, readPayload_body]

def encodeFields (fields : List Field) : Bytes := fields.flatMap encodeField

def readFields : Nat → Bytes → Option (List Field)
  | _, [] => some []
  | 0, _ => none
  | fuel + 1, bytes =>
    match readField bytes with
    | none => none
    | some (field, rest) => (readFields fuel rest).map (field :: ·)

theorem encodeField_length_pos (field : Field) : 0 < (encodeField field).length := by
  have := varint_length_pos (field.1 * 8 + field.2.wireType)
  simp only [encodeField, List.length_append]
  omega

theorem encodeFields_length_ge (fields : List Field) : fields.length ≤ (encodeFields fields).length := by
  induction fields with
  | nil => simp
  | cons field fields inductionHypothesis =>
    have := encodeField_length_pos field
    simp only [encodeFields, List.flatMap_cons, List.length_append, List.length_cons] at *
    omega

theorem readFields_encodeFields {fields : List Field} {fuel : Nat} (enough : fields.length ≤ fuel) :
    readFields fuel (encodeFields fields) = some fields := by
  induction fields generalizing fuel with
  | nil => simp [encodeFields, readFields]
  | cons field fields inductionHypothesis =>
    obtain ⟨fuel, rfl⟩ : ∃ previous, fuel = previous + 1 := ⟨fuel - 1, by simp at enough; omega⟩
    have next : readFields fuel (encodeFields fields) = some fields :=
      inductionHypothesis (by simpa using enough)
    have here := readField_encodeField field (encodeFields fields)
    have nonempty : encodeField field ++ encodeFields fields ≠ [] := by
      intro empty
      have := encodeField_length_pos field
      simp [(List.append_eq_nil_iff.mp empty).1] at this
    rw [encodeFields, List.flatMap_cons, ← encodeFields]
    rw [readFields, here]
    · simp only [next, Option.map_some]
    · exact nonempty

/-! ## Values and messages -/

/-- One kind of value, as the payload of a field. -/
structure Scalar (Kind : Type) where
  put : Kind → Payload
  get : Payload → Option Kind
  get_put : ∀ value, get (put value) = some value

attribute [simp] Scalar.get_put

def payloads (number : Nat) (fields : List Field) : List Payload :=
  (fields.filter fun field => field.1 == number).map Prod.snd

variable {Kind Message : Type}

/-- A repeated field; an optional or required one is the case of at most one value. -/
def Scalar.fields (scalar : Scalar Kind) (number : Nat) (values : List Kind) : List Field :=
  values.map fun value => (number, scalar.put value)

def Scalar.all (scalar : Scalar Kind) (number : Nat) (fields : List Field) : Option (List Kind) :=
  (payloads number fields).mapM scalar.get

@[simp] theorem payloads_nil (number : Nat) : payloads number [] = [] := rfl

@[simp] theorem payloads_append (number : Nat) (first second : List Field) :
    payloads number (first ++ second) = payloads number first ++ payloads number second := by
  simp [payloads]

@[simp] theorem payloads_fields (scalar : Scalar Kind) (number : Nat) (values : List Kind) :
    payloads number (scalar.fields number values) = values.map scalar.put := by
  rw [payloads, Scalar.fields, List.filter_eq_self.mpr (by simp), List.map_map]
  rfl

theorem payloads_fields_ne (scalar : Scalar Kind) {number other : Nat} (different : other ≠ number)
    (values : List Kind) : payloads number (scalar.fields other values) = [] := by
  simp [payloads, Scalar.fields, List.filter_map, Function.comp_def, different]

@[simp] theorem Scalar.mapM_get_put (scalar : Scalar Kind) (values : List Kind) :
    values.mapM (scalar.get ∘ scalar.put) = some values := by
  induction values with
  | nil => rfl
  | cons value values inductionHypothesis =>
    rw [List.mapM_cons, inductionHypothesis, Function.comp_apply, scalar.get_put]
    rfl

/-- A message, as a sequence of fields. -/
structure Format (Message : Type) where
  toFields : Message → List Field
  ofFields : List Field → Option Message
  ofFields_toFields : ∀ message, ofFields (toFields message) = some message

def Format.encode (format : Format Message) (message : Message) : Bytes :=
  encodeFields (format.toFields message)

def Format.decode (format : Format Message) (bytes : Bytes) : Option Message :=
  (readFields bytes.length bytes).bind format.ofFields

theorem Format.decode_encode (format : Format Message) (message : Message) :
    format.decode (format.encode message) = some message := by
  rw [Format.decode, Format.encode, readFields_encodeFields (encodeFields_length_ge _),
    Option.bind_some, format.ofFields_toFields]

def uint64 : Scalar UInt64 where
  put word := .varint word.toNat
  get
    | .varint number => some (UInt64.ofNat number)
    | _ => none
  get_put _ := by simp

def uint32 : Scalar UInt32 where
  put word := .varint word.toNat
  get
    | .varint number => some (UInt32.ofNat number)
    | _ => none
  get_put _ := by simp

def fixed64 : Scalar UInt64 where
  put := .fixed64
  get
    | .fixed64 word => some word
    | _ => none
  get_put _ := rfl

def fixed32 : Scalar UInt32 where
  put := .fixed32
  get
    | .fixed32 word => some word
    | _ => none
  get_put _ := rfl

def string : Scalar Bytes where
  put := .bytes
  get
    | .bytes data => some data
    | _ => none
  get_put _ := rfl

def embedded (format : Format Message) : Scalar Message where
  put message := .bytes (format.encode message)
  get
    | .bytes data => format.decode data
    | _ => none
  get_put := format.decode_encode

/-! ## Lengths -/

theorem encodeFields_append (first second : List Field) :
    encodeFields (first ++ second) = encodeFields first ++ encodeFields second :=
  List.flatMap_append

/-- The number of bytes of a repeated field depends on its values only through their payloads. -/
theorem encodeFields_length_congr {scalar : Scalar Kind} {number : Nat} {first second : List Kind}
    (same : List.Forall₂ (fun one other =>
      (encodeField (number, scalar.put one)).length = (encodeField (number, scalar.put other)).length)
      first second) :
    (encodeFields (scalar.fields number first)).length =
      (encodeFields (scalar.fields number second)).length := by
  induction same with
  | nil => rfl
  | cons here _ inductionHypothesis =>
    simp only [Scalar.fields, encodeFields, List.map_cons, List.flatMap_cons, List.length_append] at *
    rw [here, inductionHypothesis]

theorem fixed64_length (number : Nat) (first second : UInt64) :
    (encodeField (number, fixed64.put first)).length = (encodeField (number, fixed64.put second)).length := by
  simp [encodeField, fixed64, Payload.body, Payload.wireType]

theorem fixed64_option_length (number : Nat) (change : UInt64 → UInt64) (value : Option UInt64) :
    (encodeFields (fixed64.fields number (value.map change).toList)).length =
      (encodeFields (fixed64.fields number value.toList)).length := by
  cases value with
  | none => rfl
  | some word => exact encodeFields_length_congr (.cons (fixed64_length number _ _) .nil)

theorem embedded_length {format : Format Message} {first second : Message} (number : Nat)
    (same : (format.encode first).length = (format.encode second).length) :
    (encodeField (number, (embedded format).put first)).length =
      (encodeField (number, (embedded format).put second)).length := by
  simp [encodeField, embedded, Payload.body, Payload.wireType, same]

theorem fields_length_le (scalar : Scalar Kind) (number : Nat) (values : List Kind) :
    values.length ≤ (encodeFields (scalar.fields number values)).length := by
  have := encodeFields_length_ge (scalar.fields number values)
  simpa [Scalar.fields] using this

end Wire
