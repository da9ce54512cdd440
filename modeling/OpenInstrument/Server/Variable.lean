import OpenInstrument.Library.OrderedMap
import OpenInstrument.Variable

/-! # Variables of the C++ server

A variable is a name, labels ordered by name, and a type.  `toString` prints it for use as a key;
`fromString` reads it back with the tokenizer `boost::escaped_list_separator`, which has an escape of
its own for every backslash, within quotes and outside of them.
-/

namespace OpenInstrument.Server

inductive ValueType where
  | unknown
  | gauge
  | rate
  deriving DecidableEq

/-- `proto::StreamVariable`. -/
structure StreamVariable where
  name : Bytes
  label : List Label
  type : Option ValueType
  deriving DecidableEq

structure Variable where
  name : Bytes
  labels : OrderedMap Bytes Bytes
  type : ValueType
  deriving DecidableEq

def backslash : UInt8 := 92
def letterN : UInt8 := 110

/-! ## Labels -/

def Variable.setLabel (v : Variable) (label value : Bytes) : Variable :=
  { v with labels := v.labels.set label value }

def Variable.hasLabel (v : Variable) (label : Bytes) : Bool := (v.labels.lookup label).isSome

def Variable.getLabel (v : Variable) (label : Bytes) : Bytes := (v.labels.lookup label).getD []

/-! ## Printing -/

def isValueChar (char : UInt8) : Bool :=
  (97 ≤ char && char ≤ 122) || (65 ≤ char && char ≤ 90) || (48 ≤ char && char ≤ 57) ||
    char == 95 || char == 45 || char == 46 || char == 32 || char == 42 || char == 47

def isValueQuoteChar (char : UInt8) : Bool := char == comma || char == quote

def shouldQuoteValue (input : Bytes) : Bool := input.any fun char => !isValueChar char

def quoteValue : Bytes → Bytes
  | [] => []
  | char :: rest =>
    if isValueChar char then char :: quoteValue rest
    else if isValueQuoteChar char then backslash :: char :: quoteValue rest
    else char :: quoteValue rest

def valueText (value : Bytes) : Bytes :=
  if shouldQuoteValue value then quote :: (quoteValue value ++ [quote]) else value

/-- The loop of `ToString`; a comma stands in front of each label but the first of the map. -/
def labelsText : Bool → List (Bytes × Bytes) → Bytes
  | _, [] => []
  | first, (label, value) :: rest =>
    if value = [] then labelsText false rest
    else (if first then [] else [comma]) ++ (label ++ equals :: (valueText value ++ labelsText false rest))

def Variable.toString (v : Variable) : Bytes :=
  if v.labels.entries = [] then v.name
  else v.name ++ openBrace :: (labelsText true v.labels.entries ++ [closeBrace])

/-! ## Parsing -/

inductive EscapedListError where
  | cannotEndWithEscape
  | unknownEscape
  deriving DecidableEq

/-- `boost::escaped_list_separator` with its default characters; `token` is what the current token
holds so far.  An escape stands for itself or a newline whether or not it is within quotes. -/
def escapedList : Bool → Bytes → Bytes → Except EscapedListError (List Bytes)
  | _, token, [] => .ok [token]
  | inQuote, token, char :: rest =>
    if char = backslash then
      match rest with
      | [] => .error .cannotEndWithEscape
      | escaped :: rest =>
        if escaped = letterN then escapedList inQuote (token ++ [newline]) rest
        else if escaped = quote ∨ escaped = comma ∨ escaped = backslash then
          escapedList inQuote (token ++ [escaped]) rest
        else .error .unknownEscape
    else if char = comma then
      if inQuote then escapedList inQuote (token ++ [char]) rest
      else (token :: ·) <$> escapedList false [] rest
    else if char = quote then escapedList (!inQuote) token rest
    else escapedList inQuote (token ++ [char]) rest

/-- The tokens of a text; an empty text has none. -/
def tokens (text : Bytes) : Except EscapedListError (List Bytes) :=
  if text = [] then .ok [] else escapedList false [] text

/-- One turn of the loop over the tokens; a token without `=` is skipped. -/
def setToken (labels : OrderedMap Bytes Bytes) (token : Bytes) : OrderedMap Bytes Bytes :=
  match splitItem token with
  | none => labels
  | some (label, value) => labels.set label value

/-- The text in front of the first `{`, and the one behind it. -/
def splitBrace : Bytes → Option (Bytes × Bytes)
  | [] => none
  | char :: rest =>
    if char = openBrace then some ([], rest)
    else (splitBrace rest).map fun parts => (char :: parts.1, parts.2)

/-- `FromString` on a new variable.  The last byte behind the brace is taken for the closing one. -/
def fromString (input : Bytes) : Except EscapedListError Variable :=
  match splitBrace input with
  | none => .ok { name := input, labels := .empty, type := .unknown }
  | some (name, rest) =>
    (tokens rest.dropLast).map fun tokens =>
      { name := name, labels := tokens.foldl setToken .empty, type := .unknown }

/-! ## Protocol buffers -/

/-- `FromProtobuf` on a new variable. -/
def fromProtobuf (protobuf : StreamVariable) : Variable :=
  { name := protobuf.name
    labels := protobuf.label.foldl (fun labels label => labels.set label.label label.getValue) .empty
    type := protobuf.type.getD .unknown }

/-- `ToProtobuf` into a new message. -/
def Variable.toProtobuf (v : Variable) : StreamVariable :=
  { name := v.name
    label := v.labels.entries.map fun entry => { label := entry.1, value := some entry.2 }
    type := if v.type = .unknown then none else some v.type }

/-- A message made from a variable gives the variable back. -/
theorem fromProtobuf_toProtobuf (v : Variable) : fromProtobuf v.toProtobuf = v := by
  have labels : (fromProtobuf v.toProtobuf).labels = v.labels := by
    have built := OrderedMap.setAll_empty v.labels
    simpa [fromProtobuf, Variable.toProtobuf, OrderedMap.setAll, List.foldl_map, Label.getValue] using built
  have type : (fromProtobuf v.toProtobuf).type = v.type := by
    simp only [fromProtobuf, Variable.toProtobuf]
    split
    · rename_i unknown
      rw [unknown]
      rfl
    · rfl
  cases v with
  | mk name entries kind => exact congrArg₂ (Variable.mk name) labels type

end OpenInstrument.Server
