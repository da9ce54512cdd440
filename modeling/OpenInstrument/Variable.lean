import OpenInstrument.Library.Keyed
import OpenInstrument.Go.Text

/-! # Variables

A variable is a name with a map of labels.  `string` prints it, and the printed form is the
key under which the datastore files everything about the variable; `newFromString` parses it
back with a regular expression and a CSV reader; `isMatch` implements searches.
-/

namespace OpenInstrument

/-- `Label`: the value is an optional field, read as the empty string when it is unset. -/
structure Label where
  label : GoString
  value : Option GoString
  deriving DecidableEq

/-- `StreamVariable`.  The name is a required field: `proto.Unmarshal` rejects a message
without it. -/
structure StreamVariable where
  name : GoString
  label : List Label
  deriving DecidableEq

structure Variable where
  name : GoString
  labels : AList fun _ : GoString => GoString

def Label.getValue (label : Label) : GoString := label.value.getD []

/-! ## Printing -/

/-- The regular expression `^[,}]*$`. -/
def valueNeedsQuotes (str : GoString) : Bool :=
  str.all fun byte => byte == comma || byte == closeBrace

def sortedKeys (labels : AList fun _ : GoString => GoString) : List GoString :=
  sortStrings labels.keys

/-- One turn of the loop of `String`: the label's key, `=`, and its value. -/
def labelText (key value : GoString) : GoString :=
  if valueNeedsQuotes value then key ++ equals :: quote :: (value ++ [quote])
  else key ++ equals :: value

/-- The loop of `String` over the sorted labels, with a comma between two of them. -/
def labelsText : List (GoString × GoString) → GoString
  | [] => []
  | [(key, value)] => labelText key value
  | (key, value) :: rest => labelText key value ++ comma :: labelsText rest

def Variable.sortedLabels (v : Variable) : List (GoString × GoString) :=
  (sortedKeys v.labels).map fun key => (key, (v.labels.lookup key).getD [])

def Variable.string (v : Variable) : GoString :=
  if v.labels.keys = [] then v.name
  else v.name ++ openBrace :: (labelsText v.sortedLabels ++ [closeBrace])

/-! ## Protocol buffers -/

def addLabel (labels : AList fun _ : GoString => GoString) (label : Label) :
    AList fun _ : GoString => GoString :=
  labels.insert label.label label.getValue

/-- `NewFromProto` and `ParseFromProto`: `*p.Name` panics when `p` is nil. -/
def newFromProto : Option StreamVariable → Except Panic Variable
  | none => .error .nilMessage
  | some p => .ok { name := p.name, labels := p.label.foldl addLabel ∅ }

def Variable.asProto (v : Variable) : StreamVariable :=
  { name := v.name
    label := (Keyed.pairs v.labels).map fun entry => { label := entry.1, value := some entry.2 } }

/-! ## Parsing -/

/-- The tail `({(.*)})?$` of the regular expression, with its inner group.  A dot stands for
any byte but a newline. -/
def matchLabels : GoString → Option GoString
  | [] => some []
  | byte :: rest =>
    if byte = openBrace ∧ rest.getLast? = some closeBrace ∧ newline ∉ rest.dropLast then
      some rest.dropLast
    else none

/-- The regular expression `^(.+?)({(.*)})?$`: the shortest non-empty name whose remainder
matches the tail.  `seen` is the part of the name tried so far. -/
def matchVariable (seen : GoString) : GoString → Option (GoString × GoString)
  | [] => none
  | byte :: rest =>
    if byte = newline then none
    else
      match matchLabels rest with
      | some inner => some (seen ++ [byte], inner)
      | none => matchVariable (seen ++ [byte]) rest

inductive CsvError where
  | bareQuote
  | quote
  deriving DecidableEq

/-- Where the CSV reader stands: at the start of a field, in an unquoted or a quoted one, or
behind a quote that closes the field unless another quote follows. -/
inductive CsvMode where
  | start
  | unquoted
  | quoted
  | quoteSeen
  deriving DecidableEq

/-- The bytes of one record, read by `encoding/csv`; `field` is what the current field holds
so far.  The record ends with the text, in which no newline occurs.  These are the documented rules; the
reader also drops a carriage return that ends the text, which is not documented. -/
def csvRecord : CsvMode → GoString → GoString → Except CsvError (List GoString)
  | .start, field, [] | .unquoted, field, [] | .quoteSeen, field, [] => .ok [field]
  | .quoted, _, [] => .error .quote
  | .start, _, byte :: rest =>
    if byte = quote then csvRecord .quoted [] rest
    else if byte = comma then ([] :: ·) <$> csvRecord .start [] rest
    else csvRecord .unquoted [byte] rest
  | .unquoted, field, byte :: rest =>
    if byte = quote then .error .bareQuote
    else if byte = comma then (field :: ·) <$> csvRecord .start [] rest
    else csvRecord .unquoted (field ++ [byte]) rest
  | .quoted, field, byte :: rest =>
    if byte = quote then csvRecord .quoteSeen field rest
    else csvRecord .quoted (field ++ [byte]) rest
  | .quoteSeen, field, byte :: rest =>
    if byte = quote then csvRecord .quoted (field ++ [quote]) rest
    else if byte = comma then (field :: ·) <$> csvRecord .start [] rest
    else .error .quote

/-- `strings.SplitN(item, "=", 2)`, when it yields two parts. -/
def splitItem : GoString → Option (GoString × GoString)
  | [] => none
  | byte :: rest =>
    if byte = equals then some ([], rest)
    else (splitItem rest).map fun parts => (byte :: parts.1, parts.2)

/-- `ParseFromString`, as `NewFromString` uses it: `none` stands for its error, which gives a
nil variable.  A string that the regular expression does not match panics at `matches[1]`. -/
def newFromString (textvar : GoString) : Except Panic (Option Variable) :=
  match matchVariable [] textvar with
  | none => .error .indexOutOfRange
  | some (name, []) => .ok (some { name, labels := ∅ })
  | some (name, inner) =>
    match csvRecord .start [] inner with
    | .error _ => .ok none
    | .ok record =>
      .ok ((record.mapM splitItem).map fun items => { name, labels := Keyed.insertAll ∅ items })

/-! ## Searches -/

/-- One label of a search, against the labels of a variable. -/
def labelMatches (labels : AList fun _ : GoString => GoString) (key value : GoString) : Bool :=
  if value = [] then (labels.lookup key).isNone
  else if value = [star] then
    match labels.lookup key with
    | none => false
    | some found => found ≠ []
  else labels.lookup key = some value

/-- `Match`: the prefix of a wildcard is `match.Variable[0 : len(match.Variable)-2]`. -/
def Variable.isMatch (v search : Variable) : Except Panic Bool :=
  let labelsMatch := (Keyed.pairs search.labels).all fun entry =>
    labelMatches v.labels entry.1 entry.2
  if search.name.getLast? = some star then
    if search.name.length < 2 then .error .sliceOutOfRange
    else .ok ((search.name.take (search.name.length - 2)).isPrefixOf v.name && labelsMatch)
  else .ok (search.name == v.name && labelsMatch)

end OpenInstrument
