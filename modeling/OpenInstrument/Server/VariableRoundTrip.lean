import OpenInstrument.Server.Variable
import OpenInstrument.VariableRoundTrip

/-! # Printing a variable of the C++ server and parsing it back

`quoteValue` puts a backslash before commas and quotes but not before backslashes, so the tokenizer
takes a backslash of the value for an escape.  Only a backslash that is followed by a comma comes back:
it is printed as two backslashes and a comma.

The converse counts: the backslashes that the tokenizer decodes are not enough for the value unless
each is alone and in front of a comma or a quote, and then one in front of a quote costs a quote.
-/

namespace OpenInstrument.Server

/-! ## Characters -/

def isLabelNameChar (char : UInt8) : Bool :=
  (97 ≤ char && char ≤ 122) || (65 ≤ char && char ≤ 90) || (48 ≤ char && char ≤ 57) ||
    char == 46 || char == 95 || char == 45 || char == 47 || char == 42

def isNameChar (char : UInt8) : Bool := isLabelNameChar char || char == comma

/-- The variables whose characters are those that the class documents. -/
structure Documented (v : Variable) : Prop where
  name : ∀ char ∈ v.name, isNameChar char = true
  labelNames : ∀ entry ∈ v.labels.entries, ∀ char ∈ entry.1, isLabelNameChar char = true
  values : ∀ entry ∈ v.labels.entries, entry.2 ≠ [] ∧ 0 ∉ entry.2

/-- A character that the tokenizer copies. -/
def Copied (char : UInt8) : Prop := char ≠ backslash ∧ char ≠ comma ∧ char ≠ quote

theorem notMem_of_forall {accepts : UInt8 → Bool} {text : Bytes} {char : UInt8}
    (all : ∀ char ∈ text, accepts char = true) (rejected : accepts char = false) : char ∉ text := by
  intro member
  rw [all char member] at rejected
  cases rejected

theorem copied_of_forall {accepts : UInt8 → Bool} {text : Bytes}
    (all : ∀ char ∈ text, accepts char = true) (noBackslash : accepts backslash = false)
    (noComma : accepts comma = false) (noQuote : accepts quote = false) :
    ∀ char ∈ text, Copied char := by
  intro char member
  refine ⟨?_, ?_, ?_⟩
  · rintro rfl
    exact notMem_of_forall all noBackslash member
  · rintro rfl
    exact notMem_of_forall all noComma member
  · rintro rfl
    exact notMem_of_forall all noQuote member

theorem Documented.no_brace {v : Variable} (documented : Documented v) : openBrace ∉ v.name :=
  notMem_of_forall documented.name rfl

theorem Documented.label_copied {v : Variable} (documented : Documented v) :
    ∀ entry ∈ v.labels.entries, ∀ char ∈ entry.1, Copied char :=
  fun entry member => copied_of_forall (documented.labelNames entry member) rfl rfl rfl

theorem Documented.label_no_equals {v : Variable} (documented : Documented v) :
    ∀ entry ∈ v.labels.entries, equals ∉ entry.1 :=
  fun entry member => notMem_of_forall (documented.labelNames entry member) rfl

theorem value_copied {value : Bytes} (bare : shouldQuoteValue value = false) :
    ∀ char ∈ value, Copied char := by
  have all : ∀ char ∈ value, isValueChar char = true := by
    simpa [shouldQuoteValue] using bare
  exact copied_of_forall all rfl rfl rfl

theorem quoteValue_backslash (rest : Bytes) :
    quoteValue (backslash :: rest) = backslash :: quoteValue rest := rfl

theorem quoteValue_special {char : UInt8} (special : char = comma ∨ char = quote) (rest : Bytes) :
    quoteValue (char :: rest) = backslash :: char :: quoteValue rest := by
  rcases special with rfl | rfl <;> rfl

theorem quoteValue_plain {char : UInt8} (noComma : char ≠ comma) (noQuote : char ≠ quote)
    (rest : Bytes) : quoteValue (char :: rest) = char :: quoteValue rest := by
  simp [quoteValue, isValueQuoteChar, noComma, noQuote]

/-- A value, split where the tokenizer takes two of its characters for an escape. -/
theorem value_induction {motive : Bytes → Prop} (nil : motive []) (lone : motive [backslash])
    (pair : ∀ char rest, motive rest → motive (backslash :: char :: rest))
    (single : ∀ char rest, char ≠ backslash → motive rest → motive (char :: rest)) :
    ∀ value, motive value
  | [] => nil
  | [char] => by
    by_cases escape : char = backslash
    · exact escape ▸ lone
    · exact single char [] escape nil
  | char :: second :: rest => by
    by_cases escape : char = backslash
    · subst escape
      exact pair second rest (value_induction nil lone pair single rest)
    · exact single char (second :: rest) escape (value_induction nil lone pair single (second :: rest))

/-! ## What comes back -/

def BackslashesBeforeCommas : Bytes → Prop
  | [] => True
  | char :: rest => (char = backslash → rest.head? = some comma) ∧ BackslashesBeforeCommas rest

instance decidableBackslashesBeforeCommas : DecidablePred BackslashesBeforeCommas
  | [] => .isTrue trivial
  | char :: rest =>
    haveI := decidableBackslashesBeforeCommas rest
    inferInstanceAs (Decidable ((char = backslash → rest.head? = some comma) ∧ BackslashesBeforeCommas rest))

/-- Each backslash is directly followed by a comma or a quote. -/
def BackslashesBeforeSpecials : Bytes → Prop
  | [] => True
  | char :: rest =>
    (char = backslash → rest.head? = some comma ∨ rest.head? = some quote) ∧
      BackslashesBeforeSpecials rest

def RoundTrips (v : Variable) : Prop :=
  ∃ parsed, fromString v.toString = .ok parsed ∧ parsed.name = v.name ∧ parsed.labels = v.labels ∧
    parsed.toString = v.toString

section Tokenizer

variable {inQuote : Bool} {token rest : Bytes}

theorem escapedList_copied {char : UInt8} (copied : Copied char) :
    escapedList inQuote token (char :: rest) = escapedList inQuote (token ++ [char]) rest := by
  obtain ⟨noBackslash, noComma, noQuote⟩ := copied
  conv_lhs => unfold escapedList
  rw [if_neg noBackslash, if_neg noComma, if_neg noQuote]

theorem escapedList_append {text : Bytes} (copied : ∀ char ∈ text, Copied char) :
    escapedList inQuote token (text ++ rest) = escapedList inQuote (token ++ text) rest := by
  induction text generalizing token with
  | nil => simp
  | cons char text inductionHypothesis =>
    rw [List.cons_append, escapedList_copied (copied char List.mem_cons_self),
      inductionHypothesis fun other member => copied other (List.mem_cons_of_mem _ member),
      List.append_assoc, List.singleton_append]

theorem escapedList_escape {char : UInt8} (escapable : char = quote ∨ char = comma ∨ char = backslash) :
    escapedList inQuote token (backslash :: char :: rest) =
      escapedList inQuote (token ++ [char]) rest := by
  have notNewline : char ≠ letterN := by
    rcases escapable with rfl | rfl | rfl <;> decide
  conv_lhs => unfold escapedList
  rw [if_pos rfl]
  exact (if_neg notNewline).trans (if_pos escapable)

theorem escapedList_comma :
    escapedList true token (comma :: rest) = escapedList true (token ++ [comma]) rest := by
  conv_lhs => unfold escapedList
  rw [if_neg (by decide), if_pos rfl, if_pos rfl]

theorem escapedList_separator :
    escapedList false token (comma :: rest) = (token :: ·) <$> escapedList false [] rest := by
  conv_lhs => unfold escapedList
  rw [if_neg (by decide), if_pos rfl, if_neg (by decide)]

theorem escapedList_quote :
    escapedList inQuote token (quote :: rest) = escapedList (!inQuote) token rest := by
  conv_lhs => unfold escapedList
  rw [if_neg (by decide), if_neg (by decide), if_pos rfl]

/-- A quoted value is read back when its backslashes stand before commas. -/
theorem escapedList_quoteValue {value : Bytes} (good : BackslashesBeforeCommas value) :
    escapedList true token (quoteValue value ++ quote :: rest) =
      escapedList false (token ++ value) rest := by
  induction value using value_induction generalizing token with
  | nil => rw [quoteValue, List.nil_append, escapedList_quote, List.append_nil, Bool.not_true]
  | lone => simp [BackslashesBeforeCommas] at good
  | pair char tail inductionHypothesis =>
    obtain ⟨before, -, later⟩ := good
    obtain rfl : char = comma := by simpa using before rfl
    rw [quoteValue_backslash, quoteValue_special (.inl rfl)]
    simp only [List.cons_append]
    rw [escapedList_escape (.inr (.inr rfl)), escapedList_comma, inductionHypothesis later]
    simp
  | single char tail other inductionHypothesis =>
    obtain ⟨-, later⟩ := good
    by_cases special : char = comma ∨ char = quote
    · rw [quoteValue_special special]
      simp only [List.cons_append]
      rw [escapedList_escape (special.elim (fun isComma => .inr (.inl isComma)) .inl),
        inductionHypothesis later, List.append_assoc, List.singleton_append]
    · obtain ⟨noComma, noQuote⟩ := not_or.mp special
      rw [quoteValue_plain noComma noQuote, List.cons_append, escapedList_copied ⟨other, noComma, noQuote⟩,
        inductionHypothesis later, List.append_assoc, List.singleton_append]

theorem escapedList_valueText {value : Bytes} (good : BackslashesBeforeCommas value) :
    escapedList false token (valueText value ++ rest) = escapedList false (token ++ value) rest := by
  unfold valueText
  split
  · rw [List.cons_append, List.append_assoc, escapedList_quote, Bool.not_false, List.singleton_append,
      escapedList_quoteValue good]
  · rename_i bare
    exact escapedList_append (value_copied (by simpa using bare))

end Tokenizer

/-! ## Labels -/

def labelText (entry : Bytes × Bytes) : Bytes := entry.1 ++ equals :: valueText entry.2

def labelToken (entry : Bytes × Bytes) : Bytes := entry.1 ++ equals :: entry.2

theorem labelsText_cons {entry : Bytes × Bytes} (nonempty : entry.2 ≠ []) (first : Bool)
    (entries : List (Bytes × Bytes)) :
    labelsText first (entry :: entries) =
      (if first then [] else [comma]) ++ (labelText entry ++ labelsText false entries) := by
  rw [labelsText, if_neg nonempty, labelText]
  simp

theorem copied_equals : Copied equals := by
  refine ⟨?_, ?_, ?_⟩ <;> decide

/-- The tokens of the labels behind a first one. -/
theorem escapedList_labels {token : Bytes} {entries : List (Bytes × Bytes)}
    (names : ∀ entry ∈ entries, ∀ char ∈ entry.1, Copied char)
    (values : ∀ entry ∈ entries, entry.2 ≠ [])
    (good : ∀ entry ∈ entries, BackslashesBeforeCommas entry.2) :
    escapedList false token (labelsText false entries) = .ok (token :: entries.map labelToken) := by
  induction entries generalizing token with
  | nil => rfl
  | cons entry entries inductionHypothesis =>
    have here := good entry List.mem_cons_self
    rw [labelsText_cons (values entry List.mem_cons_self), if_neg (by decide), List.singleton_append,
      escapedList_separator, labelText, List.append_assoc,
      escapedList_append (names entry List.mem_cons_self), List.cons_append,
      escapedList_copied copied_equals, escapedList_valueText here,
      inductionHypothesis (fun other member => names other (List.mem_cons_of_mem _ member))
        (fun other member => values other (List.mem_cons_of_mem _ member))
        (fun other member => good other (List.mem_cons_of_mem _ member))]
    simp [labelToken, Functor.map, Except.map]

theorem tokens_labelsText {entry : Bytes × Bytes} {entries : List (Bytes × Bytes)}
    (names : ∀ other ∈ entry :: entries, ∀ char ∈ other.1, Copied char)
    (values : ∀ other ∈ entry :: entries, other.2 ≠ [])
    (good : ∀ other ∈ entry :: entries, BackslashesBeforeCommas other.2) :
    tokens (labelsText true (entry :: entries)) = .ok ((entry :: entries).map labelToken) := by
  have nonempty : labelsText true (entry :: entries) ≠ [] := by
    rw [labelsText_cons (values entry List.mem_cons_self)]
    simp [labelText]
  rw [tokens, if_neg nonempty, labelsText_cons (values entry List.mem_cons_self), if_pos rfl,
    List.nil_append, labelText, List.append_assoc, escapedList_append (names entry List.mem_cons_self),
    List.cons_append, escapedList_copied copied_equals,
    escapedList_valueText (good entry List.mem_cons_self),
    escapedList_labels (fun other member => names other (List.mem_cons_of_mem _ member))
      (fun other member => values other (List.mem_cons_of_mem _ member))
      (fun other member => good other (List.mem_cons_of_mem _ member))]
  simp [labelToken]

theorem setToken_labels {entries : List (Bytes × Bytes)} (names : ∀ entry ∈ entries, equals ∉ entry.1)
    (labels : OrderedMap Bytes Bytes) :
    (entries.map labelToken).foldl setToken labels = labels.setAll entries := by
  induction entries generalizing labels with
  | nil => rfl
  | cons entry entries inductionHypothesis =>
    have here : setToken labels (labelToken entry) = labels.set entry.1 entry.2 := by
      rw [setToken, labelToken, splitItem_key entry.1 entry.2 (names entry List.mem_cons_self)]
    rw [List.map_cons, List.foldl_cons, here,
      inductionHypothesis fun other member => names other (List.mem_cons_of_mem _ member)]
    rfl

theorem splitBrace_name {name rest : Bytes} (no_brace : openBrace ∉ name) :
    splitBrace (name ++ openBrace :: rest) = some (name, rest) := by
  induction name with
  | nil => simp [splitBrace]
  | cons char name inductionHypothesis =>
    simp only [List.mem_cons, not_or] at no_brace
    simp [splitBrace, Ne.symm no_brace.1, inductionHypothesis no_brace.2]

theorem splitBrace_none {name : Bytes} (no_brace : openBrace ∉ name) : splitBrace name = none := by
  induction name with
  | nil => rfl
  | cons char name inductionHypothesis =>
    simp only [List.mem_cons, not_or] at no_brace
    simp [splitBrace, Ne.symm no_brace.1, inductionHypothesis no_brace.2]

/-- What `fromString` makes of a printed variable. -/
theorem fromString_toString {v : Variable} (no_brace : openBrace ∉ v.name) :
    fromString v.toString =
      if v.labels.entries = [] then .ok { name := v.name, labels := .empty, type := .unknown }
      else (tokens (labelsText true v.labels.entries)).map fun tokens =>
        { name := v.name, labels := tokens.foldl setToken .empty, type := .unknown } := by
  unfold Variable.toString
  split
  · rw [fromString, splitBrace_none no_brace]
  · rw [fromString, splitBrace_name no_brace]
    simp only [List.dropLast_concat]

theorem toString_congr {first second : Variable} (name : first.name = second.name)
    (labels : first.labels = second.labels) : first.toString = second.toString := by
  rw [Variable.toString, Variable.toString, name, labels]

theorem roundTrips_of_good {v : Variable} (documented : Documented v)
    (good : ∀ entry ∈ v.labels.entries, BackslashesBeforeCommas entry.2) : RoundTrips v := by
  rw [RoundTrips, fromString_toString documented.no_brace]
  cases listed : v.labels.entries with
  | nil =>
    have labels : OrderedMap.empty = v.labels := OrderedMap.ext listed.symm
    exact ⟨_, if_pos rfl, rfl, labels, toString_congr rfl labels⟩
  | cons entry entries =>
    have names := documented.label_copied
    have values : ∀ entry ∈ v.labels.entries, entry.2 ≠ [] :=
      fun entry member => (documented.values entry member).1
    have noEquals := documented.label_no_equals
    rw [listed] at names values good noEquals
    have labels : ((entry :: entries).map labelToken).foldl setToken .empty = v.labels := by
      rw [setToken_labels noEquals, ← listed, OrderedMap.setAll_empty]
    rw [if_neg (by simp), tokens_labelsText names values good]
    exact ⟨_, rfl, rfl, labels, toString_congr rfl labels⟩

/-! ## Counting -/

/-- How often the tokenizer decodes an escape to a character. -/
def escapes (target : UInt8) : Bytes → Nat
  | [] => 0
  | char :: rest =>
    if char = backslash then
      match rest with
      | [] => 0
      | escaped :: rest => (if escaped = target then 1 else 0) + escapes target rest
    else escapes target rest

section Counting

variable {target : UInt8}

theorem escapes_pair (char : UInt8) (rest : Bytes) :
    escapes target (backslash :: char :: rest) = (if char = target then 1 else 0) + escapes target rest := by
  conv_lhs => unfold escapes
  rw [if_pos rfl]

theorem escapes_single {char : UInt8} (other : char ≠ backslash) (rest : Bytes) :
    escapes target (char :: rest) = escapes target rest := by
  conv_lhs => unfold escapes
  rw [if_neg other]

theorem escapes_append {text : Bytes} (none : backslash ∉ text) (rest : Bytes) :
    escapes target (text ++ rest) = escapes target rest := by
  induction text with
  | nil => rfl
  | cons char text inductionHypothesis =>
    simp only [List.mem_cons, not_or] at none
    rw [List.cons_append, escapes_single (Ne.symm none.1), inductionHypothesis none.2]

/-- Backslashes and quotes come into the tokens by escapes only. -/
theorem escapedList_count (special : target = backslash ∨ target = quote) {inQuote : Bool}
    {token text : Bytes} {found : List Bytes} (parsed : escapedList inQuote token text = .ok found) :
    (found.map (List.count target)).sum = token.count target + escapes target text := by
  have notNewline : newline ≠ target := by rcases special with rfl | rfl <;> decide
  have notComma : comma ≠ target := by rcases special with rfl | rfl <;> decide
  induction text using value_induction generalizing inQuote token found with
  | nil =>
    cases parsed
    simp [escapes]
  | lone => cases parsed
  | pair char rest inductionHypothesis =>
    unfold escapedList at parsed
    rw [if_pos rfl] at parsed
    dsimp only at parsed
    split at parsed
    · rename_i isNewline
      have other : char ≠ target := by
        rw [isNewline]
        rcases special with rfl | rfl <;> decide
      rw [inductionHypothesis parsed, escapes_pair, if_neg other, List.count_append,
        List.count_singleton, beq_false_of_ne notNewline]
      simp
    · split at parsed
      · rw [inductionHypothesis parsed, escapes_pair, List.count_append, List.count_singleton]
        simp only [beq_iff_eq]
        omega
      · cases parsed
  | single char rest other inductionHypothesis =>
    rw [escapes_single other]
    unfold escapedList at parsed
    rw [if_neg other] at parsed
    split at parsed
    · rename_i isComma
      subst isComma
      split at parsed
      · rw [inductionHypothesis parsed, List.count_append, List.count_singleton, beq_false_of_ne notComma]
        simp
      -- The token ends at the comma, and the rest is read from an empty one.
      · obtain ⟨others, later, rfl⟩ := Fallible.map_ok parsed
        simp [inductionHypothesis later]
    · split at parsed
      · exact inductionHypothesis parsed
      · rename_i noComma noQuote
        have notTarget : char ≠ target := by
          rcases special with rfl | rfl
          · exact other
          · exact noQuote
        rw [inductionHypothesis parsed, List.count_append, List.count_singleton, beq_false_of_ne notTarget]
        simp

/-- The occurrences of a character in a label. -/
def labelCount (target : UInt8) (entry : Bytes × Bytes) : Nat :=
  entry.1.count target + entry.2.count target

theorem setToken_sum_le (special : target = backslash ∨ target = quote) (labels : OrderedMap Bytes Bytes)
    (found : List Bytes) :
    (found.foldl setToken labels).sum (labelCount target) ≤
      labels.sum (labelCount target) + (found.map (List.count target)).sum := by
  have notEquals : equals ≠ target := by rcases special with rfl | rfl <;> decide
  induction found generalizing labels with
  | nil => simp
  | cons token found inductionHypothesis =>
    have here : (setToken labels token).sum (labelCount target) ≤
        labels.sum (labelCount target) + token.count target := by
      unfold setToken
      cases parts : splitItem token with
      | none => simp
      | some entry =>
        have bound := OrderedMap.sum_set_le (labelCount target) labels entry.1 entry.2
        rw [splitItem_eq parts, List.count_append, List.count_cons, beq_false_of_ne notEquals]
        simpa [labelCount] using bound
    have rest := inductionHypothesis (setToken labels token)
    simp only [List.foldl_cons, List.map_cons, List.sum_cons]
    omega

/-- What the tokenizer decodes to a character in a quoted value and its closing quote. -/
def decoded (target : UInt8) (value : Bytes) : Nat := escapes target (quoteValue value ++ [quote])

/-- What the tokenizer makes of a backslash and the character behind it. -/
def pairCount (target char : UInt8) : Nat :=
  if char = comma ∨ char = quote ∨ char = backslash then if backslash = target then 1 else 0
  else if char = target then 1 else 0

theorem escapes_quoteValue_pair (char : UInt8) (tail rest : Bytes) :
    escapes target (quoteValue (backslash :: char :: tail) ++ rest) =
      pairCount target char + escapes target (quoteValue tail ++ rest) := by
  rw [quoteValue_backslash, pairCount]
  by_cases special : char = comma ∨ char = quote
  · have other : char ≠ backslash := by rcases special with rfl | rfl <;> decide
    rw [quoteValue_special special, if_pos (special.imp_right .inl)]
    simp only [List.cons_append]
    rw [escapes_pair, escapes_single other]
  · obtain ⟨noComma, noQuote⟩ := not_or.mp special
    rw [quoteValue_plain noComma noQuote]
    simp only [List.cons_append]
    rw [escapes_pair]
    by_cases again : char = backslash
    · have escapable : char = comma ∨ char = quote ∨ char = backslash := .inr (.inr again)
      rw [if_pos escapable, again]
    · have other : ¬(char = comma ∨ char = quote ∨ char = backslash) := by simp [noComma, noQuote, again]
      rw [if_neg other]

theorem escapes_quoteValue_single {char : UInt8} (other : char ≠ backslash) (tail rest : Bytes) :
    escapes target (quoteValue (char :: tail) ++ rest) =
      (if char = comma ∨ char = quote then if char = target then 1 else 0 else 0) +
        escapes target (quoteValue tail ++ rest) := by
  by_cases special : char = comma ∨ char = quote
  · rw [quoteValue_special special, if_pos special]
    simp only [List.cons_append]
    rw [escapes_pair]
  · obtain ⟨noComma, noQuote⟩ := not_or.mp special
    rw [quoteValue_plain noComma noQuote, if_neg special, List.cons_append, escapes_single other, Nat.zero_add]

theorem decoded_nil : decoded target [] = 0 := rfl

theorem decoded_lone : decoded target [backslash] = if quote = target then 1 else 0 := by
  rw [decoded, quoteValue_backslash, quoteValue, List.singleton_append, escapes_pair]
  rfl

theorem escapes_quoteValue (value rest : Bytes) :
    escapes target (quoteValue value ++ quote :: rest) = decoded target value + escapes target rest := by
  induction value using value_induction with
  | nil => rw [quoteValue, List.nil_append, escapes_single (by decide), decoded_nil, Nat.zero_add]
  | lone => rw [decoded_lone, quoteValue_backslash, quoteValue, List.singleton_append, escapes_pair]
  | pair char tail inductionHypothesis =>
    rw [decoded, escapes_quoteValue_pair, escapes_quoteValue_pair, inductionHypothesis, ← decoded,
      Nat.add_assoc]
  | single char tail other inductionHypothesis =>
    rw [decoded, escapes_quoteValue_single other, escapes_quoteValue_single other, inductionHypothesis,
      ← decoded, Nat.add_assoc]

/-- No more backslashes are decoded than the value has, and as many only if each is alone in front of a
comma or a quote. -/
theorem decoded_backslash (value : Bytes) :
    decoded backslash value ≤ value.count backslash ∧
      (decoded backslash value = value.count backslash → BackslashesBeforeSpecials value) := by
  induction value using value_induction with
  | nil => exact ⟨le_rfl, fun _ => trivial⟩
  | lone =>
    rw [decoded_lone, if_neg (by decide)]
    simp
  | pair char tail inductionHypothesis =>
    obtain ⟨below, equal⟩ := inductionHypothesis
    have here : decoded backslash (backslash :: char :: tail) =
        pairCount backslash char + decoded backslash tail := escapes_quoteValue_pair char tail [quote]
    rw [here, List.count_cons_self, List.count_cons, pairCount]
    by_cases special : char = comma ∨ char = quote
    · have other : char ≠ backslash := by rcases special with rfl | rfl <;> decide
      rw [if_pos (special.imp_right .inl), if_pos rfl, if_neg (by simpa using other)]
      refine ⟨by omega, fun same => ⟨fun _ => by simpa using special, fun escape => absurd escape other, ?_⟩⟩
      exact equal (by omega)
    · by_cases again : char = backslash
      · rw [if_pos (.inr (.inr again)), if_pos rfl, if_pos (by simpa using again)]
        omega
      · obtain ⟨noComma, noQuote⟩ := not_or.mp special
        rw [if_neg (by simp [noComma, noQuote, again]), if_neg again, if_neg (by simpa using again)]
        omega
  | single char tail other inductionHypothesis =>
    obtain ⟨below, equal⟩ := inductionHypothesis
    have here : decoded backslash (char :: tail) =
        (if char = comma ∨ char = quote then if char = backslash then 1 else 0 else 0) +
          decoded backslash tail := escapes_quoteValue_single other tail [quote]
    rw [here, if_neg other, ite_self, Nat.zero_add, List.count_cons_of_ne other]
    exact ⟨below, fun same => ⟨fun escape => absurd escape other, equal same⟩⟩

/-- Where each backslash is in front of a comma or a quote, no more quotes are decoded than the value
has, and as many only if each backslash is in front of a comma. -/
theorem decoded_quote {value : Bytes} (specials : BackslashesBeforeSpecials value) :
    decoded quote value ≤ value.count quote ∧
      (decoded quote value = value.count quote → BackslashesBeforeCommas value) := by
  induction value using value_induction with
  | nil => exact ⟨le_rfl, fun _ => trivial⟩
  | lone =>
    obtain ⟨before, -⟩ := specials
    simp at before
  | pair char tail inductionHypothesis =>
    obtain ⟨before, -, later⟩ := specials
    have special : char = comma ∨ char = quote := by simpa using before rfl
    obtain ⟨below, equal⟩ := inductionHypothesis later
    have here : decoded quote (backslash :: char :: tail) = pairCount quote char + decoded quote tail :=
      escapes_quoteValue_pair char tail [quote]
    have other : char ≠ backslash := by rcases special with rfl | rfl <;> decide
    rw [here, pairCount, if_pos (special.imp_right .inl), if_neg (by decide), Nat.zero_add,
      List.count_cons_of_ne (by decide), List.count_cons]
    -- A quote behind a backslash counts; of the others only a comma may stand there.
    by_cases isQuote : char = quote
    · rw [if_pos (by simpa using isQuote)]
      omega
    · have isComma := special.resolve_right isQuote
      rw [if_neg (by simpa using isQuote), Nat.add_zero]
      exact ⟨below, fun same => ⟨fun _ => by simp [isComma], fun escape => absurd escape other, equal same⟩⟩
  | single char tail other inductionHypothesis =>
    obtain ⟨-, later⟩ := specials
    obtain ⟨below, equal⟩ := inductionHypothesis later
    have here : decoded quote (char :: tail) =
        (if char = comma ∨ char = quote then if char = quote then 1 else 0 else 0) + decoded quote tail :=
      escapes_quoteValue_single other tail [quote]
    have same : (if char = comma ∨ char = quote then if char = quote then 1 else 0 else 0) =
        if char = quote then 1 else 0 := by
      by_cases isQuote : char = quote <;> simp [isQuote]
    rw [here, same, List.count_cons]
    simp only [beq_iff_eq]
    exact ⟨by omega, fun same => ⟨fun escape => absurd escape other, equal (by omega)⟩⟩

/-! ## What comes back has been printed faithfully -/

/-- What the tokenizer decodes to a character in a printed value. -/
def decodedText (target : UInt8) (value : Bytes) : Nat :=
  if shouldQuoteValue value then decoded target value else 0

theorem decodedText_le {value : Bytes} {bound : Nat}
    (quoted : shouldQuoteValue value = true → decoded target value ≤ bound) :
    decodedText target value ≤ bound := by
  unfold decodedText
  split
  · rename_i quotes
    exact quoted quotes
  · exact Nat.zero_le bound

theorem escapes_valueText (value rest : Bytes) :
    escapes target (valueText value ++ rest) = decodedText target value + escapes target rest := by
  unfold valueText decodedText
  split
  · rw [List.cons_append, List.append_assoc, escapes_single (by decide), List.singleton_append,
      escapes_quoteValue]
  · rename_i bare
    rw [escapes_append, Nat.zero_add]
    intro member
    exact (value_copied (by simpa using bare) backslash member).1 rfl

theorem escapes_labelsText {first : Bool} {entries : List (Bytes × Bytes)}
    (names : ∀ entry ∈ entries, ∀ char ∈ entry.1, Copied char)
    (values : ∀ entry ∈ entries, entry.2 ≠ []) :
    escapes target (labelsText first entries) =
      (entries.map fun entry => decodedText target entry.2).sum := by
  induction entries generalizing first with
  | nil => rfl
  | cons entry entries inductionHypothesis =>
    have noBackslash : backslash ∉ entry.1 :=
      fun member => (names entry List.mem_cons_self backslash member).1 rfl
    have rest : escapes target (labelsText false entries) =
        (entries.map fun entry => decodedText target entry.2).sum :=
      inductionHypothesis (fun other member => names other (List.mem_cons_of_mem _ member))
        fun other member => values other (List.mem_cons_of_mem _ member)
    have separator : backslash ∉ (if first then [] else [comma] : Bytes) := by
      cases first <;> decide
    rw [labelsText_cons (values entry List.mem_cons_self), escapes_append separator, labelText,
      List.append_assoc, escapes_append noBackslash, List.cons_append, escapes_single (by decide),
      escapes_valueText, rest, List.map_cons, List.sum_cons]

end Counting

theorem bare_good {value : Bytes} (bare : ∀ char ∈ value, Copied char) : BackslashesBeforeCommas value := by
  induction value with
  | nil => trivial
  | cons char rest inductionHypothesis =>
    exact ⟨fun escape => absurd escape (bare char List.mem_cons_self).1,
      inductionHypothesis fun other member => bare other (List.mem_cons_of_mem _ member)⟩

/-- A variable that comes back has at least as many of a character decoded as its values have. -/
theorem RoundTrips.count_le {v : Variable} (documented : Documented v) (roundTrips : RoundTrips v)
    {target : UInt8} (special : target = backslash ∨ target = quote) :
    (v.labels.entries.map fun entry => entry.2.count target).sum ≤
      (v.labels.entries.map fun entry => decodedText target entry.2).sum := by
  obtain ⟨parsed, read, -, labels, -⟩ := roundTrips
  rw [fromString_toString documented.no_brace] at read
  split at read
  · rename_i none
    rw [none]
    simp
  · rename_i some
    have values : ∀ entry ∈ v.labels.entries, entry.2 ≠ [] :=
      fun entry member => (documented.values entry member).1
    cases found : tokens (labelsText true v.labels.entries) with
    | error failure =>
      rw [found] at read
      cases read
    | ok tokens =>
      rw [found] at read
      obtain rfl := Except.ok.inj read
      have nonempty : labelsText true v.labels.entries ≠ [] := by
        obtain ⟨entry, entries, listed⟩ := List.exists_cons_of_ne_nil some
        rw [listed, labelsText_cons (values entry (listed ▸ List.mem_cons_self))]
        simp [labelText]
      rw [Server.tokens, if_neg nonempty] at found
      -- No token has more of the special byte than the text has escapes.
      have counted := escapedList_count special found
      have bound := setToken_sum_le special .empty tokens
      simp only at labels
      rw [labels, counted, escapes_labelsText documented.label_copied values] at bound
      have inLabels : (v.labels.entries.map fun entry => entry.2.count target).sum ≤
          v.labels.sum (labelCount target) :=
        List.sum_le_sum fun entry _ => Nat.le_add_left _ _
      have empty : OrderedMap.empty.sum (labelCount target) = 0 := rfl
      simp only [List.count_nil, empty, Nat.zero_add] at bound
      exact inLabels.trans bound

theorem good_of_roundTrips {v : Variable} (documented : Documented v) (roundTrips : RoundTrips v) :
    ∀ entry ∈ v.labels.entries, BackslashesBeforeCommas entry.2 := by
  -- First the backslashes: they leave no room for one that stands anywhere else.
  have fewBackslashes : ∀ entry ∈ v.labels.entries,
      decodedText backslash entry.2 ≤ entry.2.count backslash :=
    fun entry _ => decodedText_le fun _ => (decoded_backslash entry.2).1
  have backslashes := OrderedMap.eq_of_sum_le fewBackslashes (roundTrips.count_le documented (.inl rfl))
  have specials : ∀ entry ∈ v.labels.entries, shouldQuoteValue entry.2 = true →
      BackslashesBeforeSpecials entry.2 := by
    intro entry member quoted
    have same := backslashes entry member
    rw [decodedText, if_pos quoted] at same
    exact (decoded_backslash entry.2).2 same
  -- Then the quotes: a backslash in front of one would cost it.
  have fewQuotes : ∀ entry ∈ v.labels.entries, decodedText quote entry.2 ≤ entry.2.count quote :=
    fun entry member => decodedText_le fun quoted => (decoded_quote (specials entry member quoted)).1
  have quotes := OrderedMap.eq_of_sum_le fewQuotes (roundTrips.count_le documented (.inr rfl))
  intro entry member
  by_cases quoted : shouldQuoteValue entry.2 = true
  · have same := quotes entry member
    rw [decodedText, if_pos quoted] at same
    exact (decoded_quote (specials entry member quoted)).2 same
  · exact bare_good (value_copied (by simpa using quoted))

/-- A variable of documented characters comes back from its printed form exactly when each backslash in
its label values is directly followed by a comma. -/
theorem roundTrips_iff_backslashes {v : Variable} (documented : Documented v) :
    RoundTrips v ↔ ∀ entry ∈ v.labels.entries, BackslashesBeforeCommas entry.2 :=
  ⟨good_of_roundTrips documented, roundTrips_of_good documented⟩

/-- A variable whose label value has a comma, a quote and a backslash in front of a comma. -/
def quotedVariable : Variable :=
  { name := ascii "/a", labels := OrderedMap.empty.set (ascii "l") (ascii "x,\"\\,"), type := .unknown }

theorem roundTrips_iff_backslashes_quoted : RoundTrips quotedVariable :=
  (roundTrips_iff_backslashes ⟨by decide +kernel, by decide +kernel, by decide⟩).mpr
    (by decide)

/-- A variable whose label value is a path with a backslash. -/
def pathVariable : Variable :=
  { name := ascii "/a", labels := OrderedMap.empty.set (ascii "path") (ascii "C:\\dir"), type := .unknown }

theorem fromString_throws :
    Documented pathVariable ∧ fromString pathVariable.toString = .error .unknownEscape ∧
      ¬RoundTrips pathVariable := by
  have throws : fromString pathVariable.toString = .error .unknownEscape := by
    decide +kernel
  refine ⟨⟨by decide +kernel, by decide +kernel, by decide⟩, throws, fun roundTrips => ?_⟩
  obtain ⟨parsed, read, -⟩ := roundTrips
  rw [throws] at read
  cases read

end OpenInstrument.Server
