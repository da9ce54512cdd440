import OpenInstrument.Variable
import OpenInstrument.Library.Fallible

/-! # Printing a variable and parsing it back

`string` leaves a label value bare unless it consists of commas and closing braces only, and
the CSV reader rejects a quote inside a bare field.  `roundTrips_iff` says for which values
the printed form parses back to the variable it was printed from.

The direction from the parser to the printer is a counting argument: the reader drops or
merges nothing but quotes, so the bytes of the record other than quotes leave no room for a
field that a later field of the same key would overwrite (`record_keys_nodup`).
-/

namespace OpenInstrument

/-- A variable name that can begin a storage key. -/
structure PlainName (name : GoString) : Prop where
  nonempty : name ≠ []
  no_brace : openBrace ∉ name
  no_newline : newline ∉ name

/-- A label key that holds no byte with a meaning of its own in the printed form. -/
structure PlainKey (key : GoString) : Prop where
  nonempty : key ≠ []
  no_equals : equals ∉ key
  no_comma : comma ∉ key
  no_quote : quote ∉ key
  no_newline : newline ∉ key

/-- A label value that the printed form carries unchanged. -/
structure PrintableValue (value : GoString) : Prop where
  no_comma : comma ∉ value
  no_quote : quote ∉ value
  no_newline : newline ∉ value
  bare : ∃ byte ∈ value, byte ≠ closeBrace

def RoundTrips (v : Variable) : Prop :=
  ∃ parsed, newFromString v.string = .ok (some parsed) ∧ parsed.name = v.name ∧
    ∀ key, parsed.labels.lookup key = v.labels.lookup key

/-! ## The regular expression -/

theorem matchLabels_braces (inner : GoString) (plain : newline ∉ inner) :
    matchLabels (openBrace :: (inner ++ [closeBrace])) = some inner := by
  simp [matchLabels, plain]

/-- The name is all that stands in front of labels, since none of its bytes begins them. -/
theorem matchVariable_append (name : GoString) {labels inner : GoString} (nonempty : name ≠ [])
    (no_brace : openBrace ∉ name) (no_newline : newline ∉ name) (matched : matchLabels labels = some inner) :
    ∀ seen, matchVariable seen (name ++ labels) = some (seen ++ name, inner) := by
  induction name with
  | nil => exact absurd rfl nonempty
  | cons byte rest inductionHypothesis =>
    intro seen
    simp only [List.mem_cons, not_or] at no_brace no_newline
    simp only [List.cons_append, matchVariable, if_neg (Ne.symm no_newline.1)]
    cases rest with
    | nil => simp [matched]
    | cons next rest =>
      have skipped : matchLabels (next :: rest ++ labels) = none := by
        have differs : next ≠ openBrace := by
          rintro rfl
          exact no_brace.2 List.mem_cons_self
        simp [matchLabels, differs]
      rw [skipped]
      exact (inductionHypothesis (by simp) no_brace.2 no_newline.2 (seen ++ [byte])).trans (by simp)

theorem matchVariable_name (name inner : GoString) (nonempty : name ≠ [])
    (no_brace : openBrace ∉ name) (no_newline : newline ∉ name) (plain : newline ∉ inner) :
    ∀ seen, matchVariable seen (name ++ openBrace :: (inner ++ [closeBrace])) =
      some (seen ++ name, inner) :=
  matchVariable_append name nonempty no_brace no_newline (matchLabels_braces inner plain)

theorem matchVariable_bare (name : GoString) (nonempty : name ≠ []) (no_brace : openBrace ∉ name)
    (no_newline : newline ∉ name) (seen : GoString) : matchVariable seen name = some (seen ++ name, []) := by
  have matched := matchVariable_append name nonempty no_brace no_newline (show matchLabels [] = some [] from rfl) seen
  rwa [List.append_nil] at matched

/-- A newline that is not the last byte keeps the tail of the expression from matching. -/
theorem matchLabels_newline {text : GoString} (present : newline ∈ text)
    (closed : text.getLast? = some closeBrace) : matchLabels text = none := by
  cases text with
  | nil => cases present
  | cons byte rest =>
    simp only [matchLabels, ite_eq_right_iff]
    rintro ⟨rfl, last, clean⟩
    simp only [List.mem_cons] at present
    have inside : newline ∈ rest := present.resolve_left (by decide)
    have split : rest = rest.dropLast ++ [closeBrace] := by
      have nonempty : rest ≠ [] := List.ne_nil_of_mem inside
      rw [List.getLast?_eq_some_getLast nonempty, Option.some.injEq] at last
      rw [← last, List.dropLast_append_getLast]
    rw [split, List.mem_append] at inside
    rcases inside with inside | inside
    · exact absurd inside clean
    · exact absurd inside (by decide)

theorem matchVariable_newline (text : GoString) (present : newline ∈ text)
    (closed : text.getLast? = some closeBrace) : ∀ seen, matchVariable seen text = none := by
  induction text with
  | nil => cases present
  | cons byte rest inductionHypothesis =>
    intro seen
    simp only [matchVariable]
    split
    · rfl
    · rename_i differs
      have inside : newline ∈ rest := (List.mem_cons.mp present).resolve_left (Ne.symm differs)
      have last : rest.getLast? = some closeBrace := by
        cases rest with
        | nil => cases inside
        | cons next rest => simpa using closed
      rw [matchLabels_newline inside last]
      exact inductionHypothesis inside last _

/-! ## The CSV reader on plain text -/

theorem csvRecord_unquoted_append (text rest : GoString) (no_comma : comma ∉ text)
    (no_quote : quote ∉ text) :
    ∀ field, csvRecord .unquoted field (text ++ rest) = csvRecord .unquoted (field ++ text) rest := by
  induction text with
  | nil => simp
  | cons byte text inductionHypothesis =>
    intro field
    simp only [List.mem_cons, not_or] at no_comma no_quote
    rw [List.cons_append, csvRecord, if_neg (Ne.symm no_quote.1), if_neg (Ne.symm no_comma.1),
      inductionHypothesis no_comma.2 no_quote.2]
    simp

theorem csvRecord_start_append (text rest : GoString) (nonempty : text ≠ [])
    (no_comma : comma ∉ text) (no_quote : quote ∉ text) :
    csvRecord .start [] (text ++ rest) = csvRecord .unquoted text rest := by
  cases text with
  | nil => exact absurd rfl nonempty
  | cons byte text =>
    simp only [List.mem_cons, not_or] at no_comma no_quote
    rw [List.cons_append, csvRecord, if_neg (Ne.symm no_quote.1), if_neg (Ne.symm no_comma.1),
      csvRecord_unquoted_append text rest no_comma.2 no_quote.2]
    rfl

theorem splitItem_key (key value : GoString) (no_equals : equals ∉ key) :
    splitItem (key ++ equals :: value) = some (key, value) := by
  induction key with
  | nil => simp [splitItem]
  | cons byte key inductionHypothesis =>
    simp only [List.mem_cons, not_or] at no_equals
    simp [splitItem, Ne.symm no_equals.1, inductionHypothesis no_equals.2]

theorem splitItem_eq {item key value : GoString} (parts : splitItem item = some (key, value)) :
    item = key ++ equals :: value := by
  induction item generalizing key with
  | nil => cases parts
  | cons byte rest inductionHypothesis =>
    simp only [splitItem] at parts
    split at parts
    · rename_i same
      simp only [Option.some.injEq, Prod.mk.injEq] at parts
      obtain ⟨rfl, rfl⟩ := parts
      rw [same]; rfl
    · simp only [Option.map_eq_some_iff, Prod.mk.injEq] at parts
      obtain ⟨⟨key', value'⟩, found, rfl, rfl⟩ := parts
      rw [inductionHypothesis found]; rfl

/-! ## Printable labels survive -/

theorem PrintableValue.needs_no_quotes {value : GoString} (printable : PrintableValue value) :
    valueNeedsQuotes value = false := by
  obtain ⟨byte, member, differs⟩ := printable.bare
  have not_comma : byte ≠ comma := by
    rintro rfl
    exact printable.no_comma member
  rw [valueNeedsQuotes, List.all_eq_false]
  exact ⟨byte, member, by simp [differs, not_comma]⟩

theorem csvRecord_labelsText (labels : List (GoString × GoString)) (nonempty : labels ≠ [])
    (keys : ∀ label ∈ labels, PlainKey label.1) (values : ∀ label ∈ labels, PrintableValue label.2) :
    csvRecord .start [] (labelsText labels) =
      .ok (labels.map fun label => label.1 ++ equals :: label.2) := by
  induction labels with
  | nil => exact absurd rfl nonempty
  | cons label rest inductionHypothesis =>
    obtain ⟨key, value⟩ := label
    have key_plain : PlainKey key := keys _ List.mem_cons_self
    have value_plain : PrintableValue value := values _ List.mem_cons_self
    have text_nonempty : key ++ equals :: value ≠ [] := by simp
    have no_comma : comma ∉ key ++ equals :: value := by
      simp [key_plain.no_comma, value_plain.no_comma]
    have no_quote : quote ∉ key ++ equals :: value := by
      simp [key_plain.no_quote, value_plain.no_quote]
    have text : labelText key value = key ++ equals :: value := by
      simp [labelText, value_plain.needs_no_quotes]
    cases rest with
    | nil =>
      have read := csvRecord_start_append _ [] text_nonempty no_comma no_quote
      rw [List.append_nil] at read
      rw [labelsText, text, read]
      rfl
    | cons next rest =>
      rw [labelsText, text, csvRecord_start_append _ _ text_nonempty no_comma no_quote, csvRecord,
        if_neg (by decide), if_pos rfl,
        inductionHypothesis (by simp) (fun label member => keys label (List.mem_cons_of_mem _ member))
          (fun label member => values label (List.mem_cons_of_mem _ member))]
      · rfl
      · simp

theorem splitItems (labels : List (GoString × GoString)) (keys : ∀ label ∈ labels, PlainKey label.1) :
    (labels.map fun label => label.1 ++ equals :: label.2).mapM splitItem = some labels := by
  induction labels with
  | nil => rfl
  | cons label rest inductionHypothesis =>
    have rest_split := inductionHypothesis fun label member => keys label (List.mem_cons_of_mem _ member)
    have head_split := splitItem_key label.1 label.2 (keys label List.mem_cons_self).no_equals
    simp [List.mapM_cons, rest_split, head_split]

/-! ## The sorted labels -/

theorem Variable.sortedLabels_keys (v : Variable) :
    (v.sortedLabels.map Prod.fst).Perm v.labels.keys := by
  simp only [Variable.sortedLabels, List.map_map, Function.comp_def, List.map_id']
  exact sortStrings_perm _

theorem Variable.sortedLabels_nodup (v : Variable) : (v.sortedLabels.map Prod.fst).Nodup :=
  v.sortedLabels_keys.nodup_iff.mpr v.labels.keys_nodup

theorem Variable.mem_sortedLabels {v : Variable} {key value : GoString} :
    (key, value) ∈ v.sortedLabels ↔ v.labels.lookup key = some value := by
  simp only [Variable.sortedLabels, List.mem_map, Prod.mk.injEq]
  constructor
  · rintro ⟨key', member, rfl, rfl⟩
    have present : key' ∈ v.labels := (sortStrings_perm _).mem_iff.mp member
    obtain ⟨value, found⟩ := Keyed.mem_iff_lookup.mp present
    simp [found]
  · intro found
    have present : key ∈ v.labels := Keyed.mem_iff_lookup.mpr ⟨value, found⟩
    exact ⟨key, (sortStrings_perm _).mem_iff.mpr present, rfl, by simp [found]⟩

theorem Variable.sortedLabels_perm (v : Variable) : v.sortedLabels.Perm (Keyed.pairs v.labels) := by
  apply (List.perm_ext_iff_of_nodup (v.sortedLabels_nodup.of_map _)
    ((Keyed.pairs_keys_nodup v.labels).of_map _)).mpr
  rintro ⟨key, value⟩
  rw [Variable.mem_sortedLabels, Keyed.mem_pairs]

theorem Variable.sortedLabels_ne_nil {v : Variable} (labelled : v.labels.keys ≠ []) :
    v.sortedLabels ≠ [] := by
  intro empty
  have keys := v.sortedLabels_keys
  rw [empty, List.map_nil, List.nil_perm] at keys
  exact labelled keys

theorem insertAll_sortedLabels (v : Variable) (key : GoString) :
    (Keyed.insertAll ∅ v.sortedLabels).lookup key = v.labels.lookup key := by
  cases found : v.labels.lookup key with
  | none =>
    rw [Keyed.lookup_insertAll_of_notMem]
    · rfl
    · intro member
      have present : key ∈ v.labels := v.sortedLabels_keys.mem_iff.mp member
      exact AList.lookup_eq_none.mp found present
  | some value =>
    exact Keyed.lookup_insertAll_of_mem v.sortedLabels_nodup (Variable.mem_sortedLabels.mpr found) _

/-! ## Counting the bytes other than quotes -/

def bareLength (text : GoString) : Nat := text.countP (· != quote)

@[simp] theorem bareLength_append (first second : GoString) :
    bareLength (first ++ second) = bareLength first + bareLength second :=
  List.countP_append

theorem bareLength_cons (byte : UInt8) (text : GoString) :
    bareLength (byte :: text) = bareLength text + if byte = quote then 0 else 1 := by
  by_cases same : byte = quote <;> simp [bareLength, same]

/-- A byte other than a quote counts in the field as it did in the text. -/
theorem bareLength_shift (field text : GoString) {byte : UInt8} (differs : byte ≠ quote) :
    bareLength (field ++ [byte]) + bareLength text = bareLength field + bareLength (byte :: text) := by
  rw [bareLength_append, bareLength_cons, bareLength_cons, if_neg differs]
  simp [bareLength]
  omega

/-- The weight of a parsed item: its bytes other than quotes, and the comma behind it. -/
def itemWeight (key value : GoString) : Nat := bareLength key + bareLength value + 2

/-- The reader keeps every byte other than a quote or a comma between two fields. -/
theorem csvRecord_bareLength (text : GoString) : ∀ (mode : CsvMode) (field : GoString)
    (record : List GoString), (mode = .start → field = []) → csvRecord mode field text = .ok record →
    (record.map fun field => bareLength field + 1).sum = bareLength field + bareLength text + 1 := by
  induction text with
  | nil =>
    intro mode field record _ read
    cases mode <;> simp only [csvRecord, Except.ok.injEq, reduceCtorEq] at read <;>
      subst read <;> simp [bareLength]
  | cons byte text inductionHypothesis =>
    intro mode field record fresh read
    -- A comma ends the field in every mode but the quoted one.
    have separate : ∀ field record, byte = comma →
        (field :: ·) <$> csvRecord .start [] text = Except.ok record →
        (record.map fun field => bareLength field + 1).sum =
          bareLength field + bareLength (byte :: text) + 1 := by
      intro field record same read
      obtain ⟨fields, later, rfl⟩ := Fallible.map_ok read
      have rest := inductionHypothesis .start [] fields (fun _ => rfl) later
      simp only [List.map_cons, List.sum_cons, rest, bareLength_cons, same]
      simp [bareLength, comma, quote]
      omega
    -- Any other byte but a quote goes into the field.
    have extend : ∀ (mode : CsvMode) field record, mode ≠ .start → byte ≠ quote →
        csvRecord mode (field ++ [byte]) text = .ok record →
        (record.map fun field => bareLength field + 1).sum =
          bareLength field + bareLength (byte :: text) + 1 := by
      intro mode field record within differs read
      rw [inductionHypothesis mode _ record (fun same => absurd same within) read, bareLength_shift field text differs]
    cases mode with
    | start =>
      rw [fresh rfl]
      simp only [csvRecord] at read
      split at read
      · rename_i same
        rw [inductionHypothesis .quoted [] record (by simp) read, bareLength_cons, if_pos same]
        simp
      · split at read
        · rename_i same
          exact separate [] record same read
        · rename_i differs _
          exact extend .unquoted [] record (by simp) differs read
    | unquoted =>
      simp only [csvRecord] at read
      split at read
      · cases read
      · split at read
        · rename_i same
          exact separate field record same read
        · rename_i differs _
          exact extend .unquoted field record (by simp) differs read
    | quoted =>
      simp only [csvRecord] at read
      split at read
      · rename_i same
        rw [inductionHypothesis .quoteSeen field record (by simp) read, bareLength_cons, if_pos same]
        simp
      · rename_i differs
        exact extend .quoted field record (by simp) differs read
    | quoteSeen =>
      simp only [csvRecord] at read
      split at read
      · rename_i same
        rw [inductionHypothesis .quoted _ record (by simp) read, bareLength_cons, if_pos same]
        simp [bareLength]
      · split at read
        · rename_i same
          exact separate field record same read
        · cases read

theorem bareLength_labelText (key value : GoString) :
    bareLength (labelText key value) = bareLength key + bareLength value + 1 := by
  unfold labelText
  split <;> simp [bareLength, equals, quote] <;> omega

theorem bareLength_labelsText (labels : List (GoString × GoString)) (nonempty : labels ≠ []) :
    bareLength (labelsText labels) + 1 = (labels.map fun label => itemWeight label.1 label.2).sum := by
  induction labels with
  | nil => exact absurd rfl nonempty
  | cons label rest inductionHypothesis =>
    cases rest with
    | nil => simp [labelsText, bareLength_labelText, itemWeight]
    | cons next rest =>
      have tail := inductionHypothesis (by simp)
      rw [labelsText, bareLength_append, bareLength_cons, bareLength_labelText, List.map_cons,
        List.sum_cons, ← tail]
      · simp [itemWeight, comma, quote]
        omega
      · simp

theorem splitItem_weight {item key value : GoString} (parts : splitItem item = some (key, value)) :
    bareLength item + 1 = itemWeight key value := by
  rw [splitItem_eq parts, bareLength_append, bareLength_cons, if_neg (by decide), itemWeight]
  omega

theorem splitItems_weight {record : List GoString} {items : List (GoString × GoString)}
    (parts : record.mapM splitItem = some items) :
    (record.map fun field => bareLength field + 1).sum =
      (items.map fun item => itemWeight item.1 item.2).sum := by
  induction record generalizing items with
  | nil =>
    simp only [List.mapM_nil, Option.pure_def, Option.some.injEq] at parts
    subst parts
    rfl
  | cons field record inductionHypothesis =>
    simp only [List.mapM_cons, Option.bind_eq_bind, Option.pure_def, Option.bind_eq_some_iff,
      Option.some.injEq] at parts
    obtain ⟨item, head, rest, tail, rfl⟩ := parts
    simp [inductionHypothesis tail, splitItem_weight head]

/-- When the parsed items build the very labels that were printed, no key occurs twice in them. -/
theorem record_keys_nodup {v : Variable} {record : List GoString} {items : List (GoString × GoString)}
    (labelled : v.labels.keys ≠ [])
    (read : csvRecord .start [] (labelsText v.sortedLabels) = .ok record)
    (parts : record.mapM splitItem = some items)
    (same : ∀ key, (Keyed.insertAll ∅ items).lookup key = v.labels.lookup key) :
    (items.map Prod.fst).Nodup := by
  have fields := csvRecord_bareLength _ _ _ _ (fun _ => rfl) read
  have printed := bareLength_labelsText v.sortedLabels (Variable.sortedLabels_ne_nil labelled)
  have built : Keyed.total itemWeight (Keyed.insertAll ∅ items) =
      (v.sortedLabels.map fun label => itemWeight label.1 label.2).sum := by
    rw [Keyed.total_of_perm (Keyed.perm_of_lookup_eq same), Keyed.total_eq_pairs]
    exact (v.sortedLabels_perm.symm.map _).sum_eq
  apply ((Keyed.total_insertAll itemWeight (fun _ _ => by simp [itemWeight]) items ∅).2 _).1
  rw [built, ← printed, ← splitItems_weight parts, fields]
  simp [bareLength]

/-! ## What survives is printable -/

/-- The longest prefix of a value that an unquoted field takes in whole. -/
theorem split_value (value : GoString) :
    (comma ∉ value ∧ quote ∉ value) ∨
      ∃ before separator after, value = before ++ separator :: after ∧ comma ∉ before ∧
        quote ∉ before ∧ (separator = comma ∨ separator = quote) := by
  induction value with
  | nil => simp
  | cons byte value inductionHypothesis =>
    by_cases special : byte = comma ∨ byte = quote
    · exact .inr ⟨[], byte, value, rfl, by simp, by simp, special⟩
    · push Not at special
      rcases inductionHypothesis with ⟨no_comma, no_quote⟩ |
        ⟨before, separator, after, rfl, no_comma, no_quote, kind⟩
      · exact .inl ⟨by simp [no_comma, Ne.symm special.1], by simp [no_quote, Ne.symm special.2]⟩
      · exact .inr ⟨byte :: before, separator, after, rfl, by simp [no_comma, Ne.symm special.1],
          by simp [no_quote, Ne.symm special.2], kind⟩

/-- An unquoted field ends at a comma, and gives the label that stands before it. -/
theorem splitItems_unquoted {key value after : GoString} {record : List GoString}
    {items : List (GoString × GoString)} (no_equals : equals ∉ key)
    (read : csvRecord .unquoted (key ++ equals :: value) (comma :: after) = .ok record)
    (parts : record.mapM splitItem = some items) :
    ∃ fields later, csvRecord .start [] after = .ok fields ∧ fields.mapM splitItem = some later ∧
      items = (key, value) :: later := by
  rw [csvRecord, if_neg (by decide), if_pos rfl] at read
  obtain ⟨fields, later, rfl⟩ := Fallible.map_ok read
  simp only [List.mapM_cons, Option.bind_eq_bind, Option.pure_def, Option.bind_eq_some_iff,
    Option.some.injEq, splitItem_key key value no_equals] at parts
  obtain ⟨-, rfl, later_items, later_parts, rfl⟩ := parts
  exact ⟨fields, later_items, later, later_parts, rfl⟩

/-- A label read back with its own value was printed bare, without a comma or a quote. -/
theorem labels_plain_of_read (labels : List (GoString × GoString)) :
    ∀ record items, (∀ label ∈ labels, PlainKey label.1) → (labels.map Prod.fst).Nodup →
      csvRecord .start [] (labelsText labels) = .ok record → record.mapM splitItem = some items →
      (items.map Prod.fst).Nodup → (∀ label ∈ labels, label ∈ items) →
      ∀ label ∈ labels, valueNeedsQuotes label.2 = false ∧ comma ∉ label.2 ∧ quote ∉ label.2 := by
  induction labels with
  | nil => simp
  | cons label rest inductionHypothesis =>
    obtain ⟨key, value⟩ := label
    intro record items keys distinct read parts items_distinct present
    have key_plain : PlainKey key := keys _ List.mem_cons_self
    -- The rest of the record behind this label: nothing, or a comma and the other labels.
    obtain ⟨tail, text, tail_cases⟩ : ∃ tail, labelsText ((key, value) :: rest) =
        labelText key value ++ tail ∧
          (rest = [] ∧ tail = [] ∨ rest ≠ [] ∧ tail = comma :: labelsText rest) := by
      cases rest with
      | nil => exact ⟨[], by simp [labelsText], .inl ⟨rfl, rfl⟩⟩
      | cons next rest => exact ⟨_, by rw [labelsText]; simp, .inr ⟨by simp, rfl⟩⟩
    rw [text] at read
    have start : ∀ before after, comma ∉ before → quote ∉ before →
        csvRecord .start [] (key ++ equals :: (before ++ after)) =
          csvRecord .unquoted (key ++ equals :: before) after := by
      intro before after no_comma no_quote
      have joined := csvRecord_start_append (key ++ equals :: before) after (by simp)
        (by simp [key_plain.no_comma, no_comma])
        (by simp [key_plain.no_quote, no_quote])
      simpa using joined
    cases quoted : valueNeedsQuotes value with
    | true =>
      have begun := start [] (quote :: (value ++ [quote] ++ tail)) (by simp) (by simp)
      simp only [labelText, quoted, if_true, List.append_assoc, List.cons_append,
        List.nil_append] at read begun
      rw [begun, csvRecord, if_pos rfl] at read
      cases read
    | false =>
      simp only [labelText, quoted, Bool.false_eq_true, if_false, List.append_assoc,
        List.cons_append] at read
      rcases split_value value with ⟨no_comma, no_quote⟩ |
        ⟨before, separator, after, split, no_comma, no_quote, kind⟩
      · rw [start value tail no_comma no_quote] at read
        intro label member
        rcases List.mem_cons.mp member with rfl | member
        · exact ⟨quoted, no_comma, no_quote⟩
        rcases tail_cases with ⟨rfl, -⟩ | ⟨nonempty, rfl⟩
        · cases member
        obtain ⟨fields, later_items, later, later_parts, rfl⟩ :=
          splitItems_unquoted key_plain.no_equals read parts
        simp only [List.map_cons, List.nodup_cons] at distinct items_distinct
        refine inductionHypothesis fields later_items
          (fun label member => keys label (List.mem_cons_of_mem _ member)) distinct.2 later
          later_parts items_distinct.2 ?_ label member
        intro other member
        rcases List.mem_cons.mp (present other (List.mem_cons_of_mem _ member)) with rfl | found
        · exact absurd (List.mem_map_of_mem member) distinct.1
        · exact found
      · exfalso
        rw [split] at read
        simp only [List.append_assoc, List.cons_append] at read
        rw [start before _ no_comma no_quote] at read
        rcases kind with rfl | rfl
        · -- The field ends at the comma, so the key is read back with a shorter value.
          obtain ⟨fields, later_items, -, -, rfl⟩ := splitItems_unquoted key_plain.no_equals read parts
          simp only [List.map_cons, List.nodup_cons] at items_distinct
          rcases List.mem_cons.mp (present _ List.mem_cons_self) with same | found
          · simp only [Prod.mk.injEq, true_and] at same
            have lengths := congrArg List.length (split.symm.trans same)
            simp at lengths
          · exact items_distinct.1 (List.mem_map_of_mem found)
        · rw [csvRecord, if_pos rfl] at read
          cases read

/-! ## The round trip -/

theorem labelsText_newline {labels : List (GoString × GoString)}
    (keys : ∀ label ∈ labels, PlainKey label.1) :
    newline ∈ labelsText labels ↔ ∃ label ∈ labels, newline ∈ label.2 := by
  have label_iff : ∀ key value, PlainKey key → (newline ∈ labelText key value ↔ newline ∈ value) := by
    intro key value plain
    unfold labelText
    split <;> simp [plain.no_newline]
  induction labels with
  | nil => simp [labelsText]
  | cons label rest inductionHypothesis =>
    have head := label_iff label.1 label.2 (keys label List.mem_cons_self)
    cases rest with
    | nil => simpa [labelsText] using head
    | cons next rest =>
      have tail : newline ∈ labelsText (next :: rest) ↔ ∃ label ∈ next :: rest, newline ∈ label.2 :=
        inductionHypothesis fun label member => keys label (List.mem_cons_of_mem _ member)
      rw [labelsText, List.mem_append, head, List.mem_cons, tail]
      · simp
      · simp

theorem labelsText_ne_nil {labels : List (GoString × GoString)} (nonempty : labels ≠ []) :
    labelsText labels ≠ [] := by
  intro empty
  have length := bareLength_labelsText labels nonempty
  cases labels with
  | nil => exact nonempty rfl
  | cons label rest =>
    rw [empty] at length
    simp only [List.map_cons, List.sum_cons, itemWeight, bareLength, List.countP_nil] at length
    omega

theorem matchVariable_string {v : Variable} (name : PlainName v.name) (labelled : v.labels.keys ≠ [])
    (plain : newline ∉ labelsText v.sortedLabels) :
    matchVariable [] v.string = some (v.name, labelsText v.sortedLabels) := by
  rw [Variable.string, if_neg labelled]
  simpa using matchVariable_name v.name _ name.nonempty name.no_brace name.no_newline plain []

/-- The names the store accepts and prints come back from their printed form exactly when each
label value has some byte other than a closing brace and holds no comma, quote or newline. -/
theorem roundTrips_iff (v : Variable) (name : PlainName v.name)
    (keys : ∀ key ∈ v.labels, PlainKey key) :
    RoundTrips v ↔ ∀ key value, v.labels.lookup key = some value → PrintableValue value := by
  have label_keys : ∀ label ∈ v.sortedLabels, PlainKey label.1 := by
    rintro ⟨key, value⟩ member
    exact keys key (Keyed.mem_iff_lookup.mpr ⟨value, Variable.mem_sortedLabels.mp member⟩)
  by_cases labelled : v.labels.keys = []
  · have unlabelled : v.labels = ∅ := by
      apply AList.ext
      simpa [AList.keys, List.keys] using labelled
    have string : v.string = v.name := by rw [Variable.string, if_pos labelled]
    have parsed : newFromString v.string = .ok (some { name := v.name, labels := ∅ }) := by
      rw [newFromString, string,
        matchVariable_bare v.name name.nonempty name.no_brace name.no_newline []]
      rfl
    refine iff_of_true ⟨_, parsed, rfl, by simp [unlabelled]⟩ ?_
    simp [unlabelled]
  have text_nonempty := labelsText_ne_nil (Variable.sortedLabels_ne_nil labelled)
  constructor
  · rintro ⟨parsed, read, -, same⟩
    -- A newline in the labels keeps the pattern from matching at all.
    have clean : newline ∉ labelsText v.sortedLabels := by
      intro present
      have unmatched : matchVariable [] v.string = none := by
        apply matchVariable_newline
        · rw [Variable.string, if_neg labelled]
          simp [present]
        · rw [Variable.string, if_neg labelled, ← List.cons_append, ← List.append_assoc,
            List.getLast?_append]
          rfl
      rw [newFromString, unmatched] at read
      cases read
    rw [newFromString, matchVariable_string name labelled clean] at read
    cases record_read : csvRecord .start [] (labelsText v.sortedLabels) with
    | error _ => simp [record_read] at read
    | ok record =>
      simp only [record_read, Except.ok.injEq, Option.map_eq_some_iff] at read
      obtain ⟨items, parts, rfl⟩ := read
      -- The map has as many labels as the record has items, so none displaced another.
      have distinct := record_keys_nodup labelled record_read parts same
      have present : ∀ label ∈ v.sortedLabels, label ∈ items := by
        rintro ⟨key, value⟩ member
        have found := (same key).trans (Variable.mem_sortedLabels.mp member)
        exact (Keyed.mem_of_lookup_insertAll found).resolve_left (by simp)
      intro key value found
      have member := Variable.mem_sortedLabels.mpr found
      obtain ⟨bare, no_comma, no_quote⟩ := labels_plain_of_read v.sortedLabels record items label_keys
        v.sortedLabels_nodup record_read parts distinct present _ member
      refine ⟨no_comma, no_quote, ?_, ?_⟩
      · intro present
        exact clean ((labelsText_newline label_keys).mpr ⟨_, member, present⟩)
      · simp only [valueNeedsQuotes, List.all_eq_false, Bool.or_eq_true, beq_iff_eq, not_or] at bare
        obtain ⟨byte, inside, -, differs⟩ := bare
        exact ⟨byte, inside, differs⟩
  · intro printable
    have values : ∀ label ∈ v.sortedLabels, PrintableValue label.2 := by
      rintro ⟨key, value⟩ member
      exact printable key value (Variable.mem_sortedLabels.mp member)
    have clean : newline ∉ labelsText v.sortedLabels := by
      rw [labelsText_newline label_keys]
      rintro ⟨label, member, present⟩
      exact (values label member).no_newline present
    refine ⟨{ name := v.name, labels := Keyed.insertAll ∅ v.sortedLabels }, ?_, rfl,
      insertAll_sortedLabels v⟩
    rw [newFromString, matchVariable_string name labelled clean]
    simp [csvRecord_labelsText v.sortedLabels (Variable.sortedLabels_ne_nil labelled) label_keys values,
      splitItems v.sortedLabels label_keys]

/-- A variable with one label whose value holds a closing brace. -/
def bracedLabel : Variable :=
  { name := ascii "cpu", labels := AList.singleton (ascii "host") [97, closeBrace] }

theorem roundTrips_iff_bracedLabel :
    RoundTrips bracedLabel ↔
      ∀ key value, bracedLabel.labels.lookup key = some value → PrintableValue value :=
  roundTrips_iff bracedLabel ⟨by decide, by decide, by decide⟩ fun key member => by
    obtain rfl := List.mem_singleton.mp member
    exact ⟨by decide, by decide, by decide, by decide, by decide⟩

/-- An empty label value is printed between quotes, which the CSV reader rejects. -/
def emptyLabel : Variable := { name := ascii "a", labels := AList.singleton (ascii "k") [] }

theorem emptyLabel_not_parsed :
    emptyLabel.string = ascii "a\x7bk=\"\"\x7d" ∧ PlainName emptyLabel.name ∧
      (∀ key ∈ emptyLabel.labels, PlainKey key ∧ openBrace ∉ key ∧ closeBrace ∉ key) ∧
      newFromString emptyLabel.string = .ok none ∧ ¬ RoundTrips emptyLabel := by
  have rejected : newFromString emptyLabel.string = .ok none := by rfl
  refine ⟨by decide, ⟨by decide, by decide, by decide⟩, ?_, rejected, ?_⟩
  · intro key member
    obtain rfl := List.mem_singleton.mp member
    exact ⟨⟨by decide, by decide, by decide, by decide, by decide⟩, by decide, by decide⟩
  · rintro ⟨parsed, read, -⟩
    rw [rejected] at read
    cases read

/-- Two variables that come back from their printed forms do not share one. -/
theorem same_of_string_eq {first second : Variable} (firstTrips : RoundTrips first)
    (secondTrips : RoundTrips second) (same : first.string = second.string) :
    first.name = second.name ∧ ∀ key, first.labels.lookup key = second.labels.lookup key := by
  obtain ⟨parsed, read, name, labels⟩ := firstTrips
  obtain ⟨other, readOther, nameOther, labelsOther⟩ := secondTrips
  obtain rfl : parsed = other := by
    rw [same, readOther, Except.ok.injEq, Option.some.injEq] at read
    exact read.symm
  exact ⟨name.symm.trans nameOther, fun key => (labels key).symm.trans (labelsOther key)⟩

/-- Printing only depends on the name and on what is found under each label. -/
theorem Variable.string_congr {first second : Variable} (name : first.name = second.name)
    (labels : ∀ key, first.labels.lookup key = second.labels.lookup key) : first.string = second.string := by
  have keys : first.labels.keys.Perm second.labels.keys := by
    apply (List.perm_ext_iff_of_nodup first.labels.keys_nodup second.labels.keys_nodup).mpr
    intro key
    show key ∈ first.labels ↔ key ∈ second.labels
    rw [← AList.lookup_isSome, ← AList.lookup_isSome, labels key]
  have sorted : sortedKeys first.labels = sortedKeys second.labels :=
    List.Perm.eq_of_pairwise (fun _ _ _ _ below above => le_antisymm below above) (sortStrings_sorted _)
      (sortStrings_sorted _) ((sortStrings_perm _).trans (keys.trans (sortStrings_perm _).symm))
  have none_ : first.labels.keys = [] ↔ second.labels.keys = [] := by
    rw [← List.length_eq_zero_iff, ← List.length_eq_zero_iff, keys.length_eq]
  simp only [Variable.string, Variable.sortedLabels, sorted, labels, name, none_]

end OpenInstrument
