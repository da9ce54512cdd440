import Mathlib.Algebra.Order.BigOperators.Group.List
import OpenInstrument.Server.HttpConnection

/-! # Requests one after another

What a client may send on a connection that is kept alive, and what the request handler is to be called with.
The server takes all that it has read by then for the body of a request, and leaves it in the buffer.  So
the requests are served as they were sent when they arrive apart from each other and only the last of them
has a body.
-/

namespace OpenInstrument.Server

variable {Uri : Type}

/-! ## Requests of a client -/

/-- A header as it is sent, with the blanks around its value. -/
structure SentHeader where
  name : Bytes
  before : Bytes
  value : Bytes
  after : Bytes
  deriving DecidableEq

def SentHeader.text (header : SentHeader) : Bytes := header.before ++ header.value ++ header.after

def SentHeader.bytes (header : SentHeader) : Bytes := header.name ++ colon :: header.text ++ crlf

/-- A request, with the URI that its target stands for. -/
structure SentRequest (Uri : Type) where
  method : Bytes
  target : Bytes
  uri : Uri
  headers : List SentHeader
  body : Bytes
  deriving DecidableEq

namespace SentRequest

def line (request : SentRequest Uri) : Bytes :=
  request.method ++ space :: request.target ++ space :: ascii "HTTP/1.1"

def bytes (request : SentRequest Uri) : Bytes :=
  request.line ++ crlf ++ (request.headers.map SentHeader.bytes).flatten ++ crlf ++ request.body

def fields (request : SentRequest Uri) : HttpHeaders :=
  request.headers.map fun header => (header.name, header.value)

def handled (request : SentRequest Uri) : HandledRequest Uri :=
  { method := request.method, uri := request.uri, headers := request.fields, body := request.body }

def contentLength (request : SentRequest Uri) : Bytes := request.fields.getHeader (ascii "Content-Length")

end SentRequest

def inLine (char : UInt8) : Prop := char ≠ newline ∧ char ≠ carriageReturn

instance decidableInLine (char : UInt8) : Decidable (inLine char) :=
  inferInstanceAs (Decidable (char ≠ newline ∧ char ≠ carriageReturn))

/-- A word of the first line, or the name of a header. -/
structure IsWord (word : Bytes) : Prop where
  nonempty : word ≠ []
  chars : ∀ char ∈ word, inLine char ∧ char ≠ space ∧ char ≠ tab

structure SentHeader.WellFormed (header : SentHeader) : Prop where
  name : IsWord header.name
  noColon : colon ∉ header.name
  value : ∀ char ∈ header.value, inLine char
  before : ∀ char ∈ header.before, char = space ∨ char = tab
  after : ∀ char ∈ header.after, char = space ∨ char = tab

/-- A request that the client does not close the connection with. -/
structure SentRequest.WellFormed (parseUri : Bytes → Option Uri) (request : SentRequest Uri) : Prop where
  method : IsWord request.method
  target : IsWord request.target
  uri : parseUri request.target = some request.uri
  headers : ∀ header ∈ request.headers, header.WellFormed
  few : request.headers.length < 100
  length : if request.contentLength = [] then request.body = []
    else request.contentLength.all isDigit = true ∧ decimal request.contentLength = request.body.length
  keepAlive : ¬ ascii "close" <:+: request.fields.getHeader (ascii "Connection")

/-- The requests arrive as they are sent, in at most ten reads. -/
structure Arrive (requests : List (SentRequest Uri)) (reads : List Bytes) : Prop where
  few : reads.length ≤ 10
  each : ∀ read ∈ reads, read ≠ [] ∧ read.length ≤ 4096
  whole : reads.flatten = (requests.map SentRequest.bytes).flatten

def Connection.opened (reads : List Bytes) : Connection := { buffer := .empty 1024 16, reads }

/-- What the server is for: the handler is called once for each request, in order, with what was sent. -/
def ServedAsSent (parseUri : Bytes → Option Uri) (noUri : Uri) (requests : List (SentRequest Uri))
    (reads : List Bytes) (early : List Nat) : Prop :=
  ∃ turns, handleClient parseUri noUri turns (.opened reads) early = some (requests.map SentRequest.handled)

/-! ## When requests are served as they are sent -/

def connectionAt (parseUri : Bytes → Option Uri) (noUri : Uri) :
    Nat → Connection → List Nat → Option Connection
  | 0, connection, _ => some connection
  | turns + 1, connection, early =>
    (serveRequest parseUri noUri connection).bind fun (_, _, connection) =>
      (readEarly (early.headD 0) connection).bind fun connection =>
        connectionAt parseUri noUri turns connection early.tail

/-- No more is read during a reply than the next request. -/
def EarlyFits : List (List Bytes) → List Nat → Prop
  | _ :: next :: groups, early => early.headD 0 ≤ next.length ∧ EarlyFits (next :: groups) early.tail
  | _, _ => True

/-- The body is all there when the size of the buffer says so.  The size may be too large, if a line was
consumed from two blocks. -/
def WaitsForAll (connection : Connection) (body : Bytes) : Prop :=
  ∀ count < connection.reads.length,
    connection.buffer.size.toNat + (connection.reads.take count).flatten.length < body.length

instance decidableWaitsForAll (connection : Connection) (body : Bytes) : Decidable (WaitsForAll connection body) :=
  inferInstanceAs (Decidable (∀ count < connection.reads.length,
    connection.buffer.size.toNat + (connection.reads.take count).flatten.length < body.length))

def NoRequest (parseUri : Bytes → Option Uri) (body : Bytes) : Prop :=
  newline ∈ body → ∀ request,
    parseRequestLine parseUri (Cord.trimLine (body.takeWhile (· != newline) ++ [newline])) = some request →
      request.version = some (0, 0)

/-- The requests arrive apart from each other, and only the last of them has a body, which is waited for
and does not look like a request. -/
structure Apart (parseUri : Bytes → Option Uri) (noUri : Uri) (requests : List (SentRequest Uri))
    (reads : List Bytes) (early : List Nat) : Prop where
  groups : ∃ groups : List (List Bytes), reads = groups.flatten ∧
    groups.map List.flatten = requests.map SentRequest.bytes ∧ EarlyFits groups early
  trimmed : ∀ request ∈ requests, ∀ header ∈ request.headers, stringTrim header.text = header.value
  bodies : ∀ request ∈ requests.dropLast,
    request.body = [] ∧ (request.method = ascii "POST" → request.contentLength ≠ [])
  awaited : ∀ last ∈ requests.getLast?, last.contentLength ≠ [] →
    ∀ connection ∈ connectionAt parseUri noUri (requests.length - 1) (.opened reads) early,
      ∀ head ∈ readHead parseUri noUri connection, WaitsForAll head.2.2 last.body
  quiet : ∀ last ∈ requests.getLast?, NoRequest parseUri last.body

/-! ## What a connection brings -/

/-- The buffer and the next reads `own` hold the bytes that come next; the reads `later` come after them. -/
structure Connection.Brings (connection : Connection) (own : List Bytes) (bytes : Bytes) (later : List Bytes) :
    Prop where
  reads : connection.reads = own ++ later
  tidy : connection.buffer.Tidy
  each : ∀ read ∈ connection.reads, read ≠ [] ∧ read.length ≤ 4096
  limit : connection.buffer.size.toNat + connection.reads.flatten.length < 2 ^ 64
  bytes : connection.buffer.content ++ own.flatten = bytes

namespace Connection.Brings

variable {connection : Connection} {own later : List Bytes} {bytes : Bytes}

/-- Nothing is to be read for bytes that are all there. -/
theorem own_eq_nil (brings : connection.Brings own [] later) : own = [] := by
  cases own with
  | nil => rfl
  | cons read own =>
    have whole := brings.bytes
    rw [List.flatten_cons, List.append_eq_nil_iff, List.append_eq_nil_iff] at whole
    exact absurd whole.2.1 (brings.each read (by simp [brings.reads])).1

theorem read {read : Bytes} (brings : connection.Brings (read :: own) bytes later) :
    ∃ buffer, connection.buffer.copyFrom read = some buffer ∧
      ({ buffer, reads := own ++ later } : Connection).Brings own bytes later ∧
      buffer.size.toNat = connection.buffer.size.toNat + read.length := by
  have reads := brings.reads
  have limit := brings.limit
  have each := brings.each
  rw [reads, List.cons_append] at limit each
  rw [List.flatten_cons, List.length_append] at limit
  have short := (each read (List.mem_cons_self ..)).2
  obtain ⟨buffer, copied, content, tidy, size⟩ := @Cord.tidy_copyFrom _ brings.tidy read (by omega) (by omega)
  refine ⟨buffer, copied, ⟨rfl, tidy, fun other member => each other (.tail _ member), ?_, ?_⟩, size⟩
  · show buffer.size.toNat + (own ++ later).flatten.length < _
    omega
  · rw [content, List.append_assoc]
    exact brings.bytes

/-- A line that is there as a whole. -/
theorem line {line rest : Bytes} (brings : connection.Brings own (line ++ newline :: rest) later)
    (first : newline ∉ line) (here : newline ∈ connection.buffer.content) :
    ∃ buffer, connection.buffer.consumeLine = (.returned (Cord.trimLine (line ++ [newline])), buffer) ∧
      ({ connection with buffer } : Connection).Brings own rest later := by
  obtain ⟨more, split, rest'⟩ := Cord.line_of_mem brings.bytes first here
  obtain ⟨buffer, consumed, content, tidy, fewer⟩ := Cord.consumeLine_some brings.tidy split first
  have limit := brings.limit
  refine ⟨buffer, consumed, brings.reads, tidy, brings.each, ?_, ?_⟩
  · show buffer.size.toNat + connection.reads.flatten.length < _
    omega
  · show buffer.content ++ _ = _
    rw [content, rest']

/-- A line that is not there yet comes with the next read. -/
theorem own_eq_cons (brings : connection.Brings own bytes later) (line : newline ∈ bytes)
    (notHere : newline ∉ connection.buffer.content) : ∃ read reads, own = read :: reads := by
  cases own with
  | nil =>
    have whole := brings.bytes
    rw [List.flatten_nil, List.append_nil] at whole
    exact absurd (whole ▸ line) notHere
  | cons read reads => exact ⟨read, reads, rfl⟩

end Connection.Brings

/-! ## Lines -/

theorem trimLine_line {line : Bytes} (clean : ∀ char ∈ line, inLine char) :
    Cord.trimLine (line ++ [carriageReturn] ++ [newline]) = line := by
  rw [Cord.trimLine, List.rdropWhile_concat_pos _ _ _ (by decide), List.rdropWhile_concat_pos _ _ _ (by decide)]
  cases last : line.getLast? with
  | none => rw [List.getLast?_eq_none_iff.mp last]; rfl
  | some char =>
    obtain ⟨front, rfl⟩ := List.getLast?_eq_some_iff.mp last
    obtain ⟨noNewline, noReturn⟩ := clean char (by simp)
    rw [List.rdropWhile_concat_neg _ _ _ (by simp [noNewline, noReturn])]

theorem newline_notMem {line : Bytes} (clean : ∀ char ∈ line, inLine char) :
    newline ∉ line ++ [carriageReturn] := by
  rw [List.mem_append, not_or]
  exact ⟨fun member => (clean newline member).1 rfl, by decide⟩

theorem append_crlf (line rest : Bytes) : line ++ crlf ++ rest = (line ++ [carriageReturn]) ++ newline :: rest := by
  simp [crlf]

theorem requestLine_brings {tries : Nat} {connection : Connection} {own later : List Bytes} {line rest : Bytes}
    (brings : connection.Brings own (line ++ crlf ++ rest) later) (clean : ∀ char ∈ line, inLine char)
    (enough : own.length < tries) :
    ∃ next own', requestLine tries connection = some (some line, next) ∧ next.Brings own' rest later ∧
      own'.length ≤ own.length := by
  induction tries generalizing connection own with
  | zero => omega
  | succ tries inductionHypothesis =>
    have split := brings
    rw [append_crlf] at split
    by_cases here : newline ∈ connection.buffer.content
    · obtain ⟨buffer, consumed, brings'⟩ := split.line (newline_notMem clean) here
      rw [trimLine_line clean] at consumed
      exact ⟨_, own, by rw [requestLine, consumed], brings', Nat.le_refl _⟩
    · obtain ⟨read, reads, rfl⟩ := split.own_eq_cons (by simp) here
      obtain ⟨buffer, copied, brings', _⟩ := brings.read
      rw [List.length_cons] at enough
      obtain ⟨next, own', done, brings'', fewer⟩ := inductionHypothesis brings' (by omega)
      refine ⟨next, own', ?_, brings'', Nat.le_succ_of_le fewer⟩
      rw [requestLine, Cord.consumeLine_none brings.tidy here, ← done]
      simp [Connection.read, readMore, brings.reads, copied]

/-! ## Headers -/

namespace SentHeader

def line (header : SentHeader) : Bytes := header.name ++ colon :: header.text

theorem clean_line {header : SentHeader} (wellFormed : header.WellFormed) :
    ∀ char ∈ header.line, inLine char := by
  have blank : ∀ char, char = space ∨ char = tab → inLine char := by
    intro char blank
    cases blank with
    | inl same => rw [same]; exact ⟨by decide, by decide⟩
    | inr same => rw [same]; exact ⟨by decide, by decide⟩
  intro char member
  cases List.mem_append.mp member with
  | inl name => exact (wellFormed.name.chars char name).1
  | inr rest =>
    cases rest with
    | head => exact ⟨by decide, by decide⟩
    | tail _ inside =>
      have parts : char ∈ header.before ++ header.value ++ header.after := inside
      rw [List.mem_append, List.mem_append] at parts
      obtain (before | value) | after := parts
      · exact blank char (wellFormed.before char before)
      · exact wellFormed.value char value
      · exact blank char (wellFormed.after char after)

theorem takeWhile_line {header : SentHeader} (wellFormed : header.WellFormed) :
    header.line.takeWhile (· != colon) = header.name := by
  rw [line, List.takeWhile_append_of_pos]
  · simp
  · intro char member
    exact bne_iff_ne.mpr fun same => wellFormed.noColon (same ▸ member)

theorem dropWhile_line {header : SentHeader} (wellFormed : header.WellFormed) :
    (header.line.dropWhile (· != colon)).drop 1 = header.text := by
  rw [line, List.dropWhile_append_of_pos]
  · simp
  · intro char member
    exact bne_iff_ne.mpr fun same => wellFormed.noColon (same ▸ member)

theorem bytes_cons (header : SentHeader) (headers : List SentHeader) (rest : Bytes) :
    ((header :: headers).map bytes).flatten ++ crlf ++ rest =
      header.line ++ crlf ++ ((headers.map bytes).flatten ++ crlf ++ rest) := by
  simp [bytes, line]

/-- A header is neither the end of the headers nor the continuation of one. -/
theorem head?_line {header : SentHeader} (wellFormed : header.WellFormed) :
    header.line ≠ [] ∧ header.line.head? ≠ some space ∧ header.line.head? ≠ some tab := by
  cases name : header.name with
  | nil => exact absurd name wellFormed.name.nonempty
  | cons char rest =>
    obtain ⟨_, noSpace, noTab⟩ := wellFormed.name.chars char (by rw [name]; exact List.mem_cons_self ..)
    simp [line, name, noSpace, noTab]

end SentHeader

theorem readHeaders_brings {turns : Nat} {connection : Connection} {own later : List Bytes}
    {headers : List SentHeader} {rest : Bytes} {found : HttpHeaders}
    (brings : connection.Brings own ((headers.map SentHeader.bytes).flatten ++ crlf ++ rest) later)
    (wellFormed : ∀ header ∈ headers, header.WellFormed)
    (trimmed : ∀ header ∈ headers, stringTrim header.text = header.value)
    (enough : headers.length + own.length < turns) :
    ∃ next own', readHeaders turns connection found =
        some (found ++ headers.map fun header => (header.name, header.value), next) ∧
      next.Brings own' rest later ∧ own'.length ≤ own.length := by
  induction turns generalizing connection own headers found with
  | zero => omega
  | succ turns inductionHypothesis =>
    by_cases here : newline ∈ connection.buffer.content
    · cases headers with
      | nil =>
        -- The empty line that ends the headers.
        have split := brings
        rw [List.map_nil, List.flatten_nil, append_crlf] at split
        obtain ⟨buffer, consumed, brings'⟩ := split.line (newline_notMem (by simp)) here
        rw [trimLine_line (by simp)] at consumed
        exact ⟨_, own, by simp [readHeaders, consumed], brings', Nat.le_refl _⟩
      | cons header headers =>
        have first := wellFormed header (List.mem_cons_self ..)
        have split := brings
        rw [SentHeader.bytes_cons, append_crlf] at split
        obtain ⟨buffer, consumed, brings'⟩ := split.line (newline_notMem (SentHeader.clean_line first)) here
        rw [trimLine_line (SentHeader.clean_line first)] at consumed
        rw [List.length_cons] at enough
        obtain ⟨next, own', done, brings'', fewer⟩ := @inductionHypothesis _ own headers
          (found ++ [(header.name, header.value)]) brings'
          (fun other member => wellFormed other (.tail _ member))
          (fun other member => trimmed other (.tail _ member)) (by omega)
        obtain ⟨nonempty, noSpace, noTab⟩ := SentHeader.head?_line first
        have named : colon ∈ header.line := by simp [SentHeader.line]
        refine ⟨next, own', ?_, brings'', fewer⟩
        rw [readHeaders, consumed]
        simp only [nonempty, noSpace, noTab, named, if_false, if_true, or_self, SentHeader.takeWhile_line first,
          SentHeader.dropWhile_line first, trimmed header (List.mem_cons_self ..), done]
        simp
    · obtain ⟨read, reads, rfl⟩ := brings.own_eq_cons (by simp [crlf]) here
      obtain ⟨buffer, copied, brings', _⟩ := brings.read
      rw [List.length_cons] at enough
      obtain ⟨next, own', done, brings'', fewer⟩ :=
        @inductionHypothesis _ reads headers found brings' wellFormed trimmed (by omega)
      refine ⟨next, own', ?_, brings'', Nat.le_succ_of_le fewer⟩
      rw [readHeaders, Cord.consumeLine_none brings.tidy here, ← done]
      simp [brings.reads, copied]

/-! ## The head of a request -/

theorem consumeFirstWord_append {word : Bytes} (isWord : IsWord word) (rest : Bytes) :
    consumeFirstWord (word ++ space :: rest) = (word, rest) := by
  have inside : ∀ char ∈ word, (char != space) = true := by
    intro char member
    exact bne_iff_ne.mpr (isWord.chars char member).2.1
  rw [consumeFirstWord, List.takeWhile_append_of_pos inside, List.dropWhile_append_of_pos inside]
  simp

namespace SentRequest

variable {parseUri : Bytes → Option Uri} {request : SentRequest Uri}

theorem clean_line (wellFormed : request.WellFormed parseUri) : ∀ char ∈ request.line, inLine char := by
  have version : ∀ char ∈ ascii "HTTP/1.1", inLine char := by
    decide +kernel
  intro char member
  simp only [line, List.mem_append, List.mem_cons] at member
  obtain (method | blank | target) | blank | inside := member
  · exact (wellFormed.method.chars char method).1
  · rw [blank]; exact ⟨by decide, by decide⟩
  · exact (wellFormed.target.chars char target).1
  · rw [blank]; exact ⟨by decide, by decide⟩
  · exact version char inside

theorem parse_line (wellFormed : request.WellFormed parseUri) :
    parseRequestLine parseUri request.line =
      some { method := request.method, uri := request.uri, version := some (1, 1) } := by
  have version : parseVersion (consumeFirstWord (ascii "HTTP/1.1")).1 = (1, 1) := by decide
  have method := consumeFirstWord_append wellFormed.method (request.target ++ space :: ascii "HTTP/1.1")
  have target := consumeFirstWord_append wellFormed.target (ascii "HTTP/1.1")
  simp only [parseRequestLine, line, List.append_assoc, List.cons_append, method, target, wellFormed.uri,
    Option.map_some, version]

end SentRequest

section

variable {parseUri : Bytes → Option Uri} {noUri : Uri} {request : SentRequest Uri} {connection : Connection}
  {own later : List Bytes}

theorem readHead_brings (brings : connection.Brings own request.bytes later)
    (wellFormed : request.WellFormed parseUri)
    (trimmed : ∀ header ∈ request.headers, stringTrim header.text = header.value) (few : own.length ≤ 10) :
    ∃ next own', readHead parseUri noUri connection =
        some ({ method := request.method, uri := request.uri, version := some (1, 1) }, request.fields, next) ∧
      next.Brings own' request.body later := by
  have split : request.bytes =
      request.line ++ crlf ++ ((request.headers.map SentHeader.bytes).flatten ++ crlf ++ request.body) := by
    simp [SentRequest.bytes]
  rw [split] at brings
  obtain ⟨afterLine, own', line, brings', fewer⟩ :=
    @requestLine_brings 20 _ _ _ _ _ brings (SentRequest.clean_line wellFormed) (by omega)
  have headers := wellFormed.few
  obtain ⟨next, own'', read, brings'', _⟩ :=
    @readHeaders_brings 5000 _ _ _ _ _ [] brings' wellFormed.headers trimmed (by omega)
  refine ⟨next, own'', ?_, brings''⟩
  rw [readHead, line]
  simp only [Option.bind_some, SentRequest.parse_line wellFormed, read]
  rfl

/-! ## The body of a request -/

theorem awaitBody_brings {contentLength : UInt64} {body : Bytes} (brings : connection.Brings own body [])
    (length : contentLength.toNat = body.length) (waits : WaitsForAll connection body) :
    ∃ next, awaitBody contentLength connection.buffer connection.reads = some next ∧
      next.Brings [] body [] := by
  induction own generalizing connection with
  | nil =>
    have reads := brings.reads
    have counted := brings.tidy.counted
    have content := brings.bytes
    rw [List.flatten_nil, List.append_nil] at content
    have enough : ¬ connection.buffer.size < contentLength := by
      rw [UInt64.lt_iff_toNat_lt, length, ← content]
      omega
    refine ⟨connection, ?_, brings⟩
    rw [reads, List.append_nil, awaitBody, if_neg enough]
    cases connection
    cases reads
    rfl
  | cons read own inductionHypothesis =>
    obtain ⟨buffer, copied, brings', size⟩ := brings.read
    have reads := brings.reads
    have fewer : connection.buffer.size < contentLength := by
      have first := waits 0 (by rw [reads]; simp)
      rw [UInt64.lt_iff_toNat_lt, length]
      simpa using first
    obtain ⟨next, done, brings''⟩ := @inductionHypothesis _ brings' <| by
      intro count below
      have later := waits (count + 1) (by rw [reads]; simpa using below)
      rw [reads, List.cons_append, List.take_succ_cons, List.flatten_cons, List.length_append] at later
      show buffer.size.toNat + ((own ++ []).take count).flatten.length < _
      omega
    refine ⟨next, ?_, brings''⟩
    rw [reads, List.cons_append, awaitBody, if_pos fewer, copied]
    exact done

theorem awaitBody_zero (buffer : Cord) (reads : List Bytes) :
    awaitBody 0 buffer reads = some { buffer, reads } := by
  have none_ : ¬ buffer.size < 0 := by
    rw [UInt64.lt_iff_toNat_lt]
    exact Nat.not_lt_zero _
  cases reads with
  | nil => rw [awaitBody, if_neg none_]
  | cons read reads => rw [awaitBody, if_neg none_]

/-- The body is a copy of the buffer. -/
theorem copyBody_content {buffer : Cord} (tidy : buffer.Tidy) : copyBody buffer = some buffer.content := by
  unfold copyBody
  split
  · have usable : (Cord.empty 1024 16).Usable := ⟨by decide, by simp [Cord.empty]⟩
    have isSome := (Cord.copyBlocks_isSome_iff usable buffer.buffers).mpr (.inl (by decide))
    obtain ⟨body, copied⟩ := Option.isSome_iff_exists.mp isSome
    rw [copied, Option.map_some, (Cord.copyBlocks_eq_some usable copied).1]
    rfl
  · rename_i none_
    have counted := tidy.counted
    rw [not_not.mp none_, UInt64.toNat_zero, Nat.le_zero, List.length_eq_zero_iff] at counted
    rw [counted]

theorem parseUInt64_decimal {text : Bytes} (nonempty : text ≠ []) (digits : text.all isDigit = true)
    (small : decimal text < 2 ^ 64) : parseUInt64 text = some (.ofNat (decimal text)) := by
  have noSign : readSign text = (false, text) := by
    cases text with
    | nil => rfl
    | cons char rest =>
      have digit : isDigit char = true := List.all_eq_true.mp digits char (List.mem_cons_self ..)
      have noPlus : char ≠ 43 := by rintro rfl; exact absurd digit (by decide)
      have noMinus : char ≠ 45 := by rintro rfl; exact absurd digit (by decide)
      rw [readSign, if_neg noPlus, if_neg noMinus]
  rw [parseUInt64, noSign]
  exact if_pos ⟨nonempty, digits, small⟩

theorem parse_contentLength (wellFormed : request.WellFormed parseUri) (sent : request.contentLength ≠ [])
    (small : request.body.length < 2 ^ 64) :
    parseUInt64 request.contentLength = some (.ofNat request.body.length) := by
  have length := wellFormed.length
  rw [if_neg sent] at length
  rw [parseUInt64_decimal sent length.1 (by rw [length.2]; exact small), length.2]

/-- A request without a body is over with its head. -/
theorem readBody_first (wellFormed : request.WellFormed parseUri) (body : request.body = [])
    (announced : request.method = ascii "POST" → request.contentLength ≠ []) (connection : Connection) :
    readBody request.method request.fields connection = some (false, connection) := by
  by_cases sent : request.contentLength = []
  · have notPost : request.method ≠ ascii "POST" := fun post => announced post sent
    rw [SentRequest.contentLength] at sent
    simp [readBody, sent, notPost]
  · have number := parse_contentLength wellFormed sent (by rw [body]; decide)
    rw [body] at number
    rw [SentRequest.contentLength] at sent number
    rw [readBody, if_pos sent, number]
    show (awaitBody 0 connection.buffer connection.reads).map _ = _
    rw [awaitBody_zero]
    rfl

/-- The body of the last request, after which the connection may be closed. -/
theorem readBody_last (wellFormed : request.WellFormed parseUri) (brings : connection.Brings own request.body [])
    (waits : request.contentLength ≠ [] → WaitsForAll connection request.body) :
    ∃ close next, readBody request.method request.fields connection = some (close, next) ∧
      copyBody next.buffer = some request.body ∧ (close = false → next.Brings [] request.body []) := by
  have copied {next : Connection} (left : next.Brings [] request.body []) :
      copyBody next.buffer = some request.body := by
    rw [copyBody_content left.tidy, ← left.bytes, List.flatten_nil, List.append_nil]
  by_cases sent : request.contentLength = []
  · have body : request.body = [] := by
      have length := wellFormed.length
      rwa [if_pos sent] at length
    rw [body] at brings
    obtain rfl := brings.own_eq_nil
    rw [← body] at brings
    rw [SentRequest.contentLength] at sent
    by_cases post : request.method = ascii "POST"
    · -- The connection is read until it is closed.
      refine ⟨true, { buffer := connection.buffer.clear, reads := [] }, ?_, ?_, Bool.noConfusion⟩
      · have open_ : request.fields.getHeader (ascii "Connection") ≠ ascii "close" :=
          fun same => wellFormed.keepAlive (same ▸ List.infix_rfl)
        rw [readBody, if_neg (not_not.mpr sent), if_pos post, brings.reads]
        simp [readAll, open_]
      · rw [body]
        rfl
    · refine ⟨false, connection, ?_, copied brings, fun _ => brings⟩
      rw [readBody, if_neg (not_not.mpr sent), if_neg post]
  -- The announced length is parsed without wrapping, since the connection can hold the body.
  · have small : request.body.length < 2 ^ 64 := by
      have counted := brings.tidy.counted
      have limit := brings.limit
      rw [brings.reads, List.append_nil] at limit
      rw [← brings.bytes, List.length_append]
      omega
    have number := parse_contentLength wellFormed sent small
    obtain ⟨next, done, left⟩ := awaitBody_brings brings (UInt64.toNat_ofNat_of_lt' small) (waits sent)
    rw [SentRequest.contentLength] at sent number
    refine ⟨false, next, ?_, copied left, fun _ => left⟩
    rw [readBody, if_pos sent, number]
    show (awaitBody _ connection.buffer connection.reads).map _ = _
    rw [done]
    rfl

/-! ## One turn -/

theorem keepsAlive_sent (wellFormed : request.WellFormed parseUri) :
    keepsAlive (some (1, 1)) request.fields = true := by
  have version : ascii "HTTP/1.1" ≤ httpVersion (1, 1) := by decide
  simp [keepsAlive, version, wellFormed.keepAlive]

/-- A turn for a request that others follow. -/
theorem serveRequest_first (brings : connection.Brings own request.bytes later)
    (wellFormed : request.WellFormed parseUri)
    (trimmed : ∀ header ∈ request.headers, stringTrim header.text = header.value) (few : own.length ≤ 10)
    (body : request.body = []) (announced : request.method = ascii "POST" → request.contentLength ≠ []) :
    ∃ next, serveRequest parseUri noUri connection = some (request.handled, true, next) ∧
      next.Brings [] [] later := by
  obtain ⟨next, own', head, brings'⟩ := @readHead_brings _ _ noUri _ _ _ _ brings wellFormed trimmed few
  rw [body] at brings'
  obtain rfl := brings'.own_eq_nil
  have copied : copyBody next.buffer = some [] := by
    rw [copyBody_content brings'.tidy, ← brings'.bytes, List.flatten_nil, List.append_nil]
  refine ⟨next, ?_, brings'⟩
  rw [serveRequest, head]
  simp only [Option.bind_some, readBody_first wellFormed body announced, copied, Option.map_some, Bool.not_false,
    Bool.true_and, keepsAlive_sent wellFormed, SentRequest.handled, body]

theorem serveRequest_last (brings : connection.Brings own request.bytes [])
    (wellFormed : request.WellFormed parseUri)
    (trimmed : ∀ header ∈ request.headers, stringTrim header.text = header.value) (few : own.length ≤ 10)
    (waits : request.contentLength ≠ [] →
      ∀ head ∈ readHead parseUri noUri connection, WaitsForAll head.2.2 request.body) :
    ∃ alive next, serveRequest parseUri noUri connection = some (request.handled, alive, next) ∧
      (alive = true → next.Brings [] request.body []) := by
  obtain ⟨middle, own', head, brings'⟩ := @readHead_brings _ _ noUri _ _ _ _ brings wellFormed trimmed few
  obtain ⟨close, next, read, copied, left⟩ := readBody_last wellFormed brings' fun sent => waits sent _ head
  refine ⟨!close, next, ?_, fun alive => left (by simpa using alive)⟩
  rw [serveRequest, head]
  simp only [Option.bind_some, read, copied, Option.map_some, keepsAlive_sent wellFormed, Bool.and_true]
  rfl

/-- A body that is left in the buffer is not served as a request. -/
theorem serveRequest_quiet {body : Bytes} (brings : connection.Brings [] body [])
    (quiet : NoRequest parseUri body) : serveRequest parseUri noUri connection = none := by
  have reads := brings.reads
  have content := brings.bytes
  rw [List.flatten_nil, List.append_nil] at content
  by_cases here : newline ∈ body
  · obtain ⟨line, rest, split, first⟩ := List.eq_append_cons_of_mem here
    obtain ⟨buffer, consumed, _⟩ := Cord.consumeLine_some brings.tidy (content.trans split) first
    have parsed := quiet here
    rw [split, Cord.takeWhile_line first] at parsed
    have line' : requestLine 20 connection =
        some (some (Cord.trimLine (line ++ [newline])), { connection with buffer }) := by
      rw [requestLine, consumed]
    rw [serveRequest, readHead, line']
    cases found : parseRequestLine parseUri (Cord.trimLine (line ++ [newline])) with
    | none => simp [found]
    | some request => simp [found, parsed request found]
  · have waits := Cord.consumeLine_none brings.tidy (by rw [content]; exact here)
    have none_ : requestLine 20 connection = none := by
      rw [requestLine, waits]
      simp [Connection.read, readMore, reads]
    rw [serveRequest, readHead, none_]
    rfl

theorem readEarly_brings {count : Nat} {bytes : Bytes} (brings : connection.Brings own bytes later)
    (fits : count ≤ own.length) :
    ∃ next, readEarly count connection = some next ∧ next.Brings (own.drop count) bytes later := by
  induction count generalizing connection own with
  | zero => exact ⟨connection, rfl, brings⟩
  | succ count inductionHypothesis =>
    cases own with
    | nil => cases fits
    | cons read own =>
      obtain ⟨buffer, copied, brings', _⟩ := brings.read
      obtain ⟨next, done, left⟩ := inductionHypothesis brings' (Nat.le_of_succ_le_succ fits)
      refine ⟨next, ?_, left⟩
      simp only [readEarly, Connection.read, readMore, brings.reads, List.cons_append, copied]
      exact done

end

/-! ## Runs -/

section

variable {parseUri : Bytes → Option Uri} {noUri : Uri}

theorem handleClient_last {connection : Connection} {own : List Bytes} {request : SentRequest Uri}
    (brings : connection.Brings own request.bytes []) (wellFormed : request.WellFormed parseUri)
    (trimmed : ∀ header ∈ request.headers, stringTrim header.text = header.value) (few : own.length ≤ 10)
    (waits : request.contentLength ≠ [] →
      ∀ head ∈ readHead parseUri noUri connection, WaitsForAll head.2.2 request.body)
    (quiet : NoRequest parseUri request.body) (early : List Nat) :
    ∃ turns, handleClient parseUri noUri turns connection early = some [request.handled] := by
  obtain ⟨alive, next, served, left⟩ := serveRequest_last brings wellFormed trimmed few waits
  cases alive with
  | false => exact ⟨1, by simp [handleClient, served]⟩
  | true =>
    have ended : serveRequest parseUri noUri next = none := serveRequest_quiet (left rfl) quiet
    have nothing : readEarly (early.headD 0) next = some next := by
      cases early.headD 0 with
      | zero => rfl
      | succ count => simp [readEarly, (left rfl).reads]
    exact ⟨2, by simp only [handleClient, served, nothing, Option.bind_some, ended]; rfl⟩

/-- The run over the requests: each turn takes the bytes of one request and leaves nothing behind. -/
theorem handleClient_apart {connection : Connection} {own : List Bytes} {groups : List (List Bytes)}
    {request : SentRequest Uri} {requests : List (SentRequest Uri)} {early : List Nat}
    (brings : connection.Brings own request.bytes groups.flatten)
    (apart : groups.map List.flatten = requests.map SentRequest.bytes) (few : connection.reads.length ≤ 10)
    (fits : EarlyFits (own :: groups) early)
    (wellFormed : ∀ sent ∈ request :: requests, sent.WellFormed parseUri)
    (trimmed : ∀ sent ∈ request :: requests, ∀ header ∈ sent.headers, stringTrim header.text = header.value)
    (bodies : ∀ sent ∈ (request :: requests).dropLast,
      sent.body = [] ∧ (sent.method = ascii "POST" → sent.contentLength ≠ []))
    (awaited : ∀ last ∈ (request :: requests).getLast?, last.contentLength ≠ [] →
      ∀ before ∈ connectionAt parseUri noUri requests.length connection early,
        ∀ head ∈ readHead parseUri noUri before, WaitsForAll head.2.2 last.body)
    (quiet : ∀ last ∈ (request :: requests).getLast?, NoRequest parseUri last.body) :
    ∃ turns, handleClient parseUri noUri turns connection early =
      some ((request :: requests).map SentRequest.handled) := by
  have first := wellFormed request (List.mem_cons_self ..)
  have values := trimmed request (List.mem_cons_self ..)
  have short : own.length ≤ 10 := by
    rw [brings.reads, List.length_append] at few
    omega
  induction requests generalizing connection own groups request early with
  | nil =>
    obtain rfl : groups = [] := List.map_eq_nil_iff.mp apart
    exact handleClient_last brings first values short (fun sent => awaited request rfl sent connection rfl)
      (quiet request rfl) early
  | cons second requests inductionHypothesis =>
    obtain ⟨group, groups, rfl⟩ : ∃ group rest, groups = group :: rest := by
      cases groups with
      | nil => cases apart
      | cons group rest => exact ⟨group, rest, rfl⟩
    obtain ⟨bytes, apart'⟩ := List.cons.inj apart
    obtain ⟨body, announced⟩ := bodies request (by simp [List.dropLast])
    obtain ⟨next, served, left⟩ := @serveRequest_first _ _ noUri _ _ _ _ brings first values short body announced
    -- After one request the buffer is empty, and the reads go on with the next group.
    have between : next.Brings group second.bytes groups.flatten := by
      have content := left.bytes
      rw [List.flatten_nil, List.append_nil] at content
      exact ⟨left.reads, left.tidy, left.each, left.limit, by rw [content]; exact bytes⟩
    obtain ⟨enough, fits'⟩ := fits
    obtain ⟨after, read, brings'⟩ := readEarly_brings between enough
    -- Reading early only moves reads into the buffer.
    have fewer : after.reads.length ≤ 10 := by
      rw [brings.reads, List.flatten_cons] at few
      rw [brings'.reads]
      simp only [List.length_append, List.length_drop] at few ⊢
      omega
    have fits'' : EarlyFits (group.drop (early.headD 0) :: groups) early.tail := by
      cases groups with
      | nil => trivial
      | cons other groups => exact fits'
    have others := fun sent member => wellFormed sent (.tail request member)
    have values' := fun sent member => trimmed sent (.tail request member)
    obtain ⟨turns, run⟩ := @inductionHypothesis _ _ _ _ early.tail brings' apart' fewer fits'' others values'
      (fun sent member => bodies sent (.tail request member))
      (fun last isLast sent before reached => awaited last isLast sent before (by
        simp only [connectionAt, List.length_cons, served, Option.bind_some, read]
        exact reached))
      quiet (others second (List.mem_cons_self ..)) (values' second (List.mem_cons_self ..))
      (by
        rw [brings'.reads, List.length_append] at fewer
        omega)
    refine ⟨turns + 1, ?_⟩
    simp only [handleClient, served, read, Option.bind_some, run]
    rfl

/-- Requests that arrive apart from each other are served as they were sent. -/
theorem servedAsSent_apart {requests : List (SentRequest Uri)} {reads : List Bytes} {early : List Nat}
    (wellFormed : ∀ request ∈ requests, request.WellFormed parseUri) (arrive : Arrive requests reads)
    (apart : Apart parseUri noUri requests reads early) :
    ServedAsSent parseUri noUri requests reads early := by
  obtain ⟨groups, rfl, bytes, fits⟩ := apart.groups
  have tidy : (Cord.empty 1024 16).Tidy :=
    ⟨⟨by decide, by simp [Cord.empty]⟩, by decide, by simp [Cord.empty], by decide⟩
  have limit : (0 : UInt64).toNat + groups.flatten.flatten.length < 2 ^ 64 := by
    have each := List.sum_le_card_nsmul (groups.flatten.map List.length) 4096 <| by
      intro length member
      obtain ⟨read, inside, rfl⟩ := List.mem_map.mp member
      exact (arrive.each read inside).2
    have few := arrive.few
    rw [List.length_map, Nat.nsmul_eq_mul] at each
    rw [UInt64.toNat_zero, List.length_flatten]
    omega
  cases requests with
  | nil =>
    obtain rfl : groups = [] := List.map_eq_nil_iff.mp bytes
    exact ⟨1, rfl⟩
  | cons request requests =>
    cases groups with
    | nil => cases bytes
    | cons own groups =>
      obtain ⟨first, rest⟩ := List.cons.inj bytes
      exact @handleClient_apart _ _ _ _ own groups _ _ _ ⟨rfl, tidy, arrive.each, limit, first⟩ rest arrive.few
        fits wellFormed apart.trimmed apart.bodies apart.awaited apart.quiet

theorem servedAsSent_two : ServedAsSent some []
    [{ method := ascii "GET", target := ascii "/a", uri := ascii "/a", headers := [], body := [] },
      { method := ascii "POST", target := ascii "/b", uri := ascii "/b"
        headers := [{ name := ascii "Content-Length", before := [space], value := ascii "2", after := [] }]
        body := ascii "hi" }]
    [ascii "GET /a HTTP/1.1\r\n", crlf, ascii "POST /b HTTP/1.1\r\nContent-Length: 2\r\n\r\nh", ascii "i"] [1] := by
  apply servedAsSent_apart
  · intro request member
    simp only [List.mem_cons, List.not_mem_nil, or_false] at member
    obtain rfl | rfl := member
    · exact ⟨⟨by decide, by decide +kernel⟩, ⟨by decide, by decide +kernel⟩, rfl, by simp,
        by decide, by decide, by decide⟩
    · refine ⟨⟨by decide, by decide +kernel⟩, ⟨by decide, by decide +kernel⟩, rfl, ?_,
        by decide, by decide, by decide⟩
      intro header member
      obtain rfl := List.mem_singleton.mp member
      exact ⟨⟨by decide, by decide +kernel⟩, by decide, by decide +kernel, by decide +kernel,
        by decide +kernel⟩
  · exact ⟨by decide, by decide, by decide⟩
  · exact {
      groups := ⟨[[ascii "GET /a HTTP/1.1\r\n", crlf],
        [ascii "POST /b HTTP/1.1\r\nContent-Length: 2\r\n\r\nh", ascii "i"]], rfl, by decide,
        by decide, trivial⟩
      trimmed := by decide
      bodies := by decide
      awaited := by
        intro last isLast _
        obtain rfl := Option.some.inj isLast
        decide
      quiet := by
        intro last isLast line
        obtain rfl := Option.some.inj isLast
        exact absurd line (by decide) }

/-- The first call of the handler is that of the first turn. -/
theorem handleClient_head {turns : Nat} {connection next : Connection} {early : List Nat}
    {request : HandledRequest Uri} {alive : Bool} {calls : List (HandledRequest Uri)}
    (served : serveRequest parseUri noUri connection = some (request, alive, next))
    (run : handleClient parseUri noUri turns connection early = some calls) : calls.head? = some request := by
  cases turns with
  | zero => cases run
  | succ turns =>
    rw [handleClient, served] at run
    cases alive with
    | false => cases run; rfl
    | true =>
      obtain ⟨after, _, rest⟩ := Option.bind_eq_some_iff.mp run
      obtain ⟨others, _, rfl⟩ := Option.map_eq_some_iff.mp rest
      rfl

def twoGets : List (SentRequest Bytes) :=
  [{ method := ascii "GET", target := ascii "/a", uri := ascii "/a", headers := [], body := [] },
    { method := ascii "GET", target := ascii "/b", uri := ascii "/b", headers := [], body := [] }]

/-- Of two requests that arrive in one read, the second is taken for the body of the first. -/
theorem servedAsSent_pipelined :
    (∀ request ∈ twoGets, request.WellFormed some) ∧
    Arrive twoGets [ascii "GET /a HTTP/1.1\r\n\r\nGET /b HTTP/1.1\r\n\r\n"] ∧
    handleClient some [] 3 (.opened [ascii "GET /a HTTP/1.1\r\n\r\nGET /b HTTP/1.1\r\n\r\n"]) [] =
      some [{ method := ascii "GET", uri := ascii "/a", headers := [], body := ascii "GET /b HTTP/1.1\r\n\r\n" },
        { method := ascii "GET", uri := ascii "/b", headers := [], body := [] }] ∧
    ¬ ServedAsSent some [] twoGets [ascii "GET /a HTTP/1.1\r\n\r\nGET /b HTTP/1.1\r\n\r\n"] [] := by
  refine ⟨?_, ⟨by decide, by decide, by decide⟩, by decide, ?_⟩
  · intro request member
    simp only [twoGets, List.mem_cons, List.not_mem_nil, or_false] at member
    obtain rfl | rfl := member
    · exact ⟨⟨by decide, by decide +kernel⟩, ⟨by decide, by decide +kernel⟩, rfl, by simp,
        by decide, rfl, by decide⟩
    · exact ⟨⟨by decide, by decide +kernel⟩, ⟨by decide, by decide +kernel⟩, rfl, by simp,
        by decide, rfl, by decide⟩
  · intro ⟨turns, run⟩
    have first : (serveRequest some [] (.opened
        [ascii "GET /a HTTP/1.1\r\n\r\nGET /b HTTP/1.1\r\n\r\n"])).map Prod.fst =
          some { method := ascii "GET", uri := ascii "/a", headers := []
                 body := ascii "GET /b HTTP/1.1\r\n\r\n" } := by
      decide
    obtain ⟨⟨request, alive, next⟩, served, rfl⟩ := Option.map_eq_some_iff.mp first
    have same := handleClient_head served run
    revert same
    decide

end

end OpenInstrument.Server
