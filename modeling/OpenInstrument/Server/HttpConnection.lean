import Mathlib.Data.List.Infix
import OpenInstrument.Server.HttpChunks

/-! # Connections of the HTTP server

`HandleClient` serves the requests of one connection from the read buffer of its socket.  The line of a
request and its headers are taken from the buffer; the body is copied from it, and it is all that the buffer
holds.

Parsing a URI rests on a library of regular expressions and is a parameter; it may throw.  `reads` are the
bytes that the reads of the socket will get.  After them the connection is closed: a read gets nothing, and
it clears the buffer.  A socket also reads whatever is there when it writes; how many reads happen while a
reply is written is open.
-/

namespace OpenInstrument.Server

/-! ## Words and headers -/

def space : UInt8 := 32

def tab : UInt8 := 9

def colon : UInt8 := 58

/-- `ConsumeFirstWord`: the text up to the first space, and the text behind it. -/
def consumeFirstWord (input : Bytes) : Bytes × Bytes :=
  (input.takeWhile (· != space), (input.dropWhile (· != space)).drop 1)

/-- `StringTrim`.  Of a text of nothing but spaces the last one goes. -/
def stringTrim (text : Bytes) : Bytes :=
  if text.all (· == space) then text.take (text.length - 1)
  else (text.dropWhile (· == space)).rdropWhile (· == space)

abbrev HttpHeaders := List (Bytes × Bytes)

/-- `GetHeader`: the first value, or the empty string. -/
def HttpHeaders.getHeader (headers : HttpHeaders) (name : Bytes) : Bytes := (headers.lookup name).getD []

/-! ## Versions -/

def isDigit (char : UInt8) : Bool := 48 ≤ char && char ≤ 57

def decimal (digits : Bytes) : Nat := digits.foldl (fun number digit => number * 10 + (digit.toNat - 48)) 0

def lower (char : UInt8) : UInt8 := if 65 ≤ char && char ≤ 90 then char + 32 else char

/-- `set_http_version`: the numbers of a text like `HTTP/1.1`, in either case of letters, or zeros. -/
def parseVersion (version : Bytes) : UInt8 × UInt8 :=
  let major := (version.drop 5).takeWhile isDigit
  let rest := (version.drop 5).dropWhile isDigit
  let minor := rest.drop 1
  if (version.take 5).map lower = ascii "http/" ∧ major ≠ [] ∧ rest.head? = some 46 ∧ minor ≠ [] ∧
      minor.all isDigit = true then
    (.ofNat (decimal major), .ofNat (decimal minor))
  else (0, 0)

/-- `http_version`. -/
def httpVersion (version : UInt8 × UInt8) : Bytes :=
  ascii ("HTTP/" ++ version.1.toNat.repr ++ "." ++ version.2.toNat.repr)

/-! ## Reading a request -/

/-- A connection: what has been read and not consumed, and the reads to come. -/
structure Connection where
  buffer : Cord
  reads : List Bytes

/-- `Socket::Read` of a connection that is still open. -/
def Connection.read (connection : Connection) : Option Connection :=
  (readMore connection.buffer connection.reads).map fun next => { buffer := next.1, reads := next.2 }

variable {Uri : Type}

/-- The line of a request: its method, its URI, and its version.  The version is not set if no line was
read. -/
structure RequestLine (Uri : Type) where
  method : Bytes
  uri : Uri
  version : Option (UInt8 × UInt8)

/-- What `HandleClient` takes from a line, unless the URI makes an exception. -/
def parseRequestLine (parseUri : Bytes → Option Uri) (line : Bytes) : Option (RequestLine Uri) :=
  let first := consumeFirstWord line
  let second := consumeFirstWord first.2
  let third := consumeFirstWord second.2
  (parseUri second.1).map fun uri => { method := first.1, uri, version := some (parseVersion third.1) }

/-- The loop of `HandleClient` that waits for a line.  There is none when the connection is closed; after
the last try the request is left as it was made. -/
def requestLine : Nat → Connection → Option (Option Bytes × Connection)
  | 0, connection => some (none, connection)
  | tries + 1, connection =>
    match connection.buffer.consumeLine with
    | (.returned line, buffer) => some (some line, { connection with buffer })
    | (_, buffer) => ({ connection with buffer } : Connection).read.bind (requestLine tries)

/-- `ReadAndParseHeaders`.  There is no result when a first line continues a header. -/
def readHeaders : Nat → Connection → HttpHeaders → Option (HttpHeaders × Connection)
  | 0, connection, headers => some (headers, connection)
  | turns + 1, connection, headers =>
    match connection.buffer.consumeLine with
    | (.returned line, buffer) =>
      if line = [] then some (headers, { connection with buffer })
      else if line.head? = some space ∨ line.head? = some tab then
        headers.getLast?.bind fun last =>
          readHeaders turns { connection with buffer }
            (headers.dropLast ++ [(last.1, last.2 ++ stringTrim line)])
      else if colon ∈ line then
        readHeaders turns { connection with buffer } (headers ++
          [(line.takeWhile (· != colon), stringTrim ((line.dropWhile (· != colon)).drop 1))])
      else readHeaders turns { connection with buffer } headers
    | (_, buffer) =>
      match connection.reads with
      -- The connection is closed, and the loop goes on all the same.
      | [] => readHeaders turns { buffer := buffer.clear, reads := [] } headers
      | read :: reads =>
        (buffer.copyFrom read).bind fun buffer => readHeaders turns { buffer, reads } headers

/-- `lexical_cast<uint64_t>`, which throws unless it is given a number of 64 bits.  The number may have a
sign. -/
def parseUInt64 (text : Bytes) : Option UInt64 :=
  let signed := readSign text
  if signed.2 ≠ [] ∧ signed.2.all isDigit = true ∧ decimal signed.2 < 2 ^ 64 then
    some (if signed.1 then -.ofNat (decimal signed.2) else .ofNat (decimal signed.2))
  else none

/-- The loop that waits for the body. -/
def awaitBody (contentLength : UInt64) : Cord → List Bytes → Option Connection
  | buffer, [] => if buffer.size < contentLength then none else some { buffer, reads := [] }
  | buffer, read :: reads =>
    if buffer.size < contentLength then
      (buffer.copyFrom read).bind fun next => awaitBody contentLength next reads
    else some { buffer, reads := read :: reads }

/-- The loop that reads until the connection is closed. -/
def readAll : Cord → List Bytes → Option Connection
  | buffer, [] => some { buffer := buffer.clear, reads := [] }
  | buffer, read :: reads => (buffer.copyFrom read).bind fun next => readAll next reads

/-! ## Serving requests -/

/-- What the request handler is called with. -/
structure HandledRequest (Uri : Type) where
  method : Bytes
  uri : Uri
  headers : HttpHeaders
  body : Bytes
  deriving DecidableEq

/-- The request that `HandleClient` starts with. -/
def newRequest (noUri : Uri) : RequestLine Uri := { method := ascii "GET", uri := noUri, version := none }

/-- The part of `HandleClient` that reads the bytes of the body.  The flag says that the connection is to be
closed. -/
def readBody (method : Bytes) (headers : HttpHeaders) (connection : Connection) : Option (Bool × Connection) :=
  if headers.getHeader (ascii "Content-Length") ≠ [] then
    (parseUInt64 (headers.getHeader (ascii "Content-Length"))).bind fun contentLength =>
      (awaitBody contentLength connection.buffer connection.reads).map fun next => (false, next)
  else if method = ascii "POST" then
    (readAll connection.buffer connection.reads).map fun next =>
      (decide (headers.getHeader (ascii "Connection") ≠ ascii "close"), next)
  else some (false, connection)

/-- `request.mutable_body()->CopyFrom(*sock->read_buffer())`. -/
def copyBody (buffer : Cord) : Option Bytes :=
  if buffer.size ≠ 0 then ((Cord.empty 1024 16).copyBlocks buffer.buffers).map Cord.content else some []

/-- Whether the connection is kept open after the reply. -/
def keepsAlive (version : Option (UInt8 × UInt8)) (headers : HttpHeaders) : Bool :=
  (version.any fun version => decide (ascii "HTTP/1.1" ≤ httpVersion version)) &&
    decide (¬ ascii "close" <:+: headers.getHeader (ascii "Connection"))

/-- What a request starts with: its line and its headers.  There is none when the connection is given up. -/
def readHead (parseUri : Bytes → Option Uri) (noUri : Uri) (connection : Connection) :
    Option (RequestLine Uri × HttpHeaders × Connection) :=
  (requestLine 20 connection).bind fun (line, connection) =>
    match line with
    | none => some (newRequest noUri, [], connection)
    | some line =>
      (parseRequestLine parseUri line).bind fun request =>
        if request.version = some (0, 0) then none
        else (readHeaders 5000 connection []).map fun (headers, connection) => (request, headers, connection)

/-- One turn of the loop of `HandleClient`, up to the reply: the call of the request handler, whether the
connection stays open, and what has been read by then.  There is none when the connection is given up. -/
def serveRequest (parseUri : Bytes → Option Uri) (noUri : Uri) (connection : Connection) :
    Option (HandledRequest Uri × Bool × Connection) :=
  (readHead parseUri noUri connection).bind fun (request, headers, connection) =>
    (readBody request.method headers connection).bind fun (close, connection) =>
      (copyBody connection.buffer).map fun body =>
        ({ method := request.method, uri := request.uri, headers, body },
          !close && keepsAlive request.version headers, connection)

/-- The reads that happen while a reply is written. -/
def readEarly : Nat → Connection → Option Connection
  | 0, connection => some connection
  | count + 1, connection =>
    match connection.reads with
    | [] => some connection
    | _ :: _ => connection.read.bind (readEarly count)

/-- `HandleClient`: the calls of the request handler until the connection ends.  `early` tells how many reads
happen during each reply. -/
def handleClient (parseUri : Bytes → Option Uri) (noUri : Uri) :
    Nat → Connection → List Nat → Option (List (HandledRequest Uri))
  | 0, _, _ => none
  | turns + 1, connection, early =>
    match serveRequest parseUri noUri connection with
    | none => some []
    | some (request, false, _) => some [request]
    | some (request, true, connection) =>
      (readEarly (early.headD 0) connection).bind fun connection =>
        (handleClient parseUri noUri turns connection early.tail).map (request :: ·)

end OpenInstrument.Server
