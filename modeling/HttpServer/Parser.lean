import HttpServer.HeaderMap

/-!
# The request parser

`HttpParser` keeps the bytes received so far in one buffer.  `next` looks for
the end of the header section, parses the request line and the header lines in
front of it, decides the body length and, when the whole request is buffered,
removes it from the buffer and returns it.  A call that answers
`NeedMoreData` or `Error` leaves the buffer as it was.

The function is cut at the points where the source itself branches:

* `parseRequestLine`, `parseHeaderLine`, `parseContentLength`: the helpers;
* `acceptLine`, `headerLoop`: the line loop of `next`, on the part of the
  header block that starts at `line_start`;
* `requestLineOf`, `parseHeaderLines`: the two uses of `request_line_end`;
* `checkFraming`: the `Host`, `Transfer-Encoding` and `Content-Length` tests;
* `parseHead`: everything `next` does with a complete header block.

`NextView` lists the ways a call of `next` can go; every later fact about
`next` is a case analysis of it.
-/

namespace HttpServer

open Occurrence

/-- `find` with a start position. -/
def findFrom (pat s : Bytes) (pos : Nat) : Option Nat :=
  if pos ≤ s.length then (find pat (s.drop pos)).map (· + pos) else none

structure HeaderField where
  name : Bytes
  value : Bytes
deriving DecidableEq

structure HttpRequest where
  method : Bytes
  target : Bytes
  version : Bytes
  headers : HeaderMap
  headerFields : List HeaderField
  body : Bytes
deriving DecidableEq

inductive ParseStatus
  | needMoreData
  | requestReady
  | error
deriving DecidableEq, Repr

inductive ParseErrorKind
  | badRequest
  | unsupportedTransferEncoding
deriving DecidableEq, Repr

structure ParseResult where
  status : ParseStatus
  request : Option HttpRequest
  error : Bytes
  errorKind : ParseErrorKind
deriving DecidableEq

/-- Why a request is refused: the text and the kind of `parse_error`. -/
structure ParseFailure where
  error : Bytes
  kind : ParseErrorKind
deriving DecidableEq

/-- A refusal of the default kind. -/
def badRequest (error : Bytes) : ParseFailure where
  error := error
  kind := .badRequest

structure RequestLine where
  method : Bytes
  target : Bytes
  version : Bytes
deriving DecidableEq

section Tokens

def isTchar (ch : UInt8) : Bool :=
  isalnum ch || (ascii "!#$%&'*+-.^_`|~").contains ch

def isToken (input : Bytes) : Bool :=
  !input.isEmpty && input.all isTchar

end Tokens

section Lines

def parseRequestLine (line : Bytes) : Except Bytes RequestLine :=
  match find [32] line with
  | none => .error (ascii "request line is missing method separator")
  | some firstSpace =>
      if firstSpace = 0 then
        .error (ascii "request line is missing method separator")
      else
        match findFrom [32] line (firstSpace + 1) with
        | none => .error (ascii "request line is missing target or version")
        | some secondSpace =>
            if secondSpace = firstSpace + 1 then
              .error (ascii "request line is missing target or version")
            else
              match findFrom [32] line (secondSpace + 1) with
              | some _ => .error (ascii "request line has too many fields")
              | none =>
                  let out : RequestLine :=
                    { method := line.take firstSpace
                      target :=
                        (line.drop (firstSpace + 1)).take (secondSpace - firstSpace - 1)
                      version := line.drop (secondSpace + 1) }
                  if isToken out.method = false then
                    .error (ascii "invalid method token")
                  else if out.target.head? ≠ some 47 then
                    .error
                      (ascii "request target must use origin-form beginning with slash")
                  else if out.version ≠ ascii "HTTP/1.1" ∧
                      out.version ≠ ascii "HTTP/1.0" then
                    .error (ascii "unsupported HTTP version")
                  else
                    .ok out

def parseHeaderLine (line : Bytes) : Except Bytes HeaderField :=
  match find [58] line with
  | none => .error (ascii "malformed header line")
  | some colon =>
      if colon = 0 then
        .error (ascii "malformed header line")
      else if line.getD (colon - 1) 0 = 32 ∨ line.getD (colon - 1) 0 = 9 then
        .error (ascii "whitespace before header colon")
      else if isToken (line.take colon) = false then
        .error (ascii "invalid header name")
      else
        .ok
          { name := toLowerAscii (line.take colon)
            value := trimOws (line.drop (colon + 1)) }

def parseContentLength (value : Bytes) : Except Bytes Nat :=
  let value := trimOws value
  if value = [] then
    .error (ascii "empty Content-Length")
  else
    let result := fromChars value
    if result.ec ≠ .none ∨ result.ptr ≠ value.length then
      .error (ascii "invalid Content-Length")
    else
      .ok result.value

end Lines

section Head

/-- Store a parsed field: a further `connection` value joins the stored one. -/
def HttpRequest.addField (request : HttpRequest) (field : HeaderField) : HttpRequest :=
  { request with
    headerFields := request.headerFields ++ [field]
    headers :=
      if request.headers.find field.name = none then
        request.headers.emplace field.name field.value
      else
        request.headers.modify field.name (fun old => old ++ ascii ", " ++ field.value) }

/-- One round of the line loop. -/
def acceptLine (line : Bytes) (request : HttpRequest) : Except ParseFailure HttpRequest :=
  match parseHeaderLine line with
  | .error error => .error (badRequest error)
  | .ok field =>
      if request.headers.find field.name ≠ none ∧ field.name ≠ ascii "connection" then
        .error (badRequest (ascii "duplicate header field: " ++ field.name))
      else
        .ok (request.addField field)

/--
The line loop on the bytes from `line_start` on.  The first argument bounds the
number of rounds; every round but the last removes at least a line terminator.
-/
def headerLoop : Nat → Bytes → HttpRequest → Except ParseFailure HttpRequest
  | 0, _, request => .ok request
  | rounds + 1, rest, request =>
      if rest = [] then .ok request
      else
        match find crlf rest with
        | none => acceptLine rest request
        | some lineEnd =>
            match acceptLine (rest.take lineEnd) request with
            | .error failure => .error failure
            | .ok request => headerLoop rounds (rest.drop (lineEnd + 2)) request

/-- The body length that a stored `Content-Length` value declares. -/
def declaredLength (maxBodyBytes : Nat) (value : Bytes) : Except ParseFailure Nat :=
  match parseContentLength value with
  | .error error => .error (badRequest error)
  | .ok contentLength =>
      if contentLength > maxBodyBytes then
        .error (badRequest (ascii "body exceeds configured parser limit"))
      else
        .ok contentLength

/-- The tests after the line loop; the result is the body length. -/
def checkFraming (maxBodyBytes : Nat) (request : HttpRequest) : Except ParseFailure Nat :=
  if request.version = ascii "HTTP/1.1" ∧
      ((request.headers.find (ascii "host")).map trimOws).getD [] = [] then
    .error (badRequest (ascii "HTTP/1.1 request requires Host header"))
  else
    match request.headers.find (ascii "transfer-encoding"),
        request.headers.find (ascii "content-length") with
    | some _, some _ =>
        .error
          (badRequest (ascii "request contains both Transfer-Encoding and Content-Length"))
    | some _, none =>
        .error
          { error := ascii "Transfer-Encoding is not supported"
            kind := .unsupportedTransferEncoding }
    | none, none => .ok 0
    | none, some value => declaredLength maxBodyBytes value

/-- The request before any header line is read. -/
def RequestLine.start (line : RequestLine) : HttpRequest where
  method := line.method
  target := line.target
  version := line.version
  headers := HeaderMap.empty
  headerFields := []
  body := []

/-- The request line of a header block. -/
def requestLineOf (headerBlock : Bytes) : Bytes :=
  match find crlf headerBlock with
  | none => headerBlock
  | some requestLineEnd => headerBlock.take requestLineEnd

/-- The line loop, entered only when the block has more than the request line. -/
def parseHeaderLines (headerBlock : Bytes) (request : HttpRequest) :
    Except ParseFailure HttpRequest :=
  match find crlf headerBlock with
  | none => .ok request
  | some requestLineEnd =>
      headerLoop headerBlock.length (headerBlock.drop (requestLineEnd + 2)) request

/-- All that `next` does with a complete header block. -/
def parseHead (maxBodyBytes : Nat) (headerBlock : Bytes) :
    Except ParseFailure (HttpRequest × Nat) :=
  match parseRequestLine (requestLineOf headerBlock) with
  | .error error => .error (badRequest error)
  | .ok parsedLine =>
      match parseHeaderLines headerBlock parsedLine.start with
      | .error failure => .error failure
      | .ok request =>
          match checkFraming maxBodyBytes request with
          | .error failure => .error failure
          | .ok contentLength => .ok (request, contentLength)

end Head

/-- The parser: its buffer and its two limits. -/
structure HttpParser where
  buffer : Bytes
  maxHeaderBytes : Nat
  maxBodyBytes : Nat
deriving DecidableEq

/-- `parse_error`. -/
def parseError (failure : ParseFailure) : ParseResult where
  status := .error
  request := none
  error := failure.error
  errorKind := failure.kind

def needMoreData : ParseResult where
  status := .needMoreData
  request := none
  error := []
  errorKind := .badRequest

def requestReady (request : HttpRequest) : ParseResult where
  status := .requestReady
  request := some request
  error := []
  errorKind := .badRequest

/-- The refusal of a header section that is too long. -/
def headersTooLong : ParseFailure :=
  badRequest (ascii "headers exceed configured parser limit")

namespace HttpParser

/-- A fresh parser. -/
def fresh (maxHeaderBytes maxBodyBytes : Nat) : HttpParser where
  buffer := []
  maxHeaderBytes := maxHeaderBytes
  maxBodyBytes := maxBodyBytes

def feed (parser : HttpParser) (bytes : Bytes) : HttpParser :=
  { parser with buffer := parser.buffer ++ bytes }

def bufferedBytes (parser : HttpParser) : Nat :=
  parser.buffer.length

def next (parser : HttpParser) : ParseResult × HttpParser :=
  match find crlfcrlf parser.buffer with
  | none =>
      if parser.buffer.length > parser.maxHeaderBytes then
        (parseError headersTooLong, parser)
      else
        (needMoreData, parser)
  | some headerEnd =>
      if headerEnd > parser.maxHeaderBytes then
        (parseError headersTooLong, parser)
      else
        match parseHead parser.maxBodyBytes (parser.buffer.take headerEnd) with
        | .error failure => (parseError failure, parser)
        | .ok (request, contentLength) =>
            let bodyStart := headerEnd + 4
            if parser.buffer.length - bodyStart < contentLength then
              (needMoreData, parser)
            else
              (requestReady
                { request with
                  body := (parser.buffer.drop bodyStart).take contentLength },
                { parser with
                  buffer := parser.buffer.drop (bodyStart + contentLength) })

/-- The ways in which one call of `next` can go. -/
inductive NextView (parser : HttpParser) : ParseResult × HttpParser → Prop
  | unterminated
      (hfind : find crlfcrlf parser.buffer = none)
      (hlong : parser.maxHeaderBytes < parser.buffer.length) :
      NextView parser (parseError headersTooLong, parser)
  | waiting
      (hfind : find crlfcrlf parser.buffer = none)
      (hshort : parser.buffer.length ≤ parser.maxHeaderBytes) :
      NextView parser (needMoreData, parser)
  | tooLong
      {headerEnd : Nat}
      (hfind : find crlfcrlf parser.buffer = some headerEnd)
      (hlong : parser.maxHeaderBytes < headerEnd) :
      NextView parser (parseError headersTooLong, parser)
  | refused
      {headerEnd : Nat}
      {failure : ParseFailure}
      (hfind : find crlfcrlf parser.buffer = some headerEnd)
      (hshort : headerEnd ≤ parser.maxHeaderBytes)
      (hhead : parseHead parser.maxBodyBytes (parser.buffer.take headerEnd) = .error failure) :
      NextView parser (parseError failure, parser)
  | bodyMissing
      {headerEnd contentLength : Nat}
      {request : HttpRequest}
      (hfind : find crlfcrlf parser.buffer = some headerEnd)
      (hshort : headerEnd ≤ parser.maxHeaderBytes)
      (hhead : parseHead parser.maxBodyBytes (parser.buffer.take headerEnd) =
        .ok (request, contentLength))
      (hbody : parser.buffer.length < headerEnd + 4 + contentLength) :
      NextView parser (needMoreData, parser)
  | ready
      {headerEnd contentLength : Nat}
      {request : HttpRequest}
      (hfind : find crlfcrlf parser.buffer = some headerEnd)
      (hshort : headerEnd ≤ parser.maxHeaderBytes)
      (hhead : parseHead parser.maxBodyBytes (parser.buffer.take headerEnd) =
        .ok (request, contentLength))
      (hbody : headerEnd + 4 + contentLength ≤ parser.buffer.length) :
      NextView parser
        (requestReady
          { request with
            body := (parser.buffer.drop (headerEnd + 4)).take contentLength },
          { parser with
            buffer := parser.buffer.drop (headerEnd + 4 + contentLength) })

theorem headerEnd_add_four_le
    {buffer : Bytes}
    {headerEnd : Nat}
    (hfind : find crlfcrlf buffer = some headerEnd) :
    headerEnd + 4 ≤ buffer.length := by
  simpa [crlfcrlf] using ((find_eq_some_iff _ _ _).1 hfind).add_length_le

theorem next_view
    (parser : HttpParser) :
    NextView parser parser.next := by
  unfold next
  cases hfind : find crlfcrlf parser.buffer with
  | none =>
      dsimp only
      split_ifs with hlong
      · exact .unterminated hfind hlong
      · exact .waiting hfind (by omega)
  | some headerEnd =>
      have hroom := headerEnd_add_four_le hfind
      dsimp only
      split_ifs with hlong
      · exact .tooLong hfind hlong
      · cases hhead : parseHead parser.maxBodyBytes (parser.buffer.take headerEnd) with
        | error failure =>
            exact .refused hfind (by omega) hhead
        | ok parsed =>
            obtain ⟨request, contentLength⟩ := parsed
            dsimp only
            split_ifs with hbody
            · exact .bodyMissing hfind (by omega) hhead (by omega)
            · exact .ready hfind (by omega) hhead (by omega)

/-- The three kinds of answer. -/
theorem next_cases
    (parser : HttpParser) :
    parser.next = (needMoreData, parser) ∨
      (∃ failure, parser.next = (parseError failure, parser)) ∨
      ∃ request rest, parser.next = (requestReady request, { parser with buffer := rest }) := by
  generalize hnext : parser.next = answer
  have hview := hnext ▸ parser.next_view
  cases hview with
  | unterminated => exact Or.inr (Or.inl ⟨_, rfl⟩)
  | waiting => exact Or.inl rfl
  | tooLong => exact Or.inr (Or.inl ⟨_, rfl⟩)
  | refused => exact Or.inr (Or.inl ⟨_, rfl⟩)
  | bodyMissing => exact Or.inl rfl
  | ready => exact Or.inr (Or.inr ⟨_, _, rfl⟩)

/-- An answer without a request leaves the parser as it was. -/
theorem next_snd_of_request_none
    (parser : HttpParser)
    (h : parser.next.1.request = none) :
    parser.next.2 = parser := by
  generalize hnext : parser.next = answer at h ⊢
  have hview := hnext ▸ parser.next_view
  cases hview with
  | ready => cases h
  | unterminated => rfl
  | waiting => rfl
  | tooLong => rfl
  | refused => rfl
  | bodyMissing => rfl

/-- An answer with a request is `requestReady` and shortens the buffer. -/
theorem next_of_request_some
    (parser : HttpParser)
    {request : HttpRequest}
    (h : parser.next.1.request = some request) :
    parser.next.1 = requestReady request ∧
      parser.next.2.buffer.length + 4 ≤ parser.buffer.length := by
  generalize hnext : parser.next = answer at h ⊢
  have hview := hnext ▸ parser.next_view
  cases hview with
  | unterminated => cases h
  | waiting => cases h
  | tooLong => cases h
  | refused => cases h
  | bodyMissing => cases h
  | ready hfind hshort hhead hbody =>
      simp only [requestReady, Option.some.injEq] at h
      refine ⟨by rw [h], ?_⟩
      dsimp only
      rw [List.length_drop]
      omega

/-- The request and the status of an answer agree. -/
theorem next_request_eq_none_iff
    (parser : HttpParser) :
    parser.next.1.request = none ↔ parser.next.1.status ≠ .requestReady := by
  generalize hnext : parser.next = answer
  have hview := hnext ▸ parser.next_view
  cases hview <;> simp [parseError, needMoreData, requestReady]

end HttpParser

end HttpServer
