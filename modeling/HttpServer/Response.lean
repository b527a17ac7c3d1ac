import HttpServer.HeaderMap

/-!
# Responses and their serialisation

`serializeResponse` writes the status line, every header except one named
`content-length` in any letter case, its own `Content-Length` line, the blank
line and the body.  The headers come in the order in which the table is
traversed, which the caller does not control.
-/

namespace HttpServer

/-- A response; `statusCode` is only ever given literal values. -/
structure HttpResponse where
  version : Bytes := ascii "HTTP/1.1"
  statusCode : Nat := 200
  reasonPhrase : Bytes := ascii "OK"
  headers : HeaderMap := HeaderMap.empty
  body : Bytes := []
  contentLength : Option Nat := none
  suppressBody : Bool := false
deriving DecidableEq

def isContentLength (name : Bytes) : Bool :=
  toLowerAscii name == ascii "content-length"

/-- The number on the `Content-Length` line. -/
def HttpResponse.declaredLength (response : HttpResponse) : Nat :=
  response.contentLength.getD response.body.length

/-- The bytes written behind the blank line. -/
def HttpResponse.sentBody (response : HttpResponse) : Bytes :=
  if response.suppressBody then [] else response.body

def statusLine (response : HttpResponse) : Bytes :=
  response.version ++ ascii " " ++ decimal response.statusCode ++ ascii " " ++
    response.reasonPhrase

def headerLine (field : Bytes × Bytes) : Bytes :=
  field.1 ++ ascii ": " ++ field.2

def serializeResponse (order : IterationOrder) (response : HttpResponse) : Bytes :=
  let fields := (order.visit response.headers.entries).filter
    (fun field => !isContentLength field.1)
  statusLine response ++ crlf ++
    (fields.map (fun field => headerLine field ++ crlf)).flatten ++
    ascii "Content-Length: " ++ decimal response.declaredLength ++ crlf ++
    crlf ++
    response.sentBody

/-- A response that only explains its status, in plain text. -/
def textResponse (statusCode : Nat) (reasonPhrase body : Bytes) : HttpResponse :=
  { statusCode := statusCode
    reasonPhrase := reasonPhrase
    headers := HeaderMap.empty.assign (ascii "Content-Type") (ascii "text/plain")
    body := body }

end HttpServer
