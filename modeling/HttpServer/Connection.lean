import HttpServer.Lib.Transition
import HttpServer.ParserStream
import HttpServer.Router

/-!
# A client connection

`Connection::serve` is a loop over four states.  One round of the loop reads
the clock and makes at most one `setsockopt` and one `read` or `send`; what the
operating system answers is an `Env`.  A round changes the connection and emits
`Event`s: the system calls with their results, the calls of the parser and the
responses that are queued.

Times are nanoseconds of the steady clock, timeouts are milliseconds.  The byte
counters do not wrap: that would take 2^64 bytes on one connection.

`Does` lists what one round can do; `does_step` is the one case analysis of the
code, and every property of runs is derived from it.
-/

namespace HttpServer

open Occurrence Transition

section Persistence

def asciiIequals (left right : Bytes) : Bool :=
  left.length == right.length &&
    (left.zip right).all (fun pair => tolower pair.1 == tolower pair.2)

/-- One round for every comma, and one for what follows the last. -/
def connectionTokenLoop (token : Bytes) : Nat → Bytes → Bool
  | 0, _ => false
  | rounds + 1, remaining =>
      match find [44] remaining with
      | none => asciiIequals (trimOws remaining) token
      | some comma =>
          asciiIequals (trimOws (remaining.take comma)) token ||
            connectionTokenLoop token rounds (remaining.drop (comma + 1))

def hasConnectionToken (request : HttpRequest) (token : Bytes) : Bool :=
  match request.headers.find (ascii "connection") with
  | none => false
  | some value => connectionTokenLoop token (value.length + 1) value

def shouldKeepAlive (request : HttpRequest) : Bool :=
  if hasConnectionToken request (ascii "close") then
    false
  else if request.version = ascii "HTTP/1.1" then
    true
  else
    request.version == ascii "HTTP/1.0" && hasConnectionToken request (ascii "keep-alive")

end Persistence

section Responses

def badRequestResponse : HttpResponse :=
  textResponse 400 (ascii "Bad Request") (ascii "bad request\n")

def notImplementedResponse : HttpResponse :=
  textResponse 501 (ascii "Not Implemented") (ascii "transfer encoding is not supported\n")

def requestTimeoutResponse : HttpResponse :=
  textResponse 408 (ascii "Request Timeout") (ascii "request timeout\n")

/-- The answer to a parse error. -/
def parseErrorResponse (kind : ParseErrorKind) : HttpResponse :=
  match kind with
  | .unsupportedTransferEncoding => notImplementedResponse
  | .badRequest => badRequestResponse

/-- The header that `queue_response` sets. -/
def HttpResponse.withConnection (response : HttpResponse) (keepAlive : Bool) : HttpResponse :=
  { response with
    headers := response.headers.assign (ascii "Connection")
      (if keepAlive then ascii "keep-alive" else ascii "close") }

end Responses

/-- The timeouts, in milliseconds. -/
structure ConnectionTimeouts where
  readTimeout : Int := 10000
  keepAliveTimeout : Int := 5000
  writeTimeout : Int := 10000

structure ConnectionLimits where
  maxRequests : Nat := 100

structure ConnectionConfig where
  timeouts : ConnectionTimeouts := {}
  limits : ConnectionLimits := {}

inductive ConnectionEndReason
  | peerClosed
  | connectionClose
  | requestLimit
  | parseError
  | readTimeout
  | keepAliveTimeout
  | writeTimeout
  | readError
  | writeError
deriving DecidableEq

structure ConnectionResult where
  reason : ConnectionEndReason := .peerClosed
  requestsServed : Nat := 0
  bytesRead : Nat := 0
  bytesWritten : Nat := 0
deriving DecidableEq

inductive State
  | reading
  | parsing
  | writing
  | closed
deriving DecidableEq

inductive ReadPhase
  | request
  | keepAlive
deriving DecidableEq

structure Connection where
  fd : Int
  parser : HttpParser
  state : State
  pendingResponse : Bytes := []
  writeOffset : Nat := 0
  closeAfterWrite : Bool := false
  closeReasonAfterWrite : ConnectionEndReason := .connectionClose
  config : ConnectionConfig
  readPhase : ReadPhase := .request
  readDeadline : Int
  writeDeadline : Int
  result : ConnectionResult := {}

section Environment

inductive Errno
  | eintr
  | eagain
  | ewouldblock
  | other
deriving DecidableEq

/-- `EAGAIN` or `EWOULDBLOCK`: a socket timeout has expired. -/
def Errno.isTimeout (errno : Errno) : Bool :=
  errno == .eagain || errno == .ewouldblock

/-- The bytes of one successful `read` into a buffer of 4096 bytes. -/
structure Chunk where
  bytes : Bytes
  nonempty : bytes ≠ []
  bounded : bytes.length ≤ 4096

inductive ReadResult
  | data (chunk : Chunk)
  | eof
  | error (errno : Errno)

inductive SendResult
  | sent (n : Nat)
  | error (errno : Errno)
deriving DecidableEq

/--
What one round of the loop meets: the clock at its first and second reading, and
the results of the system calls if it makes them.
-/
structure Env where
  now : Int
  later : Int
  setsockopt : Option Errno
  read : ReadResult
  send : SendResult

inductive SocketOption
  | receiveTimeout
  | sendTimeout
deriving DecidableEq

structure Timeval where
  sec : Int
  usec : Int
deriving DecidableEq

inductive Event
  | setsockopt (option : SocketOption) (value : Timeval) (failure : Option Errno)
  | read (result : ReadResult)
  | next (result : ParseResult)
  | queue (response : HttpResponse) (wire : Bytes) (keepAlive : Bool)
  | send (offered : Bytes) (result : SendResult)

end Environment

namespace Connection

/-- A number of milliseconds in nanoseconds. -/
def milliseconds (count : Int) : Int :=
  count * 1000000

/--
The constructor; `now` and `later` are its two readings of the clock.  It throws
`std::invalid_argument` on a configuration that is not positive throughout.
-/
def make (fd : Int) (config : ConnectionConfig) (maxHeaderBytes maxBodyBytes : Nat)
    (now later : Int) : Except String Connection :=
  if config.timeouts.readTimeout ≤ 0 ∨ config.timeouts.keepAliveTimeout ≤ 0 ∨
      config.timeouts.writeTimeout ≤ 0 ∨ config.limits.maxRequests = 0 then
    .error "connection timeouts and request limit must be positive"
  else
    .ok
      { fd := fd
        parser := HttpParser.fresh maxHeaderBytes maxBodyBytes
        state := if 0 ≤ fd then .reading else .closed
        config := config
        readDeadline := now + milliseconds config.timeouts.readTimeout
        writeDeadline := later
        result := if 0 ≤ fd then {} else { reason := .readError } }

def finish (c : Connection) (reason : ConnectionEndReason) : Connection :=
  { c with
    result := { c.result with reason := reason }
    state := .closed }

def beginRequestTimeout (c : Connection) (now : Int) : Connection :=
  { c with
    readPhase := .request
    readDeadline := now + milliseconds c.config.timeouts.readTimeout }

def beginKeepAliveTimeout (c : Connection) (now : Int) : Connection :=
  { c with
    readPhase := .keepAlive
    readDeadline := now + milliseconds c.config.timeouts.keepAliveTimeout }

/-- The time value for a positive number of nanoseconds: at least a microsecond. -/
def timevalOf (remaining : Int) : Timeval :=
  let timeout := if remaining / 1000 ≤ 0 then 1 else remaining / 1000
  { sec := timeout / 1000000
    usec := timeout % 1000000 }

/-- Set a socket timeout; the result is `errno` if that fails. -/
def armSocketTimeout (option : SocketOption) (deadline : Int) (env : Env) :
    Option Errno × List Event :=
  if deadline - env.now ≤ 0 then
    (some .eagain, [])
  else
    (env.setsockopt, [.setsockopt option (timevalOf (deadline - env.now)) env.setsockopt])

def queueResponse (c : Connection) (order : IterationOrder) (now : Int) (response : HttpResponse)
    (keepAlive : Bool) (closeReason : ConnectionEndReason) : Connection × List Event :=
  let response := response.withConnection keepAlive
  let wire := serializeResponse order response
  ({ c with
      pendingResponse := wire
      writeOffset := 0
      closeAfterWrite := !keepAlive
      closeReasonAfterWrite := closeReason
      writeDeadline := now + milliseconds c.config.timeouts.writeTimeout
      state := .writing },
    [.queue response wire keepAlive])

/-- The read deadline has passed: silence between requests, 408 within one. -/
def readTimedOut (c : Connection) (order : IterationOrder) (now : Int) : Connection × List Event :=
  if c.readPhase = .keepAlive then
    (c.finish .keepAliveTimeout, [])
  else
    c.queueResponse order now requestTimeoutResponse false .readTimeout

/-- `bytes_read`, the phase change and `feed` after a read that brought bytes. -/
def receive (c : Connection) (bytes : Bytes) (now : Int) : Connection :=
  let c := { c with result := { c.result with bytesRead := c.result.bytesRead + bytes.length } }
  let c := if c.readPhase = .keepAlive then c.beginRequestTimeout now else c
  { c with
    parser := c.parser.feed bytes
    state := .parsing }

def readFromSocket (c : Connection) (order : IterationOrder) (env : Env) :
    Connection × List Event :=
  match armSocketTimeout .receiveTimeout c.readDeadline env with
  | (some errno, armed) =>
      if errno.isTimeout then
        let (c, queued) := c.readTimedOut order env.later
        (c, armed ++ queued)
      else
        (c.finish .readError, armed)
  | (none, armed) =>
      match env.read with
      | .data chunk =>
          (c.receive chunk.bytes env.later, armed ++ [.read env.read])
      | .error errno =>
          if errno = .eintr then
            (c, armed ++ [.read env.read])
          else if errno.isTimeout then
            let (c, queued) := c.readTimedOut order env.later
            (c, armed ++ [.read env.read] ++ queued)
          else
            (c.finish .readError, armed ++ [.read env.read])
      | .eof =>
          (c.finish .peerClosed, armed ++ [.read env.read])

/-- Pipelined bytes end the wait between requests. -/
def noticeBuffered (c : Connection) (now : Int) : Connection :=
  if c.readPhase = .keepAlive ∧ 0 < c.parser.bufferedBytes then c.beginRequestTimeout now else c

variable {fs : FileSystem}

/-- Whether the response to a request leaves the connection open. -/
def keepsAlive (c : Connection) (request : HttpRequest) : Bool :=
  shouldKeepAlive request && !decide (c.config.limits.maxRequests ≤ c.result.requestsServed)

/-- Count, route and queue the answer to a request that has been parsed. -/
def answer (c : Connection) (handler : StaticFileHandler fs) (order : IterationOrder) (now : Int)
    (request : HttpRequest) : Connection × List Event :=
  let c := { c with result := { c.result with requestsServed := c.result.requestsServed + 1 } }
  let requestLimitReached := decide (c.config.limits.maxRequests ≤ c.result.requestsServed)
  let response := { routeRequest request handler with version := request.version }
  c.queueResponse order now response (c.keepsAlive request)
    (if requestLimitReached then .requestLimit else .connectionClose)

def parseRequest (c : Connection) (handler : StaticFileHandler fs) (order : IterationOrder)
    (env : Env) : Connection × List Event :=
  let c := c.noticeBuffered env.now
  let (result, parser) := c.parser.next
  let c := { c with parser := parser }
  if result.status = .needMoreData then
    ({ c with state := .reading }, [.next result])
  else
    match (if result.status = .error then none else result.request) with
    | none =>
        let (c, queued) := c.queueResponse order env.later
          (parseErrorResponse result.errorKind) false .parseError
        (c, .next result :: queued)
    | some request =>
        let (c, queued) := c.answer handler order env.later request
        (c, .next result :: queued)

/-- The offset and counter after a `send` that took `n` bytes. -/
def advance (c : Connection) (n : Nat) : Connection :=
  { c with
    writeOffset := c.writeOffset + n
    result := { c.result with bytesWritten := c.result.bytesWritten + n } }

/-- A response has been sent in full. -/
def completeWrite (c : Connection) (now : Int) : Connection :=
  let c := { c with pendingResponse := [], writeOffset := 0 }
  if c.closeAfterWrite then
    c.finish c.closeReasonAfterWrite
  else
    { c.beginKeepAliveTimeout now with state := .parsing }

/-- The bytes that the next `send` offers. -/
def unsent (c : Connection) : Bytes :=
  c.pendingResponse.drop c.writeOffset

def writeToSocket (c : Connection) (env : Env) : Connection × List Event :=
  match armSocketTimeout .sendTimeout c.writeDeadline env with
  | (some errno, armed) =>
      (c.finish (if errno.isTimeout then .writeTimeout else .writeError), armed)
  | (none, armed) =>
      let events := armed ++ [.send c.unsent env.send]
      match env.send with
      | .sent n =>
          if 0 < n then
            let c := c.advance n
            (if c.writeOffset = c.pendingResponse.length then c.completeWrite env.later else c,
              events)
          else
            (c.finish .writeError, events)
      | .error errno =>
          if errno = .eintr then
            (c, events)
          else if errno.isTimeout then
            (c.finish .writeTimeout, events)
          else
            (c.finish .writeError, events)

/-- One round of the loop in `serve`. -/
def step (c : Connection) (handler : StaticFileHandler fs) (order : IterationOrder) (env : Env) :
    Connection × List Event :=
  match c.state with
  | .reading => c.readFromSocket order env
  | .parsing => c.parseRequest handler order env
  | .writing => c.writeToSocket env
  | .closed => (c, [])

section Does

/-- The read deadline has passed, before `read` or in it. -/
inductive ReadExpired (env : Env) (c : Connection) : List Event → Prop
  | armed {errno : Errno} {armed : List Event}
      (harm : armSocketTimeout .receiveTimeout c.readDeadline env = (some errno, armed))
      (htimeout : errno.isTimeout = true) :
      ReadExpired env c armed
  | read {errno : Errno} {armed : List Event}
      (harm : armSocketTimeout .receiveTimeout c.readDeadline env = (none, armed))
      (hread : env.read = .error errno)
      (htimeout : errno.isTimeout = true) :
      ReadExpired env c (armed ++ [.read env.read])

/-- The rounds that close the connection without sending anything more. -/
inductive Ends (env : Env) (c : Connection) : ConnectionEndReason → List Event → Prop
  | readArm {errno : Errno} {armed : List Event}
      (hstate : c.state = .reading)
      (harm : armSocketTimeout .receiveTimeout c.readDeadline env = (some errno, armed))
      (htimeout : errno.isTimeout = false) :
      Ends env c .readError armed
  | silent {events : List Event}
      (hstate : c.state = .reading)
      (hphase : c.readPhase = .keepAlive)
      (hexpired : ReadExpired env c events) :
      Ends env c .keepAliveTimeout events
  | read {errno : Errno} {armed : List Event}
      (hstate : c.state = .reading)
      (harm : armSocketTimeout .receiveTimeout c.readDeadline env = (none, armed))
      (hread : env.read = .error errno)
      (hintr : errno ≠ .eintr)
      (htimeout : errno.isTimeout = false) :
      Ends env c .readError (armed ++ [.read env.read])
  | peer {armed : List Event}
      (hstate : c.state = .reading)
      (harm : armSocketTimeout .receiveTimeout c.readDeadline env = (none, armed))
      (hread : env.read = .eof) :
      Ends env c .peerClosed (armed ++ [.read env.read])
  | sendArm {errno : Errno} {armed : List Event}
      (hstate : c.state = .writing)
      (harm : armSocketTimeout .sendTimeout c.writeDeadline env = (some errno, armed)) :
      Ends env c (if errno.isTimeout then .writeTimeout else .writeError) armed
  | send {errno : Errno} {armed : List Event}
      (hstate : c.state = .writing)
      (harm : armSocketTimeout .sendTimeout c.writeDeadline env = (none, armed))
      (hsend : env.send = .error errno)
      (hintr : errno ≠ .eintr) :
      Ends env c (if errno.isTimeout then .writeTimeout else .writeError)
        (armed ++ [.send c.unsent env.send])
  | sendZero {armed : List Event}
      (hstate : c.state = .writing)
      (harm : armSocketTimeout .sendTimeout c.writeDeadline env = (none, armed))
      (hsend : env.send = .sent 0) :
      Ends env c .writeError (armed ++ [.send c.unsent env.send])

/-- What one round of the loop does to an open connection. -/
inductive Does (handler : StaticFileHandler fs) (order : IterationOrder) (env : Env)
    (c : Connection) : Connection × List Event → Prop
  | readInterrupted {armed : List Event}
      (hstate : c.state = .reading)
      (harm : armSocketTimeout .receiveTimeout c.readDeadline env = (none, armed))
      (hread : env.read = .error .eintr) :
      Does handler order env c (c, armed ++ [.read env.read])
  | received {chunk : Chunk} {armed : List Event}
      (hstate : c.state = .reading)
      (harm : armSocketTimeout .receiveTimeout c.readDeadline env = (none, armed))
      (hread : env.read = .data chunk) :
      Does handler order env c (c.receive chunk.bytes env.later, armed ++ [.read env.read])
  | timedOut {events : List Event}
      (hstate : c.state = .reading)
      (hphase : c.readPhase = .request)
      (hexpired : ReadExpired env c events) :
      Does handler order env c
        ((c.queueResponse order env.later requestTimeoutResponse false .readTimeout).1,
          events ++ (c.queueResponse order env.later requestTimeoutResponse false .readTimeout).2)
  | needsMore
      (hstate : c.state = .parsing)
      (hnext : c.parser.next = (needMoreData, c.parser)) :
      Does handler order env c
        ({ c.noticeBuffered env.now with parser := c.parser, state := .reading },
          [.next needMoreData])
  | refused {failure : ParseFailure} {queued : Connection × List Event}
      (hstate : c.state = .parsing)
      (hnext : c.parser.next = (parseError failure, c.parser))
      (hqueued : queued = ({ c.noticeBuffered env.now with parser := c.parser }).queueResponse
        order env.later (parseErrorResponse failure.kind) false .parseError) :
      Does handler order env c (queued.1, .next (parseError failure) :: queued.2)
  | answered {request : HttpRequest} {rest : Bytes} {queued : Connection × List Event}
      (hstate : c.state = .parsing)
      (hnext : c.parser.next = (requestReady request, { c.parser with buffer := rest }))
      (hqueued : queued =
        ({ c.noticeBuffered env.now with parser := { c.parser with buffer := rest } }).answer
          handler order env.later request) :
      Does handler order env c (queued.1, .next (requestReady request) :: queued.2)
  | sendInterrupted {armed : List Event}
      (hstate : c.state = .writing)
      (harm : armSocketTimeout .sendTimeout c.writeDeadline env = (none, armed))
      (hsend : env.send = .error .eintr) :
      Does handler order env c (c, armed ++ [.send c.unsent env.send])
  | sentPart {n : Nat} {armed : List Event}
      (hstate : c.state = .writing)
      (harm : armSocketTimeout .sendTimeout c.writeDeadline env = (none, armed))
      (hsend : env.send = .sent n)
      (hpos : 0 < n)
      (hpart : c.writeOffset + n ≠ c.pendingResponse.length) :
      Does handler order env c (c.advance n, armed ++ [.send c.unsent env.send])
  | sentAll {n : Nat} {armed : List Event}
      (hstate : c.state = .writing)
      (harm : armSocketTimeout .sendTimeout c.writeDeadline env = (none, armed))
      (hsend : env.send = .sent n)
      (hpos : 0 < n)
      (hall : c.writeOffset + n = c.pendingResponse.length) :
      Does handler order env c
        ((c.advance n).completeWrite env.later, armed ++ [.send c.unsent env.send])
  | ended {reason : ConnectionEndReason} {events : List Event}
      (hends : Ends env c reason events) :
      Does handler order env c (c.finish reason, events)

@[simp] theorem parser_noticeBuffered (c : Connection) (now : Int) :
    (c.noticeBuffered now).parser = c.parser := by
  unfold noticeBuffered
  split <;> rfl

variable (c : Connection) (handler : StaticFileHandler fs) (order : IterationOrder) (env : Env)

/-- What happens when the read deadline has passed, by the phase. -/
theorem does_readTimedOut
    {events : List Event}
    (hstate : c.state = .reading)
    (hexpired : ReadExpired env c events) :
    Does handler order env c
      ((c.readTimedOut order env.later).1, events ++ (c.readTimedOut order env.later).2) := by
  unfold readTimedOut
  cases hphase : c.readPhase with
  | keepAlive =>
      rw [if_pos rfl, List.append_nil]
      exact .ended (.silent hstate hphase hexpired)
  | request =>
      rw [if_neg (by simp)]
      exact .timedOut hstate hphase hexpired

theorem does_readFromSocket
    (hstate : c.state = .reading) :
    Does handler order env c (c.readFromSocket order env) := by
  unfold readFromSocket
  cases harm : armSocketTimeout .receiveTimeout c.readDeadline env with
  | mk failure armed =>
      cases failure with
      | some errno =>
          dsimp only
          split_ifs with htimeout
          · exact c.does_readTimedOut handler order env hstate (.armed harm htimeout)
          · exact .ended (.readArm hstate harm (by simpa using htimeout))
      | none =>
          cases hread : env.read with
          | data chunk =>
              dsimp only
              rw [← hread]
              exact .received hstate harm hread
          | eof =>
              dsimp only
              rw [← hread]
              exact .ended (.peer hstate harm hread)
          | error errno =>
              dsimp only
              rw [← hread]
              split_ifs with hintr htimeout
              · exact .readInterrupted hstate harm (hintr ▸ hread)
              · exact c.does_readTimedOut handler order env hstate (.read harm hread htimeout)
              · exact .ended (.read hstate harm hread hintr (by simpa using htimeout))

theorem does_parseRequest
    (hstate : c.state = .parsing) :
    Does handler order env c (c.parseRequest handler order env) := by
  unfold parseRequest
  simp only [parser_noticeBuffered]
  rcases c.parser.next_cases with hnext | ⟨failure, hnext⟩ | ⟨request, rest, hnext⟩
  · rw [hnext]
    exact .needsMore hstate hnext
  · rw [hnext]
    exact .refused hstate hnext rfl
  · rw [hnext]
    exact .answered hstate hnext rfl

theorem does_writeToSocket
    (hstate : c.state = .writing) :
    Does handler order env c (c.writeToSocket env) := by
  unfold writeToSocket
  cases harm : armSocketTimeout .sendTimeout c.writeDeadline env with
  | mk failure armed =>
      cases failure with
      | some errno => exact .ended (.sendArm hstate harm)
      | none =>
          cases hsend : env.send with
          | sent n =>
              dsimp only
              rw [← hsend]
              split_ifs with hpos hall
              · exact .sentAll hstate harm hsend hpos hall
              · exact .sentPart hstate harm hsend hpos hall
              · obtain rfl : n = 0 := by omega
                exact .ended (.sendZero hstate harm hsend)
          | error errno =>
              have hends : errno ≠ .eintr → Does handler order env c
                  (c.finish (if errno.isTimeout then .writeTimeout else .writeError),
                    armed ++ [.send c.unsent env.send]) :=
                fun hintr => .ended (.send hstate harm hsend hintr)
              dsimp only
              rw [← hsend]
              split_ifs with hintr htimeout
              · exact .sendInterrupted hstate harm (hintr ▸ hsend)
              · simpa [htimeout] using hends hintr
              · simpa [htimeout] using hends hintr

/-- A round of the loop does one of the things listed. -/
theorem does_step
    (hopen : c.state ≠ .closed) :
    Does handler order env c (c.step handler order env) := by
  unfold step
  cases hstate : c.state with
  | reading => exact c.does_readFromSocket handler order env hstate
  | parsing => exact c.does_parseRequest handler order env hstate
  | writing => exact c.does_writeToSocket handler order env hstate
  | closed => exact absurd hstate hopen

end Does

end Connection

end HttpServer
