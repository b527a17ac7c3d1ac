import HttpServer.ConnectionRuns

/-!
# The response stream is self-delimiting

A client reads the responses of one connection from one byte stream.  It finds
the end of each header section, reads the length line and takes that many bytes
as the body, except behind the answer to a `HEAD` request, which has none.

`decodeAll` is this client.  What it needs of a response is that its header
section cannot be confused with its end (`Clean`) and that its body has the
declared length (`Framed`); every response that a connection queues has both
(`Answered.clean`, `Answered.framed`, `queuedWires_eq`).
-/

namespace HttpServer

open Occurrence Transition

section Decoder

/-- A response as the client sees it. -/
structure Decoded where
  statusCode : Nat
  fields : List (Bytes × Bytes)
  body : Bytes
deriving DecidableEq

def readNumber (digits : Bytes) : Option Nat :=
  if digits ≠ [] ∧ digits.all isdigit = true then some (decimalValue digits) else none

/-- The number between the first two spaces. -/
def decodeStatusLine (line : Bytes) : Option Nat :=
  match find [32] line with
  | none => none
  | some space => readNumber ((line.drop (space + 1)).takeWhile (· ≠ 32))

def decodeField (line : Bytes) : Option (Bytes × Bytes) :=
  match find [58] line with
  | none => none
  | some colon => some (line.take colon, trimOws (line.drop (colon + 1)))

def decodeFields : List Bytes → Option (List (Bytes × Bytes))
  | [] => some []
  | line :: lines =>
      match decodeField line, decodeFields lines with
      | some field, some fields => some (field :: fields)
      | _, _ => none

/-- The length that the first `Content-Length` field gives. -/
def lengthOf (fields : List (Bytes × Bytes)) : Option Nat :=
  match fields.find? (fun field => isContentLength field.1) with
  | none => none
  | some field => readNumber field.2

/-- The status code, fields and body length that a header section announces. -/
def decodeHead (block : Bytes) : Option (Nat × List (Bytes × Bytes) × Nat) :=
  match split crlf block.length block with
  | [] => none
  | line :: lines =>
      match decodeStatusLine line, decodeFields lines with
      | some statusCode, some fields =>
          (lengthOf fields).map (fun length => (statusCode, fields, length))
      | _, _ => none

/-- Read one response; the answer to a `HEAD` request has no body. -/
def decodeOne (isHead : Bool) (s : Bytes) : Option (Decoded × Bytes) :=
  match find crlfcrlf s with
  | none => none
  | some headerEnd =>
      match decodeHead (s.take headerEnd) with
      | none => none
      | some (statusCode, fields, length) =>
          let rest := s.drop (headerEnd + 4)
          let bodyLength := if isHead then 0 else length
          if rest.length < bodyLength then
            none
          else
            some (⟨statusCode, fields, rest.take bodyLength⟩, rest.drop bodyLength)

/-- Read a response for each request, given which of them were `HEAD`. -/
def decodeAll : List Bool → Bytes → Option (List Decoded × Bytes)
  | [], s => some ([], s)
  | isHead :: more, s =>
      match decodeOne isHead s with
      | none => none
      | some (response, rest) =>
          match decodeAll more rest with
          | none => none
          | some (responses, rest) => some (response :: responses, rest)

theorem readNumber_decimal
    (n : Nat) :
    readNumber (decimal n) = some n := by
  unfold readNumber
  rw [if_pos ⟨decimal_ne_nil n, List.all_eq_true.2 (fun d hd => isdigit_of_mem_decimal hd)⟩,
    decimalValue_decimal]

end Decoder

section Clean

/-- A text that can stand on one line. -/
def OneLine (text : Bytes) : Prop :=
  13 ∉ text

instance (text : Bytes) : Decidable (OneLine text) :=
  inferInstanceAs (Decidable (13 ∉ text))

/-- A header field that is read back as it was written. -/
structure CleanField (field : Bytes × Bytes) : Prop where
  name : OneLine field.1
  colon : 58 ∉ field.1
  value : OneLine field.2
  trimmed : trimOws field.2 = field.2
  other : isContentLength field.1 = false

/-- A response whose header section is read back as it was written. -/
structure HttpResponse.Clean (response : HttpResponse) : Prop where
  version : OneLine response.version
  versionSpace : 32 ∉ response.version
  reason : OneLine response.reasonPhrase
  fields : ∀ field ∈ response.headers.entries, CleanField field

/-- A response whose body has the length it declares, or none for `HEAD`. -/
def HttpResponse.Framed (isHead : Bool) (response : HttpResponse) : Prop :=
  if isHead then response.suppressBody = true
  else response.contentLength = none ∧ response.suppressBody = false

/-- The fields of a response, as they are written. -/
def HttpResponse.writtenFields (order : IterationOrder) (response : HttpResponse) :
    List (Bytes × Bytes) :=
  order.visit response.headers.entries ++
    [(ascii "Content-Length", decimal response.declaredLength)]

/-- What the client is to read. -/
def HttpResponse.decoded (order : IterationOrder) (isHead : Bool) (response : HttpResponse) :
    Decoded where
  statusCode := response.statusCode
  fields := response.writtenFields order
  body := if isHead then [] else response.body

variable {response : HttpResponse} (order : IterationOrder)

theorem oneLine_append
    {front back : Bytes} :
    OneLine (front ++ back) ↔ OneLine front ∧ OneLine back := by
  simp [OneLine]

theorem oneLine_decimal
    (n : Nat) :
    OneLine (decimal n) := by
  intro h
  have hdigit := isdigit_of_mem_decimal h
  exact absurd hdigit (by decide)

theorem OneLine.crlf_free
    {text : Bytes}
    (h : OneLine text) :
    ¬ crlf <:+: text :=
  fun hsub => h (hsub.subset (by simp [crlf]))

/-- The lines of a header section. -/
def headLines (response : HttpResponse) : List Bytes :=
  statusLine response :: (response.writtenFields order).map headerLine

theorem HttpResponse.Clean.visit
    (h : response.Clean)
    {field : Bytes × Bytes}
    (hfield : field ∈ order.visit response.headers.entries) :
    CleanField field :=
  h.fields field ((order.perm _).mem_iff.1 hfield)

/-- A clean response is its lines, a blank line and its body. -/
theorem serializeResponse_eq
    (h : response.Clean) :
    serializeResponse order response =
      List.intercalate crlf (headLines order response) ++ (crlf ++ crlf) ++
        response.sentBody := by
  have hfilter : (order.visit response.headers.entries).filter
      (fun field => !isContentLength field.1) = order.visit response.headers.entries :=
    List.filter_eq_self.2 (fun field hfield => by simp [(h.visit order hfield).other])
  have hname : ascii "Content-Length: " = ascii "Content-Length" ++ ascii ": " := by decide
  rw [← List.append_assoc _ crlf crlf, headLines, intercalate_append_sep]
  simp [serializeResponse, hfilter, hname, HttpResponse.writtenFields, headerLine,
    Function.comp_def]

theorem CleanField.oneLine
    {field : Bytes × Bytes}
    (h : CleanField field) :
    OneLine (headerLine field) :=
  oneLine_append.2 ⟨oneLine_append.2 ⟨h.name, by decide⟩, h.value⟩

theorem oneLine_of_mem_headLines
    (h : response.Clean)
    {line : Bytes}
    (hline : line ∈ headLines order response) :
    OneLine line := by
  rcases List.mem_cons.1 hline with rfl | hline
  · simp only [statusLine, oneLine_append]
    exact ⟨⟨⟨⟨h.version, by decide⟩, oneLine_decimal _⟩, by decide⟩, h.reason⟩
  · obtain ⟨field, hfield, rfl⟩ := List.mem_map.1 hline
    rcases List.mem_append.1 hfield with hfield | hfield
    · exact (h.visit order hfield).oneLine
    · rw [List.mem_singleton.1 hfield]
      simp only [headerLine, oneLine_append]
      exact ⟨⟨by decide, by decide⟩, oneLine_decimal _⟩

/-- The first blank line is the one behind the header section. -/
theorem find_serializeResponse
    (h : response.Clean)
    (rest : Bytes) :
    find crlfcrlf (serializeResponse order response ++ rest) =
      some (List.intercalate crlf (headLines order response)).length := by
  rw [serializeResponse_eq order h, List.append_assoc, find_eq_some_iff]
  refine firstAt_double_of_pieces unbordered_crlf _ _ ?_ ?_ _
  · intro line hline
    exact (oneLine_of_mem_headLines order h hline).crlf_free
  · intro line hline
    obtain ⟨field, _, rfl⟩ := List.mem_map.1 hline
    intro hnil
    have hlen := congrArg List.length hnil
    simp [headerLine, ascii] at hlen

theorem decodeField_headerLine
    {name value : Bytes}
    (hcolon : 58 ∉ name)
    (htrimmed : trimOws value = value) :
    decodeField (headerLine (name, value)) = some (name, value) := by
  have hline : headerLine (name, value) = name ++ 58 :: (32 :: value) := by
    simp [headerLine, ascii]
  have hfind : find [58] (headerLine (name, value)) = some name.length :=
    (find_singleton_eq_some_iff _ _ _).2 ⟨name, 32 :: value, hline, hcolon, rfl⟩
  have hdrop : (headerLine (name, value)).drop (name.length + 1) = 32 :: value := by
    rw [hline, ← List.drop_drop, List.drop_left]
    rfl
  have htrim : trimOws (32 :: value) = trimOws value := rfl
  unfold decodeField
  rw [hfind]
  simp only [hdrop, htrim, htrimmed]
  rw [hline, List.take_left]

theorem decodeFields_map_headerLine
    {fields : List (Bytes × Bytes)}
    (h : ∀ field ∈ fields, 58 ∉ field.1 ∧ trimOws field.2 = field.2) :
    decodeFields (fields.map headerLine) = some fields := by
  induction fields with
  | nil => rfl
  | cons field fields ih =>
      obtain ⟨name, value⟩ := field
      obtain ⟨hcolon, htrimmed⟩ := h (name, value) (by simp)
      rw [List.map_cons, decodeFields, decodeField_headerLine hcolon htrimmed,
        ih (fun f hf => h f (by simp [hf]))]

theorem trimOws_decimal
    (n : Nat) :
    trimOws (decimal n) = decimal n := by
  apply trimOws_of_forall
  intro ch hch
  have hdigit := isdigit_of_mem_decimal hch
  simp only [isdigit, isOws, decide_eq_true_eq] at hdigit ⊢
  grind

theorem decodeStatusLine_statusLine
    (h : response.Clean) :
    decodeStatusLine (statusLine response) = some response.statusCode := by
  have hline : statusLine response =
      response.version ++ 32 :: (decimal response.statusCode ++ 32 :: response.reasonPhrase) := by
    simp [statusLine, ascii]
  have hfind : find [32] (statusLine response) = some response.version.length :=
    (find_singleton_eq_some_iff _ _ _).2 ⟨_, _, hline, h.versionSpace, rfl⟩
  have hdrop : (statusLine response).drop (response.version.length + 1) =
      decimal response.statusCode ++ 32 :: response.reasonPhrase := by
    rw [hline, ← List.drop_drop, List.drop_left]
    rfl
  have hdigits : ∀ ch ∈ decimal response.statusCode, decide (ch ≠ 32) = true := by
    intro ch hch
    have hdigit := isdigit_of_mem_decimal hch
    simp only [isdigit, decide_eq_true_eq] at hdigit ⊢
    grind
  unfold decodeStatusLine
  rw [hfind]
  dsimp only
  rw [hdrop, List.takeWhile_append_of_pos hdigits]
  simp [readNumber_decimal]

/-- The fields as the client reads them: the length line is the only one of its kind. -/
theorem find_isContentLength_writtenFields
    (h : response.Clean) :
    (response.writtenFields order).filter (fun field => isContentLength field.1) =
      [(ascii "Content-Length", decimal response.declaredLength)] := by
  have hnone : (order.visit response.headers.entries).filter
      (fun field => isContentLength field.1) = [] :=
    List.filter_eq_nil_iff.2 (fun field hfield => by simp [(h.visit order hfield).other])
  have hself : isContentLength (ascii "Content-Length") = true := by decide
  simp [HttpResponse.writtenFields, hnone, hself]

theorem lengthOf_writtenFields
    (h : response.Clean) :
    lengthOf (response.writtenFields order) = some response.declaredLength := by
  unfold lengthOf
  rw [← List.head?_filter, find_isContentLength_writtenFields order h]
  exact readNumber_decimal _

theorem decodeHead_headLines
    (h : response.Clean) :
    decodeHead (List.intercalate crlf (headLines order response)) =
      some (response.statusCode, response.writtenFields order, response.declaredLength) := by
  have hfields : ∀ field ∈ response.writtenFields order,
      58 ∉ field.1 ∧ trimOws field.2 = field.2 := by
    intro field hfield
    rcases List.mem_append.1 hfield with hfield | hfield
    · exact ⟨(h.visit order hfield).colon, (h.visit order hfield).trimmed⟩
    · rw [List.mem_singleton.1 hfield]
      exact ⟨show 58 ∉ ascii "Content-Length" by decide, trimOws_decimal _⟩
  have hsplit := split_intercalate unbordered_crlf
    (List.intercalate crlf (headLines order response)).length (statusLine response)
    ((response.writtenFields order).map headerLine)
    (fun line hline => (oneLine_of_mem_headLines order h hline).crlf_free)
    (length_le_length_intercalate (by decide) _ _)
  unfold decodeHead
  rw [headLines] at hsplit ⊢
  rw [hsplit]
  dsimp only
  rw [decodeStatusLine_statusLine h, decodeFields_map_headerLine hfields]
  simp [lengthOf_writtenFields order h]

/-- The client reads a clean and framed response back, and stops behind it. -/
theorem decodeOne_serializeResponse
    {isHead : Bool}
    (h : response.Clean)
    (hframed : response.Framed isHead)
    (rest : Bytes) :
    decodeOne isHead (serializeResponse order response ++ rest) =
      some (response.decoded order isHead, rest) := by
  have hfind := find_serializeResponse order h rest
  have hhead := decodeHead_headLines order h
  have hwire : serializeResponse order response ++ rest =
      List.intercalate crlf (headLines order response) ++
        (crlfcrlf ++ (response.sentBody ++ rest)) := by
    rw [serializeResponse_eq order h]
    simp [crlf, crlfcrlf]
  generalize List.intercalate crlf (headLines order response) = block at hfind hhead hwire
  have htake : (serializeResponse order response ++ rest).take block.length = block := by
    rw [hwire, List.take_left]
  have hdrop : (serializeResponse order response ++ rest).drop (block.length + 4) =
      response.sentBody ++ rest := by
    rw [hwire, ← List.drop_drop, List.drop_left]
    rfl
  unfold decodeOne
  simp only [hfind, htake, hhead, hdrop]
  unfold HttpResponse.Framed at hframed
  cases isHead with
  | true =>
      simp only [if_true] at hframed
      simp [HttpResponse.sentBody, hframed, HttpResponse.decoded]
  | false =>
      simp only [Bool.false_eq_true, if_false] at hframed
      simp [HttpResponse.sentBody, HttpResponse.declaredLength, hframed.1, hframed.2,
        HttpResponse.decoded]

end Clean

section Answered

variable {fs : FileSystem}

/-- What a response on a connection answers. -/
inductive Answered
  | parsed (parser : HttpParser) (request : HttpRequest)
      (emitted : parser.next.1.request = some request) (keepAlive : Bool)
  | refused (kind : ParseErrorKind)
  | timedOut

/-- The answer is to a `HEAD` request that was parsed. -/
def Answered.isHead : Answered → Bool
  | .parsed _ request _ _ => request.method == ascii "HEAD"
  | _ => false

/-- The response that is queued for it. -/
def Answered.response (handler : StaticFileHandler fs) : Answered → HttpResponse
  | .parsed _ request _ keepAlive =>
      HttpResponse.withConnection
        { routeRequest request handler with version := request.version } keepAlive
  | .refused kind => (parseErrorResponse kind).withConnection false
  | .timedOut => requestTimeoutResponse.withConnection false

theorem HttpResponse.Clean.withConnection
    {response : HttpResponse}
    (h : response.Clean)
    (keepAlive : Bool) :
    (response.withConnection keepAlive).Clean where
  version := h.version
  versionSpace := h.versionSpace
  reason := h.reason
  fields := by
    intro field hfield
    rcases HeaderMap.mem_entries_assign hfield with hfield | rfl
    · exact h.fields field hfield
    · cases keepAlive with
      | true => exact ⟨by decide, by decide, by decide, by decide, by decide⟩
      | false => exact ⟨by decide, by decide, by decide, by decide, by decide⟩

theorem clean_textResponse
    {statusCode : Nat}
    {reasonPhrase body : Bytes}
    (hreason : OneLine reasonPhrase) :
    (textResponse statusCode reasonPhrase body).Clean where
  version := show OneLine (ascii "HTTP/1.1") by decide
  versionSpace := show 32 ∉ ascii "HTTP/1.1" by decide
  reason := hreason
  fields := by
    intro field hfield
    rcases HeaderMap.mem_entries_assign hfield with hfield | rfl
    · simp [HeaderMap.empty] at hfield
    · exact ⟨by decide, by decide, by decide, by decide, by decide⟩

theorem framed_textResponse
    (statusCode : Nat)
    (reasonPhrase body : Bytes) :
    (textResponse statusCode reasonPhrase body).Framed false :=
  ⟨rfl, rfl⟩

theorem contentTypeFor_mem
    (path : List PathElement) :
    StaticFileHandler.contentTypeFor path ∈
      [ascii "text/html", ascii "text/plain", ascii "text/css", ascii "application/javascript",
        ascii "application/octet-stream"] := by
  unfold StaticFileHandler.contentTypeFor
  dsimp only
  split_ifs <;> simp

/-- The handler's answers are clean; those to other methods than `HEAD` are framed. -/
theorem serveFile_clean
    (path : List PathElement)
    (isHead : Bool)
    (maxFileBytes : Nat) :
    (StaticFileHandler.serveFile fs path isHead maxFileBytes).Clean ∧
      (isHead = false →
        (StaticFileHandler.serveFile fs path isHead maxFileBytes).Framed false) := by
  have hforbidden : StaticFileHandler.forbidden.Clean ∧
      (isHead = false → StaticFileHandler.forbidden.Framed false) :=
    ⟨clean_textResponse (by decide), fun _ => framed_textResponse _ _ _⟩
  have hfields : ∀ field ∈ (HeaderMap.empty.assign (ascii "Content-Type")
      (StaticFileHandler.contentTypeFor path)).entries, CleanField field := by
    intro field hfield
    rcases HeaderMap.mem_entries_assign hfield with hfield | rfl
    · simp [HeaderMap.empty] at hfield
    · have hmem := contentTypeFor_mem path
      generalize StaticFileHandler.contentTypeFor path = value at hmem
      simp only [List.mem_cons, List.not_mem_nil, or_false] at hmem
      rcases hmem with rfl | rfl | rfl | rfl | rfl <;>
        exact ⟨by decide, by decide, by decide, by decide, by decide⟩
  have hversion : OneLine (ascii "HTTP/1.1") ∧ 32 ∉ ascii "HTTP/1.1" ∧ OneLine (ascii "OK") := by
    decide
  unfold StaticFileHandler.serveFile StaticFileHandler.fileResponse
  dsimp only
  split
  · split
    · split_ifs with hsize hhead
      · exact hforbidden
      · exact ⟨⟨hversion.1, hversion.2.1, hversion.2.2, hfields⟩, by simp [hhead]⟩
      · split
        · exact hforbidden
        · exact ⟨⟨hversion.1, hversion.2.1, hversion.2.2, hfields⟩, fun _ => ⟨rfl, rfl⟩⟩
    · exact hforbidden
  · exact hforbidden

theorem handle_clean
    (handler : StaticFileHandler fs)
    (request : HttpRequest) :
    (handler.handle request).Clean ∧
      ((request.method == ascii "HEAD") = false → (handler.handle request).Framed false) := by
  rw [StaticFileHandler.handle_eq_locate]
  cases hlocate : handler.locate request.target with
  | ok candidate => exact serveFile_clean candidate _ _
  | error response =>
      have hmem := handler.locate_error_mem hlocate
      simp only [List.mem_cons, List.not_mem_nil, or_false] at hmem
      rcases hmem with rfl | rfl | rfl <;>
        exact ⟨clean_textResponse (by decide), fun _ => framed_textResponse _ _ _⟩

/-- Routing keeps the header section clean and the body framed. -/
theorem routeRequest_clean
    (handler : StaticFileHandler fs)
    (request : HttpRequest) :
    (routeRequest request handler).Clean ∧
      (routeRequest request handler).Framed (request.method == ascii "HEAD") := by
  obtain ⟨hclean, hframed⟩ := handle_clean handler request
  unfold routeRequest
  by_cases hhead : request.method = ascii "HEAD"
  · have hbeq : (request.method == ascii "HEAD") = true := by simp [hhead]
    rw [if_pos (Or.inr hhead), hbeq]
    dsimp only
    rw [if_pos hhead]
    exact ⟨⟨hclean.version, hclean.versionSpace, hclean.reason, hclean.fields⟩, rfl⟩
  · have hbeq : (request.method == ascii "HEAD") = false := by simpa using hhead
    rw [hbeq]
    dsimp only
    rw [if_neg hhead]
    split_ifs with hget
    · exact ⟨hclean, hframed hbeq⟩
    · refine ⟨⟨by decide, by decide, by decide, ?_⟩, rfl, rfl⟩
      intro field hfield
      rcases HeaderMap.mem_entries_assign hfield with hfield | rfl
      · rcases HeaderMap.mem_entries_assign hfield with hfield | rfl
        · simp [HeaderMap.empty] at hfield
        · exact ⟨by decide, by decide, by decide, by decide, by decide⟩
      · exact ⟨by decide, by decide, by decide, by decide, by decide⟩

theorem parseErrorResponse_clean
    (kind : ParseErrorKind) :
    (parseErrorResponse kind).Clean ∧ (parseErrorResponse kind).Framed false := by
  cases kind with
  | badRequest => exact ⟨clean_textResponse (by decide), framed_textResponse _ _ _⟩
  | unsupportedTransferEncoding =>
      exact ⟨clean_textResponse (by decide), framed_textResponse _ _ _⟩

variable (handler : StaticFileHandler fs)

theorem Answered.clean
    (answered : Answered) :
    (answered.response handler).Clean := by
  cases answered with
  | parsed parser request emitted keepAlive =>
      obtain ⟨hclean, _⟩ := routeRequest_clean handler request
      have hversion := version_of_emitted emitted
      have hline : OneLine request.version ∧ 32 ∉ request.version := by
        rcases hversion with h | h <;> rw [h] <;> decide
      have hrouted : HttpResponse.Clean
          { routeRequest request handler with version := request.version } :=
        ⟨hline.1, hline.2, hclean.reason, hclean.fields⟩
      exact hrouted.withConnection keepAlive
  | refused kind => exact (parseErrorResponse_clean kind).1.withConnection false
  | timedOut => exact (clean_textResponse (by decide)).withConnection false

theorem Answered.framed
    (answered : Answered) :
    (answered.response handler).Framed answered.isHead := by
  cases answered with
  | parsed parser request emitted keepAlive => exact (routeRequest_clean handler request).2
  | refused kind => exact (parseErrorResponse_clean kind).2
  | timedOut => exact ⟨rfl, rfl⟩

/-- The bytes that are queued for an answer. -/
def Answered.wire (order : IterationOrder) (answered : Answered) : Bytes :=
  serializeResponse order (answered.response handler)

/-- An answer on a connection, with the files as they are then and the order in which the
header table is traversed. -/
structure Exchange where
  {fs : FileSystem}
  handler : StaticFileHandler fs
  order : IterationOrder
  answered : Answered

namespace Exchange

def isHead (e : Exchange) : Bool :=
  e.answered.isHead

def response (e : Exchange) : HttpResponse :=
  e.answered.response e.handler

def wire (e : Exchange) : Bytes :=
  e.answered.wire e.handler e.order

/-- The client reads one answer after the other. -/
theorem decodeAll_wires
    (exchanges : List Exchange) :
    decodeAll (exchanges.map isHead) (exchanges.map wire).flatten =
      some (exchanges.map (fun e => e.response.decoded e.order e.isHead), []) := by
  induction exchanges with
  | nil => rfl
  | cons e exchanges ih =>
      have hone := decodeOne_serializeResponse e.order (e.answered.clean e.handler)
        (e.answered.framed e.handler) (exchanges.map wire).flatten
      rw [List.map_cons, List.map_cons, List.map_cons, List.flatten_cons, decodeAll]
      unfold wire Answered.wire at hone ih ⊢
      rw [isHead, hone]
      dsimp only
      rw [ih]
      rfl

end Exchange

/--
Whatever was asked and answered on a connection, whatever became of the files in between
and in whatever order each header table was traversed, the client recovers from the
concatenated bytes the status codes, the header fields and the bodies; and each response
has exactly one length line.
-/
theorem response_stream_self_delimiting
    (exchanges : List Exchange) :
    ∃ decoded,
      decodeAll (exchanges.map Exchange.isHead) (exchanges.map Exchange.wire).flatten =
        some (decoded, []) ∧
      List.Forall₂
        (fun e d =>
          d.statusCode = e.response.statusCode ∧
          d.fields.Perm (e.response.headers.entries ++
            [(ascii "Content-Length", decimal e.response.declaredLength)]) ∧
          d.body = (if e.isHead then [] else e.response.body) ∧
          (d.fields.filter (fun field => isContentLength field.1)).length = 1)
        exchanges decoded := by
  refine ⟨_, Exchange.decodeAll_wires exchanges, ?_⟩
  rw [List.forall₂_map_right_iff, List.forall₂_same]
  intro e _
  have hclean := e.answered.clean e.handler
  refine ⟨rfl, (e.order.perm _).append_right _, rfl, ?_⟩
  have hfilter := find_isContentLength_writtenFields e.order hclean
  exact congrArg List.length hfilter

open Connection in
/-- A queued response is the answer to something. -/
theorem exists_answered
    {handler : StaticFileHandler fs}
    {c : Connection}
    {response : HttpResponse}
    {keepAlive : Bool}
    (h : Answers handler c response keepAlive) :
    ∃ answered : Answered, answered.response handler = response.withConnection keepAlive := by
  cases h with
  | timeout => exact ⟨.timedOut, rfl⟩
  | @refusal failure => exact ⟨.refused failure.kind, rfl⟩
  | @request request rest _ hnext => exact ⟨.parsed c.parser request (by rw [hnext]; rfl) _, rfl⟩

open Connection in
/-- A round queues the answer to something, or nothing. -/
theorem queuedWires_does
    {handler : StaticFileHandler fs}
    {order : IterationOrder}
    {env : Env}
    {c : Connection}
    {next : Connection × List Event}
    (h : Does handler order env c next) :
    queuedWires next.2 = [] ∨
      ∃ answered : Answered, queuedWires next.2 = [answered.wire handler order] := by
  have hcalls : ∀ {word : List Event}, (∀ e ∈ word, CallOf c env e) → queuedWires word = [] := by
    intro word hcalls
    refine List.filterMap_eq_nil_iff.2 (fun e he => ?_)
    cases hcalls e he <;> rfl
  rcases does_word h with hword | ⟨front, e, response, keepAlive, hword, hfront, hqueued⟩
  · exact Or.inl (hcalls hword)
  · obtain ⟨answered, hanswered⟩ := exists_answered hqueued.answers
    refine Or.inr ⟨answered, ?_⟩
    rw [hword, queuedWires_append, hcalls hfront, hqueued.event, Answered.wire, hanswered]
    rfl

open Connection in
/-- What a connection queues are answers. -/
theorem queuedWires_eq
    {handler : StaticFileHandler fs}
    {order : IterationOrder}
    {c₀ c : Connection}
    {trace : List Event}
    (hrun : Run (Step handler order) c₀ trace c) :
    ∃ answered : List Answered, queuedWires trace = answered.map (Answered.wire handler order) := by
  refine hrun.invariant (fun trace _ => ∃ answered : List Answered,
    queuedWires trace = answered.map (Answered.wire handler order)) ⟨[], rfl⟩ ?_
  rintro trace s word s' ⟨answered, hanswered⟩ hstep
  obtain ⟨env, _, hdoes⟩ := hstep.does
  rcases queuedWires_does hdoes with hnone | ⟨next, hnext⟩
  · exact ⟨answered, by simp [hanswered, hnone]⟩
  · exact ⟨answered ++ [next], by simp [hanswered, hnext]⟩

open Connection in
/-- Whenever nothing is pending, the client can read all that a connection has sent. -/
theorem sentBytes_decodes
    {handler : StaticFileHandler fs}
    {order : IterationOrder}
    {fd : Int}
    {config : ConnectionConfig}
    {maxHeaderBytes maxBodyBytes : Nat}
    {now later : Int}
    {c₀ c : Connection}
    {trace : List Event}
    (hmake : make fd config maxHeaderBytes maxBodyBytes now later = .ok c₀)
    (hrun : Run (Step handler order) c₀ trace c)
    (hidle : c.pendingResponse = []) :
    ∃ answered : List Answered,
      decodeAll (answered.map Answered.isHead) (sentBytes trace) =
        some (answered.map (fun a => (a.response handler).decoded order a.isHead), []) := by
  obtain ⟨earlier, hsent, hqueued⟩ := (runInv_of_run hmake hrun).1.wire
  obtain ⟨answered, hanswered⟩ := queuedWires_eq hrun
  have hearlier : earlier = answered.map (Answered.wire handler order) := by
    rw [← hanswered, hqueued, if_pos hidle, List.append_nil]
  have hdecode := Exchange.decodeAll_wires (answered.map (Exchange.mk handler order))
  refine ⟨answered, ?_⟩
  rw [hsent, hidle, hearlier]
  simpa [Function.comp_def, Exchange.isHead, Exchange.wire, Exchange.response] using hdecode

end Answered

end HttpServer
