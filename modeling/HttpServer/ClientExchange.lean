import HttpServer.Reference
import HttpServer.ResponseStream
import HttpServer.TargetDecoding

/-!
# A client and its answers

A client writes requests (`ClientRequest`) one behind the other and reads the
responses with `decodeAll`, which knows of each request only whether it was `HEAD`.
Between them are the chunks in which the stream arrives, the parser, the handler, the
serialized responses and the partial writes.

`exchanged` says what the client is to expect: an answer to each request, in order, up
to the first one that closes the connection.  The results are that it gets exactly
that, and that a client which asks for files gets the files.
-/

namespace HttpServer

open Connection Occurrence

variable {fs : FileSystem} {maxHeaderBytes maxBodyBytes : Nat}

section Requests

/-- A request as a client writes it, within the limits of the server. -/
structure ClientRequest (maxHeaderBytes maxBodyBytes : Nat) where
  line : RequestLine
  fields : List (Bytes × Bytes)
  body : Bytes
  wellFormed : line.WellFormed
  unbroken : ¬ crlf <:+: line.bytes
  headers : HeaderSection maxBodyBytes line.version fields body.length
  short : (headerBlock line fields).length + 2 < maxHeaderBytes

namespace ClientRequest

variable (r : ClientRequest maxHeaderBytes maxBodyBytes)

def bytes : Bytes :=
  headerBlock r.line r.fields ++ crlfcrlf ++ r.body

/-- The request that the server is to understand. -/
def request : HttpRequest :=
  { r.line.start.addFields r.fields with body := r.body }

def isHead : Bool :=
  r.line.method == ascii "HEAD"

theorem method_request : r.request.method = r.line.method :=
  (addFields_requestLine r.line.start r.fields).1

theorem complete
    (rest : Bytes) :
    CompleteRequest maxHeaderBytes maxBodyBytes (r.bytes ++ rest) r.line r.fields r.body rest :=
  r.headers.complete r.wellFormed r.unbroken (by have := r.short; omega) rest

/-- The parser takes a written request from the front of a stream. -/
theorem next_bytes
    (rest : Bytes) :
    (parserAt maxHeaderBytes maxBodyBytes (r.bytes ++ rest)).next =
      (requestReady r.request, parserAt maxHeaderBytes maxBodyBytes rest) :=
  HttpParser.next_of_complete _ (r.complete rest)

/-- The blank line behind the header block is found, and it is not near the limit. -/
theorem headerEnd_lt
    {rest : Bytes}
    {headerEnd : Nat}
    (hfind : find crlfcrlf (r.bytes ++ rest) = some headerEnd) :
    headerEnd + 2 < maxHeaderBytes := by
  obtain ⟨block, hcut, hfirst, _, hhead⟩ := (r.complete rest).cut
  have hblock : find crlfcrlf (r.bytes ++ rest) = some block.length :=
    (find_eq_some_iff _ _ _).2 hfirst
  have hlength : headerEnd = block.length := Option.some.inj (hfind.symm.trans hblock)
  rw [hlength, hhead.cut]
  exact r.short

end ClientRequest

/-- What a client sends. -/
def stream (requests : List (ClientRequest maxHeaderBytes maxBodyBytes)) : Bytes :=
  (requests.map ClientRequest.bytes).flatten

theorem stream_cons
    (r : ClientRequest maxHeaderBytes maxBodyBytes)
    (requests : List (ClientRequest maxHeaderBytes maxBodyBytes)) :
    stream (r :: requests) = r.bytes ++ stream requests := by
  simp [stream]

/-- The rests of such a stream are such streams. -/
theorem exists_stream_of_reaches
    {s t : Bytes}
    (hreach : Reaches maxHeaderBytes maxBodyBytes s t)
    {requests : List (ClientRequest maxHeaderBytes maxBodyBytes)}
    (hs : s = stream requests) :
    ∃ later : List (ClientRequest maxHeaderBytes maxBodyBytes), t = stream later := by
  induction hreach generalizing requests with
  | here s => exact ⟨requests, hs⟩
  | @request s rest t line fields body hrequest _ ih =>
      subst hs
      have hnext := (parserAt maxHeaderBytes maxBodyBytes (stream requests)).next_of_complete
        hrequest
      cases requests with
      | nil =>
          rw [show stream ([] : List (ClientRequest maxHeaderBytes maxBodyBytes)) = [] from rfl,
            next_parserAt_nil] at hnext
          cases congrArg (fun a => a.1.status) hnext
      | cons r later =>
          rw [stream_cons, r.next_bytes] at hnext
          have hrest : stream later = rest := congrArg (fun a => a.2.buffer) hnext
          exact ih hrest.symm

theorem avoidsLimit_stream
    (requests : List (ClientRequest maxHeaderBytes maxBodyBytes)) :
    AvoidsLimit maxHeaderBytes maxBodyBytes (stream requests) := by
  rintro t hreach headerEnd hfind ⟨hlow, _⟩
  obtain ⟨later, rfl⟩ := exists_stream_of_reaches hreach rfl
  cases later with
  | nil => cases hfind
  | cons r later =>
      rw [stream_cons] at hfind
      have hlt := r.headerEnd_lt hfind
      omega

end Requests

section Exchange

/-- The requests that are answered, and whether the connection stays open behind each. -/
def exchanged (maxRequests : Nat) :
    Nat → List (ClientRequest maxHeaderBytes maxBodyBytes) →
      List (ClientRequest maxHeaderBytes maxBodyBytes × Bool)
  | _, [] => []
  | served, r :: requests =>
      let keepAlive := shouldKeepAlive r.request && decide (served + 1 < maxRequests)
      (r, keepAlive) :: if keepAlive then exchanged maxRequests (served + 1) requests else []

/-- The response that belongs to a request. -/
def responseTo (handler : StaticFileHandler fs)
    (e : ClientRequest maxHeaderBytes maxBodyBytes × Bool) : HttpResponse :=
  HttpResponse.withConnection
    { routeRequest e.1.request handler with version := e.1.request.version } e.2

variable (handler : StaticFileHandler fs) (order : IterationOrder)

/-- An exchange as an answer of the server. -/
def answeredOf (e : ClientRequest maxHeaderBytes maxBodyBytes × Bool) : Answered :=
  .parsed (parserAt maxHeaderBytes maxBodyBytes (e.1.bytes ++ [])) e.1.request
    (by rw [e.1.next_bytes]; rfl) e.2

/-- The reference answers the written requests one by one. -/
theorem answersTo_stream
    (maxRequests served : Nat)
    (requests : List (ClientRequest maxHeaderBytes maxBodyBytes)) :
    answersTo handler order maxRequests served
        (parserAt maxHeaderBytes maxBodyBytes (stream requests)) =
      (exchanged maxRequests served requests).map
        (fun e => serializeResponse order (responseTo handler e)) := by
  induction requests generalizing served with
  | nil =>
      rw [answersTo_of_incomplete]
      · rfl
      · rw [show stream ([] : List (ClientRequest maxHeaderBytes maxBodyBytes)) = [] from rfl,
          next_parserAt_nil]
        rfl
  | cons r requests ih =>
      rw [stream_cons, answersTo_of_request handler order maxRequests served
        (r.next_bytes (stream requests)), exchanged, List.map_cons]
      congr 1
      split_ifs
      · exact ih (served + 1)
      · rfl

/-- The client reads the answers back. -/
theorem decodeAll_exchanged
    (exchanges : List (ClientRequest maxHeaderBytes maxBodyBytes × Bool)) :
    decodeAll (exchanges.map (fun e => e.1.isHead))
        (exchanges.map (fun e => serializeResponse order (responseTo handler e))).flatten =
      some (exchanges.map (fun e => (responseTo handler e).decoded order e.1.isHead), []) := by
  have hhead : ∀ e : ClientRequest maxHeaderBytes maxBodyBytes × Bool,
      (answeredOf e).isHead = e.1.isHead := by
    intro e
    rw [ClientRequest.isHead, ← e.1.method_request]
    rfl
  have hdecode := Exchange.decodeAll_wires
    (exchanges.map (fun e => .mk handler order (answeredOf e)))
  simp only [List.map_map, Function.comp_def, Exchange.isHead, hhead] at hdecode
  exact hdecode

end Exchange

section Results

variable {handler : StaticFileHandler fs} {order : IterationOrder} {config : ConnectionConfig}
  {fd now later : Int} {c₀ : Connection} {envs : Nat → Env}

/-- A connection that has closed has sent the answers to what was exchanged. -/
theorem sentBytes_of_closed
    (hmake : make fd config maxHeaderBytes maxBodyBytes now later = .ok c₀)
    (hfd : 0 ≤ fd)
    (requests : List (ClientRequest maxHeaderBytes maxBodyBytes))
    (hdelivers : Delivers handler order c₀ (stream requests) envs)
    {n : Nat}
    (hclosed : (c₀.after handler order envs n).1.state = .closed) :
    sentBytes (c₀.after handler order envs n).2 =
      ((exchanged config.limits.maxRequests 0 requests).map
        (fun e => serializeResponse order (responseTo handler e))).flatten := by
  have hstart := simulates_make (s := stream requests) handler order hmake hfd
  obtain ⟨unread, h⟩ := simulates_after (avoidsLimit_stream requests) hstart hdelivers n
  have houtput := h.output
  rw [outstanding, hclosed, reference, answersTo_stream] at houtput
  simpa using houtput

/-- A connection to which a stream of requests is delivered closes in the end. -/
theorem exists_closed_of_delivers
    (hmake : make fd config maxHeaderBytes maxBodyBytes now later = .ok c₀)
    (hfd : 0 ≤ fd)
    (requests : List (ClientRequest maxHeaderBytes maxBodyBytes))
    (hdelivers : Delivers handler order c₀ (stream requests) envs)
    (hfair : Fair handler order c₀ envs) :
    ∃ n, (c₀.after handler order envs n).1.state = .closed :=
  exists_closed_of_delivered (avoidsLimit_stream requests)
    (simulates_make (s := stream requests) handler order hmake hfd) hdelivers hfair

/--
Whatever well-formed requests a client sends on a connection, in whatever pieces they
arrive and the responses leave, the client reads the answer to each of its requests,
in their order and with nothing in between, up to the first answer that closes the
connection.  And unless it is interrupted forever, the connection does close.
-/
theorem client_reads_answers
    (hmake : make fd config maxHeaderBytes maxBodyBytes now later = .ok c₀)
    (hfd : 0 ≤ fd)
    (requests : List (ClientRequest maxHeaderBytes maxBodyBytes))
    (hdelivers : Delivers handler order c₀ (stream requests) envs) :
    (∀ n, (c₀.after handler order envs n).1.state = .closed →
      decodeAll ((exchanged config.limits.maxRequests 0 requests).map (fun e => e.1.isHead))
          (sentBytes (c₀.after handler order envs n).2) =
        some ((exchanged config.limits.maxRequests 0 requests).map
          (fun e => (responseTo handler e).decoded order e.1.isHead), [])) ∧
    (Fair handler order c₀ envs →
      ∃ n, (c₀.after handler order envs n).1.state = .closed) := by
  constructor
  · intro n hclosed
    rw [sentBytes_of_closed hmake hfd requests hdelivers hclosed]
    exact decodeAll_exchanged handler order _
  · exact exists_closed_of_delivers hmake hfd requests hdelivers

/-- A `HEAD` request of the older version, which closes the connection. -/
def sampleHead : ClientRequest (16 * 1024) (1024 * 1024) where
  line := ⟨ascii "HEAD", ascii "/", ascii "HTTP/1.0"⟩
  fields := []
  body := []
  wellFormed := ⟨(isToken_eq_true_iff _).1 (by decide), rfl, by decide, Or.inr rfl⟩
  unbroken := by decide
  headers := ⟨by simp, by simp, by simp, by simp [HostLine, ascii], by simp,
    Or.inr ⟨by simp, rfl⟩⟩
  short := by decide

/-- The client sends two such requests and gets the answer to the first. -/
theorem client_reads_answers_head :
    ∃ envs n,
      (sampleConnection.after bareHandler .insertion envs n).1.state = .closed ∧
      decodeAll [true] (sentBytes (sampleConnection.after bareHandler .insertion envs n).2) =
        some ([(responseTo bareHandler (sampleHead, false)).decoded .insertion true], []) := by
  obtain ⟨hdelivers, hfair⟩ := greedyEnv_delivers bareHandler .insertion ⟨16, by decide⟩
    (stream [sampleHead, sampleHead]) (runInv_make sampleConnection_make).1
  have hreads := client_reads_answers sampleConnection_make (by decide)
    [sampleHead, sampleHead] hdelivers
  obtain ⟨n, hclosed⟩ := hreads.2 hfair
  exact ⟨_, n, hclosed, hreads.1 n hclosed⟩

end Results

section Files

open StaticFileHandler

/-- A `GET` request for a file below the root that the server may read. -/
structure FileFetch (handler : StaticFileHandler fs) (maxHeaderBytes maxBodyBytes : Nat) where
  names : List Bytes
  file : RegularFile
  spelled : Bytes
  query : Bytes
  version : Bytes
  fields : List (Bytes × Bytes)
  named : names ≠ []
  found : fs.regularFile (handler.root ++ names) = some file
  permitted : readable file = true
  fits : file.content.length ≤ handler.maxFileBytes
  spells : Spells (List.intercalate [47] names) spelled
  isQuery : IsQuery query
  knownVersion : version = ascii "HTTP/1.1" ∨ version = ascii "HTTP/1.0"
  headers : HeaderSection maxBodyBytes version fields 0
  short : (headerBlock (getLine spelled query version) fields).length + 2 < maxHeaderBytes

variable {handler : StaticFileHandler fs} {order : IterationOrder}

namespace FileFetch

variable (f : FileFetch handler maxHeaderBytes maxBodyBytes)

def toRequest : ClientRequest maxHeaderBytes maxBodyBytes where
  line := getLine f.spelled f.query f.version
  fields := f.fields
  body := []
  wellFormed := (getLine_wellFormed f.spells f.isQuery f.knownVersion).1
  unbroken := (getLine_wellFormed f.spells f.isQuery f.knownVersion).2
  headers := f.headers
  short := f.short

theorem isHead_toRequest : f.toRequest.isHead = false :=
  (by decide : (ascii "GET" == ascii "HEAD") = false)

/-- The client reads the file. -/
theorem decoded_responseTo
    (order : IterationOrder)
    (keepAlive : Bool) :
    ((responseTo handler (f.toRequest, keepAlive)).decoded order f.toRequest.isHead).statusCode =
        200 ∧
      ((responseTo handler (f.toRequest, keepAlive)).decoded order f.toRequest.isHead).body =
        f.file.content := by
  have hmethod : f.toRequest.request.method = ascii "GET" := f.toRequest.method_request
  have htarget : f.toRequest.request.target = 47 :: (f.spelled ++ f.query) :=
    (addFields_requestLine f.toRequest.line.start f.fields).2.1
  obtain ⟨hstatus, hbody, _⟩ := handler.routeRequest_of_spells f.named f.found f.permitted f.fits
    f.spells (f.isQuery.imp_right (fun ⟨q, hq, _⟩ => ⟨q, hq⟩)) hmethod htarget
  have hframed := (routeRequest_clean handler f.toRequest.request).2
  rw [hmethod] at hframed
  have hsuppress : (routeRequest f.toRequest.request handler).suppressBody = false := hframed.2
  rw [HttpResponse.sentBody, hsuppress] at hbody
  rw [f.isHead_toRequest]
  exact ⟨hstatus, hbody⟩

end FileFetch

/-- A request for the file of the sample site. -/
def sampleFetch : FileFetch spacedHandler (16 * 1024) (1024 * 1024) where
  names := [ascii "a b"]
  file := { content := ascii "spaced\n" }
  spelled := ascii "a%20b"
  query := []
  version := ascii "HTTP/1.1"
  fields := [(ascii "Host", ascii " a")]
  named := by simp
  found := by decide +kernel
  permitted := rfl
  fits := by decide +kernel
  spells := .literal (by decide) (.escaped true true (.literal (by decide) .nil))
  isQuery := Or.inl rfl
  knownVersion := Or.inl rfl
  headers :=
    { unbroken := by decide
      names := by
        intro f hf
        rw [List.mem_singleton.1 hf]
        exact (isToken_eq_true_iff _).1 (by decide)
      distinct := List.pairwise_singleton _ _
      host := fun _ => ⟨_, List.mem_cons_self, by decide, 97, by decide, by decide⟩
      noTransferEncoding := by decide
      bodyLength := Or.inr ⟨by decide, rfl⟩ }
  short := by decide

/-- As long as every request keeps the connection open and the limit is not passed, all are
answered. -/
theorem exchanged_of_keepAlive
    {maxRequests served : Nat}
    {requests : List (ClientRequest maxHeaderBytes maxBodyBytes)}
    (hkeep : ∀ r ∈ requests, shouldKeepAlive r.request = true)
    (hcount : served + requests.length ≤ maxRequests) :
    (exchanged maxRequests served requests).map Prod.fst = requests := by
  induction requests generalizing served with
  | nil => rfl
  | cons r requests ih =>
      rw [List.length_cons] at hcount
      rw [exchanged, hkeep r List.mem_cons_self, Bool.true_and, List.map_cons]
      congr 1
      by_cases hlimit : served + 1 < maxRequests
      · rw [decide_eq_true hlimit, if_pos rfl]
        exact ih (fun r' hr' => hkeep r' (List.mem_cons_of_mem _ hr')) (by omega)
      · have hnone : requests = [] := List.length_eq_zero_iff.1 (by omega)
        rw [decide_eq_false hlimit, hnone]
        rfl

/-- What depends only on the requests of some exchanges can be read off the fetches. -/
theorem map_exchanges
    {γ : Type}
    {exchanges : List (ClientRequest maxHeaderBytes maxBodyBytes × Bool)}
    {fetches : List (FileFetch handler maxHeaderBytes maxBodyBytes)}
    (hall : exchanges.map Prod.fst = fetches.map FileFetch.toRequest)
    {g : ClientRequest maxHeaderBytes maxBodyBytes × Bool → γ}
    {g' : FileFetch handler maxHeaderBytes maxBodyBytes → γ}
    (hg : ∀ f keepAlive, g (f.toRequest, keepAlive) = g' f) :
    exchanges.map g = fetches.map g' := by
  induction exchanges generalizing fetches with
  | nil =>
      rw [List.map_nil, List.nil_eq, List.map_eq_nil_iff] at hall
      rw [hall]
      rfl
  | cons e exchanges ih =>
      cases fetches with
      | nil => cases hall
      | cons f fetches =>
          obtain ⟨r, keepAlive⟩ := e
          obtain ⟨hr, hrest⟩ := List.cons.inj hall
          rw [List.map_cons, List.map_cons, ih hrest, ← hg f keepAlive]
          exact congrArg (fun r => g (r, keepAlive) :: _) hr

variable {config : ConnectionConfig} {fd now later : Int} {c₀ : Connection} {envs : Nat → Env}

/--
A client that asks for files on one connection, under any spelling of their paths and
in requests that keep it open, gets them byte for byte and in the order in which it
asked, however the requests are cut on their way and the responses on theirs.
-/
theorem files_fetched_in_order
    (hmake : make fd config maxHeaderBytes maxBodyBytes now later = .ok c₀)
    (hfd : 0 ≤ fd)
    (fetches : List (FileFetch handler maxHeaderBytes maxBodyBytes))
    (hkeep : ∀ f ∈ fetches, shouldKeepAlive f.toRequest.request = true)
    (hcount : fetches.length ≤ config.limits.maxRequests)
    (hdelivers : Delivers handler order c₀ (stream (fetches.map FileFetch.toRequest)) envs) :
    (∀ n, (c₀.after handler order envs n).1.state = .closed →
      ∃ decoded,
        decodeAll (fetches.map (fun _ => false)) (sentBytes (c₀.after handler order envs n).2) =
          some (decoded, []) ∧
        decoded.map (fun d => (d.statusCode, d.body)) =
          fetches.map (fun f => (200, f.file.content))) ∧
    (Fair handler order c₀ envs →
      ∃ n, (c₀.after handler order envs n).1.state = .closed) := by
  refine ⟨fun n hclosed => ?_, exists_closed_of_delivers hmake hfd _ hdelivers⟩
  set exchanges := exchanged config.limits.maxRequests 0 (fetches.map FileFetch.toRequest)
    with hexchanges
  have hall : exchanges.map Prod.fst = fetches.map FileFetch.toRequest := by
    refine exchanged_of_keepAlive ?_ (by simpa using hcount)
    intro r hr
    obtain ⟨f, hf, rfl⟩ := List.mem_map.1 hr
    exact hkeep f hf
  have hheads : exchanges.map (fun e => e.1.isHead) = fetches.map (fun _ => false) :=
    map_exchanges hall (fun f _ => f.isHead_toRequest)
  refine ⟨exchanges.map (fun e => (responseTo handler e).decoded order e.1.isHead), ?_, ?_⟩
  · rw [sentBytes_of_closed hmake hfd _ hdelivers hclosed, ← hexchanges, ← hheads]
    exact decodeAll_exchanged handler order exchanges
  · rw [List.map_map]
    refine map_exchanges hall (fun f keepAlive => ?_)
    obtain ⟨hstatus, hbody⟩ := f.decoded_responseTo order keepAlive
    exact Prod.ext hstatus hbody

/-- The client fetches the file of the sample site twice, with its name escaped. -/
theorem files_fetched_in_order_twice :
    ∃ envs n,
      (sampleConnection.after spacedHandler .insertion envs n).1.state = .closed ∧
      ∃ decoded,
        decodeAll [false, false]
            (sentBytes (sampleConnection.after spacedHandler .insertion envs n).2) =
          some (decoded, []) ∧
        decoded.map (fun d => (d.statusCode, d.body)) =
          [(200, ascii "spaced\n"), (200, ascii "spaced\n")] := by
  obtain ⟨hdelivers, hfair⟩ := greedyEnv_delivers spacedHandler .insertion ⟨16, by decide⟩
    (stream ([sampleFetch, sampleFetch].map FileFetch.toRequest))
    (runInv_make sampleConnection_make).1
  have hfetched := files_fetched_in_order sampleConnection_make (by decide)
    [sampleFetch, sampleFetch] (by decide +kernel) (by decide) hdelivers
  obtain ⟨n, hclosed⟩ := hfetched.2 hfair
  exact ⟨_, n, hclosed, hfetched.1 n hclosed⟩

end Files

end HttpServer
