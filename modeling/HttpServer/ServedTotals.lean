import HttpServer.ResponseStream
import HttpServer.ServedConnections

/-!
# What the server counts, and what it holds

The counters of the pool are sums over connections, each of which reports its own
result when it is closed.  Once the server has stopped they are sums over the
clients: of the bytes that were read from and written to their descriptors, of the
requests that were parsed from those bytes, and of what ended each connection.

While the server runs, a connection holds the bytes that its parser has buffered
and the response that is being sent.  A response is a header section of bounded
size and a file of bounded size (`length_wire_le`), so that all connections
together hold a bounded number of bytes.
-/

namespace HttpServer

open Transition Threads Connection

universe u v

section Returned

variable {ω : Type u} {ρ : Type v}

/-- The client whose connection was served to its end. -/
def ServerEvent.returnedSerial : ServerEvent ω ρ → Option ℕ
  | .serveReturned _ serial _ => serial
  | _ => none

/-- The clients whose connections were served to their ends. -/
def returnedClients (trace : List (ServerEvent ω ρ)) : List ℕ :=
  trace.filterMap ServerEvent.returnedSerial

theorem returnedClients_cons
    (e : ServerEvent ω ρ)
    (trace : List (ServerEvent ω ρ)) :
    returnedClients (e :: trace) = e.returnedSerial.toList ++ returnedClients trace := by
  unfold returnedClients
  cases h : e.returnedSerial <;> simp [h]

/-- A client is served to its end at most as often as its connection comes to an end. -/
theorem count_returnedClients_le
    (trace : List (ServerEvent ω ρ))
    (n : ℕ) :
    (returnedClients trace).count n ≤ (endedSerials trace).count n := by
  induction trace with
  | nil => rfl
  | cons e trace ih =>
      have hended : endedSerials (e :: trace) = e.endedSerial.toList ++ endedSerials trace := by
        unfold endedSerials
        cases h : e.endedSerial <;> simp [h]
      rw [returnedClients_cons, hended, List.count_append, List.count_append]
      refine Nat.add_le_add ?_ ih
      cases e <;> simp [ServerEvent.returnedSerial, ServerEvent.endedSerial]

/-- A sum over results is a sum over clients, where each result tells of its client. -/
theorem sum_returnedResults
    {weight : ConnectionResult → ℕ}
    {value : ℕ → ℕ}
    {trace : List (ServerEvent ω ρ)}
    (h : ∀ w serial result, .serveReturned w serial result ∈ trace →
      ∃ n, serial = some n ∧ weight result = value n) :
    ((returnedResults trace).map weight).sum = ((returnedClients trace).map value).sum := by
  induction trace with
  | nil => rfl
  | cons e trace ih =>
      have hrest := ih (fun w serial result hmem => h w serial result (List.mem_cons_of_mem _ hmem))
      cases e with
      | serveReturned w serial result =>
          obtain ⟨n, rfl, hweight⟩ := h w serial result List.mem_cons_self
          simp [returnedClients_cons, ServerEvent.returnedSerial, returnedResults,
            ServerEvent.returnedResult, hweight, ← hrest]
      | _ => exact hrest

/-- Adding up ones counts. -/
theorem sum_map_ite_eq_countP
    (p : ℕ → Prop)
    [DecidablePred p]
    (clients : List ℕ) :
    (clients.map (fun n => if p n then 1 else 0)).sum = clients.countP (fun n => p n) := by
  induction clients with
  | nil => rfl
  | cons n clients ih =>
      rw [List.map_cons, List.sum_cons, ih, List.countP_cons, add_comm]
      simp

end Returned

section Totals

variable {ω : Type u} {ρ : Type v} [DecidableEq ω] [DecidableEq ρ] {fs : FileSystem}
  {handler : StaticFileHandler fs} {order : IterationOrder} {config : ConnectionConfig}
  {maxHeaderBytes maxBodyBytes : Nat} {s : ProgramState ω ρ} {trace : List (ProgramEvent ω ρ)}
  {q : BoundedQueue Fd}

/-- What `serve` returned is the result of a closed connection whose session has ended. -/
theorem ended_of_returned
    (hrun : Run (ProgramStep handler order config maxHeaderBytes maxBodyBytes)
      (ProgramState.start ω ρ q) trace s)
    {w : ω}
    {serial : Option ℕ}
    {result : ConnectionResult}
    (hreturned : .serveReturned w serial result ∈ serverEvents trace) :
    ∃ c, c.state = .closed ∧ c.result = result ∧
      Sessions.Event.ended serial c ∈ sessionEvents trace := by
  induction hrun with
  | refl => simp at hreturned
  | @tail trace word s s' _ last ih =>
      rw [serverEvents_append] at hreturned
      rw [sessionEvents_append]
      rcases List.mem_append.1 hreturned with hfront | hlast
      · obtain ⟨c, hclosed, hresult, hended⟩ := ih hfront
        exact ⟨c, hclosed, hresult, List.mem_append_left _ hended⟩
      · cases last with
        | server _ hword =>
            rw [serverEvents_map_server] at hlast
            exact absurd (hword _ hlast) (by simp [ServerEvent.connects])
        | constructs | constructorThrows | round | serveThrows => simp at hlast
        | @serveReturns w' client connection c hpc hserved hclosed =>
            simp only [serverEvents_cons_server, serverEvents_cons_session, serverEvents_nil,
              List.mem_singleton, ServerEvent.serveReturned.injEq] at hlast
            obtain ⟨rfl, rfl, rfl⟩ := hlast
            exact ⟨c, hclosed, rfl, List.mem_append_right _ (by simp)⟩

omit [DecidableEq ω] [DecidableEq ρ] in
/-- The connection of a session reports what its rounds did. -/
theorem told_of_traced
    {n : ℕ}
    {c : Connection}
    (h : Sessions.Traced (RoundStep handler order)
      (FreshConnection config maxHeaderBytes maxBodyBytes) (sessionEvents trace) (some n) c) :
    Told config.limits.maxRequests (roundsOf n trace) c := by
  obtain ⟨c₀, _, ⟨fd, now, later, hfd, hmake⟩, hrounds⟩ := h
  exact hrounds.invariant (Told config.limits.maxRequests) (told_make hfd hmake)
    (fun _ _ _ _ => told_step)

variable [Fintype ω] [Fintype ρ]

/-- What `serve` returned reports what was done on the descriptor of the client. -/
theorem told_of_returned
    (hempty : q.queue = [])
    (hrun : Run (ProgramStep handler order config maxHeaderBytes maxBodyBytes)
      (ProgramState.start ω ρ q) trace s)
    {w : ω}
    {serial : Option ℕ}
    {result : ConnectionResult}
    (hreturned : .serveReturned w serial result ∈ serverEvents trace) :
    ∃ n c, serial = some n ∧ c.state = .closed ∧ c.result = result ∧
      Told config.limits.maxRequests (roundsOf n trace) c := by
  obtain ⟨_, hregular, _⟩ := refines_of_run (serverRun_of_run hrun) hempty
  obtain ⟨c, hclosed, hresult, hended⟩ := ended_of_returned hrun hreturned
  cases serial with
  | none => exact absurd (hregular _ hreturned) (by simp [ServerEvent.Regular])
  | some n =>
      exact ⟨n, c, rfl, hclosed, hresult,
        told_of_traced ((allTraced_of_run hempty hrun).ended _ c hended)⟩

/-- Once the server has stopped, a counter of results is a sum over clients. -/
theorem ResultCounter.value_of_returned
    (hempty : q.queue = [])
    (hopen : q.closed = false)
    (hrun : Run (ProgramStep handler order config maxHeaderBytes maxBodyBytes)
      (ProgramState.start ω ρ q) trace s)
    (hreturned : s.server.acceptor = .returned)
    (counter : ResultCounter)
    (hzero : counter.value {} = 0)
    {value : ℕ → ℕ}
    (hvalue : ∀ w n c, .serveReturned w (some n) c.result ∈ serverEvents trace →
      c.state = .closed → Told config.limits.maxRequests (roundsOf n trace) c →
      counter.weight c.result = value n) :
    counter.value s.server.shared.stats =
      ((returnedClients (serverEvents trace)).map value).sum % sizeBound := by
  have hserver := serverRun_of_run hrun
  have hexited := (running_of_run hopen hserver).2.joined hreturned
  have hsum : ((returnedResults (serverEvents trace)).map counter.weight).sum =
      ((returnedClients (serverEvents trace)).map value).sum := by
    refine sum_returnedResults (fun w serial result hmem => ?_)
    obtain ⟨n, c, rfl, hclosed, rfl, htold⟩ := told_of_returned hempty hrun hmem
    exact ⟨n, rfl, hvalue w n c hmem hclosed htold⟩
  rw [← hsum, ← counter.sum_tally]
  exact Tally.value_of_returned counter.tally_kept hzero hserver hreturned hexited

/-- No client is served to its end twice. -/
theorem returnedClients_nodup
    (hempty : q.queue = [])
    (hrun : Run (ProgramStep handler order config maxHeaderBytes maxBodyBytes)
      (ProgramState.start ω ρ q) trace s) :
    (returnedClients (serverEvents trace)).Nodup := by
  obtain ⟨_, _, a, hlife, _⟩ := refines_of_run (serverRun_of_run hrun) hempty
  refine List.nodup_iff_count_le_one.2 (fun n => ?_)
  have hreturned := count_returnedClients_le (serverEvents trace) n
  have hleft := count_left_le (Lifecycle.Sound.of_run hlife) n
  omega

/-- Each client that was served to its end has one reason for it. -/
theorem exists_reasons
    (hempty : q.queue = [])
    (hrun : Run (ProgramStep handler order config maxHeaderBytes maxBodyBytes)
      (ProgramState.start ω ρ q) trace s) :
    ∃ reasonOf : ℕ → ConnectionEndReason,
      ∀ n ∈ returnedClients (serverEvents trace), ∀ reason,
        Happened config.limits.maxRequests (roundsOf n trace) reason ↔ reasonOf n = reason := by
  have heach : ∀ n, ∃ ended : ConnectionEndReason,
      n ∈ returnedClients (serverEvents trace) → ∀ reason,
        Happened config.limits.maxRequests (roundsOf n trace) reason ↔ ended = reason := by
    intro n
    by_cases hn : n ∈ returnedClients (serverEvents trace)
    · obtain ⟨e, he, hserial⟩ := List.mem_filterMap.1 hn
      cases e with
      | serveReturned w serial result =>
          obtain ⟨n', c, rfl, hclosed, _, htold⟩ := told_of_returned hempty hrun he
          obtain rfl : n' = n := Option.some.inj hserial
          exact ⟨c.result.reason, fun _ => (htold.verdict hclosed).1⟩
      | _ => simp [ServerEvent.returnedSerial] at hserial
    · exact ⟨.peerClosed, fun h => absurd h hn⟩
  choose reasonOf hreasonOf using heach
  exact ⟨reasonOf, fun n hn => hreasonOf n hn⟩

/--
Once the server has stopped, its counters are the totals over the clients that were
served to their ends, each of them once: the requests that were parsed, the bytes
that were read from their descriptors and written to them, and for every reason the
clients whose rounds show that it ended their connection.
-/
theorem counters_total_clients
    {capacity : ℕ}
    (hmake : BoundedQueue.make capacity = .ok q)
    (hrun : Run (ProgramStep handler order config maxHeaderBytes maxBodyBytes)
      (ProgramState.start ω ρ q) trace s)
    (hreturned : s.server.acceptor = .returned) :
    (returnedClients (serverEvents trace)).Nodup ∧
    s.server.shared.stats.completedConnections =
      (returnedClients (serverEvents trace)).length % sizeBound ∧
    s.server.shared.stats.requestsServed =
      ((returnedClients (serverEvents trace)).map
        (fun n => (emittedRequests (eventsOf (roundsOf n trace))).length)).sum % sizeBound ∧
    s.server.shared.stats.bytesRead =
      ((returnedClients (serverEvents trace)).map
        (fun n => (fedBytes (eventsOf (roundsOf n trace))).length)).sum % sizeBound ∧
    s.server.shared.stats.bytesWritten =
      ((returnedClients (serverEvents trace)).map
        (fun n => (sentBytes (eventsOf (roundsOf n trace))).length)).sum % sizeBound ∧
    ∃ reasonOf : ℕ → ConnectionEndReason,
      (∀ n ∈ returnedClients (serverEvents trace), ∀ reason,
        Happened config.limits.maxRequests (roundsOf n trace) reason ↔ reasonOf n = reason) ∧
      ∀ reason, s.server.shared.stats.ends reason =
        (returnedClients (serverEvents trace)).countP (fun n => reasonOf n = reason) %
          sizeBound := by
  have hempty : q.queue = [] := ((BoundedQueue.make_eq_ok_iff _ _).1 hmake).2 ▸ rfl
  have hopen : q.closed = false := ((BoundedQueue.make_eq_ok_iff _ _).1 hmake).2 ▸ rfl
  obtain ⟨reasonOf, hreasonOf⟩ := exists_reasons hempty hrun
  have hvalue := ResultCounter.value_of_returned hempty hopen hrun hreturned
  refine ⟨returnedClients_nodup hempty hrun, ?_, ?_, ?_, ?_, reasonOf, hreasonOf, fun reason => ?_⟩
  · have hcompleted := hvalue completedCounter rfl (fun _ _ _ _ _ _ => rfl)
    simpa [completedCounter] using hcompleted
  · exact hvalue requestsCounter rfl (fun _ _ _ _ _ htold => htold.served)
  · exact hvalue bytesReadCounter rfl (fun _ _ _ _ _ htold => htold.run.read)
  · exact hvalue bytesWrittenCounter rfl (fun _ _ _ _ _ htold => htold.run.written)
  · rw [← sum_map_ite_eq_countP]
    refine hvalue (endCounter reason) rfl (fun w n c hmem hclosed htold => ?_)
    have hn : n ∈ returnedClients (serverEvents trace) := List.mem_filterMap.2 ⟨_, hmem, rfl⟩
    have hsame : c.result.reason = reasonOf n :=
      (((htold.verdict hclosed).1 _).1 ((hreasonOf n hn _).2 rfl))
    simp [endCounter, hsame]

/-- The client of the program that stopped was counted. -/
theorem counters_total_clients_stopped :
    ∃ (trace : List (ProgramEvent Unit Unit)) (s : ProgramState Unit Unit),
      Run (ProgramStep bareHandler .insertion {} (16 * 1024) (1024 * 1024))
        (ProgramState.start Unit Unit { capacity := 1 }) trace s ∧
      s.server.acceptor = .returned ∧
      s.server.shared.stats.completedConnections =
        (returnedClients (serverEvents trace)).length % sizeBound := by
  have hmake : BoundedQueue.make 1 = .ok ({ capacity := 1 } : BoundedQueue Fd) := rfl
  obtain ⟨trace, s, hrun, hreturned, _⟩ := exists_stopped_program
  exact ⟨trace, s, hrun, hreturned, (counters_total_clients hmake hrun hreturned).2.1⟩

end Totals

section Sizes

/-- The bytes of a header line with its line end. -/
def lineSize (field : Bytes × Bytes) : ℕ :=
  field.1.length + field.2.length + 4

/-- The bytes of the lines of a header table. -/
def HeaderMap.size (m : HeaderMap) : ℕ :=
  (m.entries.map lineSize).sum

/-- Names are distinct, so changing the value of a name changes one line. -/
theorem sum_lineSize_replace_le
    (name value : Bytes)
    {entries : List (Bytes × Bytes)}
    (hnodup : (entries.map Prod.fst).Nodup) :
    ((entries.map (fun e => if e.1 = name then (e.1, value) else e)).map lineSize).sum ≤
      (entries.map lineSize).sum + lineSize (name, value) := by
  induction entries with
  | nil => simp
  | cons e entries ih =>
      rw [List.map_cons, List.nodup_cons] at hnodup
      simp only [List.map_cons, List.sum_cons]
      by_cases he : e.1 = name
      · have hothers : entries.map (fun e => if e.1 = name then (e.1, value) else e) = entries := by
          refine (List.map_congr_left (fun e' he' => ?_)).trans (List.map_id entries)
          rw [if_neg]
          · rfl
          · intro hname
            exact hnodup.1 (he.trans hname.symm ▸ List.mem_map_of_mem he')
        rw [if_pos he, hothers, he]
        omega
      · have hrest := ih hnodup.2
        rw [if_neg he]
        omega

/-- Assigning adds at most one line. -/
theorem HeaderMap.size_assign_le
    (m : HeaderMap)
    (name value : Bytes) :
    (m.assign name value).size ≤ m.size + lineSize (name, value) := by
  unfold HeaderMap.assign HeaderMap.size
  split_ifs with hfind
  · rw [HeaderMap.entries_emplace value hfind, List.map_append, List.sum_append]
    simp
  · exact sum_lineSize_replace_le name value m.nodup

theorem length_decimal_le
    {n k : ℕ}
    (hk : 0 < k)
    (hn : n < 10 ^ k) :
    (decimal n).length ≤ k := by
  unfold decimal
  rw [List.length_map]
  exact (Nat.length_toDigits_le_iff (by omega) hk).2 hn

/-- The header section of a response is small, and its body is within a limit. -/
structure HttpResponse.Compact (headers limit : ℕ) (response : HttpResponse) : Prop where
  version : response.version.length ≤ 8
  status : response.statusCode < 1000
  reason : response.reasonPhrase.length ≤ 18
  headers : response.headers.size ≤ headers
  declared : response.declaredLength < sizeBound
  body : response.body.length ≤ limit

/-- The header lines that are written take at most the size of the table. -/
theorem length_fields_le
    (order : IterationOrder)
    (m : HeaderMap)
    (keep : Bytes × Bytes → Bool) :
    ((((order.visit m.entries).filter keep).map
      (fun field => headerLine field ++ crlf)).flatten).length ≤ m.size := by
  have hlength : ∀ fields : List (Bytes × Bytes),
      ((fields.map (fun field => headerLine field ++ crlf)).flatten).length =
        (fields.map lineSize).sum := by
    intro fields
    rw [List.length_flatten, List.map_map]
    congr 1
    refine List.map_congr_left (fun field _ => ?_)
    have hcrlf : crlf.length = 2 := rfl
    have hcolon : (ascii ": ").length = 2 := rfl
    simp only [Function.comp_apply, headerLine, lineSize, List.length_append, hcrlf, hcolon]
    omega
  rw [hlength]
  calc
    (((order.visit m.entries).filter keep).map lineSize).sum
      ≤ ((order.visit m.entries).map lineSize).sum :=
        (List.filter_sublist.map lineSize).sum_le_sum (fun _ _ => Nat.zero_le _)
    _ = m.size := ((order.perm m.entries).map lineSize).sum_eq

theorem length_serializeResponse_le
    {headers limit : ℕ}
    {response : HttpResponse}
    (h : response.Compact headers limit)
    (order : IterationOrder) :
    (serializeResponse order response).length ≤ headers + limit + 73 := by
  have hstatus : (decimal response.statusCode).length ≤ 3 :=
    length_decimal_le (by omega) h.status
  have hdeclared : (decimal response.declaredLength).length ≤ 20 :=
    length_decimal_le (by omega) (lt_of_lt_of_le h.declared (by norm_num [sizeBound]))
  have hbody : response.sentBody.length ≤ limit := by
    unfold HttpResponse.sentBody
    split_ifs
    · exact Nat.zero_le _
    · exact h.body
  have hfields := length_fields_le order response.headers (fun field => !isContentLength field.1)
  have hheaders := h.headers
  have hversion := h.version
  have hreason := h.reason
  have hcrlf : crlf.length = 2 := rfl
  have hspace : (ascii " ").length = 1 := rfl
  have hname : (ascii "Content-Length: ").length = 16 := rfl
  simp only [serializeResponse, statusLine, List.length_append, hcrlf, hspace, hname]
  omega

theorem HttpResponse.Compact.withConnection
    {headers limit : ℕ}
    {response : HttpResponse}
    (h : response.Compact headers limit)
    (keepAlive : Bool) :
    (response.withConnection keepAlive).Compact (headers + 24) limit where
  version := h.version
  status := h.status
  reason := h.reason
  headers := by
    have hsize := response.headers.size_assign_le (ascii "Connection")
      (if keepAlive then ascii "keep-alive" else ascii "close")
    have hline : lineSize (ascii "Connection",
        if keepAlive then ascii "keep-alive" else ascii "close") ≤ 24 := by
      cases keepAlive <;> decide
    have hheaders := h.headers
    exact hsize.trans (by omega)
  declared := h.declared
  body := h.body

/-- The responses that explain a status. -/
theorem compact_textResponse
    {statusCode limit : ℕ}
    {reasonPhrase body : Bytes}
    (hstatus : statusCode < 1000)
    (hreason : reasonPhrase.length ≤ 18)
    (hbody : body.length ≤ 35) :
    (textResponse statusCode reasonPhrase body).Compact 44 (limit + 35) where
  version := (by decide : (ascii "HTTP/1.1").length ≤ 8)
  status := hstatus
  reason := hreason
  headers := (by decide :
    (HeaderMap.empty.assign (ascii "Content-Type") (ascii "text/plain")).size ≤ 44)
  declared := lt_of_le_of_lt hbody (by norm_num [sizeBound])
  body := by
    have hle : body.length ≤ limit + 35 := by omega
    exact hle

variable {fs : FileSystem} (handler : StaticFileHandler fs)

theorem serveFile_compact
    {maxFileBytes : ℕ}
    (hmax : maxFileBytes < sizeBound)
    (path : List PathElement)
    (isHead : Bool) :
    (StaticFileHandler.serveFile fs path isHead maxFileBytes).Compact 44 (maxFileBytes + 35) := by
  have hforbidden : StaticFileHandler.forbidden.Compact 44 (maxFileBytes + 35) :=
    compact_textResponse (by decide) (by decide) (by decide)
  have hheaders : (HeaderMap.empty.assign (ascii "Content-Type")
      (StaticFileHandler.contentTypeFor path)).size ≤ 44 := by
    have hmem := contentTypeFor_mem path
    generalize StaticFileHandler.contentTypeFor path = value at hmem
    simp only [List.mem_cons, List.not_mem_nil, or_false] at hmem
    rcases hmem with rfl | rfl | rfl | rfl | rfl <;> decide
  have hline : (ascii "HTTP/1.1").length ≤ 8 ∧ 200 < 1000 ∧ (ascii "OK").length ≤ 18 := by decide
  unfold StaticFileHandler.serveFile StaticFileHandler.fileResponse
  dsimp only
  split
  · split
    · rename_i file _
      split_ifs with hsize hhead
      · exact hforbidden
      · refine ⟨hline.1, hline.2.1, hline.2.2, hheaders, ?_, Nat.zero_le _⟩
        have hlt : file.content.length < sizeBound := by omega
        exact hlt
      · split
        · exact hforbidden
        · rename_i body hread
          obtain ⟨_, hfits, rfl⟩ := (StaticFileHandler.readFile_eq_some_iff file hmax body).1 hread
          refine ⟨hline.1, hline.2.1, hline.2.2, hheaders, ?_, ?_⟩
          · have hlt : file.content.length < sizeBound := by omega
            exact hlt
          · have hle : file.content.length ≤ maxFileBytes + 35 := by omega
            exact hle
    · exact hforbidden
  · exact hforbidden

theorem handle_compact
    (request : HttpRequest) :
    (handler.handle request).Compact 44 (handler.maxFileBytes + 35) := by
  rw [StaticFileHandler.handle_eq_locate]
  cases hlocate : handler.locate request.target with
  | ok candidate => exact serveFile_compact handler.bounded candidate _
  | error response =>
      have hmem := handler.locate_error_mem hlocate
      simp only [List.mem_cons, List.not_mem_nil, or_false] at hmem
      rcases hmem with rfl | rfl | rfl <;>
        exact compact_textResponse (by decide) (by decide) (by decide)

theorem routeRequest_compact
    (request : HttpRequest) :
    (routeRequest request handler).Compact 44 (handler.maxFileBytes + 35) := by
  have hhandled := handle_compact handler request
  unfold routeRequest
  dsimp only
  split_ifs
  · exact ⟨hhandled.version, hhandled.status, hhandled.reason, hhandled.headers,
      hhandled.declared, hhandled.body⟩
  · exact hhandled
  · refine ⟨by decide, by decide, by decide, by decide, by decide, ?_⟩
    have hle : (ascii "method not allowed\n").length ≤ handler.maxFileBytes + 35 :=
      Nat.le_add_left_of_le (by decide)
    exact hle

/-- What is queued for an answer is a small header section and a file. -/
theorem length_wire_le
    (order : IterationOrder)
    (answered : Answered) :
    (answered.wire handler order).length ≤ handler.maxFileBytes + 176 := by
  have hcompact : (answered.response handler).Compact 68 (handler.maxFileBytes + 35) := by
    cases answered with
    | parsed parser request emitted keepAlive =>
        have hrouted := routeRequest_compact handler request
        have hversion : request.version.length ≤ 8 := by
          rcases version_of_emitted emitted with h | h <;> rw [h] <;> decide
        have hanswer : HttpResponse.Compact 44 (handler.maxFileBytes + 35)
            { routeRequest request handler with version := request.version } :=
          ⟨hversion, hrouted.status, hrouted.reason, hrouted.headers, hrouted.declared,
            hrouted.body⟩
        exact hanswer.withConnection keepAlive
    | refused kind =>
        refine HttpResponse.Compact.withConnection ?_ false
        cases kind <;> exact compact_textResponse (by decide) (by decide) (by decide)
    | timedOut =>
        exact (compact_textResponse (by decide) (by decide) (by decide)).withConnection false
  have hlength := length_serializeResponse_le hcompact order
  unfold Answered.wire
  omega

end Sizes

section Memory

/-- The bytes that a connection holds: what the parser has buffered and what is being sent. -/
def Connection.memory (c : Connection) : ℕ :=
  c.parser.bufferedBytes + c.pendingResponse.length

variable {fs : FileSystem} {handler : StaticFileHandler fs} {order : IterationOrder}
  {config : ConnectionConfig} {maxHeaderBytes maxBodyBytes : Nat}

/-- The rounds of a connection are steps of its loop. -/
theorem run_of_rounds
    {c₀ c : Connection}
    {history : List Round}
    (hrun : Run (RoundStep handler order) c₀ history c) :
    Run (Step handler order) c₀ (eventsOf history) c := by
  induction hrun with
  | refl => exact .refl
  | tail _ last ih =>
      obtain ⟨hopen, env, hpermitted, events, hstep, rfl⟩ := last
      simpa using ih.tail ⟨hopen, env, hpermitted, hstep⟩

theorem memory_le_of_run
    {fd now later : Int}
    {c₀ c : Connection}
    {trace : List Event}
    (hmake : Connection.make fd config maxHeaderBytes maxBodyBytes now later = .ok c₀)
    (hrun : Run (Step handler order) c₀ trace c) :
    c.memory ≤ maxHeaderBytes + maxBodyBytes + handler.maxFileBytes + 4275 := by
  have hbuffer : BufferInv maxHeaderBytes maxBodyBytes c :=
    hrun.invariant (fun _ => BufferInv maxHeaderBytes maxBodyBytes) (bufferInv_make hmake)
      (fun _ _ _ _ => bufferInv_step)
  have hbuffered := hbuffer.always
  have hpending : c.pendingResponse.length ≤ handler.maxFileBytes + 176 := by
    obtain ⟨earlier, _, hqueued⟩ := (runInv_of_run hmake hrun).1.wire
    obtain ⟨answered, hanswered⟩ := queuedWires_eq hrun
    by_cases hnil : c.pendingResponse = []
    · simp [hnil]
    · rw [if_neg hnil] at hqueued
      have hmem : c.pendingResponse ∈ queuedWires trace := by simp [hqueued]
      rw [hanswered] at hmem
      obtain ⟨a, _, hwire⟩ := List.mem_map.1 hmem
      rw [← hwire]
      exact length_wire_le handler order a
  unfold Connection.memory
  omega

variable {ω : Type u} {ρ : Type v} [DecidableEq ω] [DecidableEq ρ] [Fintype ω] [Fintype ρ]
  {s : ProgramState ω ρ} {trace : List (ProgramEvent ω ρ)} {q : BoundedQueue Fd}

/--
However many clients there are and whatever they send, in every state that the
program reaches the connections hold no more bytes than the workers can have in
hand: a request of the greatest size with one read behind it, and a file of the
greatest size with its header section, for each worker.
-/
theorem held_bytes_bounded
    {capacity : ℕ}
    (hmake : BoundedQueue.make capacity = .ok q)
    (hrun : Run (ProgramStep handler order config maxHeaderBytes maxBodyBytes)
      (ProgramState.start ω ρ q) trace s) :
    ∑ w, ((s.served w).map Connection.memory).getD 0 ≤
      Fintype.card ω * (maxHeaderBytes + maxBodyBytes + handler.maxFileBytes + 4275) := by
  have hempty : q.queue = [] := ((BoundedQueue.make_eq_ok_iff _ _).1 hmake).2 ▸ rfl
  have htraced := allTraced_of_run hempty hrun
  have heach : ∀ w ∈ Finset.univ, ((s.served w).map Connection.memory).getD 0 ≤
      maxHeaderBytes + maxBodyBytes + handler.maxFileBytes + 4275 := by
    intro w _
    cases hserved : s.served w with
    | none => exact Nat.zero_le _
    | some c =>
        have hslot : s.sessions w = some (s.client c.fd, c) := by
          simp [ProgramState.sessions, hserved]
        obtain ⟨c₀, _, ⟨fd, now, later, _, hfresh⟩, hrounds⟩ := htraced.slot w _ c hslot
        exact memory_le_of_run hfresh (run_of_rounds hrounds)
  have hsum := Finset.sum_le_card_nsmul Finset.univ _ _ heach
  rwa [smul_eq_mul] at hsum

theorem held_bytes_bounded_stopped :
    ∃ (trace : List (ProgramEvent Unit Unit)) (s : ProgramState Unit Unit),
      Run (ProgramStep bareHandler .insertion {} (16 * 1024) (1024 * 1024))
        (ProgramState.start Unit Unit { capacity := 1 }) trace s ∧
      ∑ w, ((s.served w).map Connection.memory).getD 0 ≤ 18 * 1024 * 1024 := by
  have hmake : BoundedQueue.make 1 = .ok ({ capacity := 1 } : BoundedQueue Fd) := rfl
  obtain ⟨trace, s, hrun, _⟩ := exists_stopped_program
  exact ⟨trace, s, hrun, (held_bytes_bounded hmake hrun).trans (by decide)⟩

end Memory

end HttpServer
