import HttpServer.ConnectionProgress

/-!
# The connection refines a sequential reference

`reference` is what a client should receive for a byte stream: the stream is
parsed as a whole, the requests are answered one after the other, and the
answers stop behind the first one that closes the connection, or with an error
response where the stream is refused.

A connection meets the stream in pieces, and is interrupted and partially
written in between.  `Simulates` ties its state to the reference: what has been
sent, what is pending and what the reference still has to say about the buffered
and the undelivered bytes together are always the whole reference.  Every round
keeps it (`simulates_step`), and the stream bounds what is read, so that the rank
of `ConnectionProgress` falls (`rank_after`).
-/

namespace HttpServer

open Occurrence Transition

variable {fs : FileSystem}

section Reference

/-- The response to a request, as it goes on the wire. -/
def answerWire (handler : StaticFileHandler fs) (order : IterationOrder) (request : HttpRequest)
    (keepAlive : Bool) : Bytes :=
  serializeResponse order
    (HttpResponse.withConnection
      { routeRequest request handler with version := request.version } keepAlive)

/-- The response to a stream that is refused. -/
def refusalWire (order : IterationOrder) (kind : ParseErrorKind) : Bytes :=
  serializeResponse order ((parseErrorResponse kind).withConnection false)

/-- Answer requests, of which `served` have been answered before. -/
def answers (handler : StaticFileHandler fs) (order : IterationOrder) (maxRequests : Nat)
    (refusal : Option ParseErrorKind) : Nat → List HttpRequest → List Bytes
  | _, [] =>
      match refusal with
      | none => []
      | some kind => [refusalWire order kind]
  | served, request :: requests =>
      let keepAlive := shouldKeepAlive request && decide (served + 1 < maxRequests)
      answerWire handler order request keepAlive ::
        if keepAlive then answers handler order maxRequests refusal (served + 1) requests else []

/-- How a parse of a whole stream ends. -/
def Drained.refusal (d : Drained) : Option ParseErrorKind :=
  if d.status = .error then some d.errorKind else none

/-- The responses to a stream, if `served` requests came before it. -/
def answersTo (handler : StaticFileHandler fs) (order : IterationOrder) (maxRequests : Nat)
    (served : Nat) (parser : HttpParser) : List Bytes :=
  answers handler order maxRequests parser.drain.refusal served parser.drain.requests

/-- The responses to a client's byte stream. -/
def reference (handler : StaticFileHandler fs) (order : IterationOrder) (config : ConnectionConfig)
    (maxHeaderBytes maxBodyBytes : Nat) (s : Bytes) : List Bytes :=
  answersTo handler order config.limits.maxRequests 0 (parserAt maxHeaderBytes maxBodyBytes s)

variable (handler : StaticFileHandler fs) (order : IterationOrder) (maxRequests served : Nat)

theorem answersTo_of_request
    {parser rest : HttpParser}
    {request : HttpRequest}
    (h : parser.next = (requestReady request, rest)) :
    answersTo handler order maxRequests served parser =
      answerWire handler order request
          (shouldKeepAlive request && decide (served + 1 < maxRequests)) ::
        if (shouldKeepAlive request && decide (served + 1 < maxRequests)) = true then
          answersTo handler order maxRequests (served + 1) rest
        else [] := by
  have hsome : parser.next.1.request = some request := by
    rw [h]
    rfl
  have hdrain := HttpParser.drain_of_some hsome
  rw [h] at hdrain
  unfold answersTo
  rw [hdrain]
  rfl

theorem answersTo_of_refused
    {parser : HttpParser}
    (h : parser.next.1.status = .error) :
    answersTo handler order maxRequests served parser =
      [refusalWire order parser.next.1.errorKind] := by
  have hnone : parser.next.1.request = none :=
    parser.next_request_eq_none_iff.2 (by simp [h])
  unfold answersTo
  rw [HttpParser.drain_of_none hnone]
  simp [Drained.refusal, h, answers]

theorem answersTo_of_incomplete
    {parser : HttpParser}
    (h : parser.next.1.status = .needMoreData) :
    answersTo handler order maxRequests served parser = [] := by
  have hnone : parser.next.1.request = none :=
    parser.next_request_eq_none_iff.2 (by simp [h])
  unfold answersTo
  rw [HttpParser.drain_of_none hnone]
  simp [Drained.refusal, h, answers]

/-- No request of the stream has a header block of a length at the limit. -/
def AvoidsLimit (maxHeaderBytes maxBodyBytes : Nat) (s : Bytes) : Prop :=
  ∀ t, Reaches maxHeaderBytes maxBodyBytes s t →
    ∀ headerEnd, find crlfcrlf t = some headerEnd →
      ¬ (maxHeaderBytes - 2 ≤ headerEnd ∧ headerEnd ≤ maxHeaderBytes)

theorem AvoidsLimit.not_inLimitWindow
    {maxHeaderBytes maxBodyBytes : Nat}
    {s t : Bytes}
    (h : AvoidsLimit maxHeaderBytes maxBodyBytes s)
    (hreach : Reaches maxHeaderBytes maxBodyBytes s t) :
    ¬ InLimitWindow maxHeaderBytes maxBodyBytes t := by
  intro hwindow
  obtain ⟨block, tail, _, hfirst, hlow, hhigh, _⟩ := hwindow.block
  exact h t hreach block.length ((find_eq_some_iff _ _ _).2 hfirst) ⟨hlow, hhigh⟩

end Reference

namespace Connection

section Cooperation

/--
The environment of a round: no deadline passes, no call fails except by a
signal, `read` delivers the next bytes of the stream or, behind the last one, its
end, and `send` takes at least a byte.
-/
structure Cooperates (s : Bytes) (trace : List Event) (c : Connection) (env : Env) : Prop where
  reading : c.state = .reading →
    env.now < c.readDeadline ∧ env.setsockopt = none ∧
      (env.read = .error .eintr ∨
        (∃ chunk, env.read = .data chunk ∧ fedBytes trace ++ chunk.bytes <+: s) ∨
        (env.read = .eof ∧ fedBytes trace = s))
  writing : c.state = .writing →
    env.now < c.writeDeadline ∧ env.setsockopt = none ∧
      (env.send = .error .eintr ∨
        ∃ n, env.send = .sent n ∧ 0 < n ∧ n ≤ c.unsent.length)

variable {s : Bytes} {trace : List Event} {c : Connection} {env : Env}

theorem Cooperates.benign
    (h : Cooperates s trace c env) :
    Benign c env where
  reading := fun hstate => by
    obtain ⟨hnow, hset, hread | ⟨chunk, hread, _⟩ | ⟨hread, _⟩⟩ := h.reading hstate
    · exact ⟨hnow, hset, Or.inl hread⟩
    · exact ⟨hnow, hset, Or.inr (Or.inl ⟨chunk, hread⟩)⟩
    · exact ⟨hnow, hset, Or.inr (Or.inr hread)⟩
  writing := h.writing

/-- A cooperative environment ends a connection only with the stream. -/
theorem Cooperates.fed_of_ends
    (h : Cooperates s trace c env)
    {reason : ConnectionEndReason}
    {events : List Event}
    (hends : Ends env c reason events) :
    c.state = .reading ∧ fedBytes trace = s := by
  obtain ⟨hstate, heof⟩ := h.benign.eof_of_ends hends
  rcases (h.reading hstate).2.2 with hread | ⟨chunk, hread, _⟩ | ⟨_, hfed⟩
  · simp [hread] at heof
  · simp [hread] at heof
  · exact ⟨hstate, hfed⟩

/-- Only the stream is ever fed to the parser. -/
theorem Cooperates.fed_prefix
    {handler : StaticFileHandler fs}
    {order : IterationOrder}
    {next : Connection × List Event}
    (h : Cooperates s trace c env)
    (hfed : fedBytes trace <+: s)
    (hdoes : Does handler order env c next) :
    fedBytes (trace ++ next.2) <+: s := by
  have hsilent : ∀ {word}, fedBytes word = [] → fedBytes (trace ++ word) <+: s := by
    intro word hword
    simpa [hword] using hfed
  cases hdoes with
  | readInterrupted _ harm hread => exact hsilent (silent_read harm (by simp [hread])).fed
  | @received chunk armed hstate harm hread =>
      rcases (h.reading hstate).2.2 with hread' | ⟨chunk', hread', hprefix⟩ | ⟨hread', _⟩
      · simp [hread] at hread'
      · rw [hread] at hread'
        cases hread'
        simpa [(silent_armed harm).fed, hread, Event.fed] using hprefix
      · simp [hread] at hread'
  | timedOut hstate _ hexpired => exact absurd hexpired (h.benign.not_readExpired hstate)
  | needsMore => exact hsilent rfl
  | refused _ _ hqueued => exact hsilent (by rw [hqueued]; rfl)
  | answered _ _ hqueued => exact hsilent (by rw [hqueued]; rfl)
  | sendInterrupted _ harm hsend => exact hsilent (silent_send harm _ (by simp [hsend])).fed
  | sentPart _ harm _ _ _ => exact hsilent (by simp [(silent_armed harm).fed, Event.fed])
  | sentAll _ harm _ _ _ => exact hsilent (by simp [(silent_armed harm).fed, Event.fed])
  | ended hends => exact hsilent (silent_of_ends hends).fed

end Cooperation

section Simulation

variable (handler : StaticFileHandler fs) (order : IterationOrder)

/-- The responses to what is buffered and to what will still arrive. -/
def future (c : Connection) (unread : Bytes) : Bytes :=
  (answersTo handler order c.config.limits.maxRequests c.result.requestsServed
    (c.parser.feed unread)).flatten

/-- What the connection will still send. -/
def outstanding (c : Connection) (unread : Bytes) : Bytes :=
  match c.state with
  | .reading => c.future handler order unread
  | .parsing => c.future handler order unread
  | .writing => c.unsent ++ if c.closeAfterWrite then [] else c.future handler order unread
  | .closed => []

/-- The connection, the stream and the output that is due belong together. -/
structure Simulates (maxHeaderBytes maxBodyBytes : Nat) (s out : Bytes) (trace : List Event)
    (c : Connection) (unread : Bytes) : Prop where
  inv : RunInv trace c
  header : c.parser.maxHeaderBytes = maxHeaderBytes
  body : c.parser.maxBodyBytes = maxBodyBytes
  delivered : fedBytes trace ++ unread = s
  reached : c.state ≠ .closed →
    Reaches maxHeaderBytes maxBodyBytes s (c.parser.buffer ++ unread)
  waiting : c.state = .reading → c.parser.next.1.status = .needMoreData
  output : sentBytes trace ++ c.outstanding handler order unread = out

variable {handler order}
variable {maxHeaderBytes maxBodyBytes : Nat} {s out : Bytes} {trace word : List Event}
  {c : Connection} {env : Env} {unread : Bytes}

namespace Simulates

theorem parser_eq
    (h : Simulates handler order maxHeaderBytes maxBodyBytes s out trace c unread) :
    c.parser = parserAt maxHeaderBytes maxBodyBytes c.parser.buffer := by
  rw [← h.header, ← h.body]

theorem feed_eq
    (h : Simulates handler order maxHeaderBytes maxBodyBytes s out trace c unread) :
    c.parser.feed unread = parserAt maxHeaderBytes maxBodyBytes (c.parser.buffer ++ unread) := by
  rw [← h.header, ← h.body]
  rfl

/-- A chunk that `read` delivers is the next piece of the stream. -/
theorem unread_of_chunk
    (h : Simulates handler order maxHeaderBytes maxBodyBytes s out trace c unread)
    (hcoop : Cooperates s trace c env)
    (hstate : c.state = .reading)
    {chunk : Chunk}
    (hread : env.read = .data chunk) :
    ∃ unread', unread = chunk.bytes ++ unread' := by
  rcases (hcoop.reading hstate).2.2 with hread' | ⟨chunk', hread', hprefix⟩ | ⟨hread', _⟩
  · simp [hread] at hread'
  · rw [hread] at hread'
    cases hread'
    rw [← h.delivered, List.prefix_append_right_inj] at hprefix
    obtain ⟨unread', hunread'⟩ := hprefix
    exact ⟨unread', hunread'.symm⟩
  · simp [hread] at hread'

/-- Bytes arrive: only the place where they are held changes. -/
theorem receive
    (h : Simulates handler order maxHeaderBytes maxBodyBytes s out trace c unread)
    (hstate : c.state = .reading)
    {bytes unread' : Bytes}
    (hunread : unread = bytes ++ unread')
    (now : Int)
    (hinv : RunInv (trace ++ word) (c.receive bytes now))
    (hsent : sentBytes word = [])
    (hfed : fedBytes word = bytes) :
    Simulates handler order maxHeaderBytes maxBodyBytes s out (trace ++ word)
      (c.receive bytes now) unread' := by
  obtain ⟨phase, deadline, heq⟩ := c.receive_eq bytes now
  have houtput := h.output
  have hreached := h.reached (by simp [hstate])
  rw [outstanding, hstate, hunread] at houtput
  rw [hunread] at hreached
  rw [heq] at hinv ⊢
  refine ⟨hinv, h.header, h.body, ?_, ?_, by simp, ?_⟩
  · rw [fedBytes_append, hfed, List.append_assoc, ← hunread]
    exact h.delivered
  · intro _
    simpa [HttpParser.feed] using hreached
  · simpa [outstanding, future, HttpParser.feed, hsent] using houtput

/-- The buffer holds no complete request. -/
theorem wait
    (h : Simulates handler order maxHeaderBytes maxBodyBytes s out trace c unread)
    (hstate : c.state = .parsing)
    (hnext : c.parser.next = (needMoreData, c.parser))
    (now : Int)
    (hinv : RunInv (trace ++ word)
      { c.noticeBuffered now with parser := c.parser, state := .reading })
    (hsilent : Silent word) :
    Simulates handler order maxHeaderBytes maxBodyBytes s out (trace ++ word)
      { c.noticeBuffered now with parser := c.parser, state := .reading } unread := by
  obtain ⟨phase, deadline, heq⟩ := c.noticeBuffered_eq now
  have houtput := h.output
  rw [outstanding, hstate] at houtput
  rw [heq] at hinv ⊢
  refine ⟨hinv, h.header, h.body, ?_, fun _ => h.reached (by simp [hstate]), ?_, ?_⟩
  · simp [hsilent.fed, h.delivered]
  · simp [hnext, needMoreData]
  · simpa [outstanding, future, hsilent.sent] using houtput

/-- The buffer is refused, and so is the stream. -/
theorem refuse
    (h : Simulates handler order maxHeaderBytes maxBodyBytes s out trace c unread)
    (havoids : AvoidsLimit maxHeaderBytes maxBodyBytes s)
    (hstate : c.state = .parsing)
    {failure : ParseFailure}
    (hnext : c.parser.next = (parseError failure, c.parser))
    {queued : Connection × List Event}
    (hqueued : queued = ({ c.noticeBuffered env.now with parser := c.parser }).queueResponse
      order env.later (parseErrorResponse failure.kind) false .parseError)
    (hinv : RunInv (trace ++ .next (parseError failure) :: queued.2) queued.1) :
    Simulates handler order maxHeaderBytes maxBodyBytes s out
      (trace ++ .next (parseError failure) :: queued.2) queued.1 unread := by
  obtain ⟨phase, deadline, heq⟩ := c.noticeBuffered_eq env.now
  have hreached := h.reached (by simp [hstate])
  have herror : c.parser.next.1.status = .error ∧ c.parser.next.1.errorKind = failure.kind := by
    rw [hnext]
    exact ⟨rfl, rfl⟩
  rw [h.parser_eq] at herror
  obtain ⟨hstatus, hkind⟩ := next_error_append herror.1 (havoids.not_inLimitWindow hreached)
  have hfuture : c.future handler order unread = refusalWire order failure.kind := by
    rw [future, h.feed_eq, answersTo_of_refused _ _ _ _ hstatus, hkind, herror.2]
    simp
  have houtput := h.output
  rw [outstanding, hstate, hfuture] at houtput
  rw [heq] at hqueued
  subst hqueued
  refine ⟨hinv, h.header, h.body, ?_, fun _ => hreached, by simp [queueResponse], ?_⟩
  · simp [queueResponse, Event.fed, h.delivered]
  · simpa [queueResponse, Event.sent, outstanding, unsent, refusalWire] using houtput

/-- A request is taken from the buffer, and answered as the reference answers it. -/
theorem answer
    (h : Simulates handler order maxHeaderBytes maxBodyBytes s out trace c unread)
    (hstate : c.state = .parsing)
    {request : HttpRequest}
    {rest : Bytes}
    (hnext : c.parser.next = (requestReady request, { c.parser with buffer := rest }))
    {queued : Connection × List Event}
    (hqueued : queued =
      ({ c.noticeBuffered env.now with parser := { c.parser with buffer := rest } }).answer
        handler order env.later request)
    (hinv : RunInv (trace ++ .next (requestReady request) :: queued.2) queued.1) :
    Simulates handler order maxHeaderBytes maxBodyBytes s out
      (trace ++ .next (requestReady request) :: queued.2) queued.1 unread := by
  obtain ⟨phase, deadline, heq⟩ := c.noticeBuffered_eq env.now
  have hreached := h.reached (by simp [hstate])
  have hsome : c.parser.next.1.request = some request := by
    rw [hnext]
    rfl
  have hsome' : (parserAt maxHeaderBytes maxBodyBytes c.parser.buffer).next.1.request =
      some request := by
    rw [← h.parser_eq]
    exact hsome
  have hrest : (parserAt maxHeaderBytes maxBodyBytes c.parser.buffer).next.2.buffer = rest := by
    rw [← h.parser_eq, hnext]
  have hfeed := next_append_of_some hsome' unread
  rw [hrest] at hfeed
  have houtput := h.output
  rw [outstanding, hstate] at houtput
  dsimp only at houtput
  rw [future, h.feed_eq, answersTo_of_request _ _ _ _ hfeed] at houtput
  obtain ⟨line, fields, body, rest', hcomplete, _, hrest'⟩ := complete_of_next_some hsome'
  obtain rfl : rest' = rest := by
    rw [← hrest, hrest']
  have hreached' := hreached.trans (.request (hcomplete.append unread) (.here _))
  rw [heq, answer_eq] at hqueued
  subst hqueued
  generalize (shouldKeepAlive request &&
    decide (c.result.requestsServed + 1 < c.config.limits.maxRequests)) = keepAlive
    at houtput hinv ⊢
  refine ⟨hinv, h.header, h.body, ?_, fun _ => hreached', by simp [queueResponse], ?_⟩
  · simp [queueResponse, Event.fed, h.delivered]
  · rw [← houtput]
    cases keepAlive with
    | false => simp [queueResponse, Event.sent, outstanding, unsent, answerWire]
    | true =>
        simp [queueResponse, Event.sent, outstanding, unsent, answerWire, future, HttpParser.feed,
          h.header, h.body]

/-- Part of the pending response is sent. -/
theorem advance
    (h : Simulates handler order maxHeaderBytes maxBodyBytes s out trace c unread)
    (hstate : c.state = .writing)
    {n : Nat}
    (hinv : RunInv (trace ++ word) (c.advance n))
    (hsent : sentBytes word = c.unsent.take n)
    (hfed : fedBytes word = []) :
    Simulates handler order maxHeaderBytes maxBodyBytes s out (trace ++ word)
      (c.advance n) unread := by
  have houtput := h.output
  rw [outstanding, hstate] at houtput
  have hstate' : (c.advance n).state = .writing := hstate
  refine ⟨hinv, h.header, h.body, ?_, fun _ => h.reached (by simp [hstate]),
    by simp [hstate'], ?_⟩
  · simp [hfed, h.delivered]
  · rw [outstanding, hstate', sentBytes_append, hsent, ← houtput]
    dsimp only
    rw [unsent_advance, List.append_assoc, ← List.append_assoc (c.unsent.take n),
      List.take_append_drop]
    rfl

/-- The pending response is sent to its end. -/
theorem complete
    (h : Simulates handler order maxHeaderBytes maxBodyBytes s out trace c unread)
    (hstate : c.state = .writing)
    {n : Nat}
    (hall : n = c.unsent.length)
    (now : Int)
    (hinv : RunInv (trace ++ word) ((c.advance n).completeWrite now))
    (hsent : sentBytes word = c.unsent.take n)
    (hfed : fedBytes word = []) :
    Simulates handler order maxHeaderBytes maxBodyBytes s out (trace ++ word)
      ((c.advance n).completeWrite now) unread := by
  have houtput := h.output
  have hreached := h.reached (by simp [hstate])
  rw [outstanding, hstate] at houtput
  rw [hall, List.take_length] at hsent
  unfold completeWrite at hinv ⊢
  cases hclose : c.closeAfterWrite with
  | true =>
      simp only [Connection.advance, hclose, if_true] at hinv houtput ⊢
      refine ⟨hinv, h.header, h.body, ?_, by simp [finish], by simp [finish], ?_⟩
      · simp [hfed, h.delivered]
      · simpa [outstanding, finish, hsent] using houtput
  | false =>
      simp only [Connection.advance, hclose, Bool.false_eq_true, if_false] at hinv houtput ⊢
      refine ⟨hinv, h.header, h.body, ?_, fun _ => hreached, by simp, ?_⟩
      · simp [hfed, h.delivered]
      · simpa [outstanding, future, beginKeepAliveTimeout, hsent] using houtput

/-- The stream has ended while the connection waited for more of it. -/
theorem exhaust
    (h : Simulates handler order maxHeaderBytes maxBodyBytes s out trace c unread)
    (hstate : c.state = .reading)
    (hfed : fedBytes trace = s)
    {reason : ConnectionEndReason}
    (hinv : RunInv (trace ++ word) (c.finish reason))
    (hsilent : Silent word) :
    Simulates handler order maxHeaderBytes maxBodyBytes s out (trace ++ word)
      (c.finish reason) unread := by
  have hunread : unread = [] := by
    have hdelivered := h.delivered
    rw [hfed] at hdelivered
    simpa using hdelivered
  have houtput := h.output
  have hnone : c.future handler order unread = [] := by
    rw [future, h.feed_eq, hunread, List.append_nil, ← h.parser_eq,
      answersTo_of_incomplete _ _ _ _ (h.waiting hstate)]
    rfl
  rw [outstanding, hstate, hnone] at houtput
  refine ⟨hinv, h.header, h.body, ?_, by simp [finish], by simp [finish], ?_⟩
  · simp [hsilent.fed, h.delivered]
  · simpa [outstanding, finish, hsilent.sent] using houtput

theorem unchanged
    (h : Simulates handler order maxHeaderBytes maxBodyBytes s out trace c unread)
    (hinv : RunInv (trace ++ word) c)
    (hsilent : Silent word) :
    Simulates handler order maxHeaderBytes maxBodyBytes s out (trace ++ word) c unread where
  inv := hinv
  header := h.header
  body := h.body
  delivered := by simp [hsilent.fed, h.delivered]
  reached := h.reached
  waiting := h.waiting
  output := by simp [hsilent.sent, h.output]

end Simulates

/-- A round in a cooperative environment keeps the simulation. -/
theorem simulates_step
    (havoids : AvoidsLimit maxHeaderBytes maxBodyBytes s)
    (h : Simulates handler order maxHeaderBytes maxBodyBytes s out trace c unread)
    (hopen : c.state ≠ .closed)
    (hcoop : Cooperates s trace c env)
    {c' : Connection}
    (hstep : c.step handler order env = (c', word)) :
    ∃ unread',
      Simulates handler order maxHeaderBytes maxBodyBytes s out (trace ++ word) c' unread' := by
  have hinv : RunInv (trace ++ word) c' :=
    runInv_step h.inv ⟨hopen, env, hcoop.benign.permitted, hstep⟩
  have hdoes := c.does_step handler order env hopen
  rw [hstep] at hdoes
  cases hdoes with
  | readInterrupted _ harm hread =>
      exact ⟨unread, h.unchanged hinv (silent_read harm (by simp [hread]))⟩
  | @received chunk armed hstate harm hread =>
      have harmed := silent_armed harm
      obtain ⟨unread', hunread⟩ := h.unread_of_chunk hcoop hstate hread
      exact ⟨unread', h.receive hstate hunread env.later hinv
        (by simp [harmed.sent, Event.sent]) (by simp [harmed.fed, hread, Event.fed])⟩
  | timedOut hstate _ hexpired => exact absurd hexpired (hcoop.benign.not_readExpired hstate)
  | needsMore hstate hnext => exact ⟨unread, h.wait hstate hnext env.now hinv (silent_next _)⟩
  | refused hstate hnext hqueued => exact ⟨unread, h.refuse havoids hstate hnext hqueued hinv⟩
  | answered hstate hnext hqueued => exact ⟨unread, h.answer hstate hnext hqueued hinv⟩
  | sendInterrupted _ harm hsend =>
      exact ⟨unread, h.unchanged hinv (silent_send harm c.unsent (by simp [hsend]))⟩
  | @sentPart n armed hstate harm hsend _ _ =>
      have harmed := silent_armed harm
      exact ⟨unread, h.advance hstate hinv (by simp [harmed.sent, hsend, Event.sent])
        (by simp [harmed.fed, Event.fed])⟩
  | @sentAll n armed hstate harm hsend _ hall =>
      have harmed := silent_armed harm
      have hlength : n = c.unsent.length := by
        simp only [unsent, List.length_drop]
        omega
      exact ⟨unread, h.complete hstate hlength env.later hinv
        (by simp [harmed.sent, hsend, Event.sent]) (by simp [harmed.fed, Event.fed])⟩
  | ended hends =>
      obtain ⟨hstate, hfed⟩ := hcoop.fed_of_ends hends
      exact ⟨unread, h.exhaust hstate hfed hinv (silent_of_ends hends)⟩

end Simulation

section Refinement

variable (handler : StaticFileHandler fs) (order : IterationOrder)
variable {fd : Int} {config : ConnectionConfig} {maxHeaderBytes maxBodyBytes : Nat}
  {now later : Int} {c₀ : Connection} {s : Bytes}

theorem simulates_make
    (hmake : make fd config maxHeaderBytes maxBodyBytes now later = .ok c₀)
    (hfd : 0 ≤ fd) :
    Simulates handler order maxHeaderBytes maxBodyBytes s
      (reference handler order config maxHeaderBytes maxBodyBytes s).flatten [] c₀ s := by
  have hinv := (runInv_make hmake).1
  unfold make at hmake
  rw [if_pos hfd, if_pos hfd] at hmake
  split_ifs at hmake
  cases hmake
  refine ⟨hinv, rfl, rfl, rfl, fun _ => .here s, fun _ => ?_, rfl⟩
  exact congrArg (fun answer => answer.1.status) next_parserAt_nil

/-- The environment serves the whole stream to the connection. -/
def Delivers (c₀ : Connection) (s : Bytes) (envs : Nat → Env) : Prop :=
  ∀ n, Cooperates s (c₀.after handler order envs n).2 (c₀.after handler order envs n).1 (envs n)

variable {handler order}

theorem simulates_after
    {out : Bytes}
    {envs : Nat → Env}
    (havoids : AvoidsLimit maxHeaderBytes maxBodyBytes s)
    (hstart : Simulates handler order maxHeaderBytes maxBodyBytes s out [] c₀ s)
    (hdelivers : Delivers handler order c₀ s envs)
    (n : Nat) :
    ∃ unread, Simulates handler order maxHeaderBytes maxBodyBytes s out
      (c₀.after handler order envs n).2 (c₀.after handler order envs n).1 unread := by
  induction n with
  | zero => exact ⟨s, hstart⟩
  | succ n ih =>
      obtain ⟨unread, hsim⟩ := ih
      rw [after]
      dsimp only
      split_ifs with hclosed
      · exact ⟨unread, hsim⟩
      · exact simulates_step havoids hsim hclosed (hdelivers n) rfl

/-- A connection to which a stream is delivered closes, unless it is interrupted forever. -/
theorem exists_closed_of_delivered
    {out : Bytes}
    {envs : Nat → Env}
    (havoids : AvoidsLimit maxHeaderBytes maxBodyBytes s)
    (hstart : Simulates handler order maxHeaderBytes maxBodyBytes s out [] c₀ s)
    (hdelivers : Delivers handler order c₀ s envs)
    (hfair : Fair handler order c₀ envs) :
    ∃ n, (c₀.after handler order envs n).1.state = .closed := by
  have hfed : ∀ n, (fedBytes (c₀.after handler order envs n).2).length ≤ s.length := by
    intro n
    obtain ⟨unread, h⟩ := simulates_after havoids hstart hdelivers n
    rw [← h.delivered, List.length_append]
    exact Nat.le_add_right _ _
  exact exists_closed_of_rank (rank s.length)
    (fun n => rank_after (hdelivers n).benign (hfed (n + 1))) hfair

/--
Whatever the chunks in which a stream arrives, the sizes of the partial writes
and the interruptions, a connection that has closed has sent exactly what the
reference prescribes; and unless it is interrupted forever, it does close.
-/
theorem serve_refines_reference
    {envs : Nat → Env}
    (hmake : make fd config maxHeaderBytes maxBodyBytes now later = .ok c₀)
    (hfd : 0 ≤ fd)
    (havoids : AvoidsLimit maxHeaderBytes maxBodyBytes s)
    (hdelivers : Delivers handler order c₀ s envs) :
    (∀ n, (c₀.after handler order envs n).1.state = .closed →
      sentBytes (c₀.after handler order envs n).2 =
        (reference handler order config maxHeaderBytes maxBodyBytes s).flatten) ∧
    (Fair handler order c₀ envs →
      ∃ n, (c₀.after handler order envs n).1.state = .closed) := by
  have hstart := simulates_make (s := s) handler order hmake hfd
  constructor
  · intro n hclosed
    obtain ⟨unread, h⟩ := simulates_after havoids hstart hdelivers n
    have houtput := h.output
    rw [outstanding, hclosed] at houtput
    simpa using houtput
  · intro hfair
    exact exists_closed_of_delivered havoids hstart hdelivers hfair

end Refinement

section Greedy

/-- How many bytes `read` and `send` move at a time. -/
abbrev PieceSize := { n : Nat // 0 < n ∧ n ≤ 4096 }

/-- An environment that is never late and never interrupted, and moves so many bytes at a
time. -/
def greedyEnv (size : PieceSize) (s : Bytes) (trace : List Event) (c : Connection) : Env :=
  { now := min c.readDeadline c.writeDeadline - 1
    later := 0
    setsockopt := none
    read :=
      if h : s.drop (fedBytes trace).length = [] then .eof
      else .data ⟨(s.drop (fedBytes trace).length).take size.1,
        fun htake => (List.take_eq_nil_iff.1 htake).elim (Nat.ne_of_gt size.2.1) h,
        (List.length_take_le _ _).trans size.2.2⟩
    send := .sent (min size.1 c.unsent.length) }

variable {handler : StaticFileHandler fs} {order : IterationOrder} {c₀ : Connection} {s : Bytes}

theorem cooperates_greedyEnv
    (size : PieceSize)
    {trace : List Event}
    {c : Connection}
    (hinv : RunInv trace c)
    (hfed : fedBytes trace <+: s) :
    Cooperates s trace c (greedyEnv size s trace c) := by
  obtain ⟨unread, rfl⟩ := hfed
  refine ⟨fun _ => ⟨?_, rfl, Or.inr ?_⟩, fun hstate => ⟨?_, rfl, Or.inr ?_⟩⟩
  · simp only [greedyEnv]
    omega
  · simp only [greedyEnv, List.drop_left]
    by_cases hunread : unread = []
    · exact Or.inr (by simp [hunread])
    · refine Or.inl ⟨_, dif_neg hunread, ?_⟩
      rw [List.prefix_append_right_inj]
      exact List.take_prefix _ _
  · simp only [greedyEnv]
    omega
  · have hpos := List.length_pos_iff.2 (hinv.unsent_ne_nil hstate)
    exact ⟨_, rfl, lt_min size.2.1 hpos, min_le_right _ _⟩

/-- Every stream can be served to the end, in pieces of any size. -/
theorem greedyEnv_delivers
    (handler : StaticFileHandler fs)
    (order : IterationOrder)
    (size : PieceSize)
    (s : Bytes)
    (hinv : RunInv [] c₀) :
    Delivers handler order c₀ s (c₀.guidedEnvs handler order (greedyEnv size s)) ∧
      Fair handler order c₀ (c₀.guidedEnvs handler order (greedyEnv size s)) := by
  have hmain := guidedRun_invariant handler order (greedyEnv size s)
    (fun trace c => RunInv trace c ∧ fedBytes trace <+: s) ⟨hinv, List.nil_prefix⟩ ?_
  · constructor
    · intro n
      rw [after_guidedEnvs]
      exact cooperates_greedyEnv size (hmain n).1 (hmain n).2
    · intro n
      refine ⟨n, le_refl n, ?_⟩
      rw [after_guidedEnvs]
      rintro (⟨_, hread⟩ | ⟨_, hsend⟩)
      · simp only [guidedEnvs, greedyEnv] at hread
        split_ifs at hread
      · cases hsend
  · rintro trace c ⟨hrun, hfed⟩ hopen
    have hcoop := cooperates_greedyEnv size hrun hfed
    exact ⟨runInv_step hrun ⟨hopen, _, hcoop.benign.permitted, rfl⟩,
      hcoop.fed_prefix hfed (does_step _ handler order _ hopen)⟩

/-- Streams shorter than the limit have no header block at the limit. -/
theorem avoidsLimit_of_length
    {maxHeaderBytes maxBodyBytes : Nat}
    (h : s.length + 2 < maxHeaderBytes) :
    AvoidsLimit maxHeaderBytes maxBodyBytes s := by
  intro t hreach headerEnd hfind
  have hle := hreach.length_le
  have hend := HttpParser.headerEnd_add_four_le hfind
  omega

/-- Two requests, one behind the other. -/
def pipelinedStream : Bytes :=
  ascii "GET /a HTTP/1.1\r\nHost: a\r\nAccept: */*\r\n\r\n" ++
    ascii "HEAD /b HTTP/1.1\r\nConnection: close\r\nHost: a\r\n\r\n"

/-- They arrive seven bytes at a time, and their answers are sent seven bytes at a time. -/
theorem serve_refines_reference_sample :
    ∃ envs n,
      (∀ k chunk, (envs k).read = .data chunk → chunk.bytes.length ≤ 7) ∧
      (sampleConnection.after bareHandler .insertion envs n).1.state = .closed ∧
      sentBytes (sampleConnection.after bareHandler .insertion envs n).2 =
        (reference bareHandler .insertion {} (16 * 1024) (1024 * 1024)
          pipelinedStream).flatten := by
  obtain ⟨hdelivers, hfair⟩ := greedyEnv_delivers bareHandler .insertion ⟨7, by decide⟩
    pipelinedStream (runInv_make sampleConnection_make).1
  have href := serve_refines_reference sampleConnection_make (by decide)
    (avoidsLimit_of_length (by decide)) hdelivers
  obtain ⟨n, hclosed⟩ := href.2 hfair
  refine ⟨_, n, ?_, hclosed, href.1 n hclosed⟩
  intro k chunk hread
  simp only [guidedEnvs, greedyEnv] at hread
  split_ifs at hread
  cases hread
  exact List.length_take_le _ _

end Greedy

end Connection

end HttpServer
