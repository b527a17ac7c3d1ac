import HttpServer.ConnectionRuns

/-!
# Deadlines are absolute and always armed

The clock is any sequence of readings that does not go back.  An observer of a
run notes three times: when the request in progress started, when the last
response was completed and when the response being written was queued.  The notes
come from the events and the buffer alone, never from the deadlines that the
connection keeps.

* `Timeline.next`: what the observer notes after a round;
* `DeadlineInv`: the deadlines are these times plus the configured timeouts;
* `callArmed_of_does`: a `read` or `send` comes right behind the arming of its
  timeout;
* `ArmedFor`: the armed value is positive and does not exceed the timeout.
-/

namespace HttpServer

open Transition

/-- The duration of a time value, in microseconds. -/
def Timeval.micros (value : Timeval) : Int :=
  value.sec * 1000000 + value.usec

/-- The calls that may block. -/
def Event.waits : Event → Bool
  | .read _ => true
  | .send _ _ => true
  | _ => false

section Timeline

/-- Bytes have been read. -/
def Event.brings : Event → Bool
  | .read (.data _) => true
  | _ => false

/-- The rest of a response has been sent. -/
def Event.completes : Event → Bool
  | .send offered (.sent n) => decide (0 < n ∧ n = offered.length)
  | _ => false

/-- A response has been queued. -/
def Event.queues : Event → Bool
  | .queue _ _ _ => true
  | _ => false

/-- The times that an observer of a connection has noted. -/
structure Timeline where
  requestStart : Option Int
  completed : Option Int := none
  queued : Option Int := none

/--
A request starts with the first bytes that are read for it, or with the parse
step that finds them buffered; it is over when its response has been sent.
-/
def Timeline.next (t : Timeline) (c : Connection) (env : Env) (word : List Event) : Timeline where
  requestStart :=
    if word.any Event.completes then
      none
    else
      match t.requestStart with
      | some start => some start
      | none =>
          if word.any Event.brings then
            some env.later
          else if c.state = .parsing ∧ 0 < c.parser.bufferedBytes then
            some env.now
          else
            none
  completed := if word.any Event.completes then some env.later else t.completed
  queued := if word.any Event.queues then some env.later else t.queued

/-- A connection, its observer and the last reading of the clock. -/
structure Timed where
  connection : Connection
  timeline : Timeline
  clock : Int

/-- A connection as constructed: its first request has started. -/
def Timed.start (c : Connection) (now later : Int) : Timed where
  connection := c
  timeline := { requestStart := some now }
  clock := later

namespace Connection

variable {fs : FileSystem}

/-- One round of the loop as its observer sees it. -/
def round (s : Timed) (handler : StaticFileHandler fs) (order : IterationOrder) (env : Env) :
    Timed × List Event :=
  let next := s.connection.step handler order env
  ({ connection := next.1
     timeline := s.timeline.next s.connection env next.2
     clock := env.later },
    next.2)

/-- A round of an open connection, under a clock that does not go back. -/
def TimedStep (handler : StaticFileHandler fs) (order : IterationOrder)
    (s : Timed) (word : List Event) (s' : Timed) : Prop :=
  s.connection.state ≠ .closed ∧ ∃ env, s.connection.Permitted env ∧
    s.clock ≤ env.now ∧ env.now ≤ env.later ∧ round s handler order env = (s', word)

/-- The timeout that applies to a read. -/
def phaseTimeout (c : Connection) : Int :=
  match c.readPhase with
  | .request => c.config.timeouts.readTimeout
  | .keepAlive => c.config.timeouts.keepAliveTimeout

end Connection

end Timeline

namespace Connection

variable {fs : FileSystem} {handler : StaticFileHandler fs} {order : IterationOrder} {env : Env}
  {c c' : Connection} {t : Timeline} {word : List Event} {config : ConnectionConfig} {clock : Int}

section Notes

/-- The three kinds of events that an observer notes. -/
structure Flags (word : List Event) (completes brings queues : Bool) : Prop where
  completes : word.any Event.completes = completes
  brings : word.any Event.brings = brings
  queues : word.any Event.queues = queues

/-- Where no bytes move and nothing is queued there is nothing to note. -/
theorem Silent.flags
    (h : Silent word) :
    Flags word false false false := by
  have hsent := List.flatMap_eq_nil_iff.1 h.sent
  have hfed := List.flatMap_eq_nil_iff.1 h.fed
  have hqueued := List.filterMap_eq_nil_iff.1 h.queued
  refine ⟨?_, ?_, ?_⟩
  · rw [List.any_eq_false]
    intro e he hcompletes
    have hnone := hsent e he
    unfold Event.completes at hcompletes
    split at hcompletes
    · simp only [decide_eq_true_eq] at hcompletes
      simp only [Event.sent, List.take_eq_nil_iff] at hnone
      rcases hnone with hzero | hnil
      · omega
      · rw [hnil, List.length_nil] at hcompletes
        omega
    · cases hcompletes
  · rw [List.any_eq_false]
    intro e he hbrings
    have hnone := hfed e he
    unfold Event.brings at hbrings
    split at hbrings
    · rename_i chunk
      exact chunk.nonempty hnone
    · cases hbrings
  · rw [List.any_eq_false]
    intro e he hqueues
    have hnone := hqueued e he
    unfold Event.queues at hqueues
    split at hqueues
    · cases hnone
    · cases hqueues

theorem Flags.append
    {front back : List Event}
    {a b d a' b' d' : Bool}
    (h : Flags front a b d)
    (h' : Flags back a' b' d') :
    Flags (front ++ back) (a || a') (b || b') (d || d') where
  completes := by rw [List.any_append, h.completes, h'.completes]
  brings := by rw [List.any_append, h.brings, h'.brings]
  queues := by rw [List.any_append, h.queues, h'.queues]

/-- A response is queued behind silent events. -/
theorem Silent.flags_queue
    {front : List Event}
    (h : Silent front)
    (order : IterationOrder)
    (base : Connection)
    (now : Int)
    (response : HttpResponse)
    (keepAlive : Bool)
    (reason : ConnectionEndReason) :
    Flags (front ++ (base.queueResponse order now response keepAlive reason).2)
      false false true :=
  h.flags.append ⟨rfl, rfl, rfl⟩

/-- A round outside the state `Parsing` with nothing to note. -/
theorem Timeline.next_of_silent
    (t : Timeline)
    (hflags : Flags word false false false)
    (hstate : c.state ≠ .parsing) :
    t.next c env word = t := by
  obtain ⟨start, completed, queued⟩ := t
  unfold Timeline.next
  cases start <;> simp [hflags.completes, hflags.brings, hflags.queues, hstate]

end Notes

section Invariant

/-- The deadlines, the phase and the times that the observer has noted. -/
structure DeadlineInv (config : ConnectionConfig) (c : Connection) (t : Timeline) (clock : Int) :
    Prop where
  config_eq : c.config = config
  request : ∀ start, t.requestStart = some start → start ≤ clock ∧
    c.readDeadline = start + milliseconds config.timeouts.readTimeout
  phase : c.state ≠ .closed → (c.readPhase = .keepAlive ↔ t.requestStart = none)
  between : c.readPhase = .keepAlive → 1 ≤ c.result.requestsServed ∧
    ∃ completed, t.completed = some completed ∧ completed ≤ clock ∧
      c.readDeadline = completed + milliseconds config.timeouts.keepAliveTimeout
  idle : c.state = .reading → c.readPhase = .keepAlive → c.parser.bufferedBytes = 0
  begun : c.state = .reading → c.readPhase = .request →
    c.result.requestsServed = 0 ∨ 0 < c.parser.bufferedBytes
  fed : c.state = .parsing → c.readPhase = .request → 0 < c.parser.bufferedBytes
  writing : c.state = .writing → c.readPhase = .request ∧
    ∃ queued, t.queued = some queued ∧ queued ≤ clock ∧
      c.writeDeadline = queued + milliseconds config.timeouts.writeTimeout
  answered : c.state = .writing → c.closeAfterWrite = false → 1 ≤ c.result.requestsServed
  closeReason : c.closeReasonAfterWrite ≠ .keepAliveTimeout

namespace DeadlineInv

variable {clock' : Int}

/-- Time passes. -/
theorem later
    (h : DeadlineInv config c t clock)
    (hclock : clock ≤ clock') :
    DeadlineInv config c t clock' where
  config_eq := h.config_eq
  request := fun start hstart =>
    ⟨(h.request start hstart).1.trans hclock, (h.request start hstart).2⟩
  phase := h.phase
  between := fun hphase => by
    obtain ⟨hserved, completed, hcompleted, hle, hdeadline⟩ := h.between hphase
    exact ⟨hserved, completed, hcompleted, hle.trans hclock, hdeadline⟩
  idle := h.idle
  begun := h.begun
  fed := h.fed
  writing := fun hstate => by
    obtain ⟨hphase, queued, hqueued, hle, hdeadline⟩ := h.writing hstate
    exact ⟨hphase, queued, hqueued, hle.trans hclock, hdeadline⟩
  answered := h.answered
  closeReason := h.closeReason

/-- A closed connection has only its last deadline left. -/
theorem of_closed
    (hstate : c.state = .closed)
    (hconfig : c.config = config)
    (hrequest : ∀ start, t.requestStart = some start → start ≤ clock ∧
      c.readDeadline = start + milliseconds config.timeouts.readTimeout)
    (hbetween : c.readPhase = .keepAlive → 1 ≤ c.result.requestsServed ∧
      ∃ completed, t.completed = some completed ∧ completed ≤ clock ∧
        c.readDeadline = completed + milliseconds config.timeouts.keepAliveTimeout)
    (hreason : c.closeReasonAfterWrite ≠ .keepAliveTimeout) :
    DeadlineInv config c t clock where
  config_eq := hconfig
  request := hrequest
  phase := by simp [hstate]
  between := hbetween
  idle := by simp [hstate]
  begun := by simp [hstate]
  fed := by simp [hstate]
  writing := by simp [hstate]
  answered := by simp [hstate]
  closeReason := hreason

/-- The parser has bytes of a request that began at `start`. -/
theorem of_started
    (hstate : c.state = .parsing)
    (hphase : c.readPhase = .request)
    (hconfig : c.config = config)
    {start : Int}
    (hstart : t.requestStart = some start)
    (hle : start ≤ clock)
    (hdeadline : c.readDeadline = start + milliseconds config.timeouts.readTimeout)
    (hfed : 0 < c.parser.bufferedBytes)
    (hreason : c.closeReasonAfterWrite ≠ .keepAliveTimeout) :
    DeadlineInv config c t clock where
  config_eq := hconfig
  request := by
    intro start' hstart'
    obtain rfl := Option.some.inj (hstart.symm.trans hstart')
    exact ⟨hle, hdeadline⟩
  phase := by simp [hphase, hstart]
  between := by simp [hphase]
  idle := by simp [hstate]
  begun := by simp [hstate]
  fed := fun _ _ => hfed
  writing := by simp [hstate]
  answered := by simp [hstate]
  closeReason := hreason

theorem finish
    (h : DeadlineInv config c t clock)
    (reason : ConnectionEndReason) :
    DeadlineInv config (c.finish reason) t clock :=
  of_closed rfl h.config_eq h.request h.between h.closeReason

/-- A request in progress has a start. -/
theorem exists_start
    (h : DeadlineInv config c t clock)
    (hstate : c.state ≠ .closed)
    (hphase : c.readPhase = .request) :
    ∃ start, t.requestStart = some start := by
  rw [← Option.ne_none_iff_exists']
  intro hnone
  simp [(h.phase hstate).2 hnone] at hphase

/-- Bytes arrive, and start a request unless one is in progress. -/
theorem receive
    (h : DeadlineInv config c t clock)
    (hstate : c.state = .reading)
    {bytes : Bytes}
    (hbytes : bytes ≠ [])
    (hflags : Flags word false true false)
    (hclock : clock ≤ env.later) :
    DeadlineInv config (c.receive bytes env.later) (t.next c env word) env.later := by
  have hfed : 0 < (c.parser.feed bytes).bufferedBytes := by
    have hpos := List.length_pos_iff.2 hbytes
    simp only [HttpParser.bufferedBytes, HttpParser.feed, List.length_append]
    omega
  cases hphase : c.readPhase with
  | keepAlive =>
      have hnone : t.requestStart = none := (h.phase (by simp [hstate])).1 hphase
      have hstart : (t.next c env word).requestStart = some env.later := by
        simp [Timeline.next, hflags.completes, hflags.brings, hnone]
      have hreceive : c.receive bytes env.later =
          { c.beginRequestTimeout env.later with
            parser := c.parser.feed bytes
            state := .parsing
            result := { c.result with bytesRead := c.result.bytesRead + bytes.length } } := by
        simp [Connection.receive, hphase, beginRequestTimeout]
      rw [hreceive]
      exact of_started rfl rfl h.config_eq hstart le_rfl
        (by simp [beginRequestTimeout, h.config_eq]) hfed h.closeReason
  | request =>
      obtain ⟨start, hstart⟩ := h.exists_start (by simp [hstate]) hphase
      have hsame : (t.next c env word).requestStart = some start := by
        simp [Timeline.next, hflags.completes, hstart]
      have hreceive : c.receive bytes env.later =
          { c with
            parser := c.parser.feed bytes
            state := .parsing
            result := { c.result with bytesRead := c.result.bytesRead + bytes.length } } := by
        simp [Connection.receive, hphase]
      rw [hreceive]
      obtain ⟨hle, hdeadline⟩ := h.request start hstart
      exact of_started rfl hphase h.config_eq hsame (hle.trans hclock) hdeadline hfed h.closeReason

/-- Buffered bytes start a request unless one is in progress. -/
theorem notice
    (h : DeadlineInv config c t clock)
    (hstate : c.state = .parsing)
    {queues : Bool}
    (hflags : Flags word false false queues)
    (hclock : clock ≤ env.now) :
    DeadlineInv config (c.noticeBuffered env.now)
        { t with requestStart := (t.next c env word).requestStart } env.now ∧
      ((c.noticeBuffered env.now).readPhase = .keepAlive ↔
        c.readPhase = .keepAlive ∧ c.parser.bufferedBytes = 0) := by
  cases hphase : c.readPhase with
  | request =>
      obtain ⟨start, hstart⟩ := h.exists_start (by simp [hstate]) hphase
      have hsame : (t.next c env word).requestStart = t.requestStart := by
        simp [Timeline.next, hflags.completes, hstart]
      have hnotice : c.noticeBuffered env.now = c := by simp [noticeBuffered, hphase]
      rw [hnotice, hsame, hphase]
      exact ⟨h.later hclock, by simp⟩
  | keepAlive =>
      have hnone : t.requestStart = none := (h.phase (by simp [hstate])).1 hphase
      rcases Nat.eq_zero_or_pos c.parser.bufferedBytes with hempty | hpos
      · have hsame : (t.next c env word).requestStart = t.requestStart := by
          simp [Timeline.next, hflags.completes, hflags.brings, hnone, hempty]
        have hnotice : c.noticeBuffered env.now = c := by simp [noticeBuffered, hempty]
        rw [hnotice, hsame, hphase]
        exact ⟨h.later hclock, by simp [hempty]⟩
      · have hstart : (t.next c env word).requestStart = some env.now := by
          simp [Timeline.next, hflags.completes, hflags.brings, hnone, hstate, hpos]
        have hnotice : c.noticeBuffered env.now = c.beginRequestTimeout env.now := by
          simp [noticeBuffered, hphase, hpos]
        rw [hnotice, hstart]
        refine ⟨?_, by simp [beginRequestTimeout]; omega⟩
        exact of_started hstate rfl h.config_eq rfl le_rfl
          (by simp [beginRequestTimeout, h.config_eq]) hpos h.closeReason

/-- A parse step that found no request; the connection reads on. -/
theorem wait
    (h : DeadlineInv config c t clock)
    (hstate : c.state = .parsing)
    (hflags : Flags word false false false)
    (hclock : clock ≤ env.now)
    (hlater : env.now ≤ env.later) :
    DeadlineInv config { c.noticeBuffered env.now with parser := c.parser, state := .reading }
      (t.next c env word) env.later := by
  obtain ⟨hnoticed, hphase⟩ := h.notice hstate hflags hclock
  have htimeline : t.next c env word =
      { t with requestStart := (t.next c env word).requestStart } := by
    simp [Timeline.next, hflags.completes, hflags.queues]
  obtain ⟨phase, deadline, hnotice⟩ := c.noticeBuffered_eq env.now
  rw [htimeline]
  refine DeadlineInv.later ?_ hlater
  rw [hnotice] at hnoticed hphase ⊢
  dsimp only at hphase
  exact
    { config_eq := hnoticed.config_eq
      request := hnoticed.request
      phase := fun _ => hnoticed.phase (by simp [hstate])
      between := hnoticed.between
      idle := fun _ hkeep => (hphase.1 hkeep).2
      begun := fun _ hrequest => Or.inr (hnoticed.fed hstate hrequest)
      fed := by simp
      writing := by simp
      answered := by simp
      closeReason := hnoticed.closeReason }

/-- A response is queued for the request in progress. -/
theorem queue
    (h : DeadlineInv config c t clock)
    (hopen : c.state ≠ .closed)
    (hphase : c.readPhase = .request)
    {base : Connection}
    (hbase : base.config = c.config ∧ base.readPhase = c.readPhase ∧
      base.readDeadline = c.readDeadline)
    {now : Int}
    (hclock : clock ≤ now)
    (response : HttpResponse)
    {keepAlive : Bool}
    {reason : ConnectionEndReason}
    (hserved : keepAlive = true → 1 ≤ base.result.requestsServed)
    (hreason : reason ≠ .keepAliveTimeout)
    {t' : Timeline}
    (hstart : t'.requestStart = t.requestStart)
    (hqueued : t'.queued = some now) :
    DeadlineInv config (base.queueResponse order now response keepAlive reason).1 t' now where
  config_eq := hbase.1.trans h.config_eq
  request := by
    intro start hsome
    rw [hstart] at hsome
    obtain ⟨hle, hdeadline⟩ := h.request start hsome
    exact ⟨hle.trans hclock, hbase.2.2.trans hdeadline⟩
  phase := by
    intro _
    rw [hstart, ← h.phase hopen]
    exact hbase.2.1 ▸ Iff.rfl
  between := by simp [queueResponse, hbase.2.1, hphase]
  idle := by simp [queueResponse]
  begun := by simp [queueResponse]
  fed := by simp [queueResponse]
  writing := by
    intro _
    refine ⟨hbase.2.1.trans hphase, now, hqueued, le_refl _, ?_⟩
    simp [queueResponse, hbase.1, h.config_eq]
  answered := by
    intro _ hclose
    exact hserved (by simpa [queueResponse] using hclose)
  closeReason := hreason

theorem advance
    (h : DeadlineInv config c t clock)
    (n : Nat) :
    DeadlineInv config (c.advance n) t clock where
  config_eq := h.config_eq
  request := h.request
  phase := h.phase
  between := h.between
  idle := h.idle
  begun := h.begun
  fed := h.fed
  writing := h.writing
  answered := h.answered
  closeReason := h.closeReason

/-- A response is complete: the connection closes, or waits for the next request. -/
theorem completeWrite
    (h : DeadlineInv config c t clock)
    (hstate : c.state = .writing)
    (hflags : Flags word true false false) :
    DeadlineInv config (c.completeWrite env.later) (t.next c env word) env.later := by
  have hnone : (t.next c env word).requestStart = none := by
    simp [Timeline.next, hflags.completes]
  have hcompleted : (t.next c env word).completed = some env.later := by
    simp [Timeline.next, hflags.completes]
  have hphase := (h.writing hstate).1
  cases hclose : c.closeAfterWrite with
  | true =>
      have hfinish : c.completeWrite env.later =
          ({ c with pendingResponse := [], writeOffset := 0 }).finish c.closeReasonAfterWrite := by
        simp [Connection.completeWrite, hclose]
      rw [hfinish]
      exact of_closed rfl h.config_eq (by simp [hnone]) (by simp [Connection.finish, hphase])
        h.closeReason
  | false =>
      have hwait : c.completeWrite env.later =
          { c with
            pendingResponse := []
            writeOffset := 0
            readPhase := .keepAlive
            readDeadline := env.later + milliseconds c.config.timeouts.keepAliveTimeout
            state := .parsing } := by
        simp [Connection.completeWrite, hclose, beginKeepAliveTimeout]
      rw [hwait]
      exact
        { config_eq := h.config_eq
          request := by simp [hnone]
          phase := by simp [hnone]
          between := fun _ => ⟨h.answered hstate hclose, env.later, hcompleted, le_refl _,
            by simp [h.config_eq]⟩
          idle := by simp
          begun := by simp
          fed := by simp
          writing := by simp
          answered := by simp
          closeReason := h.closeReason }

end DeadlineInv

/-- An empty buffer is answered by a request for more data. -/
theorem bufferedBytes_pos_of_status
    {parser : HttpParser}
    (h : parser.next.1.status ≠ .needMoreData) :
    0 < parser.bufferedBytes := by
  rw [Nat.pos_iff_ne_zero]
  intro hzero
  apply h
  have hempty : parser = parserAt parser.maxHeaderBytes parser.maxBodyBytes [] := by
    rw [← List.length_eq_zero_iff.1 hzero]
  rw [hempty, next_parserAt_nil]
  rfl

/-- A parse step that queues a response, for which there must be bytes in the buffer. -/
theorem DeadlineInv.parse
    (h : DeadlineInv config c t clock)
    (hstate : c.state = .parsing)
    (hstatus : c.parser.next.1.status ≠ .needMoreData)
    (hclock : clock ≤ env.now)
    (hlater : env.now ≤ env.later)
    {base : Connection}
    (hbase : base.config = (c.noticeBuffered env.now).config ∧
      base.readPhase = (c.noticeBuffered env.now).readPhase ∧
      base.readDeadline = (c.noticeBuffered env.now).readDeadline)
    (result : ParseResult)
    (response : HttpResponse)
    {keepAlive : Bool}
    {reason : ConnectionEndReason}
    (hserved : keepAlive = true → 1 ≤ base.result.requestsServed)
    (hreason : reason ≠ .keepAliveTimeout) :
    DeadlineInv config (base.queueResponse order env.later response keepAlive reason).1
      (t.next c env
        (.next result :: (base.queueResponse order env.later response keepAlive reason).2))
      env.later := by
  have hflags := (silent_next result).flags_queue order base env.later response
    keepAlive reason
  rw [List.singleton_append] at hflags
  obtain ⟨hnoticed, hphase⟩ := h.notice hstate hflags hclock
  obtain ⟨phase, deadline, hnotice⟩ := c.noticeBuffered_eq env.now
  have hrequest : (c.noticeBuffered env.now).readPhase = .request := by
    cases hcase : (c.noticeBuffered env.now).readPhase with
    | request => rfl
    | keepAlive =>
        have hpos := bufferedBytes_pos_of_status hstatus
        have hempty := (hphase.1 hcase).2
        omega
  refine hnoticed.queue (by simp [hnotice, hstate]) hrequest hbase hlater response hserved hreason
    rfl ?_
  simp [Timeline.next, hflags.queues]

/-- Every round keeps the deadlines. -/
theorem deadlineInv_step
    (h : DeadlineInv config c t clock)
    (hdoes : Does handler order env c (c', word))
    (hclock : clock ≤ env.now)
    (hlater : env.now ≤ env.later) :
    DeadlineInv config c' (t.next c env word) env.later := by
  have hunchanged : Silent word → c.state ≠ .parsing →
      DeadlineInv config c (t.next c env word) env.later := by
    intro hsilent hstate
    rw [Timeline.next_of_silent t hsilent.flags hstate]
    exact h.later (hclock.trans hlater)
  cases hdoes with
  | readInterrupted hstate harm hread =>
      exact hunchanged (silent_read harm (by simp [hread])) (by simp [hstate])
  | @received chunk armed hstate harm hread =>
      refine h.receive hstate chunk.nonempty ?_ (hclock.trans hlater)
      exact (silent_armed harm).flags.append ⟨rfl, by simp [hread, Event.brings], rfl⟩
  | timedOut hstate hphase hexpired =>
      have hflags := (silent_of_readExpired hexpired).flags_queue order c env.later
        requestTimeoutResponse false .readTimeout
      obtain ⟨start, hstart⟩ := h.exists_start (by simp [hstate]) hphase
      refine h.queue (by simp [hstate]) hphase ⟨rfl, rfl, rfl⟩ (hclock.trans hlater) _
        (by simp) (by simp) ?_ ?_
      · simp [Timeline.next, hflags.completes, hstart]
      · simp [Timeline.next, hflags.queues]
  | needsMore hstate _ => exact h.wait hstate (silent_next _).flags hclock hlater
  | refused hstate hnext hqueued =>
      subst hqueued
      refine h.parse hstate (by simp [hnext, parseError]) hclock hlater ?_ _ _ ?_ ?_
      · exact ⟨rfl, rfl, rfl⟩
      · simp
      · simp
  | answered hstate hnext hqueued =>
      subst hqueued
      rw [answer_eq]
      refine h.parse hstate (by simp [hnext, requestReady]) hclock hlater ?_ _ _ ?_ ?_
      · exact ⟨rfl, rfl, rfl⟩
      · simp
      · split <;> simp
  | sendInterrupted hstate harm hsend =>
      exact hunchanged (silent_send harm _ (by simp [hsend])) (by simp [hstate])
  | @sentPart n armed hstate harm hsend hpos hpart =>
      have hflags : Flags (armed ++ [.send c.unsent env.send]) false false false := by
        refine (silent_armed harm).flags.append ⟨?_, rfl, rfl⟩
        have hne : n ≠ c.unsent.length := by
          rw [unsent, List.length_drop]
          omega
        simp [hsend, Event.completes, hne]
      rw [Timeline.next_of_silent t hflags (by simp [hstate])]
      exact (h.later (hclock.trans hlater)).advance n
  | @sentAll n armed hstate harm hsend hpos hall =>
      have hflags : Flags (armed ++ [.send c.unsent env.send]) true false false := by
        refine (silent_armed harm).flags.append ⟨?_, rfl, rfl⟩
        have heq : n = c.unsent.length := by
          rw [unsent, List.length_drop]
          omega
        simp [hsend, Event.completes, ← heq, hpos]
      exact (h.advance n).completeWrite hstate hflags
  | ended hends =>
      refine (hunchanged (silent_of_ends hends) ?_).finish _
      cases hends <;> simp [*]

end Invariant

section Arming

/--
The value armed for a call that may last until `deadline`: what remained of it at
some reading of the clock, in whole microseconds but never zero, which would mean
to wait forever, and never more than `timeout` milliseconds.
-/
structure ArmedFor (value : Timeval) (clock deadline timeout : Int) : Prop where
  sec : 0 ≤ value.sec
  usec : 0 ≤ value.usec ∧ value.usec < 1000000
  remaining : ∃ now, clock ≤ now ∧ now < deadline ∧
    value.micros = max 1 ((deadline - now) / 1000)
  positive : 0 < value.micros
  bounded : value.micros * 1000 ≤ milliseconds timeout

theorem armedFor_timevalOf
    {clock now deadline timeout : Int}
    (hclock : clock ≤ now)
    (hnow : now < deadline)
    (htimeout : 0 < timeout)
    (hdeadline : deadline ≤ now + milliseconds timeout) :
    ArmedFor (timevalOf (deadline - now)) clock deadline timeout := by
  have hmicros : (timevalOf (deadline - now)).micros = max 1 ((deadline - now) / 1000) := by
    unfold Timeval.micros timevalOf
    dsimp only
    split_ifs <;> omega
  unfold milliseconds at hdeadline
  refine ⟨?_, ?_, ⟨now, hclock, hnow, hmicros⟩, ?_, ?_⟩
  · unfold timevalOf
    dsimp only
    split_ifs <;> omega
  · unfold timevalOf
    dsimp only
    omega
  · omega
  · rw [hmicros]
    unfold milliseconds
    omega

/-- A call comes right behind the arming of its timeout, which succeeded. -/
structure CallArmed (option : SocketOption) (deadline : Int) (env : Env) (word : List Event)
    (call : Event) : Prop where
  intime : env.now < deadline
  behind : ∃ rest, word =
    .setsockopt option (timevalOf (deadline - env.now)) none :: call :: rest

theorem callArmed_of_mem
    {option : SocketOption}
    {deadline : Int}
    {armed rest : List Event}
    {call e : Event}
    (harm : armSocketTimeout option deadline env = (none, armed))
    (hrest : ∀ e ∈ rest, e.waits = false)
    (hmem : e ∈ armed ++ [call] ++ rest)
    (hwaits : e.waits = true) :
    CallArmed option deadline env (armed ++ [call] ++ rest) e := by
  have hcall : e = call := by
    rcases List.mem_append.1 hmem with hfront | hback
    · rcases List.mem_append.1 hfront with harmed | hlast
      · obtain ⟨value, failure, rfl⟩ := mem_armed harm harmed
        cases hwaits
      · exact List.mem_singleton.1 hlast
    · rw [hrest e hback] at hwaits
      cases hwaits
  subst hcall
  unfold armSocketTimeout at harm
  split_ifs at harm with hlate
  · simp at harm
  · obtain ⟨hset, rfl⟩ := Prod.mk.inj harm
    rw [hset]
    exact ⟨by omega, rest, rfl⟩

/-- A round makes no call that may block unless its timeout has been armed. -/
theorem callArmed_of_does
    (h : Does handler order env c (c', word))
    {e : Event}
    (he : e ∈ word)
    (hwaits : e.waits = true) :
    c.state = .reading ∧ CallArmed .receiveTimeout c.readDeadline env word e ∨
      c.state = .writing ∧ CallArmed .sendTimeout c.writeDeadline env word e := by
  have hlone : ∀ {option : SocketOption} {deadline : Int} {armed : List Event} {call : Event},
      armSocketTimeout option deadline env = (none, armed) → e ∈ armed ++ [call] →
      CallArmed option deadline env (armed ++ [call]) e := by
    intro option deadline armed call harm hmem
    rw [← List.append_nil (armed ++ [call])] at hmem ⊢
    exact callArmed_of_mem harm (by simp) hmem hwaits
  have hnone : ∀ {option : SocketOption} {deadline : Int} {errno : Errno} {armed : List Event},
      armSocketTimeout option deadline env = (some errno, armed) → e ∉ armed := by
    intro option deadline errno armed harm hmem
    obtain ⟨value, failure, rfl⟩ := mem_armed harm hmem
    cases hwaits
  cases h with
  | readInterrupted hstate harm _ => exact Or.inl ⟨hstate, hlone harm he⟩
  | received hstate harm _ => exact Or.inl ⟨hstate, hlone harm he⟩
  | timedOut hstate _ hexpired =>
      refine Or.inl ⟨hstate, ?_⟩
      cases hexpired with
      | armed harm _ =>
          rcases List.mem_append.1 he with harmed | hqueued
          · exact absurd harmed (hnone harm)
          · rw [queueResponse, List.mem_singleton] at hqueued
            subst hqueued
            cases hwaits
      | read harm _ _ =>
          refine callArmed_of_mem harm ?_ he hwaits
          simp [queueResponse, Event.waits]
  | needsMore _ _ =>
      rw [List.mem_singleton] at he
      subst he
      cases hwaits
  | refused _ _ hqueued =>
      subst hqueued
      rcases List.mem_cons.1 he with rfl | hqueue
      · cases hwaits
      · rw [queueResponse, List.mem_singleton] at hqueue
        subst hqueue
        cases hwaits
  | answered _ _ hqueued =>
      subst hqueued
      rcases List.mem_cons.1 he with rfl | hqueue
      · cases hwaits
      · rw [answer_eq, queueResponse, List.mem_singleton] at hqueue
        subst hqueue
        cases hwaits
  | sendInterrupted hstate harm _ => exact Or.inr ⟨hstate, hlone harm he⟩
  | sentPart hstate harm _ _ _ => exact Or.inr ⟨hstate, hlone harm he⟩
  | sentAll hstate harm _ _ _ => exact Or.inr ⟨hstate, hlone harm he⟩
  | ended hends =>
      cases hends with
      | readArm _ harm _ => exact absurd he (hnone harm)
      | silent hstate _ hexpired =>
          cases hexpired with
          | armed harm _ => exact absurd he (hnone harm)
          | read harm _ _ => exact Or.inl ⟨hstate, hlone harm he⟩
      | read hstate harm _ _ _ => exact Or.inl ⟨hstate, hlone harm he⟩
      | peer hstate harm _ => exact Or.inl ⟨hstate, hlone harm he⟩
      | sendArm _ harm => exact absurd he (hnone harm)
      | send hstate harm _ _ => exact Or.inr ⟨hstate, hlone harm he⟩
      | sendZero hstate harm _ => exact Or.inr ⟨hstate, hlone harm he⟩

/-- A call that may block is the one call of its state. -/
theorem callOf_of_waits
    (h : Does handler order env c (c', word))
    {e : Event}
    (he : e ∈ word)
    (hwaits : e.waits = true) :
    CallOf c env e := by
  rcases does_word h with hcalls | ⟨front, last, response, keepAlive, rfl, hcalls, hqueued⟩
  · exact hcalls e he
  · rcases List.mem_append.1 he with hfront | hlast
    · exact hcalls e hfront
    · rw [List.mem_singleton, hqueued.event] at hlast
      subst hlast
      cases hwaits

end Arming

section Endings

/-- Only the timeout of a request is answered with 408. -/
theorem Answers.timeout_of_statusCode
    {response : HttpResponse}
    {keepAlive : Bool}
    (h : Answers handler c response keepAlive)
    (hstatus : response.statusCode = 408) :
    c.state = .reading ∧ c.readPhase = .request := by
  cases h with
  | timeout hstate hphase => exact ⟨hstate, hphase⟩
  | @refusal failure _ _ =>
      exfalso
      revert hstatus
      cases failure.kind <;> decide
  | @request request rest _ _ =>
      have hmem := routeRequest_statusCode_mem request handler
      dsimp only at hstatus
      rw [hstatus] at hmem
      exact absurd hmem (by decide)

theorem timeout_of_queue_mem
    (h : Does handler order env c (c', word))
    {response : HttpResponse}
    {wire : Bytes}
    {keepAlive : Bool}
    (hmem : Event.queue response wire keepAlive ∈ word)
    (hstatus : response.statusCode = 408) :
    c.state = .reading ∧ c.readPhase = .request := by
  obtain ⟨front, base, _, _, rfl, hqueued⟩ := queued_of_mem h hmem
  exact hqueued.answers.timeout_of_statusCode hstatus

/-- A connection is closed for silence only while it waits for the next request. -/
theorem keepAlive_of_closed
    (h : Does handler order env c (c', word))
    (hreason : c.closeReasonAfterWrite ≠ .keepAliveTimeout)
    (hclosed : c'.state = .closed)
    (hsilent : c'.result.reason = .keepAliveTimeout) :
    c.state = .reading ∧ c.readPhase = .keepAlive := by
  cases h with
  | readInterrupted hstate _ _ => simp [hstate] at hclosed
  | received _ _ _ => cases hclosed
  | timedOut _ _ _ => cases hclosed
  | needsMore _ _ => cases hclosed
  | refused _ _ hqueued =>
      subst hqueued
      cases hclosed
  | answered _ _ hqueued =>
      subst hqueued
      cases hclosed
  | sendInterrupted hstate _ _ => simp [hstate] at hclosed
  | sentPart hstate _ _ _ _ => simp [Connection.advance, hstate] at hclosed
  | sentAll _ _ _ _ _ =>
      unfold Connection.completeWrite at hclosed hsilent
      dsimp only at hclosed hsilent
      split_ifs at hclosed hsilent
      exact absurd hsilent hreason
  | ended hends =>
      cases hends with
      | silent hstate hphase _ => exact ⟨hstate, hphase⟩
      | sendArm _ _ =>
          simp only [Connection.finish] at hsilent
          split at hsilent <;> cases hsilent
      | send _ _ _ _ =>
          simp only [Connection.finish] at hsilent
          split at hsilent <;> cases hsilent
      | _ => cases hsilent

end Endings

section Results

variable {maxHeaderBytes maxBodyBytes : Nat} {now later : Int} {fd : Int} {s s' : Timed}
  {trace : List Event}

theorem timeouts_pos
    (hmake : make fd config maxHeaderBytes maxBodyBytes now later = .ok c) :
    0 < config.timeouts.readTimeout ∧ 0 < config.timeouts.keepAliveTimeout ∧
      0 < config.timeouts.writeTimeout := by
  unfold make at hmake
  split at hmake
  · cases hmake
  · omega

theorem deadlineInv_make
    (hmake : make fd config maxHeaderBytes maxBodyBytes now later = .ok c)
    (hlater : now ≤ later) :
    DeadlineInv config c (Timed.start c now later).timeline later := by
  unfold make at hmake
  split at hmake
  · cases hmake
  · cases hmake
    exact
      { config_eq := rfl
        request := by
          intro start hstart
          cases hstart
          exact ⟨hlater, rfl⟩
        phase := by simp [Timed.start]
        between := by simp
        idle := by simp
        begun := by
          intro _ _
          refine Or.inl ?_
          dsimp only
          split_ifs <;> rfl
        fed := by
          intro hstate
          dsimp only at hstate
          split_ifs at hstate
        writing := by
          intro hstate
          dsimp only at hstate
          split_ifs at hstate
        answered := by
          intro hstate
          dsimp only at hstate
          split_ifs at hstate
        closeReason := by simp }

theorem timedStep_does
    (h : TimedStep handler order s word s') :
    ∃ env, Does handler order env s.connection (s'.connection, word) ∧
      s.clock ≤ env.now ∧ env.now ≤ env.later ∧
      s'.timeline = s.timeline.next s.connection env word ∧ s'.clock = env.later := by
  obtain ⟨hopen, env, _, hclock, hlater, hround⟩ := h
  unfold round at hround
  cases hround
  exact ⟨env, does_step _ handler order env hopen, hclock, hlater, rfl, rfl⟩

theorem deadlineInv_of_run
    (hmake : make fd config maxHeaderBytes maxBodyBytes now later = .ok c)
    (hlater : now ≤ later)
    (hrun : Run (TimedStep handler order) (Timed.start c now later) trace s) :
    DeadlineInv config s.connection s.timeline s.clock := by
  refine Run.invariant (fun _ s => DeadlineInv config s.connection s.timeline s.clock)
    (deadlineInv_make hmake hlater) ?_ hrun
  intro _ s word s' hinv hstep
  obtain ⟨env, hdoes, hnow, hlater', htimeline, hclock⟩ := timedStep_does hstep
  rw [htimeline, hclock]
  exact deadlineInv_step hinv hdoes hnow hlater'

/-- While a connection reads, the phase tells whether a request has begun. -/
theorem DeadlineInv.keepAlive_iff
    (h : DeadlineInv config c t clock)
    (hstate : c.state = .reading) :
    c.readPhase = .keepAlive ↔ 1 ≤ c.result.requestsServed ∧ c.parser.bufferedBytes = 0 := by
  constructor
  · intro hphase
    exact ⟨(h.between hphase).1, h.idle hstate hphase⟩
  · rintro ⟨hserved, hempty⟩
    cases hphase : c.readPhase with
    | keepAlive => rfl
    | request =>
        rcases h.begun hstate hphase with hnone | hpos
        · omega
        · omega

theorem DeadlineInv.readDeadline_le
    (h : DeadlineInv config c t clock)
    (hopen : c.state ≠ .closed) :
    c.readDeadline ≤ clock + milliseconds c.phaseTimeout := by
  unfold phaseTimeout
  rw [h.config_eq]
  cases hphase : c.readPhase with
  | request =>
      obtain ⟨start, hstart⟩ := h.exists_start hopen hphase
      obtain ⟨hle, hdeadline⟩ := h.request start hstart
      dsimp only
      omega
  | keepAlive =>
      obtain ⟨_, completed, _, hle, hdeadline⟩ := h.between hphase
      dsimp only
      omega

/-- A call that waits has been armed with what remains of its deadline. -/
theorem DeadlineInv.armed
    (h : DeadlineInv config c t clock)
    (hread : 0 < config.timeouts.readTimeout)
    (hkeep : 0 < config.timeouts.keepAliveTimeout)
    (hwrite : 0 < config.timeouts.writeTimeout)
    (hdoes : Does handler order env c (c', word))
    (hclock : clock ≤ env.now) :
    (∀ result, .read result ∈ word → ∃ value rest,
        word = .setsockopt .receiveTimeout value none :: .read result :: rest ∧
          ArmedFor value clock c.readDeadline c.phaseTimeout) ∧
      ∀ offered result, .send offered result ∈ word → ∃ value rest,
        word = .setsockopt .sendTimeout value none :: .send offered result :: rest ∧
          ArmedFor value clock c.writeDeadline config.timeouts.writeTimeout := by
  refine ⟨?_, ?_⟩
  · intro result hmem
    have hstate : c.state = .reading := by
      cases callOf_of_waits hdoes hmem rfl with
      | read hstate => exact hstate
    rcases callArmed_of_does hdoes hmem rfl with ⟨_, harmed⟩ | ⟨hstate', _⟩
    · obtain ⟨rest, hword⟩ := harmed.behind
      have htimeout : 0 < c.phaseTimeout := by
        unfold phaseTimeout
        rw [h.config_eq]
        cases c.readPhase with
        | request => exact hread
        | keepAlive => exact hkeep
      have hdeadline := h.readDeadline_le (by simp [hstate])
      exact ⟨_, rest, hword, armedFor_timevalOf hclock harmed.intime htimeout (by omega)⟩
    · simp [hstate] at hstate'
  · intro offered result hmem
    have hstate : c.state = .writing := by
      cases callOf_of_waits hdoes hmem rfl with
      | send hstate => exact hstate
    rcases callArmed_of_does hdoes hmem rfl with ⟨hstate', _⟩ | ⟨_, harmed⟩
    · simp [hstate] at hstate'
    · obtain ⟨rest, hword⟩ := harmed.behind
      obtain ⟨_, queued, _, hle, hdeadline⟩ := h.writing hstate
      exact ⟨_, rest, hword, armedFor_timevalOf hclock harmed.intime hwrite (by omega)⟩

/--
The read deadline of a request is its start plus the read timeout until the
response has been sent; between requests it is the end of the last response plus
the keep-alive timeout, which is all that a connection closed for silence has
waited for; the write deadline is the time of queueing plus the write timeout; and
no `read` or `send` is made without a positive timeout that ends with its deadline.
-/
theorem deadlines_absolute
    (hmake : make fd config maxHeaderBytes maxBodyBytes now later = .ok c)
    (hlater : now ≤ later)
    (hrun : Run (TimedStep handler order) (Timed.start c now later) trace s) :
    (∀ start, s.timeline.requestStart = some start →
        s.connection.readDeadline = start + milliseconds config.timeouts.readTimeout) ∧
      (s.connection.state = .writing → s.timeline.requestStart ≠ none) ∧
      (s.connection.state = .reading →
        (s.connection.readPhase = .keepAlive ↔
          1 ≤ s.connection.result.requestsServed ∧ s.connection.parser.bufferedBytes = 0) ∧
        (s.connection.readPhase = .keepAlive ↔ s.timeline.requestStart = none) ∧
        (s.connection.readPhase = .keepAlive → ∃ completed,
          s.timeline.completed = some completed ∧ s.connection.readDeadline =
            completed + milliseconds config.timeouts.keepAliveTimeout)) ∧
      (s.connection.state = .writing → ∃ queued, s.timeline.queued = some queued ∧
        s.connection.writeDeadline = queued + milliseconds config.timeouts.writeTimeout) ∧
      ∀ word s', TimedStep handler order s word s' →
        (∀ response wire keepAlive, .queue response wire keepAlive ∈ word →
          response.statusCode = 408 →
            s.connection.state = .reading ∧ s.connection.readPhase = .request) ∧
        (s'.connection.state = .closed → s'.connection.result.reason = .keepAliveTimeout →
          s.connection.state = .reading ∧ s.connection.readPhase = .keepAlive) ∧
        (∀ result, .read result ∈ word → ∃ value rest,
          word = .setsockopt .receiveTimeout value none :: .read result :: rest ∧
            ArmedFor value s.clock s.connection.readDeadline s.connection.phaseTimeout) ∧
        ∀ offered result, .send offered result ∈ word → ∃ value rest,
          word = .setsockopt .sendTimeout value none :: .send offered result :: rest ∧
            ArmedFor value s.clock s.connection.writeDeadline config.timeouts.writeTimeout := by
  have hinv := deadlineInv_of_run hmake hlater hrun
  obtain ⟨hread, hkeep, hwrite⟩ := timeouts_pos hmake
  refine ⟨fun start hstart => (hinv.request start hstart).2, ?_, ?_, ?_, ?_⟩
  · intro hstate hnone
    have hphase := (hinv.phase (by simp [hstate])).2 hnone
    rw [(hinv.writing hstate).1] at hphase
    cases hphase
  · intro hstate
    refine ⟨hinv.keepAlive_iff hstate, hinv.phase (by simp [hstate]), ?_⟩
    intro hphase
    obtain ⟨_, completed, hcompleted, _, hdeadline⟩ := hinv.between hphase
    exact ⟨completed, hcompleted, hdeadline⟩
  · intro hstate
    obtain ⟨_, queued, hqueued, _, hdeadline⟩ := hinv.writing hstate
    exact ⟨queued, hqueued, hdeadline⟩
  · intro word s' hstep
    obtain ⟨env, hdoes, hclock, _, _, _⟩ := timedStep_does hstep
    refine ⟨?_, keepAlive_of_closed hdoes hinv.closeReason,
      hinv.armed hread hkeep hwrite hdoes hclock⟩
    intro response wire keepAlive hmem hstatus
    exact timeout_of_queue_mem hdoes hmem hstatus

/-- A sample environment whose clock moves. -/
def tickingEnvs (n : Nat) : Env :=
  { sampleEnvs n with
    now := 2 * n + 1
    later := 2 * n + 2 }

/-- The sample connection after some rounds under a moving clock. -/
def tickingRounds : Nat → Timed × List Event
  | 0 => (Timed.start sampleConnection 0 0, [])
  | n + 1 =>
      let before := tickingRounds n
      let next := round before.1 bareHandler .insertion (tickingEnvs n)
      (next.1, before.2 ++ next.2)

theorem tickingRounds_run :
    Run (TimedStep bareHandler .insertion) (Timed.start sampleConnection 0 0)
      (tickingRounds 3).2 (tickingRounds 3).1 := by
  have hstep : ∀ k < 3, TimedStep bareHandler .insertion (tickingRounds k).1
      (round (tickingRounds k).1 bareHandler .insertion (tickingEnvs k)).2
      (tickingRounds (k + 1)).1 := by
    intro k hk
    refine ⟨?_, tickingEnvs k, ?_, ?_, ?_, rfl⟩
    · interval_cases k <;> decide +kernel
    · intro hstate n hsend
      have hn : n = 10 := (SendResult.sent.inj hsend).symm
      subst hn
      interval_cases k
      · exact absurd hstate (by decide +kernel)
      · exact absurd hstate (by decide +kernel)
      · decide +kernel
    · interval_cases k <;> decide +kernel
    · simp [tickingEnvs]
  exact ((Run.refl.tail (hstep 0 (by decide))).tail (hstep 1 (by decide))).tail
    (hstep 2 (by decide))

/-- The response to the sample request was queued at time 4 and is being sent. -/
theorem deadlines_absolute_ticking :
    (tickingRounds 3).1.connection.state = .writing ∧
      ∃ queued, (tickingRounds 3).1.timeline.queued = some queued ∧
        (tickingRounds 3).1.connection.writeDeadline = queued + milliseconds 10000 := by
  have hstate : (tickingRounds 3).1.connection.state = .writing := by decide +kernel
  exact ⟨hstate, (deadlines_absolute sampleConnection_make (le_refl 0)
    tickingRounds_run).2.2.2.1 hstate⟩

end Results

end Connection

end HttpServer
