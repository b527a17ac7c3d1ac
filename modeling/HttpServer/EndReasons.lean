import HttpServer.ConnectionRuns

/-!
# Why a connection ended

The reason for which a connection is closed is chosen when its last response is
queued, reported when that response has been sent, and replaced by any failure in
between.  Here it is compared with what happened, which is read off the history of
the run: what each round was given and what it did.

* `Round.Meets`: a round met something that ends a connection at once;
* `Round.Concludes`: a round queued a response that ends the connection behind it;
* `Happened`: for each reason, what it tells;
* `Told`: on an open connection nothing of it has happened, and the response that is
  being sent is the only one that can end it;
* `end_reason_tells`: on a closed connection exactly what the reason tells happened.
-/

namespace HttpServer

open Transition

section Histories

/-- One round of a run: the connection before it, what it was given and what it did. -/
structure Round where
  before : Connection
  env : Env
  events : List Event

/-- The events of some rounds. -/
def eventsOf (history : List Round) : List Event :=
  history.flatMap Round.events

@[simp] theorem eventsOf_nil : eventsOf [] = [] := rfl

@[simp] theorem eventsOf_append (front back : List Round) :
    eventsOf (front ++ back) = eventsOf front ++ eventsOf back := by
  simp [eventsOf]

@[simp] theorem eventsOf_cons (r : Round) (history : List Round) :
    eventsOf (r :: history) = r.events ++ eventsOf history := by
  simp [eventsOf]

def Event.emitted : Event → Option HttpRequest
  | .next result => result.request
  | _ => none

/-- The requests that the parser emitted. -/
def emittedRequests (trace : List Event) : List HttpRequest :=
  trace.filterMap Event.emitted

@[simp] theorem emittedRequests_append (front back : List Event) :
    emittedRequests (front ++ back) = emittedRequests front ++ emittedRequests back := by
  simp [emittedRequests]

/-- `EAGAIN` from a call that waits, or from setting its timeout. -/
def Event.timesOut (option : SocketOption) : Event → Bool
  | .setsockopt option' _ (some errno) => option' == option && errno.isTimeout
  | .read (.error errno) => option == .receiveTimeout && errno.isTimeout
  | .send _ (.error errno) => option == .sendTimeout && errno.isTimeout
  | _ => false

/-- Any other failure of such a call that is not retried. -/
def Event.fails (option : SocketOption) : Event → Bool
  | .setsockopt option' _ (some errno) => option' == option && !errno.isTimeout
  | .read (.error errno) => option == .receiveTimeout && errno != .eintr && !errno.isTimeout
  | .send _ (.error errno) => option == .sendTimeout && errno != .eintr && !errno.isTimeout
  | .send _ (.sent n) => option == .sendTimeout && n == 0
  | _ => false

/-- The read deadline passed: before the timeout was set, or in the call that waited. -/
def Round.readExpired (r : Round) : Prop :=
  r.before.state = .reading ∧
    (r.before.readDeadline ≤ r.env.now ∨ ∃ e ∈ r.events, e.timesOut .receiveTimeout = true)

/-- The write deadline passed. -/
def Round.writeExpired (r : Round) : Prop :=
  r.before.state = .writing ∧
    (r.before.writeDeadline ≤ r.env.now ∨ ∃ e ∈ r.events, e.timesOut .sendTimeout = true)

/-- The round met something that ends a connection at once. -/
def Round.Meets (r : Round) : ConnectionEndReason → Prop
  | .keepAliveTimeout => r.before.readPhase = .keepAlive ∧ r.readExpired
  | .peerClosed => Event.read .eof ∈ r.events
  | .readError => ∃ e ∈ r.events, e.fails .receiveTimeout = true
  | .writeTimeout => r.writeExpired
  | .writeError => ∃ e ∈ r.events, e.fails .sendTimeout = true
  | _ => False

/-- The five reasons that a round can meet, with what each of them needs. -/
theorem Round.meets_iff (r : Round) (reason : ConnectionEndReason) :
    r.Meets reason ↔
      (r.before.readPhase = .keepAlive ∧ r.readExpired) ∧ .keepAliveTimeout = reason ∨
      Event.read .eof ∈ r.events ∧ .peerClosed = reason ∨
      (∃ e ∈ r.events, e.fails .receiveTimeout = true) ∧ .readError = reason ∨
      r.writeExpired ∧ .writeTimeout = reason ∨
      (∃ e ∈ r.events, e.fails .sendTimeout = true) ∧ .writeError = reason := by
  cases reason <;> simp [Round.Meets]

/-- An event that no round meets. -/
def Event.Quiet (e : Event) : Prop :=
  e ≠ .read .eof ∧ ∀ option, e.timesOut option = false ∧ e.fails option = false

/-- The round, behind others, queued a response that ends the connection. -/
def Round.Concludes (maxRequests : Nat) (front : List Round) (r : Round) :
    ConnectionEndReason → Prop
  | .requestLimit =>
      ∃ request response wire keepAlive,
        r.events = [.next (requestReady request), .queue response wire keepAlive] ∧
        (emittedRequests (eventsOf front)).length + 1 = maxRequests
  | .connectionClose =>
      ∃ request response wire keepAlive,
        r.events = [.next (requestReady request), .queue response wire keepAlive] ∧
        (emittedRequests (eventsOf front)).length + 1 < maxRequests ∧
        shouldKeepAlive request = false
  | .parseError =>
      ∃ failure response wire keepAlive,
        r.events = [.next (parseError failure), .queue response wire keepAlive] ∧
        response.statusCode ∈ [400, 501]
  | .readTimeout =>
      ∃ response wire keepAlive,
        Event.queue response wire keepAlive ∈ r.events ∧ response.statusCode = 408
  | _ => False

/-- What was queued up to a round has been sent in full. -/
def SentThrough (history front : List Round) (r : Round) : Prop :=
  (queuedWires (eventsOf (front ++ [r]))).flatten <+: sentBytes (eventsOf history)

/-- A response that ends the connection for this reason has been sent in full. -/
def Concluded (maxRequests : Nat) (history : List Round) (reason : ConnectionEndReason) : Prop :=
  ∃ front r back, history = front ++ r :: back ∧ r.Concludes maxRequests front reason ∧
    SentThrough history front r

/-- Some response that was queued has not been sent in full. -/
def Unsent (history : List Round) : Prop :=
  ∃ front r back, history = front ++ r :: back ∧ queuedWires r.events ≠ [] ∧
    ¬ SentThrough history front r

/-- What each reason tells about a run. -/
def Happened (maxRequests : Nat) (history : List Round) (reason : ConnectionEndReason) : Prop :=
  match reason with
  | .requestLimit | .connectionClose | .parseError | .readTimeout =>
      Concluded maxRequests history reason
  | .keepAliveTimeout | .peerClosed | .readError => ∃ r ∈ history, r.Meets reason
  | .writeTimeout | .writeError => Unsent history ∧ ∃ r ∈ history, r.Meets reason

end Histories

namespace Connection

variable {fs : FileSystem}

/-- The rounds of an open connection, with all that they are given. -/
def RoundStep (handler : StaticFileHandler fs) (order : IterationOrder)
    (c : Connection) (word : List Round) (c' : Connection) : Prop :=
  c.state ≠ .closed ∧ ∃ env, c.Permitted env ∧
    ∃ events, c.step handler order env = (c', events) ∧ word = [⟨c, env, events⟩]

/-- The response that is being sent ends the connection for this reason. -/
def Pending (c : Connection) (reason : ConnectionEndReason) : Prop :=
  c.state = .writing ∧ c.closeAfterWrite = true ∧ c.closeReasonAfterWrite = reason

variable {handler : StaticFileHandler fs} {order : IterationOrder} {env : Env} {c c' : Connection}
  {word : List Event}

section Endings

theorem armed_of_none
    {option : SocketOption}
    {deadline : Int}
    {armed : List Event}
    (h : armSocketTimeout option deadline env = (none, armed)) :
    env.now < deadline ∧ ∃ value, armed = [.setsockopt option value none] := by
  unfold armSocketTimeout at h
  split at h
  next => cases h
  next hearly =>
    obtain ⟨hset, rfl⟩ := Prod.mk.inj h
    exact ⟨by omega, _, by rw [hset]⟩

theorem armed_of_some
    {option : SocketOption}
    {deadline : Int}
    {errno : Errno}
    {armed : List Event}
    (h : armSocketTimeout option deadline env = (some errno, armed)) :
    deadline ≤ env.now ∧ errno = .eagain ∧ armed = [] ∨
      env.now < deadline ∧ ∃ value, armed = [.setsockopt option value (some errno)] := by
  unfold armSocketTimeout at h
  split at h
  next hlate =>
    cases h
    exact Or.inl ⟨by omega, rfl, rfl⟩
  next hearly =>
    obtain ⟨hset, rfl⟩ := Prod.mk.inj h
    exact Or.inr ⟨by omega, _, by rw [hset]⟩

theorem meets_of_quiet
    {e : Event}
    (hquiet : e.Quiet)
    (front back : List Event)
    (reason : ConnectionEndReason) :
    (⟨c, env, front ++ e :: back⟩ : Round).Meets reason ↔
      (⟨c, env, front ++ back⟩ : Round).Meets reason := by
  obtain ⟨hread, hcalls⟩ := hquiet
  have hdrop : ∀ p : Event → Bool, p e = false →
      ((∃ e' ∈ front ++ e :: back, p e' = true) ↔ ∃ e' ∈ front ++ back, p e' = true) := by
    intro p hp
    simp only [List.mem_append, List.mem_cons, or_and_right, exists_or, exists_eq_left, hp,
      Bool.false_eq_true, false_or]
  have heof : Event.read .eof ∈ front ++ e :: back ↔ Event.read .eof ∈ front ++ back := by
    simp [hread.symm]
  simp only [Round.meets_iff, Round.readExpired, Round.writeExpired, heof,
    hdrop _ (hcalls _).1, hdrop _ (hcalls _).2]

/-- A round of one call meets what the call returns, or a deadline that had passed before. -/
theorem meets_call
    (e : Event)
    (reason : ConnectionEndReason) :
    (⟨c, env, [e]⟩ : Round).Meets reason ↔
      (c.readPhase = .keepAlive ∧ c.state = .reading ∧
        (c.readDeadline ≤ env.now ∨ e.timesOut .receiveTimeout = true)) ∧
          .keepAliveTimeout = reason ∨
      .read .eof = e ∧ .peerClosed = reason ∨
      e.fails .receiveTimeout = true ∧ .readError = reason ∨
      (c.state = .writing ∧
        (c.writeDeadline ≤ env.now ∨ e.timesOut .sendTimeout = true)) ∧ .writeTimeout = reason ∨
      e.fails .sendTimeout = true ∧ .writeError = reason := by
  simp only [Round.meets_iff, Round.readExpired, Round.writeExpired, List.mem_singleton,
    exists_eq_left]

/-- Setting a timeout meets nothing, and the call behind it is what the round meets. -/
theorem meets_armed
    {option : SocketOption}
    {deadline : Int}
    {armed : List Event}
    (harm : armSocketTimeout option deadline env = (none, armed))
    (e : Event)
    (reason : ConnectionEndReason) :
    (⟨c, env, armed ++ [e]⟩ : Round).Meets reason ↔ (⟨c, env, [e]⟩ : Round).Meets reason := by
  obtain ⟨_, value, rfl⟩ := armed_of_none harm
  have hquiet : (Event.setsockopt option value none).Quiet := ⟨nofun, fun _ => ⟨rfl, rfl⟩⟩
  exact meets_of_quiet hquiet [] [e] reason

/-- Neither does queueing a response. -/
theorem meets_append_queue
    (events : List Event)
    (response : HttpResponse)
    (wire : Bytes)
    (keepAlive : Bool)
    (reason : ConnectionEndReason) :
    (⟨c, env, events ++ [.queue response wire keepAlive]⟩ : Round).Meets reason ↔
      (⟨c, env, events⟩ : Round).Meets reason := by
  have hquiet : (Event.queue response wire keepAlive).Quiet := ⟨nofun, fun _ => ⟨rfl, rfl⟩⟩
  rw [meets_of_quiet hquiet, List.append_nil]

/-- Neither does parsing. -/
theorem not_meets_next
    (hstate : c.state = .parsing)
    (result : ParseResult)
    (reason : ConnectionEndReason) :
    ¬ (⟨c, env, [.next result]⟩ : Round).Meets reason := by
  rw [meets_call]
  dsimp only [Event.timesOut, Event.fails]
  simp [hstate]

/-- A round that comes to `read` meets what `read` returns. -/
theorem meets_read
    {armed : List Event}
    (hstate : c.state = .reading)
    (harm : armSocketTimeout .receiveTimeout c.readDeadline env = (none, armed))
    (reason : ConnectionEndReason) :
    (⟨c, env, armed ++ [.read env.read]⟩ : Round).Meets reason ↔
      env.read = .eof ∧ .peerClosed = reason ∨
      ∃ errno, env.read = .error errno ∧
        (errno.isTimeout = true ∧ c.readPhase = .keepAlive ∧ .keepAliveTimeout = reason ∨
          errno.isTimeout = false ∧ errno ≠ .eintr ∧ .readError = reason) := by
  have hearly := (armed_of_none harm).1
  rw [meets_armed harm, meets_call]
  cases env.read <;> dsimp only [Event.timesOut, Event.fails] <;>
    simp [hstate, hearly.not_ge, and_assoc, and_comm]

/-- A round that comes to `send` meets what `send` returns. -/
theorem meets_send
    {armed : List Event}
    (hstate : c.state = .writing)
    (harm : armSocketTimeout .sendTimeout c.writeDeadline env = (none, armed))
    (reason : ConnectionEndReason) :
    (⟨c, env, armed ++ [.send c.unsent env.send]⟩ : Round).Meets reason ↔
      env.send = .sent 0 ∧ .writeError = reason ∨
      ∃ errno, env.send = .error errno ∧
        (errno.isTimeout = true ∧ .writeTimeout = reason ∨
          errno.isTimeout = false ∧ errno ≠ .eintr ∧ .writeError = reason) := by
  have hearly := (armed_of_none harm).1
  rw [meets_armed harm, meets_call]
  cases env.send <;> dsimp only [Event.timesOut, Event.fails] <;>
    simp [hstate, hearly.not_ge, and_assoc, and_comm]

/-- A round that fails to set its timeout for reading. -/
theorem meets_readArm
    {errno : Errno}
    {armed : List Event}
    (hstate : c.state = .reading)
    (harm : armSocketTimeout .receiveTimeout c.readDeadline env = (some errno, armed))
    (reason : ConnectionEndReason) :
    (⟨c, env, armed⟩ : Round).Meets reason ↔
      errno.isTimeout = true ∧ c.readPhase = .keepAlive ∧ .keepAliveTimeout = reason ∨
        errno.isTimeout = false ∧ .readError = reason := by
  rcases armed_of_some harm with ⟨hlate, rfl, rfl⟩ | ⟨hearly, value, rfl⟩
  · simp [Round.meets_iff, Round.readExpired, Round.writeExpired, Errno.isTimeout, hstate, hlate]
  · rw [meets_call]
    dsimp only [Event.timesOut, Event.fails]
    simp [hstate, hearly.not_ge, and_assoc, and_comm]

/-- A round that fails to set its timeout for writing. -/
theorem meets_sendArm
    {errno : Errno}
    {armed : List Event}
    (hstate : c.state = .writing)
    (harm : armSocketTimeout .sendTimeout c.writeDeadline env = (some errno, armed))
    (reason : ConnectionEndReason) :
    (⟨c, env, armed⟩ : Round).Meets reason ↔
      errno.isTimeout = true ∧ .writeTimeout = reason ∨
        errno.isTimeout = false ∧ .writeError = reason := by
  rcases armed_of_some harm with ⟨hlate, rfl, rfl⟩ | ⟨hearly, value, rfl⟩
  · simp [Round.meets_iff, Round.readExpired, Round.writeExpired, Errno.isTimeout, hstate, hlate]
  · rw [meets_call]
    dsimp only [Event.timesOut, Event.fails]
    simp [hstate, hearly.not_ge]

/-- The deadline passes in a reading round: this ends a connection between requests only. -/
theorem meets_of_readExpired
    (hstate : c.state = .reading)
    (h : ReadExpired env c word)
    (reason : ConnectionEndReason) :
    (⟨c, env, word⟩ : Round).Meets reason ↔
      c.readPhase = .keepAlive ∧ .keepAliveTimeout = reason := by
  cases h with
  | armed harm htimeout =>
      rw [meets_readArm hstate harm]
      simp [htimeout]
  | read harm hread htimeout =>
      rw [meets_read hstate harm]
      simp [hread, htimeout]

/-- A round that ends the connection at once has met what its reason tells, and nothing else. -/
theorem meets_of_ends
    {ended : ConnectionEndReason}
    (h : Ends env c ended word)
    (reason : ConnectionEndReason) :
    (⟨c, env, word⟩ : Round).Meets reason ↔ ended = reason := by
  cases h with
  | readArm hstate harm htimeout =>
      rw [meets_readArm hstate harm]
      simp [htimeout]
  | silent hstate hphase hexpired =>
      rw [meets_of_readExpired hstate hexpired]
      simp [hphase]
  | read hstate harm hread hintr htimeout =>
      rw [meets_read hstate harm]
      simp [hread, hintr, htimeout]
  | peer hstate harm hread =>
      rw [meets_read hstate harm]
      simp [hread]
  | @sendArm errno armed hstate harm =>
      rw [meets_sendArm hstate harm]
      cases errno.isTimeout <;> simp
  | @send errno armed hstate harm hsend hintr =>
      rw [meets_send hstate harm]
      cases htimeout : errno.isTimeout <;> simp [hsend, hintr, htimeout]
  | sendZero hstate harm hsend =>
      rw [meets_send hstate harm]
      simp [hsend]

/-- Every other round has met nothing. -/
theorem meets_of_does
    (h : Does handler order env c (c', word)) :
    (∃ reason, Ends env c reason word ∧ c' = c.finish reason) ∨
      ∀ reason, ¬ (⟨c, env, word⟩ : Round).Meets reason := by
  cases h with
  | ended hends => exact Or.inl ⟨_, hends, rfl⟩
  | readInterrupted hstate harm hread =>
      refine Or.inr fun reason => ?_
      rw [meets_read hstate harm]
      simp [hread, Errno.isTimeout]
  | received hstate harm hread =>
      refine Or.inr fun reason => ?_
      rw [meets_read hstate harm]
      simp [hread]
  | timedOut hstate hphase hexpired =>
      refine Or.inr fun reason => ?_
      rw [queueResponse, meets_append_queue, meets_of_readExpired hstate hexpired]
      simp [hphase]
  | needsMore hstate hnext => exact Or.inr (not_meets_next hstate _)
  | @refused failure queued hstate hnext hqueued =>
      subst hqueued
      refine Or.inr fun reason => ?_
      rw [queueResponse, ← List.singleton_append, meets_append_queue]
      exact not_meets_next hstate _ reason
  | @answered request rest queued hstate hnext hqueued =>
      subst hqueued
      refine Or.inr fun reason => ?_
      rw [answer_eq, queueResponse, ← List.singleton_append, meets_append_queue]
      exact not_meets_next hstate _ reason
  | sendInterrupted hstate harm hsend =>
      refine Or.inr fun reason => ?_
      rw [meets_send hstate harm]
      simp [hsend, Errno.isTimeout]
  | sentPart hstate harm hsend hpos hpart =>
      refine Or.inr fun reason => ?_
      rw [meets_send hstate harm]
      simp [hsend, Nat.ne_of_gt hpos]
  | sentAll hstate harm hsend hpos hall =>
      refine Or.inr fun reason => ?_
      rw [meets_send hstate harm]
      simp [hsend, Nat.ne_of_gt hpos]

end Endings

section Conclusions

variable {maxRequests : Nat} {front : List Round}

theorem queuedWires_of_callOf
    (h : ∀ e ∈ word, CallOf c env e) :
    queuedWires word = [] := by
  refine List.filterMap_eq_nil_iff.2 fun e he => ?_
  cases h e he <;> rfl

theorem emittedRequests_of_callOf
    (hstate : c.state ≠ .parsing)
    (h : ∀ e ∈ word, CallOf c env e) :
    emittedRequests word = [] := by
  refine List.filterMap_eq_nil_iff.2 fun e he => ?_
  cases h e he with
  | next hparsing => exact absurd hparsing hstate
  | _ => rfl

/-- A round that queues nothing concludes nothing. -/
theorem not_concludes_of_silent
    {r : Round}
    (h : queuedWires r.events = [])
    (reason : ConnectionEndReason) :
    ¬ r.Concludes maxRequests front reason := by
  intro hconcludes
  have hqueue : ∃ response wire keepAlive, Event.queue response wire keepAlive ∈ r.events := by
    cases reason with
    | requestLimit =>
        obtain ⟨_, response, wire, keepAlive, hevents, _⟩ := hconcludes
        exact ⟨response, wire, keepAlive, by simp [hevents]⟩
    | connectionClose =>
        obtain ⟨_, response, wire, keepAlive, hevents, _⟩ := hconcludes
        exact ⟨response, wire, keepAlive, by simp [hevents]⟩
    | parseError =>
        obtain ⟨_, response, wire, keepAlive, hevents, _⟩ := hconcludes
        exact ⟨response, wire, keepAlive, by simp [hevents]⟩
    | readTimeout =>
        obtain ⟨response, wire, keepAlive, hmem, _⟩ := hconcludes
        exact ⟨response, wire, keepAlive, hmem⟩
    | _ => exact hconcludes.elim
  obtain ⟨response, wire, keepAlive, hmem⟩ := hqueue
  exact absurd (List.filterMap_eq_nil_iff.1 h _ hmem) (by simp [Event.queuedWire])

/-- What the parser returned in a round is what its response answers. -/
theorem concludes_next
    {result : ParseResult}
    {response : HttpResponse}
    {wire : Bytes}
    {keepAlive : Bool}
    (hstatus : response.statusCode ≠ 408)
    (reason : ConnectionEndReason) :
    (⟨c, env, [.next result, .queue response wire keepAlive]⟩ : Round).Concludes maxRequests front
        reason ↔
      (∃ request, result = requestReady request ∧
        ((emittedRequests (eventsOf front)).length + 1 = maxRequests ∧ .requestLimit = reason ∨
          (emittedRequests (eventsOf front)).length + 1 < maxRequests ∧
            shouldKeepAlive request = false ∧ .connectionClose = reason)) ∨
      ∃ failure, result = parseError failure ∧ response.statusCode ∈ [400, 501] ∧
        .parseError = reason := by
  cases reason <;> simp [Round.Concludes, hstatus, and_assoc]

/-- A response to silence within a request. -/
theorem concludes_timedOut
    (hstate : c.state = .reading)
    (h : ReadExpired env c word)
    {response : HttpResponse}
    {wire : Bytes}
    {keepAlive : Bool}
    (hstatus : response.statusCode = 408)
    (reason : ConnectionEndReason) :
    (⟨c, env, word ++ [.queue response wire keepAlive]⟩ : Round).Concludes maxRequests front
        reason ↔ .readTimeout = reason := by
  -- a reading round does not call the parser
  have hnext : ∀ result response' wire' keepAlive', word ++ [.queue response wire keepAlive] ≠
      [.next result, .queue response' wire' keepAlive'] := by
    intro result response' wire' keepAlive' heq
    have hparts : word ++ [_] = [.next result] ++ [_] := heq
    have hword := (List.append_inj' hparts rfl).1
    have hcall := callOf_of_readExpired hstate h (.next result) (by simp [hword])
    cases hcall with
    | next hparsing => simp [hstate] at hparsing
  cases reason with
  | readTimeout => exact iff_of_true ⟨response, wire, keepAlive, by simp, hstatus⟩ rfl
  | requestLimit | connectionClose | parseError =>
      refine iff_of_false ?_ nofun
      rintro ⟨_, response', wire', keepAlive', hevents, _⟩
      exact hnext _ response' wire' keepAlive' hevents
  | _ => exact iff_of_false id nofun

theorem pending_queueResponse
    (c : Connection)
    (now : Int)
    (response : HttpResponse)
    (keepAlive : Bool)
    (closeReason reason : ConnectionEndReason) :
    (c.queueResponse order now response keepAlive closeReason).1.Pending reason ↔
      keepAlive = false ∧ closeReason = reason := by
  simp [Pending, queueResponse]

/-- A round that queues a response leaves it pending, with the reason that it concludes. -/
theorem concludes_of_does
    (h : Does handler order env c (c', word))
    (hqueued : queuedWires word ≠ [])
    (hserved : c.result.requestsServed = (emittedRequests (eventsOf front)).length)
    (hlt : c.result.requestsServed < c.config.limits.maxRequests)
    (reason : ConnectionEndReason) :
    (⟨c, env, word⟩ : Round).Concludes c.config.limits.maxRequests front reason ↔
      c'.Pending reason := by
  have hcalls : ¬ ∀ e ∈ word, CallOf c env e := fun h => hqueued (queuedWires_of_callOf h)
  cases h with
  | timedOut hstate _ hexpired =>
      rw [pending_queueResponse, queueResponse, concludes_timedOut hstate hexpired rfl]
      simp
  | @refused failure queued hstate _ hqueue =>
      subst hqueue
      have hstatus : (parseErrorResponse failure.kind).statusCode ∈ [400, 501] := by
        cases failure.kind <;> decide
      rw [pending_queueResponse, queueResponse, concludes_next]
      · constructor
        · rintro (⟨_, hready, _⟩ | ⟨_, _, _, hreason⟩)
          · cases congrArg ParseResult.status hready
          · exact ⟨rfl, hreason⟩
        · rintro ⟨_, hreason⟩
          exact Or.inr ⟨failure, rfl, hstatus, hreason⟩
      · intro h408
        have h408' : (parseErrorResponse failure.kind).statusCode = 408 := h408
        simp [h408'] at hstatus
  | @answered request rest queued hstate _ hqueue =>
      obtain ⟨_, _, hnotice⟩ := c.noticeBuffered_eq env.now
      rw [hnotice] at hqueue
      subst hqueue
      have hmem := routeRequest_statusCode_mem request handler
      rw [answer_eq, pending_queueResponse, queueResponse, concludes_next, ← hserved]
      · constructor
        · rintro (⟨request', hready, hends⟩ | ⟨_, hfailure, _⟩)
          · obtain rfl : request = request' := by simpa [requestReady] using hready
            rcases hends with ⟨hlimit, rfl⟩ | ⟨hbelow, hclose, rfl⟩
            · simp [hlimit]
            · simp [hclose, hbelow]
          · cases congrArg ParseResult.status hfailure
        · rintro ⟨hclose, rfl⟩
          refine Or.inl ⟨request, rfl, ?_⟩
          by_cases hlimit : c.config.limits.maxRequests ≤ c.result.requestsServed + 1
          · exact Or.inl ⟨by omega, by simp [hlimit]⟩
          · have hbelow : c.result.requestsServed + 1 < c.config.limits.maxRequests := by omega
            exact Or.inr ⟨hbelow, by simpa [hbelow] using hclose, by simp [hlimit]⟩
      · intro h408
        have h408' : (routeRequest request handler).statusCode = 408 := h408
        simp [h408'] at hmem
  | needsMore _ _ => exact absurd rfl hqueued
  | ended hends => exact absurd (callOf_of_ends hends) hcalls
  | readInterrupted hstate harm _ | received hstate harm _ =>
      exact absurd (callOf_concat (callOf_armed harm) (.read hstate)) hcalls
  | sendInterrupted hstate harm _ | sentPart hstate harm _ _ _ | sentAll hstate harm _ _ _ =>
      exact absurd (callOf_concat (callOf_armed harm) (.send hstate)) hcalls

/-- A round that queues nothing and leaves the connection open changes nothing pending. -/
theorem pending_of_does
    (h : Does handler order env c (c', word))
    (hqueued : queuedWires word = [])
    (hopen : c'.state ≠ .closed)
    (reason : ConnectionEndReason) :
    c'.Pending reason ↔ c.Pending reason := by
  cases h with
  | readInterrupted => rfl
  | @received chunk armed hstate _ _ =>
      obtain ⟨_, _, heq⟩ := c.receive_eq chunk.bytes env.later
      simp [Pending, heq, hstate]
  | timedOut => simp [queueResponse] at hqueued
  | needsMore hstate _ => simp [Pending, hstate]
  | refused _ _ hqueue =>
      subst hqueue
      simp [queueResponse, queuedWires, Event.queuedWire] at hqueued
  | answered _ _ hqueue =>
      subst hqueue
      simp [answer, queueResponse, queuedWires, Event.queuedWire] at hqueued
  | sendInterrupted => rfl
  | sentPart => rfl
  | sentAll =>
      unfold completeWrite at hopen ⊢
      dsimp only at hopen ⊢
      split at hopen
      next => exact absurd rfl hopen
      next hkeep =>
        have hflag : c.closeAfterWrite ≠ true := hkeep
        rw [if_neg hkeep]
        simp [Pending, hflag]
  | ended => exact absurd rfl hopen

/-- Only a round that parses emits a request. -/
theorem emittedRequests_of_does
    (h : Does handler order env c (c', word))
    (hstate : c.state ≠ .parsing) :
    emittedRequests word = [] := by
  rcases does_word h with hcalls | ⟨front, e, response, keepAlive, rfl, hcalls, hqueued⟩
  · exact emittedRequests_of_callOf hstate hcalls
  · rw [emittedRequests_append, emittedRequests_of_callOf hstate hcalls, hqueued.event]
    rfl

/-- The counter counts the requests that the parser emits. -/
theorem requestsServed_does
    (h : Does handler order env c (c', word)) :
    c'.result.requestsServed = c.result.requestsServed + (emittedRequests word).length := by
  have hnone := emittedRequests_of_does h
  obtain ⟨_, _, hnotice⟩ := c.noticeBuffered_eq env.now
  cases h with
  | readInterrupted hstate => rw [hnone (by simp [hstate])]; rfl
  | @received chunk armed hstate _ _ =>
      obtain ⟨_, _, heq⟩ := c.receive_eq chunk.bytes env.later
      rw [hnone (by simp [hstate]), heq]
      rfl
  | timedOut hstate => rw [hnone (by simp [hstate])]; rfl
  | needsMore => rw [hnotice]; rfl
  | refused _ _ hqueue => rw [hqueue, hnotice]; rfl
  | answered _ _ hqueue => rw [hqueue, hnotice]; rfl
  | sendInterrupted hstate => rw [hnone (by simp [hstate])]; rfl
  | sentPart hstate => rw [hnone (by simp [hstate])]; rfl
  | sentAll hstate =>
      rw [hnone (by simp [hstate])]
      unfold completeWrite
      dsimp only
      split <;> rfl
  | ended hends =>
      have hstate : c.state ≠ .parsing := by
        cases hends <;> simp [*]
      rw [hnone hstate]
      rfl

end Conclusions

section Wires

/-- Of the responses queued, all but a pending one have been sent in full. -/
theorem flatten_prefix_iff
    {trace : List Event}
    {pending : Bytes}
    {offset : Nat}
    (h : WireState trace pending offset)
    (hoffset : pending = [] ∨ offset < pending.length)
    {front back : List Bytes}
    (hsplit : queuedWires trace = front ++ back) :
    front.flatten <+: sentBytes trace ↔ pending = [] ∨ back ≠ [] := by
  obtain ⟨earlier, hsent, hqueued⟩ := h
  rw [hsplit] at hqueued
  by_cases hpending : pending = []
  · refine iff_of_true ?_ (Or.inl hpending)
    rw [if_pos hpending, List.append_nil] at hqueued
    rw [hsent, ← hqueued, List.flatten_append, List.append_assoc]
    exact List.prefix_append _ _
  · rw [if_neg hpending] at hqueued
    cases back using List.reverseRecOn with
    | nil =>
        refine iff_of_false ?_ (by simp [hpending])
        intro hbegins
        rw [List.append_nil] at hqueued
        have hlength := hbegins.length_le
        rw [hsent, hqueued] at hlength
        simp only [List.flatten_append, List.flatten_singleton, List.length_append,
          List.length_take] at hlength
        have hlt := hoffset.resolve_left hpending
        omega
    | append_singleton back last =>
        refine iff_of_true ?_ (Or.inr (by simp))
        rw [← List.append_assoc] at hqueued
        rw [hsent, ← (List.append_inj' hqueued rfl).1, List.flatten_append, List.append_assoc]
        exact List.prefix_append _ _

theorem sentThrough_iff
    {history front back : List Round}
    {r : Round}
    {pending : Bytes}
    {offset : Nat}
    (h : WireState (eventsOf history) pending offset)
    (hoffset : pending = [] ∨ offset < pending.length)
    (hhistory : history = front ++ r :: back) :
    SentThrough history front r ↔ pending = [] ∨ queuedWires (eventsOf back) ≠ [] := by
  refine flatten_prefix_iff h hoffset ?_
  rw [hhistory, List.append_cons, eventsOf_append, queuedWires_append]

/-- If a response has been queued, there is a last one. -/
theorem exists_last_queued
    {history : List Round}
    (h : queuedWires (eventsOf history) ≠ []) :
    ∃ front r back, history = front ++ r :: back ∧ queuedWires r.events ≠ [] ∧
      queuedWires (eventsOf back) = [] := by
  induction history using List.reverseRecOn with
  | nil => exact absurd rfl h
  | append_singleton history last ih =>
      by_cases hlast : queuedWires last.events = []
      · have hfront : queuedWires (eventsOf history) ≠ [] := by
          simpa [hlast] using h
        obtain ⟨front, r, back, rfl, hr, hback⟩ := ih hfront
        exact ⟨front, r, back ++ [last], by simp, hr, by simp [hback, hlast]⟩
      · exact ⟨history, last, [], rfl, hlast, rfl⟩

end Wires

section Verdicts

/-- A split of a history at a round: it is the last one, or the last one is behind it. -/
theorem split_concat
    {history front back : List Round}
    {last r : Round}
    (h : history ++ [last] = front ++ r :: back) :
    (history = front ∧ last = r ∧ back = []) ∨
      ∃ back', back = back' ++ [last] ∧ history = front ++ r :: back' := by
  cases back using List.reverseRecOn with
  | nil =>
      obtain ⟨hfront, hlast⟩ := List.append_inj' h rfl
      exact Or.inl ⟨hfront, List.singleton_inj.1 hlast, rfl⟩
  | append_singleton back last' =>
      rw [← List.cons_append, ← List.append_assoc] at h
      obtain ⟨hfront, hlast⟩ := List.append_inj' h rfl
      obtain rfl := List.singleton_inj.1 hlast
      exact Or.inr ⟨back, rfl, hfront⟩

/-- Nothing has ended the connection, and only the response being sent can conclude it. -/
structure Undecided (maxRequests : Nat) (history : List Round) (c : Connection) : Prop where
  uneventful : ∀ r ∈ history, ∀ reason, ¬ r.Meets reason
  concludes : ∀ front r back, history = front ++ r :: back → ∀ reason,
    r.Concludes maxRequests front reason ↔
      queuedWires r.events ≠ [] ∧ queuedWires (eventsOf back) = [] ∧ c.Pending reason

/-- What a reason tells happened, and nothing that another one tells. -/
structure Verdict (maxRequests : Nat) (history : List Round) (ended : ConnectionEndReason) :
    Prop where
  happened : ∀ reason, Happened maxRequests history reason ↔ ended = reason
  unsent : Unsent history ↔ ended = .writeTimeout ∨ ended = .writeError

variable {maxRequests : Nat} {history : List Round}

/-- A round that leaves the connection open decides nothing. -/
theorem Undecided.concat
    (h : Undecided maxRequests history c)
    (hlimit : c.config.limits.maxRequests = maxRequests)
    (hserved : c.result.requestsServed = (emittedRequests (eventsOf history)).length)
    (hlt : c.state ≠ .writing → c.result.requestsServed < maxRequests)
    (hdoes : Does handler order env c (c', word))
    (hopen : c'.state ≠ .closed) :
    Undecided maxRequests (history ++ [⟨c, env, word⟩]) c' where
  uneventful := by
    have hnone := (meets_of_does hdoes).resolve_left (by
      rintro ⟨reason, _, rfl⟩
      exact hopen rfl)
    intro r hr
    rcases List.mem_append.1 hr with hr | hr
    · exact h.uneventful r hr
    · rw [List.mem_singleton.1 hr]
      exact hnone
  concludes := by
    intro front r back hsplit reason
    by_cases hqueued : queuedWires word = []
    · rcases split_concat hsplit with ⟨rfl, rfl, rfl⟩ | ⟨back', rfl, hhistory⟩
      · exact iff_of_false (not_concludes_of_silent hqueued reason) (fun h => h.1 hqueued)
      · rw [h.concludes front r back' hhistory reason, pending_of_does hdoes hqueued hopen]
        simp [hqueued]
    · have hstate : c.state ≠ .writing := by
        rcases does_word hdoes with hcalls | ⟨_, _, _, _, _, _, hqueue⟩
        · exact absurd (queuedWires_of_callOf hcalls) hqueued
        · exact hqueue.answers.state_ne_writing
      rcases split_concat hsplit with ⟨rfl, rfl, rfl⟩ | ⟨back', rfl, hhistory⟩
      · rw [← hlimit, concludes_of_does hdoes hqueued hserved (hlimit ▸ hlt hstate)]
        simp [hqueued]
      · -- the connection was not writing, so no earlier response was pending
        rw [h.concludes front r back' hhistory reason]
        simp [hqueued, Pending, hstate]

/-- What is not closed at once is closed by the last byte of a response that closes it. -/
theorem pending_of_closed
    (h : Does handler order env c (c', word))
    (hmeets : ∀ reason, ¬ (⟨c, env, word⟩ : Round).Meets reason)
    (hclosed : c'.state = .closed) :
    c.Pending c'.result.reason ∧ c'.pendingResponse = [] ∧ queuedWires word = [] := by
  cases h with
  | ended hends => exact absurd ((meets_of_ends hends _).2 rfl) (hmeets _)
  | sentAll hstate harm _ _ _ =>
      unfold completeWrite at hclosed ⊢
      dsimp only at hclosed ⊢
      split at hclosed
      next hclose =>
        rw [if_pos hclose]
        exact ⟨⟨hstate, hclose, rfl⟩, rfl,
          queuedWires_of_callOf (callOf_concat (callOf_armed harm) (.send hstate))⟩
      next => cases hclosed
  | readInterrupted hstate | sendInterrupted hstate => simp [hstate] at hclosed
  | received | timedOut | needsMore => cases hclosed
  | refused _ _ hqueue | answered _ _ hqueue =>
      subst hqueue
      cases hclosed
  | sentPart hstate => simp [advance, hstate] at hclosed

theorem ends_state
    {ended : ConnectionEndReason}
    (h : Ends env c ended word) :
    (c.state = .reading ∨ c.state = .writing) ∧
      (c.state = .writing ↔ ended = .writeTimeout ∨ ended = .writeError) := by
  cases h with
  | sendArm hstate | send hstate => split <;> simp [hstate]
  | readArm hstate | silent hstate | read hstate | peer hstate | sendZero hstate => simp [hstate]

/-- Between responses none is cut short, and while one is sent the last one is. -/
theorem unsent_iff
    {pending : Bytes}
    {offset : Nat}
    (hwire : WireState (eventsOf history) pending offset)
    (hoffset : pending = [] ∨ offset < pending.length) :
    Unsent history ↔ pending ≠ [] := by
  constructor
  · rintro ⟨front, r, back, hsplit, _, hunsent⟩ hnil
    exact hunsent ((sentThrough_iff hwire hoffset hsplit).2 (Or.inl hnil))
  · intro hpending
    have hqueued : queuedWires (eventsOf history) ≠ [] := by
      obtain ⟨earlier, _, hqueued⟩ := hwire
      simp [hqueued, hpending]
    obtain ⟨front, r, back, hsplit, hr, hback⟩ := exists_last_queued hqueued
    refine ⟨front, r, back, hsplit, hr, ?_⟩
    rw [sentThrough_iff hwire hoffset hsplit]
    simp [hpending, hback]

/-- A connection that is closed at once: no response that closes it has been sent. -/
theorem Undecided.verdict_of_ends
    (h : Undecided maxRequests history c)
    (hrun : RunInv (eventsOf history) c)
    {ended : ConnectionEndReason}
    (hends : Ends env c ended word) :
    Verdict maxRequests (history ++ [⟨c, env, word⟩]) ended := by
  obtain ⟨hreadOrWrite, hwriting⟩ := ends_state hends
  have hsilent := silent_of_ends hends
  have hpending : c.pendingResponse ≠ [] ↔ c.state = .writing := by
    rcases hreadOrWrite with hstate | hstate
    · simp [(hrun.idle (Or.inl hstate)).1, hstate]
    · exact iff_of_true (List.ne_nil_of_length_pos (by have := hrun.writing hstate; omega)) hstate
  have hoffset : c.pendingResponse = [] ∨ c.writeOffset < c.pendingResponse.length := by
    rcases hreadOrWrite with hstate | hstate
    · exact Or.inl (hrun.idle (Or.inl hstate)).1
    · exact Or.inr (hrun.writing hstate)
  have hwire : WireState (eventsOf (history ++ [⟨c, env, word⟩])) c.pendingResponse
      c.writeOffset := by
    simpa using hrun.wire.silent hsilent.sent hsilent.queued
  have hunsent : Unsent (history ++ [⟨c, env, word⟩]) ↔
      ended = .writeTimeout ∨ ended = .writeError := by
    rw [unsent_iff hwire hoffset, hpending, hwriting]
  have hconcluded : ∀ reason, ¬ Concluded maxRequests (history ++ [⟨c, env, word⟩]) reason := by
    rintro reason ⟨front, r, back, hsplit, hconcludes, hsent⟩
    rcases split_concat hsplit with ⟨rfl, rfl, rfl⟩ | ⟨back', rfl, hhistory⟩
    · exact not_concludes_of_silent hsilent.queued reason hconcludes
    · obtain ⟨_, hback, hstate, _⟩ := (h.concludes front r back' hhistory reason).1 hconcludes
      rw [sentThrough_iff hwire hoffset hsplit] at hsent
      rcases hsent with hnil | hlater
      · exact hpending.2 hstate hnil
      · exact hlater (by simp [hback, hsilent.queued])
  have hmeets : ∀ reason, (∃ r ∈ history ++ [⟨c, env, word⟩], r.Meets reason) ↔
      ended = reason := by
    intro reason
    rw [← meets_of_ends hends reason]
    constructor
    · rintro ⟨r, hr, hmeets⟩
      rcases List.mem_append.1 hr with hr | hr
      · exact absurd hmeets (h.uneventful r hr reason)
      · rwa [List.mem_singleton.1 hr] at hmeets
    · exact fun hmeets => ⟨_, by simp, hmeets⟩
  refine ⟨fun reason => ?_, hunsent⟩
  cases reason with
  | requestLimit | connectionClose | parseError | readTimeout =>
      exact iff_of_false (hconcluded _) (fun heq => (meets_of_ends hends _).2 heq)
  | keepAliveTimeout | peerClosed | readError => exact hmeets _
  | writeTimeout =>
      refine ⟨fun hhappened => (hmeets _).1 hhappened.2, fun heq => ⟨?_, (hmeets _).2 heq⟩⟩
      exact hunsent.2 (Or.inl heq)
  | writeError =>
      refine ⟨fun hhappened => (hmeets _).1 hhappened.2, fun heq => ⟨?_, (hmeets _).2 heq⟩⟩
      exact hunsent.2 (Or.inr heq)

/-- A connection that is closed by a response: it was sent in full, as all before it. -/
theorem Undecided.verdict_of_sent
    (h : Undecided maxRequests history c)
    (hrun : RunInv (eventsOf history) c)
    {ended : ConnectionEndReason}
    (hpending : c.Pending ended)
    (hqueued : queuedWires word = [])
    (hmeets : ∀ reason, ¬ (⟨c, env, word⟩ : Round).Meets reason)
    {offset : Nat}
    (hwire : WireState (eventsOf (history ++ [⟨c, env, word⟩])) [] offset) :
    Verdict maxRequests (history ++ [⟨c, env, word⟩]) ended := by
  have hunsent : ¬ Unsent (history ++ [⟨c, env, word⟩]) := by
    rw [unsent_iff hwire (Or.inl rfl)]
    simp
  have hnone : ∀ reason, ¬ ∃ r ∈ history ++ [⟨c, env, word⟩], r.Meets reason := by
    rintro reason ⟨r, hr, hr'⟩
    rcases List.mem_append.1 hr with hr | hr
    · exact h.uneventful r hr reason hr'
    · rw [List.mem_singleton.1 hr] at hr'
      exact hmeets reason hr'
  obtain ⟨front, r, back, hhistory, hr, hback⟩ : ∃ front r back, history = front ++ r :: back ∧
      queuedWires r.events ≠ [] ∧ queuedWires (eventsOf back) = [] := by
    refine exists_last_queued ?_
    obtain ⟨earlier, _, hall⟩ := hrun.wire
    have hlt := hrun.writing hpending.1
    rw [hall, if_neg (List.ne_nil_of_length_pos (by omega))]
    simp
  have hconcludes : r.Concludes maxRequests front ended :=
    (h.concludes front r back hhistory ended).2 ⟨hr, hback, hpending⟩
  have hconcluded : ∀ reason, Concluded maxRequests (history ++ [⟨c, env, word⟩]) reason ↔
      ended = reason := by
    intro reason
    constructor
    · rintro ⟨front, r, back, hsplit, hconcludes, _⟩
      rcases split_concat hsplit with ⟨rfl, rfl, rfl⟩ | ⟨back', rfl, hhistory⟩
      · exact absurd hconcludes (not_concludes_of_silent hqueued reason)
      · obtain ⟨_, _, hreason⟩ := (h.concludes front r back' hhistory reason).1 hconcludes
        exact hpending.2.2.symm.trans hreason.2.2
    · rintro rfl
      have hsplit : history ++ [⟨c, env, word⟩] = front ++ r :: (back ++ [⟨c, env, word⟩]) := by
        simp [hhistory]
      exact ⟨front, r, _, hsplit, hconcludes, (sentThrough_iff hwire (Or.inl rfl) hsplit).2
        (Or.inl rfl)⟩
  refine ⟨fun reason => ?_, iff_of_false hunsent ?_⟩
  · cases reason with
    | requestLimit | connectionClose | parseError | readTimeout => exact hconcluded _
    | keepAliveTimeout | peerClosed | readError =>
        refine iff_of_false (hnone _) ?_
        rintro rfl
        exact hconcludes
    | writeTimeout | writeError =>
        refine iff_of_false (fun h => hunsent h.1) ?_
        rintro rfl
        exact hconcludes
  · rintro (rfl | rfl)
    · exact hconcludes
    · exact hconcludes

/-- What the history tells of a connection: nothing yet, or why it ended. -/
structure Told (maxRequests : Nat) (history : List Round) (c : Connection) : Prop where
  run : RunInv (eventsOf history) c
  limit : c.config.limits.maxRequests = maxRequests
  served : c.result.requestsServed = (emittedRequests (eventsOf history)).length
  undecided : c.state ≠ .closed → Undecided maxRequests history c
  verdict : c.state = .closed → Verdict maxRequests history c.result.reason

theorem told_step
    {word : List Round}
    (h : Told maxRequests history c)
    (hstep : RoundStep handler order c word c') :
    Told maxRequests (history ++ word) c' := by
  obtain ⟨hopen, env, hpermitted, events, hround, rfl⟩ := hstep
  have hdoes : Does handler order env c (c', events) := hround ▸ c.does_step handler order env hopen
  have hrun : RunInv (eventsOf (history ++ [⟨c, env, events⟩])) c' := by
    simpa using runInv_step h.run ⟨hopen, env, hpermitted, hround⟩
  have hundecided := h.undecided hopen
  refine ⟨hrun, (congrArg (·.limits.maxRequests) (does_config hdoes)).trans h.limit, ?_, ?_, ?_⟩
  · rw [requestsServed_does hdoes, h.served]
    simp
  · intro hopen'
    refine hundecided.concat h.limit h.served (fun hstate => ?_) hdoes hopen'
    rw [← h.limit]
    exact h.run.servedOpen hopen (fun hwriting => absurd hwriting hstate)
  · intro hclosed
    rcases meets_of_does hdoes with ⟨reason, hends, rfl⟩ | hmeets
    · exact hundecided.verdict_of_ends h.run hends
    · obtain ⟨hpending, hnil, hqueued⟩ := pending_of_closed hdoes hmeets hclosed
      exact hundecided.verdict_of_sent h.run hpending hqueued hmeets (hnil ▸ hrun.wire)

end Verdicts

section Results

variable {fd : Int} {config : ConnectionConfig} {maxHeaderBytes maxBodyBytes : Nat}
  {now later : Int} {c₀ : Connection} {history : List Round}

theorem told_make
    (hfd : 0 ≤ fd)
    (hmake : make fd config maxHeaderBytes maxBodyBytes now later = .ok c₀) :
    Told config.limits.maxRequests [] c₀ := by
  obtain ⟨hrun, hconfig⟩ := runInv_make hmake
  have hstart : c₀.state = .reading ∧ c₀.result.requestsServed = 0 := by
    unfold make at hmake
    split_ifs at hmake with hbad
    cases hmake
    exact ⟨rfl, rfl⟩
  refine ⟨hrun, by rw [hconfig], hstart.2, fun _ => ⟨by simp, by simp⟩, ?_⟩
  intro hclosed
  rw [hstart.1] at hclosed
  cases hclosed

/--
On every finished run on a valid descriptor, whatever the system calls return, what a
reason tells happened if and only if it is the reason reported, so that the cases
exclude each other and one of them is met; a response was cut short exactly if a failure
to write is reported; and the requests counted are those that the parser emitted.
-/
theorem end_reason_tells
    (hfd : 0 ≤ fd)
    (hmake : make fd config maxHeaderBytes maxBodyBytes now later = .ok c₀)
    (hrun : Run (RoundStep handler order) c₀ history c)
    (hclosed : c.state = .closed) :
    (∀ reason, Happened config.limits.maxRequests history reason ↔ c.result.reason = reason) ∧
    (Unsent history ↔ c.result.reason = .writeTimeout ∨ c.result.reason = .writeError) ∧
    c.result.requestsServed = (emittedRequests (eventsOf history)).length := by
  have htold : Told config.limits.maxRequests history c :=
    hrun.invariant (Told config.limits.maxRequests) (told_make hfd hmake)
      (fun history c word c' => told_step)
  obtain ⟨hhappened, hunsent⟩ := htold.verdict hclosed
  exact ⟨hhappened, hunsent, htold.served⟩

/-- A client that asks once, and takes the response at once. -/
def promptEnv (c : Connection) : Env :=
  { now := 0
    later := 0
    setsockopt := none
    read := .data ⟨ascii "GET /a HTTP/1.0\r\n\r\n", by decide, by decide⟩
    send := .sent c.unsent.length }

/-- The round of a connection with that client. -/
def promptRound (c : Connection) : Connection × List Event :=
  c.step bareHandler .insertion (promptEnv c)

theorem roundStep_promptRound
    (hopen : c.state ≠ .closed) :
    RoundStep bareHandler .insertion c [⟨c, promptEnv c, (promptRound c).2⟩] (promptRound c).1 := by
  refine ⟨hopen, promptEnv c, ?_, _, rfl, rfl⟩
  intro _ n hsend
  cases hsend
  exact le_rfl

/-- It is read, answered and closed, since the version does not keep it open. -/
theorem end_reason_tells_prompt :
    ∃ history c, Run (RoundStep bareHandler .insertion) sampleConnection history c ∧
      c.state = .closed ∧ c.result.requestsServed = 1 ∧
      Happened 100 history .connectionClose := by
  have hread := Run.refl.tail (roundStep_promptRound (c := sampleConnection) (by decide))
  have hparsed := hread.tail (roundStep_promptRound (by decide +kernel))
  have hsent := hparsed.tail (roundStep_promptRound (by decide +kernel))
  have htells := end_reason_tells (by decide) sampleConnection_make hsent (by decide +kernel)
  exact ⟨_, _, hsent, by decide +kernel, by decide +kernel, (htells.1 _).2 (by decide +kernel)⟩

end Results

end Connection

end HttpServer
