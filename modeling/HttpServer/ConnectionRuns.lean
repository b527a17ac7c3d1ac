import HttpServer.Connection

/-!
# Runs of a connection

The operating system may answer every system call in any permitted way; the only
restriction is that `send` takes no more than it was offered.  The properties
below hold in every state that any such run can reach.

* `WireState`: the bytes on the wire are the queued responses in order, the last
  one cut at the write offset;
* `RunInv`: the counters, and what each state implies;
* `Closing`: after a response that closes the connection only that response is
  still sent;
* `BufferInv`: the parser's buffer is bounded.
-/

namespace HttpServer

open Transition

section Traces

/-- The bytes that the operating system took in one call of `send`. -/
def Event.sent : Event → Bytes
  | .send offered (.sent n) => offered.take n
  | _ => []

/-- The bytes that one call of `read` brought. -/
def Event.fed : Event → Bytes
  | .read (.data chunk) => chunk.bytes
  | _ => []

def Event.queuedWire : Event → Option Bytes
  | .queue _ wire _ => some wire
  | _ => none

/-- The events of reading, parsing and answering. -/
def Event.continues : Event → Bool
  | .read _ => true
  | .next _ => true
  | .queue _ _ _ => true
  | _ => false

/-- All bytes sent. -/
def sentBytes (trace : List Event) : Bytes :=
  trace.flatMap Event.sent

/-- All bytes read, which are the bytes fed to the parser. -/
def fedBytes (trace : List Event) : Bytes :=
  trace.flatMap Event.fed

/-- The serialised responses that were queued. -/
def queuedWires (trace : List Event) : List Bytes :=
  trace.filterMap Event.queuedWire

@[simp] theorem sentBytes_append (front back : List Event) :
    sentBytes (front ++ back) = sentBytes front ++ sentBytes back := by
  simp [sentBytes]

@[simp] theorem fedBytes_append (front back : List Event) :
    fedBytes (front ++ back) = fedBytes front ++ fedBytes back := by
  simp [fedBytes]

@[simp] theorem queuedWires_append (front back : List Event) :
    queuedWires (front ++ back) = queuedWires front ++ queuedWires back := by
  simp [queuedWires]

@[simp] theorem sentBytes_cons (e : Event) (trace : List Event) :
    sentBytes (e :: trace) = e.sent ++ sentBytes trace := by
  simp [sentBytes]

@[simp] theorem fedBytes_cons (e : Event) (trace : List Event) :
    fedBytes (e :: trace) = e.fed ++ fedBytes trace := by
  simp [fedBytes]

theorem queuedWires_cons_none
    {e : Event}
    {trace : List Event}
    (h : e.queuedWire = none) :
    queuedWires (e :: trace) = queuedWires trace := by
  simp [queuedWires, h]

@[simp] theorem queuedWires_queue (response : HttpResponse) (wire : Bytes) (keepAlive : Bool) :
    queuedWires [.queue response wire keepAlive] = [wire] := rfl

@[simp] theorem queuedWires_read (result : ReadResult) :
    queuedWires [.read result] = [] := rfl

@[simp] theorem queuedWires_send (offered : Bytes) (result : SendResult) :
    queuedWires [.send offered result] = [] := rfl

@[simp] theorem sentBytes_nil : sentBytes [] = [] := rfl

@[simp] theorem fedBytes_nil : fedBytes [] = [] := rfl

@[simp] theorem queuedWires_nil : queuedWires [] = [] := rfl

/--
What is on the wire: the earlier responses in full, and of the pending one the
bytes before the offset.
-/
def WireState (trace : List Event) (pending : Bytes) (offset : Nat) : Prop :=
  ∃ earlier,
    sentBytes trace = earlier.flatten ++ pending.take offset ∧
    queuedWires trace = earlier ++ (if pending = [] then [] else [pending])

namespace WireState

variable {trace word : List Event} {pending : Bytes} {offset : Nat}

theorem silent
    (h : WireState trace pending offset)
    (hsent : sentBytes word = [])
    (hqueued : queuedWires word = []) :
    WireState (trace ++ word) pending offset := by
  obtain ⟨earlier, hs, hq⟩ := h
  exact ⟨earlier, by simp [hs, hsent], by simp [hq, hqueued]⟩

theorem queue
    {wire : Bytes}
    (h : WireState trace [] 0)
    (hwire : wire ≠ [])
    (hsent : sentBytes word = [])
    (hqueued : queuedWires word = [wire]) :
    WireState (trace ++ word) wire 0 := by
  obtain ⟨earlier, hs, hq⟩ := h
  refine ⟨earlier, by simpa [hsent] using hs, ?_⟩
  rw [queuedWires_append, hq, hqueued, if_neg hwire]
  simp

theorem send
    {n : Nat}
    (h : WireState trace pending offset)
    (hsent : sentBytes word = (pending.drop offset).take n)
    (hqueued : queuedWires word = []) :
    WireState (trace ++ word) pending (offset + n) := by
  obtain ⟨earlier, hs, hq⟩ := h
  refine ⟨earlier, ?_, by simp [hq, hqueued]⟩
  rw [sentBytes_append, hs, hsent, List.take_add, List.append_assoc]

theorem complete
    (h : WireState trace pending pending.length)
    (hpending : pending ≠ []) :
    WireState trace [] 0 := by
  obtain ⟨earlier, hs, hq⟩ := h
  refine ⟨earlier ++ [pending], ?_, ?_⟩
  · rw [hs]
    simp
  · rw [hq, if_neg hpending]
    simp

end WireState

end Traces

namespace Connection

variable {fs : FileSystem}

/-- `send` takes at most the bytes it was offered. -/
def Permitted (c : Connection) (env : Env) : Prop :=
  c.state = .writing → ∀ n, env.send = .sent n → n ≤ c.unsent.length

/-- The rounds of an open connection. -/
def Step (handler : StaticFileHandler fs) (order : IterationOrder)
    (c : Connection) (word : List Event) (c' : Connection) : Prop :=
  c.state ≠ .closed ∧ ∃ env, c.Permitted env ∧ c.step handler order env = (c', word)

variable {handler : StaticFileHandler fs} {order : IterationOrder} {env : Env} {c : Connection}

theorem Step.does
    {word : List Event}
    {c' : Connection}
    (h : Step handler order c word c') :
    ∃ env, c.Permitted env ∧ Does handler order env c (c', word) := by
  obtain ⟨hopen, env, hpermitted, hstep⟩ := h
  exact ⟨env, hpermitted, hstep ▸ c.does_step handler order env hopen⟩

section Frames

/-- Only the read phase and its deadline change when buffered bytes are noticed. -/
theorem noticeBuffered_eq
    (c : Connection)
    (now : Int) :
    ∃ phase deadline,
      c.noticeBuffered now = { c with readPhase := phase, readDeadline := deadline } := by
  unfold noticeBuffered
  split
  · exact ⟨_, _, rfl⟩
  · exact ⟨c.readPhase, c.readDeadline, rfl⟩

theorem receive_eq
    (c : Connection)
    (bytes : Bytes)
    (now : Int) :
    ∃ phase deadline,
      c.receive bytes now =
        { c with
          parser := c.parser.feed bytes
          state := .parsing
          readPhase := phase
          readDeadline := deadline
          result := { c.result with bytesRead := c.result.bytesRead + bytes.length } } := by
  unfold receive
  dsimp only
  split
  · exact ⟨_, _, rfl⟩
  · exact ⟨c.readPhase, c.readDeadline, rfl⟩

/-- An answer counts the request and queues its response. -/
theorem answer_eq
    (c : Connection)
    (now : Int)
    (request : HttpRequest) :
    c.answer handler order now request =
      ({ c with
          result := { c.result with requestsServed := c.result.requestsServed + 1 } }).queueResponse
        order now
        { routeRequest request handler with version := request.version }
        (shouldKeepAlive request &&
          decide (c.result.requestsServed + 1 < c.config.limits.maxRequests))
        (if c.config.limits.maxRequests ≤ c.result.requestsServed + 1 then .requestLimit
          else .connectionClose) := by
  have hlimit : (!decide (c.config.limits.maxRequests ≤ c.result.requestsServed + 1)) =
      decide (c.result.requestsServed + 1 < c.config.limits.maxRequests) := by
    rw [← decide_not]
    simp
  simp [Connection.answer, keepsAlive, hlimit]

/-- The events of arming a timeout move no bytes. -/
theorem mem_armed
    {option : SocketOption}
    {deadline : Int}
    {failure : Option Errno}
    {armed : List Event}
    (h : armSocketTimeout option deadline env = (failure, armed))
    {e : Event}
    (he : e ∈ armed) :
    ∃ value failure', e = .setsockopt option value failure' := by
  unfold armSocketTimeout at h
  split at h
  · cases h
    simp at he
  · cases h
    exact ⟨_, _, List.mem_singleton.1 he⟩

theorem lt_of_keepsAlive
    {request : HttpRequest}
    (h : c.keepsAlive request = true) :
    c.result.requestsServed < c.config.limits.maxRequests := by
  simp only [keepsAlive, Bool.and_eq_true, Bool.not_eq_true', decide_eq_false_iff_not] at h
  omega

/-- A word in which no bytes move and nothing is queued. -/
structure Silent (word : List Event) : Prop where
  sent : sentBytes word = []
  fed : fedBytes word = []
  queued : queuedWires word = []

theorem silent_of_forall
    {word : List Event}
    (h : ∀ e ∈ word, e.sent = [] ∧ e.fed = [] ∧ e.queuedWire = none) :
    Silent word where
  sent := List.flatMap_eq_nil_iff.2 (fun e he => (h e he).1)
  fed := List.flatMap_eq_nil_iff.2 (fun e he => (h e he).2.1)
  queued := List.filterMap_eq_nil_iff.2 (fun e he => (h e he).2.2)

theorem silent_next
    (result : ParseResult) :
    Silent [.next result] :=
  ⟨rfl, rfl, rfl⟩

theorem silent_armed
    {option : SocketOption}
    {deadline : Int}
    {failure : Option Errno}
    {armed : List Event}
    (h : armSocketTimeout option deadline env = (failure, armed)) :
    Silent armed := by
  apply silent_of_forall
  intro e he
  obtain ⟨value, failure', rfl⟩ := mem_armed h he
  exact ⟨rfl, rfl, rfl⟩

theorem Silent.concat
    {word : List Event}
    {e : Event}
    (h : Silent word)
    (hsent : e.sent = [])
    (hfed : e.fed = [])
    (hqueued : e.queuedWire = none) :
    Silent (word ++ [e]) where
  sent := by simp [h.sent, hsent]
  fed := by simp [h.fed, hfed]
  queued := by simp [h.queued, queuedWires_cons_none hqueued]

/-- A `read` that brings no bytes. -/
theorem silent_read
    {option : SocketOption}
    {deadline : Int}
    {failure : Option Errno}
    {armed : List Event}
    (harm : armSocketTimeout option deadline env = (failure, armed))
    (hread : ∀ chunk, env.read ≠ .data chunk) :
    Silent (armed ++ [.read env.read]) := by
  refine (silent_armed harm).concat rfl ?_ rfl
  cases hresult : env.read with
  | data chunk => exact absurd hresult (hread chunk)
  | eof => rfl
  | error errno => rfl

/-- A `send` that takes no bytes. -/
theorem silent_send
    {option : SocketOption}
    {deadline : Int}
    {failure : Option Errno}
    {armed : List Event}
    (harm : armSocketTimeout option deadline env = (failure, armed))
    (offered : Bytes)
    (hsend : ∀ n, env.send = .sent n → n = 0) :
    Silent (armed ++ [.send offered env.send]) := by
  refine (silent_armed harm).concat ?_ rfl rfl
  cases hresult : env.send with
  | sent n => simp [Event.sent, hsend n hresult]
  | error errno => rfl

theorem silent_of_readExpired
    {events : List Event}
    (h : ReadExpired env c events) :
    Silent events := by
  cases h with
  | armed harm _ => exact silent_armed harm
  | read harm hread _ => exact silent_read harm (by simp [hread])

theorem silent_of_ends
    {reason : ConnectionEndReason}
    {events : List Event}
    (h : Ends env c reason events) :
    Silent events := by
  cases h with
  | readArm _ harm _ => exact silent_armed harm
  | silent _ _ hexpired => exact silent_of_readExpired hexpired
  | read _ harm hread _ _ => exact silent_read harm (by simp [hread])
  | peer _ harm hread => exact silent_read harm (by simp [hread])
  | sendArm _ harm => exact silent_armed harm
  | send _ harm hsend _ => exact silent_send harm _ (by simp [hsend])
  | sendZero _ harm hsend => exact silent_send harm _ (by simp [hsend])

/-- The events of a round other than a queued response. -/
inductive CallOf (c : Connection) (env : Env) : Event → Prop
  | arm (option : SocketOption) (value : Timeval) (failure : Option Errno) :
      CallOf c env (.setsockopt option value failure)
  | read
      (hstate : c.state = .reading) :
      CallOf c env (.read env.read)
  | next
      (hstate : c.state = .parsing) :
      CallOf c env (.next c.parser.next.1)
  | send
      (hstate : c.state = .writing) :
      CallOf c env (.send c.unsent env.send)

theorem callOf_armed
    {option : SocketOption}
    {deadline : Int}
    {failure : Option Errno}
    {armed : List Event}
    (h : armSocketTimeout option deadline env = (failure, armed)) :
    ∀ e ∈ armed, CallOf c env e := by
  intro e he
  obtain ⟨value, failure', rfl⟩ := mem_armed h he
  exact .arm option value failure'

theorem callOf_concat
    {word : List Event}
    {last : Event}
    (h : ∀ e ∈ word, CallOf c env e)
    (hlast : CallOf c env last) :
    ∀ e ∈ word ++ [last], CallOf c env e := by
  rw [List.forall_mem_append, List.forall_mem_singleton]
  exact ⟨h, hlast⟩

theorem callOf_of_readExpired
    {events : List Event}
    (hstate : c.state = .reading)
    (h : ReadExpired env c events) :
    ∀ e ∈ events, CallOf c env e := by
  cases h with
  | armed harm _ => exact callOf_armed harm
  | read harm _ _ => exact callOf_concat (callOf_armed harm) (.read hstate)

theorem callOf_of_ends
    {reason : ConnectionEndReason}
    {events : List Event}
    (h : Ends env c reason events) :
    ∀ e ∈ events, CallOf c env e := by
  cases h with
  | readArm _ harm _ => exact callOf_armed harm
  | silent hstate _ hexpired => exact callOf_of_readExpired hstate hexpired
  | read hstate harm _ _ _ => exact callOf_concat (callOf_armed harm) (.read hstate)
  | peer hstate harm _ => exact callOf_concat (callOf_armed harm) (.read hstate)
  | sendArm _ harm => exact callOf_armed harm
  | send hstate harm _ _ => exact callOf_concat (callOf_armed harm) (.send hstate)
  | sendZero hstate harm _ => exact callOf_concat (callOf_armed harm) (.send hstate)

/-- What a response answers, and whether it leaves the connection open. -/
inductive Answers (handler : StaticFileHandler fs) (c : Connection) : HttpResponse → Bool → Prop
  | timeout
      (hstate : c.state = .reading)
      (hphase : c.readPhase = .request) :
      Answers handler c requestTimeoutResponse false
  | refusal {failure : ParseFailure}
      (hstate : c.state = .parsing)
      (hnext : c.parser.next = (parseError failure, c.parser)) :
      Answers handler c (parseErrorResponse failure.kind) false
  | request {request : HttpRequest} {rest : Bytes}
      (hstate : c.state = .parsing)
      (hnext : c.parser.next = (requestReady request, { c.parser with buffer := rest })) :
      Answers handler c { routeRequest request handler with version := request.version }
        (shouldKeepAlive request &&
          decide (c.result.requestsServed + 1 < c.config.limits.maxRequests))

/-- The response that a round has queued. -/
structure Queued (handler : StaticFileHandler fs) (order : IterationOrder) (c c' : Connection)
    (e : Event) (response : HttpResponse) (keepAlive : Bool) : Prop where
  answers : Answers handler c response keepAlive
  event : e = .queue (response.withConnection keepAlive)
    (serializeResponse order (response.withConnection keepAlive)) keepAlive
  writing : c'.state = .writing
  closes : c'.closeAfterWrite = !keepAlive

/-- A round makes calls, and may queue a response as the last thing it does. -/
theorem does_word
    {word : List Event}
    {c' : Connection}
    (h : Does handler order env c (c', word)) :
    (∀ e ∈ word, CallOf c env e) ∨
      ∃ front e response keepAlive, word = front ++ [e] ∧ (∀ e ∈ front, CallOf c env e) ∧
        Queued handler order c c' e response keepAlive := by
  cases h with
  | readInterrupted hstate harm _ =>
      exact Or.inl (callOf_concat (callOf_armed harm) (.read hstate))
  | received hstate harm _ =>
      exact Or.inl (callOf_concat (callOf_armed harm) (.read hstate))
  | timedOut hstate hphase hexpired =>
      exact Or.inr ⟨_, _, _, _, rfl, callOf_of_readExpired hstate hexpired,
        .timeout hstate hphase, rfl, rfl, rfl⟩
  | needsMore hstate hnext =>
      refine Or.inl ?_
      rw [List.forall_mem_singleton, show needMoreData = c.parser.next.1 by rw [hnext]]
      exact .next hstate
  | @refused failure queued hstate hnext hqueued =>
      subst hqueued
      refine Or.inr ⟨[.next (parseError failure)], _, _, _, rfl, ?_, .refusal hstate hnext, rfl,
        rfl, rfl⟩
      rw [List.forall_mem_singleton, show parseError failure = c.parser.next.1 by rw [hnext]]
      exact .next hstate
  | @answered request rest queued hstate hnext hqueued =>
      obtain ⟨_, _, hnotice⟩ := c.noticeBuffered_eq env.now
      rw [answer_eq, hnotice] at hqueued
      subst hqueued
      refine Or.inr ⟨[.next (requestReady request)], _, _, _, rfl, ?_, .request hstate hnext, rfl,
        rfl, rfl⟩
      rw [List.forall_mem_singleton, show requestReady request = c.parser.next.1 by rw [hnext]]
      exact .next hstate
  | sendInterrupted hstate harm _ =>
      exact Or.inl (callOf_concat (callOf_armed harm) (.send hstate))
  | sentPart hstate harm _ _ _ =>
      exact Or.inl (callOf_concat (callOf_armed harm) (.send hstate))
  | sentAll hstate harm _ _ _ =>
      exact Or.inl (callOf_concat (callOf_armed harm) (.send hstate))
  | ended hends => exact Or.inl (callOf_of_ends hends)

/-- A response is queued only while reading or parsing. -/
theorem Answers.state_ne_writing
    {response : HttpResponse}
    {keepAlive : Bool}
    (h : Answers handler c response keepAlive) :
    c.state ≠ .writing := by
  cases h with
  | timeout hstate => simp [hstate]
  | refusal hstate => simp [hstate]
  | request hstate => simp [hstate]

end Frames

section Wire

/-- What holds of the events so far and the state after any run. -/
structure RunInv (trace : List Event) (c : Connection) : Prop where
  wire : WireState trace c.pendingResponse c.writeOffset
  writing : c.state = .writing → c.writeOffset < c.pendingResponse.length
  idle : c.state = .reading ∨ c.state = .parsing → c.pendingResponse = [] ∧ c.writeOffset = 0
  read : c.result.bytesRead = (fedBytes trace).length
  written : c.result.bytesWritten = (sentBytes trace).length
  served : c.result.requestsServed ≤ c.config.limits.maxRequests
  servedOpen : c.state ≠ .closed → (c.state = .writing → c.closeAfterWrite = false) →
    c.result.requestsServed < c.config.limits.maxRequests
  offers : ∀ offered result, Event.send offered result ∈ trace → offered ≠ []

theorem serializeResponse_ne_nil
    (order : IterationOrder)
    (response : HttpResponse) :
    serializeResponse order response ≠ [] := by
  intro h
  have hlen := congrArg List.length h
  simp [serializeResponse, crlf] at hlen

/-- A round offers only bytes that are pending, and only while writing. -/
theorem offered_eq_unsent
    {word : List Event}
    {c' : Connection}
    (h : Does handler order env c (c', word))
    {offered : Bytes}
    {result : SendResult}
    (hmem : Event.send offered result ∈ word) :
    c.state = .writing ∧ offered = c.unsent := by
  have hcall : CallOf c env (.send offered result) := by
    rcases does_word h with hcalls | ⟨front, e, response, keepAlive, rfl, hcalls, hqueued⟩
    · exact hcalls _ hmem
    · rcases List.mem_append.1 hmem with hmem | hmem
      · exact hcalls _ hmem
      · rw [List.mem_singleton, hqueued.event] at hmem
        cases hmem
  cases hcall with
  | send hstate => exact ⟨hstate, rfl⟩

namespace RunInv

variable {trace word : List Event}

/-- In state `Writing` the next `send` is offered something. -/
theorem unsent_ne_nil
    (h : RunInv trace c)
    (hstate : c.state = .writing) :
    c.unsent ≠ [] := by
  intro hnil
  have hlt := h.writing hstate
  have hlen := congrArg List.length hnil
  simp only [unsent, List.length_drop, List.length_nil] at hlen
  omega

theorem offers_append
    {c' : Connection}
    (h : RunInv trace c)
    (hdoes : Does handler order env c (c', word)) :
    ∀ offered result, Event.send offered result ∈ trace ++ word → offered ≠ [] := by
  intro offered result hmem
  rcases List.mem_append.1 hmem with hmem | hmem
  · exact h.offers offered result hmem
  · obtain ⟨hstate, rfl⟩ := offered_eq_unsent hdoes hmem
    exact h.unsent_ne_nil hstate

/-- A silent round that leaves the connection as it is. -/
theorem unchanged
    (h : RunInv trace c)
    (hsilent : Silent word)
    (hoffers : ∀ offered result, Event.send offered result ∈ trace ++ word → offered ≠ []) :
    RunInv (trace ++ word) c where
  wire := h.wire.silent hsilent.sent hsilent.queued
  writing := h.writing
  idle := h.idle
  read := by simp [h.read, hsilent.fed]
  written := by simp [h.written, hsilent.sent]
  served := h.served
  servedOpen := h.servedOpen
  offers := hoffers

theorem finish
    (h : RunInv trace c)
    (reason : ConnectionEndReason) :
    RunInv trace (c.finish reason) where
  wire := h.wire
  writing := by simp [Connection.finish]
  idle := by simp [Connection.finish]
  read := h.read
  written := h.written
  served := h.served
  servedOpen := by simp [Connection.finish]
  offers := h.offers

theorem receive
    (h : RunInv trace c)
    (hstate : c.state = .reading)
    {bytes : Bytes}
    (now : Int)
    (hsent : sentBytes word = [])
    (hfed : fedBytes word = bytes)
    (hqueued : queuedWires word = [])
    (hoffers : ∀ offered result, Event.send offered result ∈ trace ++ word → offered ≠ []) :
    RunInv (trace ++ word) (c.receive bytes now) := by
  obtain ⟨phase, deadline, heq⟩ := c.receive_eq bytes now
  rw [heq]
  exact
    { wire := h.wire.silent hsent hqueued
      writing := by simp
      idle := fun _ => h.idle (Or.inl hstate)
      read := by simp [h.read, hfed]
      written := by simp [h.written, hsent]
      served := h.served
      servedOpen := fun _ _ => h.servedOpen (by simp [hstate]) (by simp [hstate])
      offers := hoffers }

theorem wait
    (h : RunInv trace c)
    (hstate : c.state = .parsing)
    (now : Int)
    (hsilent : Silent word)
    (hoffers : ∀ offered result, Event.send offered result ∈ trace ++ word → offered ≠ []) :
    RunInv (trace ++ word)
      { c.noticeBuffered now with parser := c.parser, state := .reading } := by
  obtain ⟨phase, deadline, heq⟩ := c.noticeBuffered_eq now
  rw [heq]
  exact
    { wire := h.wire.silent hsilent.sent hsilent.queued
      writing := by simp
      idle := fun _ => h.idle (Or.inr hstate)
      read := by simp [h.read, hsilent.fed]
      written := by simp [h.written, hsilent.sent]
      served := h.served
      servedOpen := fun _ _ => h.servedOpen (by simp [hstate]) (by simp [hstate])
      offers := hoffers }

/-- Queueing a response, on a connection that may have counted one more request. -/
theorem queue
    (h : RunInv trace c)
    (hstate : c.state = .reading ∨ c.state = .parsing)
    {base : Connection}
    {response : HttpResponse}
    {keepAlive : Bool}
    {reason : ConnectionEndReason}
    {now : Int}
    {queued : Connection × List Event}
    (hqueued : queued = base.queueResponse order now response keepAlive reason)
    (hread : base.result.bytesRead = c.result.bytesRead)
    (hwritten : base.result.bytesWritten = c.result.bytesWritten)
    (hserved : base.result.requestsServed ≤ base.config.limits.maxRequests)
    (hopen : keepAlive = true → base.result.requestsServed < base.config.limits.maxRequests)
    (front : List Event)
    (hsilent : Silent front)
    (hoffers : ∀ offered result,
      Event.send offered result ∈ trace ++ (front ++ queued.2) → offered ≠ []) :
    RunInv (trace ++ (front ++ queued.2)) queued.1 := by
  subst hqueued
  obtain ⟨hpending, hoffset⟩ := h.idle hstate
  have hwire := h.wire
  rw [hpending, hoffset] at hwire
  have hne := serializeResponse_ne_nil order (response.withConnection keepAlive)
  exact
    { wire := hwire.queue hne
        (by simp [hsilent.sent, queueResponse, Event.sent])
        (by simp [hsilent.queued, queueResponse])
      writing := fun _ => List.length_pos_iff.2 hne
      idle := by simp [queueResponse]
      read := by simp [queueResponse, hread, h.read, hsilent.fed, Event.fed]
      written := by simp [queueResponse, hwritten, h.written, hsilent.sent, Event.sent]
      served := hserved
      servedOpen := fun _ hclose => hopen (by simpa [queueResponse] using hclose rfl)
      offers := hoffers }

theorem advance
    (h : RunInv trace c)
    (hstate : c.state = .writing)
    {n : Nat}
    (hle : c.writeOffset + n ≤ c.pendingResponse.length)
    (hsent : sentBytes word = c.unsent.take n)
    (hfed : fedBytes word = [])
    (hqueued : queuedWires word = [])
    (hoffers : ∀ offered result, Event.send offered result ∈ trace ++ word → offered ≠ [])
    (hpart : c.writeOffset + n ≠ c.pendingResponse.length) :
    RunInv (trace ++ word) (c.advance n) where
  wire := h.wire.send hsent hqueued
  writing := fun _ => by
    simp only [Connection.advance]
    omega
  idle := by simp [Connection.advance, hstate]
  read := by simp [Connection.advance, h.read, hfed]
  written := by
    simp only [Connection.advance, h.written, sentBytes_append, List.length_append, hsent,
      List.length_take, unsent, List.length_drop]
    omega
  served := h.served
  servedOpen := h.servedOpen
  offers := hoffers

theorem completeWrite
    (h : RunInv trace c)
    (hstate : c.state = .writing)
    {n : Nat}
    (now : Int)
    (hall : c.writeOffset + n = c.pendingResponse.length)
    (hsent : sentBytes word = c.unsent.take n)
    (hfed : fedBytes word = [])
    (hqueued : queuedWires word = [])
    (hoffers : ∀ offered result, Event.send offered result ∈ trace ++ word → offered ≠ []) :
    RunInv (trace ++ word) ((c.advance n).completeWrite now) := by
  have hlt := h.writing hstate
  have hpending : c.pendingResponse ≠ [] := by
    intro hnil
    simp [hnil] at hlt
  have hwire : WireState (trace ++ word) [] 0 := by
    have hsend := h.wire.send hsent hqueued
    rw [hall] at hsend
    exact hsend.complete hpending
  have hread : c.result.bytesRead = (fedBytes (trace ++ word)).length := by
    simp [h.read, hfed]
  have hwritten : c.result.bytesWritten + n = (sentBytes (trace ++ word)).length := by
    simp only [h.written, sentBytes_append, List.length_append, hsent, List.length_take, unsent,
      List.length_drop]
    omega
  unfold Connection.completeWrite
  cases hclose : c.closeAfterWrite with
  | true =>
      simp only [Connection.advance, hclose, if_true]
      exact
        { wire := hwire
          writing := by simp [Connection.finish]
          idle := by simp [Connection.finish]
          read := hread
          written := hwritten
          served := h.served
          servedOpen := by simp [Connection.finish]
          offers := hoffers }
  | false =>
      simp only [Connection.advance, hclose, Bool.false_eq_true, if_false]
      exact
        { wire := hwire
          writing := by simp
          idle := fun _ => ⟨rfl, rfl⟩
          read := hread
          written := hwritten
          served := h.served
          servedOpen := fun _ _ => h.servedOpen (by simp [hstate]) (fun _ => hclose)
          offers := hoffers }

end RunInv

/-- Every round keeps the invariant. -/
theorem runInv_step
    {trace word : List Event}
    {c' : Connection}
    (h : RunInv trace c)
    (hstep : Step handler order c word c') :
    RunInv (trace ++ word) c' := by
  obtain ⟨env, hpermitted, hdoes⟩ := hstep.does
  have hoffers := h.offers_append hdoes
  have hfits : ∀ n, c.state = .writing → env.send = .sent n →
      c.writeOffset + n ≤ c.pendingResponse.length := by
    intro n hstate hsend
    have hlt := h.writing hstate
    have hle := hpermitted hstate n hsend
    simp only [unsent, List.length_drop] at hle
    omega
  cases hdoes with
  | readInterrupted _ harm hread =>
      exact h.unchanged (silent_read harm (by simp [hread])) hoffers
  | @received chunk armed hstate harm hread =>
      have harmed := silent_armed harm
      refine h.receive hstate env.later ?_ ?_ ?_ hoffers
      · simp [harmed.sent, hread, Event.sent]
      · simp [harmed.fed, hread, Event.fed]
      · simp [harmed.queued]
  | timedOut hstate _ hexpired =>
      exact h.queue (Or.inl hstate) rfl rfl rfl h.served (by simp) _
        (silent_of_readExpired hexpired) hoffers
  | needsMore hstate _ =>
      exact h.wait hstate env.now (silent_next _) hoffers
  | refused hstate _ hqueued =>
      obtain ⟨phase, deadline, heq⟩ := c.noticeBuffered_eq env.now
      rw [heq] at hqueued
      exact h.queue (Or.inr hstate) hqueued rfl rfl h.served (by simp)
        [.next _] (silent_next _) hoffers
  | @answered request rest queued hstate _ hqueued =>
      obtain ⟨phase, deadline, heq⟩ := c.noticeBuffered_eq env.now
      rw [heq] at hqueued
      have hlt := h.servedOpen (by simp [hstate]) (by simp [hstate])
      exact h.queue (Or.inr hstate) hqueued rfl rfl hlt lt_of_keepsAlive
        [.next _] (silent_next _) hoffers
  | sendInterrupted _ harm hsend =>
      exact h.unchanged (silent_send harm _ (by simp [hsend])) hoffers
  | @sentPart n armed hstate harm hsend _ hpart =>
      have harmed := silent_armed harm
      refine h.advance hstate (hfits n hstate hsend) ?_ ?_ ?_ hoffers hpart
      · simp [harmed.sent, hsend, Event.sent]
      · simp [harmed.fed, hsend, Event.fed]
      · simp [harmed.queued]
  | @sentAll n armed hstate harm hsend _ hall =>
      have harmed := silent_armed harm
      refine h.completeWrite hstate env.later hall ?_ ?_ ?_ hoffers
      · simp [harmed.sent, hsend, Event.sent]
      · simp [harmed.fed, hsend, Event.fed]
      · simp [harmed.queued]
  | ended hends =>
      exact (h.unchanged (silent_of_ends hends) hoffers).finish _

end Wire

section Finality

/-- The last response is being sent, or the connection is closed. -/
def Closing (c : Connection) : Prop :=
  c.state = .closed ∨ (c.state = .writing ∧ c.closeAfterWrite = true)

theorem find_withConnection
    (response : HttpResponse)
    (keepAlive : Bool) :
    (response.withConnection keepAlive).headers.find (ascii "Connection") =
      some (if keepAlive then ascii "keep-alive" else ascii "close") := by
  simp [HttpResponse.withConnection, HeaderMap.find_assign]

/-- The word of a round that queues a response ends in that event. -/
theorem queued_of_mem
    {word : List Event}
    {c' : Connection}
    (h : Does handler order env c (c', word))
    {response : HttpResponse}
    {wire : Bytes}
    {keepAlive : Bool}
    (hmem : Event.queue response wire keepAlive ∈ word) :
    ∃ front base, word = front ++ [.queue response wire keepAlive] ∧
      (∀ e ∈ front, CallOf c env e) ∧ response = base.withConnection keepAlive ∧
      Queued handler order c c' (.queue response wire keepAlive) base keepAlive := by
  have hnone : ∀ {front : List Event}, (∀ e ∈ front, CallOf c env e) →
      Event.queue response wire keepAlive ∉ front := by
    intro front hcalls hmem
    cases hcalls _ hmem
  rcases does_word h with hcalls | ⟨front, e, base, keepAlive', rfl, hcalls, hqueued⟩
  · exact absurd hmem (hnone hcalls)
  · have hlast := (List.mem_append.1 hmem).resolve_left (hnone hcalls)
    rw [List.mem_singleton] at hlast
    subst hlast
    have hevent := hqueued.event
    cases hevent
    exact ⟨front, base, rfl, hcalls, rfl, hqueued⟩

theorem queue_mem_does
    {word : List Event}
    {c' : Connection}
    (h : Does handler order env c (c', word))
    {response : HttpResponse}
    {wire : Bytes}
    {keepAlive : Bool}
    (hmem : Event.queue response wire keepAlive ∈ word) :
    ∃ front, word = front ++ [.queue response wire keepAlive] ∧
      (∀ r w k, Event.queue r w k ∉ front) ∧
      response.headers.find (ascii "Connection") =
        some (if keepAlive then ascii "keep-alive" else ascii "close") ∧
      c'.state = .writing ∧ c'.closeAfterWrite = !keepAlive := by
  obtain ⟨front, base, hword, hcalls, hresponse, hqueued⟩ := queued_of_mem h hmem
  refine ⟨front, hword, ?_, ?_, hqueued.writing, hqueued.closes⟩
  · intro r w k hfront
    cases hcalls _ hfront
  · rw [hresponse]
    exact find_withConnection base keepAlive

/-- A round of the state `Writing` only arms a timeout and sends. -/
theorem continues_of_writing
    {word : List Event}
    {c' : Connection}
    (hstate : c.state = .writing)
    (h : Does handler order env c (c', word)) :
    ∀ e ∈ word, e.continues = false := by
  rcases does_word h with hcalls | ⟨_, _, _, _, _, _, hqueued⟩
  · intro e he
    cases hcalls e he with
    | arm => rfl
    | read hstate' => simp [hstate] at hstate'
    | next hstate' => simp [hstate] at hstate'
    | send => rfl
  · exact absurd hstate hqueued.answers.state_ne_writing

/-- A closing connection only arms timeouts and sends, and stays closing. -/
theorem closing_step
    {word : List Event}
    {c' : Connection}
    (hclosing : Closing c)
    (hstep : Step handler order c word c') :
    Closing c' ∧ ∀ e ∈ word, e.continues = false := by
  obtain ⟨hstate, hclose⟩ := hclosing.resolve_left hstep.1
  obtain ⟨env, _, hdoes⟩ := hstep.does
  refine ⟨?_, continues_of_writing hstate hdoes⟩
  cases hdoes with
  | readInterrupted hstate' _ _ => simp [hstate] at hstate'
  | received hstate' _ _ => simp [hstate] at hstate'
  | timedOut hstate' _ _ => simp [hstate] at hstate'
  | needsMore hstate' _ => simp [hstate] at hstate'
  | refused hstate' _ _ => simp [hstate] at hstate'
  | answered hstate' _ _ => simp [hstate] at hstate'
  | sendInterrupted _ _ _ => exact Or.inr ⟨hstate, hclose⟩
  | sentPart _ _ _ _ _ => exact Or.inr ⟨hstate, hclose⟩
  | sentAll _ _ _ _ _ => exact Or.inl (by simp [completeWrite, advance, hclose, finish])
  | ended _ => exact Or.inl rfl

/-- Nothing is read, parsed or queued behind a response that closes the connection. -/
theorem quiet_after_close
    {c₀ : Connection}
    {trace : List Event}
    (hrun : Run (Step handler order) c₀ trace c)
    {before after : List Event}
    {response : HttpResponse}
    {wire : Bytes}
    {keepAlive : Bool}
    (htrace : trace = before ++ .queue response wire keepAlive :: after)
    (hclose : response.headers.find (ascii "Connection") = some (ascii "close")) :
    ∀ e ∈ after, e.continues = false := by
  refine (hrun.after
    (fun e => ∃ r w k, e = Event.queue r w k ∧
      r.headers.find (ascii "Connection") = some (ascii "close"))
    (fun e => e.continues = false) Closing ?_ (fun s word s' => closing_step) htrace
    ⟨response, wire, keepAlive, rfl, hclose⟩).2
  rintro s front e back s' hstep ⟨r, w, k, rfl, hr⟩
  obtain ⟨env, _, hdoes⟩ := hstep.does
  have hmem : Event.queue r w k ∈ front ++ Event.queue r w k :: back := by simp
  obtain ⟨front', hword, hnone, hheader, hstate, hflag⟩ := queue_mem_does hdoes hmem
  have hk : k = false := by
    cases k with
    | false => rfl
    | true =>
        rw [hr] at hheader
        exact absurd hheader (by decide)
  have hback : back = [] := by
    rcases List.eq_nil_or_concat back with hnil | ⟨back', last, rfl⟩
    · exact hnil
    · exfalso
      rw [List.concat_eq_append, ← List.cons_append, ← List.append_assoc] at hword
      have hfront := (List.append_inj' hword rfl).1
      exact hnone r w k (by rw [← hfront]; simp)
  subst hback
  exact ⟨Or.inr ⟨hstate, by simp [hflag, hk]⟩, by simp⟩

end Finality

theorem does_config
    {word : List Event}
    {c' : Connection}
    (h : Does handler order env c (c', word)) :
    c'.config = c.config := by
  obtain ⟨_, _, hnotice⟩ := c.noticeBuffered_eq env.now
  cases h with
  | readInterrupted => rfl
  | @received chunk armed _ _ _ =>
      obtain ⟨_, _, heq⟩ := c.receive_eq chunk.bytes env.later
      rw [heq]
  | timedOut => rfl
  | needsMore => rw [hnotice]
  | refused _ _ hqueued => rw [hqueued, hnotice]; rfl
  | answered _ _ hqueued => rw [hqueued, hnotice]; rfl
  | sendInterrupted => rfl
  | sentPart => rfl
  | sentAll =>
      unfold completeWrite
      dsimp only
      split <;> rfl
  | ended => rfl

section Buffer

/-- The bounds on what the parser holds. -/
structure BufferInv (maxHeaderBytes maxBodyBytes : Nat) (c : Connection) : Prop where
  header : c.parser.maxHeaderBytes = maxHeaderBytes
  body : c.parser.maxBodyBytes = maxBodyBytes
  reading : c.state = .reading →
    c.parser.bufferedBytes ≤ maxHeaderBytes + maxBodyBytes + 3
  always : c.parser.bufferedBytes ≤ maxHeaderBytes + maxBodyBytes + 3 + 4096

/-- A round that leaves the buffer alone and does not start to read. -/
theorem BufferInv.of_parser_eq
    {maxHeaderBytes maxBodyBytes : Nat}
    {c' : Connection}
    (h : BufferInv maxHeaderBytes maxBodyBytes c)
    (hparser : c'.parser = c.parser)
    (hstate : c'.state ≠ .reading) :
    BufferInv maxHeaderBytes maxBodyBytes c' where
  header := hparser ▸ h.header
  body := hparser ▸ h.body
  reading := fun hreading => absurd hreading hstate
  always := hparser ▸ h.always

theorem parser_completeWrite
    (c : Connection)
    (now : Int) :
    (c.completeWrite now).parser = c.parser ∧ (c.completeWrite now).state ≠ .reading := by
  unfold completeWrite
  dsimp only
  split
  · exact ⟨rfl, by simp [finish]⟩
  · exact ⟨rfl, by simp⟩

theorem bufferInv_step
    {maxHeaderBytes maxBodyBytes : Nat}
    {word : List Event}
    {c' : Connection}
    (h : BufferInv maxHeaderBytes maxBodyBytes c)
    (hstep : Step handler order c word c') :
    BufferInv maxHeaderBytes maxBodyBytes c' := by
  obtain ⟨env, _, hdoes⟩ := hstep.does
  obtain ⟨phase, deadline, hnotice⟩ := c.noticeBuffered_eq env.now
  cases hdoes with
  | readInterrupted => exact h
  | @received chunk armed hstate _ _ =>
      obtain ⟨phase, deadline, heq⟩ := c.receive_eq chunk.bytes env.later
      rw [heq]
      have hbuffered := h.reading hstate
      have hchunk := chunk.bounded
      refine ⟨h.header, h.body, by simp, ?_⟩
      simp only [HttpParser.bufferedBytes, HttpParser.feed, List.length_append] at hbuffered ⊢
      omega
  | timedOut => exact h.of_parser_eq rfl (by simp [queueResponse])
  | needsMore _ hnext =>
      have hbound := c.parser.bufferedBytes_le_of_needMoreData (by simp [hnext, needMoreData])
      rw [h.header, h.body] at hbound
      rw [hnotice]
      exact ⟨h.header, h.body, fun _ => hbound, h.always⟩
  | refused _ _ hqueued =>
      rw [hqueued, hnotice]
      exact h.of_parser_eq rfl (by simp [queueResponse])
  | @answered request rest queued _ hnext hqueued =>
      have hsome : c.parser.next.1.request = some request := by
        rw [hnext]
        rfl
      have hshrinks := (c.parser.next_of_request_some hsome).2
      rw [hnext] at hshrinks
      have halways := h.always
      rw [hqueued, hnotice]
      refine ⟨h.header, h.body, by simp [answer, queueResponse], ?_⟩
      simp only [answer, queueResponse, HttpParser.bufferedBytes] at halways ⊢
      dsimp only at hshrinks
      omega
  | sendInterrupted => exact h
  | sentPart hstate _ _ _ _ => exact h.of_parser_eq rfl (by simp [advance, hstate])
  | @sentAll n =>
      obtain ⟨hparser, hstate⟩ := parser_completeWrite (c.advance n) env.later
      exact h.of_parser_eq hparser hstate
  | ended => exact h.of_parser_eq rfl (by simp [finish])

end Buffer

section Rounds

/-- The connection and the events after some rounds in a given environment. -/
def after (c : Connection) (handler : StaticFileHandler fs) (order : IterationOrder)
    (envs : Nat → Env) : Nat → Connection × List Event
  | 0 => (c, [])
  | n + 1 =>
      let before := after c handler order envs n
      if before.1.state = .closed then
        before
      else
        let next := before.1.step handler order (envs n)
        (next.1, before.2 ++ next.2)

theorem run_after
    (envs : Nat → Env)
    (n : Nat)
    (hpermitted : ∀ k < n, (c.after handler order envs k).1.Permitted (envs k)) :
    Run (Step handler order) c (c.after handler order envs n).2
      (c.after handler order envs n).1 := by
  induction n with
  | zero => exact .refl
  | succ n ih =>
      have hrun := ih (fun k hk => hpermitted k (by omega))
      rw [after]
      dsimp only
      split_ifs with hclosed
      · exact hrun
      · exact hrun.tail ⟨hclosed, envs n, hpermitted n (by omega), rfl⟩

end Rounds

section Sample

/-- An empty file system. -/
def bareSite : FileSystem :=
  FileSystem.ofTable 40 [] (by simp) (by simp)

def bareHandler : StaticFileHandler bareSite where
  root := []
  canonical := Or.inl rfl
  bounded := StaticFileHandler.default_maxFileBytes_lt

/-- A connection with the default configuration, accepted at time 0. -/
def sampleConnection : Connection :=
  { fd := 3
    parser := HttpParser.fresh (16 * 1024) (1024 * 1024)
    state := .reading
    config := {}
    readDeadline := 10000000000
    writeDeadline := 0 }

/-- One request arrives at once; every `send` takes ten bytes. -/
def sampleEnvs (n : Nat) : Env :=
  { now := 0
    later := 0
    setsockopt := none
    read := if n = 0 then .data ⟨ascii "GET / HTTP/1.0\r\n\r\n", by decide, by decide⟩ else .eof
    send := .sent 10 }

theorem sampleConnection_make :
    make 3 {} (16 * 1024) (1024 * 1024) 0 0 = .ok sampleConnection := by
  rfl

/-- A request arrives in two pieces, the second with the beginning of another one. -/
def pipelinedEnvs (n : Nat) : Env :=
  { sampleEnvs n with
    read :=
      if n = 0 then .data ⟨ascii "GET /a HTTP/1.1\r\nHost: a\r\nAcc", by decide, by decide⟩
      else .data ⟨ascii "ept: */*\r\n\r\nHEAD / HTTP/1.1\r\nHo", by decide, by decide⟩ }

/-- The first five rounds: the two pieces are read and parsed, and the answer is sent in
part. -/
def sampleRun : Connection × List Event :=
  sampleConnection.after bareHandler .insertion pipelinedEnvs 5

theorem sampleConnection_run :
    Run (Step bareHandler .insertion) sampleConnection sampleRun.2 sampleRun.1 := by
  apply run_after
  intro k hk hstate n hsend
  have hn : n = 10 := (SendResult.sent.inj hsend).symm
  subst hn
  interval_cases k
  iterate 4 exact absurd hstate (by decide +kernel)
  decide +kernel

end Sample

section Results

variable {fd : Int} {config : ConnectionConfig} {maxHeaderBytes maxBodyBytes : Nat}
  {now later : Int} {c₀ : Connection} {trace : List Event}

/-- A connection as the constructor leaves it. -/
theorem runInv_make
    (hmake : make fd config maxHeaderBytes maxBodyBytes now later = .ok c₀) :
    RunInv [] c₀ ∧ c₀.config = config := by
  unfold make at hmake
  split_ifs at hmake with hbad hfd
  all_goals
    cases hmake
    push Not at hbad
    refine ⟨⟨⟨[], rfl, rfl⟩, by simp, fun _ => ⟨rfl, rfl⟩, rfl, rfl, Nat.zero_le _, ?_, by simp⟩,
      rfl⟩
    intro _ _
    exact Nat.pos_of_ne_zero hbad.2.2.2

theorem runInv_of_run
    (hmake : make fd config maxHeaderBytes maxBodyBytes now later = .ok c₀)
    (hrun : Run (Step handler order) c₀ trace c) :
    RunInv trace c ∧ c.config = config := by
  refine hrun.invariant (fun trace c => RunInv trace c ∧ c.config = config)
    (runInv_make hmake) ?_
  rintro trace s word s' ⟨hinv, hconfig⟩ hstep
  obtain ⟨env, _, hdoes⟩ := hstep.does
  exact ⟨runInv_step hinv hstep, (does_config hdoes).trans hconfig⟩

/--
In every state that a connection can reach, whatever the system calls return,
the bytes sent are the earlier responses in full and the pending one up to the
offset; nothing empty is ever offered to `send`; the counters count; no more
requests are served than allowed; and a response that closes the connection is
the last thing that is done.
-/
theorem wire_integrity
    (hmake : make fd config maxHeaderBytes maxBodyBytes now later = .ok c₀)
    (hrun : Run (Step handler order) c₀ trace c) :
    (∃ earlier,
      sentBytes trace = earlier.flatten ++ c.pendingResponse.take c.writeOffset ∧
      queuedWires trace =
        earlier ++ (if c.pendingResponse = [] then [] else [c.pendingResponse])) ∧
    (c.state = .writing → c.writeOffset < c.pendingResponse.length) ∧
    (∀ offered result, Event.send offered result ∈ trace → offered ≠ []) ∧
    c.result.bytesWritten = (sentBytes trace).length ∧
    c.result.bytesRead = (fedBytes trace).length ∧
    c.result.requestsServed ≤ config.limits.maxRequests ∧
    (∀ before response wire keepAlive after,
      trace = before ++ .queue response wire keepAlive :: after →
      response.headers.find (ascii "Connection") = some (ascii "close") →
      ∀ e ∈ after, e.continues = false) := by
  obtain ⟨hinv, hconfig⟩ := runInv_of_run hmake hrun
  refine ⟨hinv.wire, hinv.writing, hinv.offers, hinv.written, hinv.read, ?_, ?_⟩
  · rw [← hconfig]
    exact hinv.served
  · intro before response wire keepAlive after htrace hclose
    exact quiet_after_close hrun htrace hclose

/-- Ten bytes of the answer have been sent. -/
theorem wire_integrity_sample :
    sampleRun.1.state = .writing ∧ sampleRun.1.writeOffset = 10 ∧
    sampleRun.1.result.bytesWritten = (sentBytes sampleRun.2).length :=
  ⟨by decide +kernel, by decide +kernel,
    (wire_integrity sampleConnection_make sampleConnection_run).2.2.2.1⟩

theorem bufferInv_make
    (hmake : make fd config maxHeaderBytes maxBodyBytes now later = .ok c₀) :
    BufferInv maxHeaderBytes maxBodyBytes c₀ := by
  unfold make at hmake
  split_ifs at hmake
  all_goals
    cases hmake
    exact ⟨rfl, rfl, fun _ => Nat.zero_le _, Nat.zero_le _⟩

/-- What the parser holds is bounded in every state, and tighter before each `read`. -/
theorem bounded_buffering
    (hmake : make fd config maxHeaderBytes maxBodyBytes now later = .ok c₀)
    (hrun : Run (Step handler order) c₀ trace c) :
    (c.state = .reading →
      c.parser.bufferedBytes ≤ maxHeaderBytes + maxBodyBytes + 3) ∧
    c.parser.bufferedBytes ≤ maxHeaderBytes + maxBodyBytes + 3 + 4096 := by
  have hinv : BufferInv maxHeaderBytes maxBodyBytes c :=
    hrun.invariant (fun _ c => BufferInv maxHeaderBytes maxBodyBytes c) (bufferInv_make hmake)
      (fun trace s word s' => bufferInv_step)
  exact ⟨hinv.reading, hinv.always⟩

/-- The beginning of the second request is held while the first is answered. -/
theorem bounded_buffering_sample :
    sampleRun.1.parser.buffer = ascii "HEAD / HTTP/1.1\r\nHo" ∧
    sampleRun.1.parser.bufferedBytes ≤ 16 * 1024 + 1024 * 1024 + 3 + 4096 :=
  ⟨by decide +kernel, (bounded_buffering sampleConnection_make sampleConnection_run).2⟩

end Results

end Connection

end HttpServer
