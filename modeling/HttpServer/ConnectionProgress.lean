import HttpServer.ConnectionRuns

/-!
# A connection comes to its end

The loop of `serve` has no counter of its own.  What ends it, against a client that
never stops sending, is that a connection serves a bounded number of requests and
that the parser takes a bounded number of bytes for each of them, so that the bytes
read are bounded (`ReadInv`).  A round of a `Benign` environment is interrupted or
lowers a rank: the bytes that may still be read and the bytes that are buffered,
then the bytes that may still be read, then the bytes of the pending response
(`rank_does`).
-/

namespace HttpServer

open Transition

variable {fs : FileSystem}

namespace Connection

section Environment

/--
The environment of a round in which no deadline passes and no call fails except by
a signal: `read` brings bytes or the end of the stream, and `send` takes at least a
byte.
-/
structure Benign (c : Connection) (env : Env) : Prop where
  reading : c.state = .reading →
    env.now < c.readDeadline ∧ env.setsockopt = none ∧
      (env.read = .error .eintr ∨ (∃ chunk, env.read = .data chunk) ∨ env.read = .eof)
  writing : c.state = .writing →
    env.now < c.writeDeadline ∧ env.setsockopt = none ∧
      (env.send = .error .eintr ∨
        ∃ n, env.send = .sent n ∧ 0 < n ∧ n ≤ c.unsent.length)

/-- The system call of a round is interrupted by a signal. -/
def Interrupted (c : Connection) (env : Env) : Prop :=
  (c.state = .reading ∧ env.read = .error .eintr) ∨
    (c.state = .writing ∧ env.send = .error .eintr)

variable {c : Connection} {env : Env}

theorem armSocketTimeout_of_early
    (option : SocketOption)
    {deadline : Int}
    (hnow : env.now < deadline)
    (hset : env.setsockopt = none) :
    (armSocketTimeout option deadline env).1 = none := by
  unfold armSocketTimeout
  rw [if_neg (by omega)]
  exact hset

namespace Benign

theorem permitted
    (h : Benign c env) :
    c.Permitted env := by
  intro hstate n hsend
  rcases (h.writing hstate).2.2 with hintr | ⟨n', hn', _, hle⟩
  · simp [hsend] at hintr
  · rw [hsend] at hn'
    cases hn'
    exact hle

theorem not_readExpired
    (h : Benign c env)
    (hstate : c.state = .reading)
    {events : List Event} :
    ¬ ReadExpired env c events := by
  obtain ⟨hnow, hset, hread⟩ := h.reading hstate
  have harm := armSocketTimeout_of_early .receiveTimeout hnow hset
  intro hexpired
  cases hexpired with
  | armed harm' _ => simp [harm'] at harm
  | read _ hread' htimeout =>
      rcases hread with hread | ⟨chunk, hread⟩ | hread
      · rw [hread] at hread'
        cases hread'
        cases htimeout
      · simp [hread] at hread'
      · simp [hread] at hread'

/-- A benign environment ends a connection only with the stream. -/
theorem eof_of_ends
    (h : Benign c env)
    {reason : ConnectionEndReason}
    {events : List Event}
    (hends : Ends env c reason events) :
    c.state = .reading ∧ env.read = .eof := by
  have hreceive : c.state = .reading →
      (armSocketTimeout .receiveTimeout c.readDeadline env).1 = none := fun hstate =>
    armSocketTimeout_of_early _ (h.reading hstate).1 (h.reading hstate).2.1
  have hsending : c.state = .writing →
      (armSocketTimeout .sendTimeout c.writeDeadline env).1 = none := fun hstate =>
    armSocketTimeout_of_early _ (h.writing hstate).1 (h.writing hstate).2.1
  cases hends with
  | readArm hstate harm _ =>
      have harm' := hreceive hstate
      simp [harm] at harm'
  | silent hstate _ hexpired => exact absurd hexpired (h.not_readExpired hstate)
  | read hstate _ hread hintr _ =>
      rcases (h.reading hstate).2.2 with hread' | ⟨chunk, hread'⟩ | hread'
      · rw [hread'] at hread
        cases hread
        exact absurd rfl hintr
      · simp [hread'] at hread
      · simp [hread'] at hread
  | peer hstate _ hread => exact ⟨hstate, hread⟩
  | sendArm hstate harm =>
      have harm' := hsending hstate
      simp [harm] at harm'
  | send hstate _ hsend hintr =>
      rcases (h.writing hstate).2.2 with hsend' | ⟨n, hsend', _⟩
      · rw [hsend'] at hsend
        cases hsend
        exact absurd rfl hintr
      · simp [hsend'] at hsend
  | sendZero hstate _ hsend =>
      rcases (h.writing hstate).2.2 with hsend' | ⟨n, hsend', hpos, _⟩
      · simp [hsend'] at hsend
      · rw [hsend'] at hsend
        cases hsend
        omega

end Benign

end Environment

section Rank

/-- How far a connection is from its end, given how much may still be read. -/
def rankAt (unread : ℕ) (c : Connection) : ℕ × ℕ × ℕ :=
  (if c.state = .writing ∧ c.closeAfterWrite = true then 0
    else unread + c.parser.buffer.length + 1,
    unread,
    match c.state with
    | .reading => 0
    | .parsing => 1
    | .writing => 2 + c.unsent.length
    | .closed => 0)

/-- The order of the ranks. -/
def rankLt : ℕ × ℕ × ℕ → ℕ × ℕ × ℕ → Prop :=
  Prod.Lex (· < ·) (Prod.Lex (· < ·) (· < ·))

theorem wellFounded_rankLt : WellFounded rankLt :=
  Nat.lt_wfRel.wf.prod_lex (Nat.lt_wfRel.wf.prod_lex Nat.lt_wfRel.wf)

theorem rankLt_iff
    (a b : ℕ × ℕ × ℕ) :
    rankLt a b ↔ a.1 < b.1 ∨ a.1 = b.1 ∧ (a.2.1 < b.2.1 ∨ a.2.1 = b.2.1 ∧ a.2.2 < b.2.2) := by
  unfold rankLt
  rw [Prod.lex_def, Prod.lex_def]

theorem unsent_advance
    (c : Connection)
    (n : Nat) :
    (c.advance n).unsent = c.unsent.drop n := by
  simp [unsent, Connection.advance]

variable {handler : StaticFileHandler fs} {order : IterationOrder} {c : Connection} {env : Env}

/-- A round closes the connection, is interrupted, or lowers the rank. -/
theorem rank_does
    {next : Connection × List Event}
    (hdoes : Does handler order env c next)
    (hbenign : Benign c env)
    {unread unread' : ℕ}
    (hunread : unread = (fedBytes next.2).length + unread') :
    next.1.state = .closed ∨
    (Interrupted c env ∧ next.1 = c ∧ fedBytes next.2 = []) ∨
    rankLt (rankAt unread' next.1) (rankAt unread c) := by
  obtain ⟨phase, deadline, hnotice⟩ := c.noticeBuffered_eq env.now
  cases hdoes with
  | readInterrupted hstate harm hread =>
      exact Or.inr (Or.inl ⟨Or.inl ⟨hstate, hread⟩, rfl, (silent_read harm (by simp [hread])).fed⟩)
  | @received chunk armed hstate harm hread =>
      obtain ⟨phase, deadline, heq⟩ := c.receive_eq chunk.bytes env.later
      have hpos : 0 < chunk.bytes.length := List.length_pos_iff.2 chunk.nonempty
      simp only [fedBytes_append, (silent_armed harm).fed, hread, fedBytes_cons, Event.fed,
        fedBytes_nil, List.nil_append, List.append_nil] at hunread
      refine Or.inr (Or.inr ((rankLt_iff _ _).2 ?_))
      rw [heq]
      simp only [rankAt, hstate, reduceCtorEq, false_and, if_false, HttpParser.feed,
        List.length_append]
      omega
  | timedOut hstate _ hexpired => exact absurd hexpired (hbenign.not_readExpired hstate)
  | needsMore hstate _ =>
      obtain rfl : unread = unread' := by simpa [Event.fed] using hunread
      refine Or.inr (Or.inr ((rankLt_iff _ _).2 ?_))
      rw [hnotice]
      simp [rankAt, hstate]
  | refused hstate _ hqueued =>
      refine Or.inr (Or.inr ((rankLt_iff _ _).2 (Or.inl ?_)))
      rw [hqueued, hnotice]
      simp [rankAt, queueResponse, hstate]
  | @answered request rest queued hstate hnext hqueued =>
      have hsome : c.parser.next.1.request = some request := by
        rw [hnext]
        rfl
      have hshrinks := (c.parser.next_of_request_some hsome).2
      rw [hnext] at hshrinks
      dsimp only at hshrinks
      rw [hnotice, answer_eq] at hqueued
      subst hqueued
      obtain rfl : unread = unread' := by simpa [queueResponse, Event.fed] using hunread
      refine Or.inr (Or.inr ((rankLt_iff _ _).2 (Or.inl ?_)))
      simp only [rankAt, queueResponse, hstate, reduceCtorEq, false_and, if_false, true_and]
      split <;> omega
  | sendInterrupted hstate harm hsend =>
      exact Or.inr (Or.inl ⟨Or.inr ⟨hstate, hsend⟩, rfl,
        (silent_send harm c.unsent (by simp [hsend])).fed⟩)
  | @sentPart n armed hstate harm hsend hpos _ =>
      have hle := hbenign.permitted hstate n hsend
      obtain rfl : unread = unread' := by
        simpa [(silent_armed harm).fed, Event.fed] using hunread
      refine Or.inr (Or.inr ((rankLt_iff _ _).2 (Or.inr ⟨rfl, Or.inr ⟨rfl, ?_⟩⟩)))
      have hstate' : (c.advance n).state = .writing := hstate
      simp only [rankAt, hstate, hstate', unsent_advance, List.length_drop]
      omega
  | @sentAll n armed hstate harm hsend hpos _ =>
      obtain rfl : unread = unread' := by
        simpa [(silent_armed harm).fed, Event.fed] using hunread
      cases hclose : c.closeAfterWrite with
      | true => exact Or.inl (by simp [completeWrite, advance, hclose, finish])
      | false =>
          refine Or.inr (Or.inr ((rankLt_iff _ _).2 ?_))
          simp [rankAt, completeWrite, advance, hclose, hstate, beginKeepAliveTimeout]
          omega
  | ended => exact Or.inl rfl

end Rank

section Fairness

variable (handler : StaticFileHandler fs) (order : IterationOrder)

/-- The connection is not interrupted forever. -/
def Fair (c₀ : Connection) (envs : Nat → Env) : Prop :=
  ∀ n, ∃ m, n ≤ m ∧ ¬ Interrupted (c₀.after handler order envs m).1 (envs m)

variable {handler order}

/-- How far a connection is from its end, when it is to read a bounded number of bytes. -/
def rank (bound : ℕ) (x : Connection × List Event) : ℕ × ℕ × ℕ :=
  rankAt (bound - (fedBytes x.2).length) x.1

/-- A round closes the connection, is interrupted, or brings it closer to its end. -/
theorem rank_after
    {c₀ : Connection}
    {envs : Nat → Env}
    {n bound : Nat}
    (hbenign : Benign (c₀.after handler order envs n).1 (envs n))
    (hfed : (fedBytes (c₀.after handler order envs (n + 1)).2).length ≤ bound)
    (hopen : (c₀.after handler order envs n).1.state ≠ .closed) :
    (c₀.after handler order envs (n + 1)).1.state = .closed ∨
    (Interrupted (c₀.after handler order envs n).1 (envs n) ∧
      rank bound (c₀.after handler order envs (n + 1)) =
        rank bound (c₀.after handler order envs n)) ∨
    rankLt (rank bound (c₀.after handler order envs (n + 1)))
      (rank bound (c₀.after handler order envs n)) := by
  simp only [rank]
  rw [after] at hfed ⊢
  dsimp only at hfed ⊢
  rw [if_neg hopen] at hfed ⊢
  generalize c₀.after handler order envs n = before at *
  have hdoes := does_step before.1 handler order (envs n) hopen
  generalize before.1.step handler order (envs n) = next at *
  dsimp only at hfed ⊢
  rw [fedBytes_append, List.length_append] at hfed ⊢
  have hunread : bound - (fedBytes before.2).length = (fedBytes next.2).length +
      (bound - ((fedBytes before.2).length + (fedBytes next.2).length)) := by
    omega
  rcases rank_does hdoes hbenign hunread with hclosed | ⟨hintr, hsame, hnone⟩ | hless
  · exact Or.inl hclosed
  · exact Or.inr (Or.inl ⟨hintr, by rw [hsame, hnone]; rfl⟩)
  · exact Or.inr (Or.inr hless)

/-- Rounds that lower a rank unless they are interrupted close the connection. -/
theorem exists_closed_of_rank
    {c₀ : Connection}
    {envs : Nat → Env}
    (rank : Connection × List Event → ℕ × ℕ × ℕ)
    (hround : ∀ n, (c₀.after handler order envs n).1.state ≠ .closed →
      (c₀.after handler order envs (n + 1)).1.state = .closed ∨
      (Interrupted (c₀.after handler order envs n).1 (envs n) ∧
        rank (c₀.after handler order envs (n + 1)) = rank (c₀.after handler order envs n)) ∨
      rankLt (rank (c₀.after handler order envs (n + 1)))
        (rank (c₀.after handler order envs n)))
    (hfair : Fair handler order c₀ envs) :
    ∃ n, (c₀.after handler order envs n).1.state = .closed := by
  by_contra hnever
  push Not at hnever
  refine absurd (exists_done_of_progress wellFounded_rankLt rank (fun x => x.1.state = .closed)
    (c₀.after handler order envs) ?_ ?_) (by simpa using hnever)
  · intro n
    rcases hround n (hnever n) with hclosed | ⟨_, hrank⟩ | hrank
    · exact absurd hclosed (hnever (n + 1))
    · exact Or.inr (Or.inl hrank)
    · exact Or.inr (Or.inr hrank)
  · intro n
    obtain ⟨m, hnm, hm⟩ := hfair n
    refine ⟨m, hnm, Or.inr ?_⟩
    rcases hround m (hnever m) with hclosed | ⟨hintr, _⟩ | hrank
    · exact absurd hclosed (hnever (m + 1))
    · exact absurd hintr hm
    · intro heq
      rw [heq] at hrank
      exact wellFounded_rankLt.irrefl.irrefl _ hrank

end Fairness

section Bounded

variable {handler : StaticFileHandler fs} {order : IterationOrder} {c : Connection}

/-- A request takes no more bytes of the buffer than its limits allow. -/
theorem buffer_length_le
    {parser : HttpParser}
    {request : HttpRequest}
    {rest : Bytes}
    (h : parser.next = (requestReady request, { parser with buffer := rest })) :
    parser.buffer.length ≤
      rest.length + (parser.maxHeaderBytes + parser.maxBodyBytes + 4) := by
  obtain ⟨line, fields, body, rest', hcomplete⟩ :=
    parser.complete_of_requestReady (by rw [h]; rfl)
  obtain ⟨block, hbuffer, _, hblock, hhead⟩ := hcomplete.cut
  have hnext := parser.next_of_complete hcomplete
  rw [h] at hnext
  obtain rfl : rest = rest' := congrArg (fun answer => answer.2.buffer) hnext
  have hbody := hhead.bodyLength.le
  rw [hbuffer]
  simp only [List.length_append, crlfcrlf, List.length_cons, List.length_nil]
  omega

/-- What has been read was taken by the requests served, or is buffered. -/
structure ReadInv (maxHeaderBytes maxBodyBytes : Nat) (c : Connection) : Prop where
  taken : c.result.bytesRead ≤ c.parser.bufferedBytes +
    c.result.requestsServed * (maxHeaderBytes + maxBodyBytes + 4)
  bounded : c.result.bytesRead <
    c.config.limits.maxRequests * (maxHeaderBytes + maxBodyBytes + 4) + 4096

/-- A round that reads nothing and takes nothing from the buffer. -/
theorem ReadInv.of_eq
    {maxHeaderBytes maxBodyBytes : Nat}
    {c' : Connection}
    (h : ReadInv maxHeaderBytes maxBodyBytes c)
    (hparser : c'.parser = c.parser)
    (hconfig : c'.config = c.config)
    (hread : c'.result.bytesRead = c.result.bytesRead)
    (hserved : c'.result.requestsServed = c.result.requestsServed) :
    ReadInv maxHeaderBytes maxBodyBytes c' where
  taken := by
    rw [hparser, hread, hserved]
    exact h.taken
  bounded := by
    rw [hconfig, hread]
    exact h.bounded

/-- While a connection reads, the limit on requests bounds what has been read. -/
theorem ReadInv.reading
    {maxHeaderBytes maxBodyBytes : Nat}
    {trace : List Event}
    (h : ReadInv maxHeaderBytes maxBodyBytes c)
    (hinv : RunInv trace c)
    (hbuffer : BufferInv maxHeaderBytes maxBodyBytes c)
    (hstate : c.state = .reading) :
    c.result.bytesRead < c.config.limits.maxRequests * (maxHeaderBytes + maxBodyBytes + 4) := by
  have hserved := hinv.servedOpen (by simp [hstate]) (by simp [hstate])
  calc c.result.bytesRead
      ≤ c.parser.bufferedBytes +
          c.result.requestsServed * (maxHeaderBytes + maxBodyBytes + 4) := h.taken
    _ < (c.result.requestsServed + 1) * (maxHeaderBytes + maxBodyBytes + 4) := by
        have hbound := hbuffer.reading hstate
        rw [Nat.add_one_mul]
        omega
    _ ≤ c.config.limits.maxRequests * (maxHeaderBytes + maxBodyBytes + 4) :=
        Nat.mul_le_mul_right _ hserved

theorem readInv_step
    {maxHeaderBytes maxBodyBytes : Nat}
    {trace word : List Event}
    {c' : Connection}
    (h : ReadInv maxHeaderBytes maxBodyBytes c)
    (hinv : RunInv trace c)
    (hbuffer : BufferInv maxHeaderBytes maxBodyBytes c)
    (hstep : Step handler order c word c') :
    ReadInv maxHeaderBytes maxBodyBytes c' := by
  obtain ⟨env, _, hdoes⟩ := hstep.does
  obtain ⟨phase, deadline, hnotice⟩ := c.noticeBuffered_eq env.now
  cases hdoes with
  | readInterrupted => exact h
  | @received chunk armed hstate _ _ =>
      obtain ⟨phase, deadline, heq⟩ := c.receive_eq chunk.bytes env.later
      have htaken := h.taken
      have hbelow := h.reading hinv hbuffer hstate
      have hchunk := chunk.bounded
      rw [heq]
      constructor
      · simp only [HttpParser.bufferedBytes, HttpParser.feed, List.length_append] at htaken ⊢
        omega
      · dsimp only
        omega
  | timedOut => exact h.of_eq rfl rfl rfl rfl
  | needsMore =>
      rw [hnotice]
      exact h.of_eq rfl rfl rfl rfl
  | refused _ _ hqueued =>
      rw [hqueued, hnotice]
      exact h.of_eq rfl rfl rfl rfl
  | @answered request rest queued _ hnext hqueued =>
      have hlength := buffer_length_le hnext
      rw [hbuffer.header, hbuffer.body] at hlength
      have htaken := h.taken
      rw [hqueued, hnotice]
      refine ⟨?_, h.bounded⟩
      simp only [answer, queueResponse, HttpParser.bufferedBytes, Nat.add_one_mul] at htaken ⊢
      omega
  | sendInterrupted => exact h
  | sentPart => exact h.of_eq rfl rfl rfl rfl
  | @sentAll n =>
      unfold completeWrite
      dsimp only
      split_ifs
      · exact h.of_eq rfl rfl rfl rfl
      · exact h.of_eq rfl rfl rfl rfl
  | ended => exact h.of_eq rfl rfl rfl rfl

end Bounded

section Termination

variable {handler : StaticFileHandler fs} {order : IterationOrder}
  {fd : Int} {config : ConnectionConfig} {maxHeaderBytes maxBodyBytes : Nat}
  {now later : Int} {c₀ c : Connection}

theorem bytesRead_lt_of_run
    {trace : List Event}
    (hmake : make fd config maxHeaderBytes maxBodyBytes now later = .ok c₀)
    (hrun : Run (Step handler order) c₀ trace c) :
    c.result.bytesRead <
      config.limits.maxRequests * (maxHeaderBytes + maxBodyBytes + 4) + 4096 := by
  obtain ⟨hinv₀, hconfig₀⟩ := runInv_make hmake
  have hread₀ : c₀.result.bytesRead = 0 := hinv₀.read
  have hmain := hrun.invariant (fun trace c => RunInv trace c ∧
    BufferInv maxHeaderBytes maxBodyBytes c ∧ ReadInv maxHeaderBytes maxBodyBytes c) ?_ ?_
  · rw [← (runInv_of_run hmake hrun).2]
    exact hmain.2.2.bounded
  · exact ⟨hinv₀, bufferInv_make hmake, by omega, by omega⟩
  · rintro trace c word c' ⟨hinv, hbuffer, hread⟩ hstep
    exact ⟨runInv_step hinv hstep, bufferInv_step hbuffer hstep,
      readInv_step hread hinv hbuffer hstep⟩

/--
Against every client, even one that never stops sending, `serve` returns, unless
it is interrupted forever; and what it reads is bounded by the limits.
-/
theorem serve_terminates
    {envs : Nat → Env}
    (hmake : make fd config maxHeaderBytes maxBodyBytes now later = .ok c₀)
    (hbenign : ∀ n, Benign (c₀.after handler order envs n).1 (envs n))
    (hfair : Fair handler order c₀ envs) :
    (∃ n, (c₀.after handler order envs n).1.state = .closed) ∧
    ∀ n, (c₀.after handler order envs n).1.result.bytesRead <
      config.limits.maxRequests * (maxHeaderBytes + maxBodyBytes + 4) + 4096 := by
  have hrun : ∀ n, Run (Step handler order) c₀ (c₀.after handler order envs n).2
      (c₀.after handler order envs n).1 :=
    fun n => run_after envs n (fun k _ => (hbenign k).permitted)
  have hbound := fun n => bytesRead_lt_of_run hmake (hrun n)
  refine ⟨?_, hbound⟩
  have hfed : ∀ n, (fedBytes (c₀.after handler order envs n).2).length <
      config.limits.maxRequests * (maxHeaderBytes + maxBodyBytes + 4) + 4096 := by
    intro n
    rw [← (runInv_of_run hmake (hrun n)).1.read]
    exact hbound n
  generalize config.limits.maxRequests * (maxHeaderBytes + maxBodyBytes + 4) + 4096 = bound at hfed
  refine exists_closed_of_rank (rank bound) ?_ hfair
  intro n hopen
  exact rank_after (hbenign n) (hfed (n + 1)).le hopen

/-- The rounds of a connection whose environment goes by what has happened so far. -/
def guidedRun (c₀ : Connection) (handler : StaticFileHandler fs) (order : IterationOrder)
    (choose : List Event → Connection → Env) : Nat → Connection × List Event
  | 0 => (c₀, [])
  | n + 1 =>
      let before := guidedRun c₀ handler order choose n
      if before.1.state = .closed then
        before
      else
        let next := before.1.step handler order (choose before.2 before.1)
        (next.1, before.2 ++ next.2)

/-- The environment as a sequence. -/
def guidedEnvs (c₀ : Connection) (handler : StaticFileHandler fs) (order : IterationOrder)
    (choose : List Event → Connection → Env) (n : Nat) : Env :=
  choose (c₀.guidedRun handler order choose n).2 (c₀.guidedRun handler order choose n).1

theorem after_guidedEnvs
    (choose : List Event → Connection → Env)
    (n : Nat) :
    c₀.after handler order (c₀.guidedEnvs handler order choose) n =
      c₀.guidedRun handler order choose n := by
  induction n with
  | zero => rfl
  | succ n ih =>
      rw [after, guidedRun, ih]
      rfl

theorem guidedRun_invariant
    (handler : StaticFileHandler fs)
    (order : IterationOrder)
    (choose : List Event → Connection → Env)
    (Inv : List Event → Connection → Prop)
    (hstart : Inv [] c₀)
    (hround : ∀ trace c, Inv trace c → c.state ≠ .closed →
      Inv (trace ++ (c.step handler order (choose trace c)).2)
        (c.step handler order (choose trace c)).1)
    (n : Nat) :
    Inv (c₀.guidedRun handler order choose n).2 (c₀.guidedRun handler order choose n).1 := by
  induction n with
  | zero => exact hstart
  | succ n ih =>
      rw [guidedRun]
      dsimp only
      split_ifs with hclosed
      · exact ih
      · exact hround _ _ ih hclosed

/-- A client that never stops sending requests and takes every response at once. -/
def endlessEnv (c : Connection) : Env :=
  { now := min c.readDeadline c.writeDeadline - 1
    later := 0
    setsockopt := none
    read := .data ⟨ascii "GET / HTTP/1.1\r\nHost: a\r\n\r\n", by decide, by decide⟩
    send := .sent c.unsent.length }

theorem benign_endlessEnv
    {trace : List Event}
    (hinv : RunInv trace c) :
    Benign c (endlessEnv c) := by
  refine ⟨fun _ => ⟨?_, rfl, Or.inr (Or.inl ⟨_, rfl⟩)⟩, fun hstate => ⟨?_, rfl, Or.inr ?_⟩⟩
  · simp only [endlessEnv]
    omega
  · simp only [endlessEnv]
    omega
  · exact ⟨_, rfl, List.length_pos_iff.2 (hinv.unsent_ne_nil hstate), le_refl _⟩

theorem runInv_endlessEnv
    (handler : StaticFileHandler fs)
    (order : IterationOrder)
    (hinv : RunInv [] c₀)
    (n : Nat) :
    RunInv (c₀.guidedRun handler order (fun _ => endlessEnv) n).2
      (c₀.guidedRun handler order (fun _ => endlessEnv) n).1 :=
  guidedRun_invariant handler order _ RunInv hinv
    (fun _ _ h hopen => runInv_step h ⟨hopen, _, (benign_endlessEnv h).permitted, rfl⟩) n

/-- With that client, a connection with the default configuration comes to its end. -/
theorem serve_terminates_endless :
    ∃ envs : Nat → Env, (∀ n, ∃ chunk, (envs n).read = .data chunk) ∧
      (∃ n, (sampleConnection.after bareHandler .insertion envs n).1.state = .closed) ∧
      ∀ n, (sampleConnection.after bareHandler .insertion envs n).1.result.bytesRead <
        100 * (16 * 1024 + 1024 * 1024 + 4) + 4096 := by
  have hinv := runInv_endlessEnv bareHandler .insertion (runInv_make sampleConnection_make).1
  refine ⟨sampleConnection.guidedEnvs bareHandler .insertion (fun _ => endlessEnv),
    fun n => ⟨_, rfl⟩, serve_terminates sampleConnection_make (fun n => ?_) (fun n => ?_)⟩
  · rw [after_guidedEnvs]
    exact benign_endlessEnv (hinv n)
  · refine ⟨n, le_refl n, ?_⟩
    rintro (⟨_, hread⟩ | ⟨_, hsend⟩)
    · cases hread
    · cases hsend

end Termination

end Connection

end HttpServer
