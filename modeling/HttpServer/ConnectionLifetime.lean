import HttpServer.Deadlines

/-!
# How long a connection can hold its worker

The deadlines of a connection are absolute, and every call that may block has been
armed with what remains of one (`deadlines_absolute`).  So if the operating system
returns from such a call when its timeout has run out, and the program itself gets
on, the time that a connection takes is bounded by its configuration, whatever the
client does: each of at most `max_requests` requests is waited for, read and
answered within the sum of the three timeouts (`cycle`).

`PromptStep` is a round under these assumptions, where `δ` bounds the time between
two readings of the clock and the delay after a timeout.
-/

namespace HttpServer

open Transition

namespace Connection

variable {fs : FileSystem} {handler : StaticFileHandler fs} {order : IterationOrder} {env : Env}
  {c c' : Connection} {word armed : List Event} {δ : Int}

section Prompt

/-- The time for which a round may wait, in nanoseconds: what was armed for its call. -/
def allowance : List Event → Int
  | .setsockopt _ value none :: call :: _ => if call.waits then value.micros * 1000 else 0
  | _ => 0

/--
A round in which the program reads the clock at most `δ` after it was last read, and
again at most `δ` after the call that waits has come to the end of its timeout.
-/
def PromptStep (δ : Int) (handler : StaticFileHandler fs) (order : IterationOrder)
    (s : Timed) (word : List Event) (s' : Timed) : Prop :=
  s.connection.state ≠ .closed ∧ ∃ env, s.connection.Permitted env ∧
    s.clock ≤ env.now ∧ env.now ≤ s.clock + δ ∧
    env.now ≤ env.later ∧ env.later ≤ env.now + allowance word + δ ∧
    round s handler order env = (s', word)

/-- A time value is longer than what it stands for by less than a microsecond. -/
theorem micros_timevalOf_le
    (remaining : Int)
    (hpos : 0 < remaining) :
    (timevalOf remaining).micros * 1000 ≤ remaining + 1000 := by
  have hdiv := Int.mul_ediv_add_emod (if remaining / 1000 ≤ 0 then 1 else remaining / 1000) 1000000
  simp only [timevalOf, Timeval.micros]
  split_ifs at hdiv ⊢ <;> omega

/-- A call that was armed ends soon after its deadline. -/
theorem later_le_of_armed
    {option : SocketOption}
    {deadline : Int}
    {call : Event}
    (rest : List Event)
    (harm : armSocketTimeout option deadline env = (none, armed))
    (hwaits : call.waits = true)
    (hlater : env.later ≤ env.now + allowance (armed ++ [call] ++ rest) + δ) :
    env.later ≤ deadline + 1000 + δ := by
  unfold armSocketTimeout at harm
  split_ifs at harm with hpast
  · cases harm
  · obtain ⟨hnone, rfl⟩ := Prod.mk.inj harm
    rw [hnone] at hlater
    simp only [List.cons_append, List.nil_append, allowance, hwaits, if_true] at hlater
    have hmicros := micros_timevalOf_le (deadline - env.now) (by omega)
    omega

/-- Where nothing was armed there is no call that waits. -/
theorem allowance_of_not_armed
    {option : SocketOption}
    {deadline : Int}
    {errno : Errno}
    {rest : List Event}
    (harm : armSocketTimeout option deadline env = (some errno, armed))
    (hrest : allowance rest = 0) :
    allowance (armed ++ rest) = 0 := by
  unfold armSocketTimeout at harm
  split_ifs at harm
  · obtain ⟨-, rfl⟩ := Prod.mk.inj harm
    exact hrest
  · obtain ⟨hsome, rfl⟩ := Prod.mk.inj harm
    rw [hsome]
    cases rest <;> rfl

/-- A read that has come to its deadline, without or with a call. -/
theorem later_le_of_expired
    {rest : List Event}
    (hexpired : ReadExpired env c word)
    (hrest : allowance rest = 0)
    (hlater : env.later ≤ env.now + allowance (word ++ rest) + δ) :
    env.later ≤ env.now + δ ∨ env.later ≤ c.readDeadline + 1000 + δ := by
  cases hexpired with
  | armed harm =>
      rw [allowance_of_not_armed harm hrest] at hlater
      exact Or.inl (by omega)
  | read harm => exact Or.inr (later_le_of_armed _ harm rfl hlater)

/-- A round that closes the connection ends soon after its deadline. -/
theorem later_le_of_ends
    {reason : ConnectionEndReason}
    (hends : Ends env c reason word)
    (hlater : env.later ≤ env.now + allowance word + δ) :
    c.state = .reading ∧
        (env.later ≤ env.now + δ ∨ env.later ≤ c.readDeadline + 1000 + δ) ∨
      c.state = .writing ∧
        (env.later ≤ env.now + δ ∨ env.later ≤ c.writeDeadline + 1000 + δ) := by
  have hword : allowance (word ++ []) = allowance word := by rw [List.append_nil]
  cases hends with
  | readArm hstate harm =>
      rw [← hword, allowance_of_not_armed harm rfl] at hlater
      exact Or.inl ⟨hstate, Or.inl (by omega)⟩
  | silent hstate _ hexpired =>
      rw [← hword] at hlater
      exact Or.inl ⟨hstate, later_le_of_expired hexpired rfl hlater⟩
  | read hstate harm =>
      rw [← hword] at hlater
      exact Or.inl ⟨hstate, Or.inr (later_le_of_armed _ harm rfl hlater)⟩
  | peer hstate harm =>
      rw [← hword] at hlater
      exact Or.inl ⟨hstate, Or.inr (later_le_of_armed _ harm rfl hlater)⟩
  | sendArm hstate harm =>
      rw [← hword, allowance_of_not_armed harm rfl] at hlater
      exact Or.inr ⟨hstate, Or.inl (by omega)⟩
  | send hstate harm =>
      rw [← hword] at hlater
      exact Or.inr ⟨hstate, Or.inr (later_le_of_armed _ harm rfl hlater)⟩
  | sendZero hstate harm =>
      rw [← hword] at hlater
      exact Or.inr ⟨hstate, Or.inr (later_le_of_armed _ harm rfl hlater)⟩

end Prompt

section Lifetime

/-- The time for one request: to wait for it, to read it and to send its response. -/
def cycle (δ : Int) (timeouts : ConnectionTimeouts) : Int :=
  milliseconds timeouts.keepAliveTimeout + milliseconds timeouts.readTimeout +
    milliseconds timeouts.writeTimeout + 3000 + 9 * δ

variable {start clock : Int} {config : ConnectionConfig}

/-- When the turn of a request begins at the latest; turns are counted from zero. -/
def turnStart (δ start : Int) (config : ConnectionConfig) (turn : ℕ) : Int :=
  start + turn * cycle δ config.timeouts

/-- The latest read deadline of a connection in its phase. -/
def readDue (δ start : Int) (config : ConnectionConfig) (c : Connection) : Int :=
  turnStart δ start config c.result.requestsServed +
    milliseconds config.timeouts.keepAliveTimeout +
    match c.readPhase with
    | .keepAlive => 0
    | .request => milliseconds config.timeouts.readTimeout + 1000 + δ

/-- Where a connection is in its turns. -/
structure LifeInv (δ start : Int) (config : ConnectionConfig) (c : Connection) (clock : Int) :
    Prop where
  config_eq : c.config = config
  reading : c.state = .reading →
    c.readDeadline ≤ readDue δ start config c ∧ clock ≤ c.readDeadline + 1000 + 3 * δ
  parsing : c.state = .parsing →
    c.readDeadline ≤ readDue δ start config c ∧ clock ≤ c.readDeadline + 1000 + δ ∧
    (c.readPhase = .keepAlive → clock ≤ turnStart δ start config c.result.requestsServed)
  writing : c.state = .writing → ∃ turn < config.limits.maxRequests,
    c.writeDeadline ≤ turnStart δ start config (turn + 1) - 1000 - 3 * δ ∧
    c.writeDeadline ≤ c.readDeadline + milliseconds config.timeouts.writeTimeout + 1000 + 5 * δ ∧
    clock ≤ c.writeDeadline + 1000 + δ ∧
    (c.closeAfterWrite = false → c.result.requestsServed = turn + 1)
  closed : c.state = .closed →
    clock ≤ turnStart δ start config config.limits.maxRequests ∧
    clock ≤ c.readDeadline + milliseconds config.timeouts.writeTimeout + 2000 + 8 * δ

/-- A configuration that the constructor accepts, and a delay. -/
structure Timely (δ : Int) (timeouts : ConnectionTimeouts) : Prop where
  delay : 0 ≤ δ
  read : 0 ≤ milliseconds timeouts.readTimeout
  keepAlive : 0 ≤ milliseconds timeouts.keepAliveTimeout
  write : 0 ≤ milliseconds timeouts.writeTimeout

theorem turnStart_succ
    (δ start : Int)
    (config : ConnectionConfig)
    (n : ℕ) :
    turnStart δ start config (n + 1) =
      turnStart δ start config n + milliseconds config.timeouts.keepAliveTimeout +
        milliseconds config.timeouts.readTimeout + milliseconds config.timeouts.writeTimeout +
        3000 + 9 * δ := by
  simp only [turnStart, cycle, Nat.cast_add, Nat.cast_one]
  ring

theorem turnStart_mono
    (start : Int)
    (htimely : Timely δ config.timeouts) :
    Monotone (turnStart δ start config) := by
  refine monotone_nat_of_le_succ (fun n => ?_)
  have hsucc := turnStart_succ δ start config n
  have hdelay := htimely.delay
  have hread := htimely.read
  have hkeep := htimely.keepAlive
  have hwrite := htimely.write
  omega

/-- A read deadline lies before the time that is left for sending a response. -/
theorem readDue_le
    (start : Int)
    (c : Connection)
    (htimely : Timely δ config.timeouts) :
    readDue δ start config c ≤ turnStart δ start config (c.result.requestsServed + 1) -
      milliseconds config.timeouts.writeTimeout - 2000 - 8 * δ := by
  have hdelay := htimely.delay
  have hread := htimely.read
  rw [turnStart_succ]
  unfold readDue
  cases c.readPhase <;> dsimp only <;> omega

namespace LifeInv

/-- A response is queued within its turn. -/
theorem of_queue
    (htimely : Timely δ config.timeouts)
    {base : Connection}
    (hconfig : base.config = config)
    {turn : ℕ}
    (hturn : turn < config.limits.maxRequests)
    {now : Int}
    (hnow : now ≤ turnStart δ start config (turn + 1) -
      milliseconds config.timeouts.writeTimeout - 1000 - 3 * δ)
    (hread : now ≤ base.readDeadline + 1000 + 5 * δ)
    (response : HttpResponse)
    {keepAlive : Bool}
    (reason : ConnectionEndReason)
    (hserved : keepAlive = true → base.result.requestsServed = turn + 1) :
    LifeInv δ start config (base.queueResponse order now response keepAlive reason).1 now where
  config_eq := hconfig
  reading := by simp [queueResponse]
  parsing := by simp [queueResponse]
  writing := by
    intro _
    have hdelay := htimely.delay
    have hwrite := htimely.write
    refine ⟨turn, hturn, ?_, ?_, ?_, by simpa [queueResponse] using hserved⟩ <;>
    · simp only [queueResponse, hconfig]
      omega
  closed := by simp [queueResponse]

theorem of_finish
    (hconfig : c.config = config)
    (hclock : clock ≤ turnStart δ start config config.limits.maxRequests)
    (hread : clock ≤ c.readDeadline + milliseconds config.timeouts.writeTimeout + 2000 + 8 * δ)
    (reason : ConnectionEndReason) :
    LifeInv δ start config (c.finish reason) clock where
  config_eq := hconfig
  reading := by simp [finish]
  parsing := by simp [finish]
  writing := by simp [finish]
  closed := fun _ => ⟨hclock, hread⟩

theorem advance
    (h : LifeInv δ start config c clock)
    (n : ℕ) :
    LifeInv δ start config (c.advance n) clock :=
  ⟨h.config_eq, h.reading, h.parsing, h.writing, h.closed⟩

/-- Bytes arrive in time; the first bytes of a request give it the read timeout. -/
theorem receive
    (h : LifeInv δ start config c clock)
    (htimely : Timely δ config.timeouts)
    (hstate : c.state = .reading)
    {now : Int}
    (hnow : now ≤ c.readDeadline + 1000 + δ)
    (bytes : Bytes) :
    LifeInv δ start config (c.receive bytes now) now := by
  obtain ⟨hdue, _⟩ := h.reading hstate
  have hconfig := h.config_eq
  have hdelay := htimely.delay
  have hread := htimely.read
  cases hphase : c.readPhase with
  | keepAlive =>
      have hreceive : c.receive bytes now = { c with
          result := { c.result with bytesRead := c.result.bytesRead + bytes.length }
          readPhase := .request
          readDeadline := now + milliseconds c.config.timeouts.readTimeout
          parser := c.parser.feed bytes
          state := .parsing } := by
        simp [Connection.receive, hphase, beginRequestTimeout]
      rw [hreceive]
      simp only [readDue, hphase] at hdue
      refine ⟨hconfig, by simp, fun _ => ⟨?_, ?_, by simp⟩, by simp, by simp⟩
      · simp only [readDue, hconfig]
        omega
      · simp only [hconfig]
        omega
  | request =>
      have hreceive : c.receive bytes now = { c with
          result := { c.result with bytesRead := c.result.bytesRead + bytes.length }
          parser := c.parser.feed bytes
          state := .parsing } := by
        simp [Connection.receive, hphase]
      rw [hreceive]
      refine ⟨hconfig, by simp, fun _ => ⟨hdue, hnow, ?_⟩, by simp, by simp⟩
      simp [hphase]

/-- A parse step notices bytes that are there already. -/
theorem notice
    (h : LifeInv δ start config c clock)
    (htimely : Timely δ config.timeouts)
    (hstate : c.state = .parsing)
    {now : Int}
    (hnow : now ≤ clock + δ) :
    (c.noticeBuffered now).config = config ∧
      (c.noticeBuffered now).readDeadline ≤ readDue δ start config (c.noticeBuffered now) ∧
      now ≤ (c.noticeBuffered now).readDeadline + 1000 + 2 * δ := by
  obtain ⟨hdue, hclock, hturn⟩ := h.parsing hstate
  have hconfig := h.config_eq
  have hdelay := htimely.delay
  have hread := htimely.read
  have hkeep := htimely.keepAlive
  unfold noticeBuffered
  split_ifs with hnotice
  · have hbegun := hturn hnotice.1
    refine ⟨hconfig, ?_, ?_⟩
    · simp only [beginRequestTimeout, readDue, hconfig]
      omega
    · simp only [beginRequestTimeout, hconfig]
      omega
  · exact ⟨hconfig, hdue, by omega⟩

/-- The time at which a parse step queues a response. -/
theorem parsed
    (h : LifeInv δ start config c clock)
    (htimely : Timely δ config.timeouts)
    (hstate : c.state = .parsing)
    {now later : Int}
    (hnow : now ≤ clock + δ)
    (hlater : later ≤ now + δ) :
    later ≤ turnStart δ start config (c.result.requestsServed + 1) -
        milliseconds config.timeouts.writeTimeout - 1000 - 3 * δ ∧
      later ≤ (c.noticeBuffered now).readDeadline + 1000 + 5 * δ := by
  obtain ⟨_, hdue, hclock⟩ := h.notice htimely hstate hnow
  have hle := readDue_le start (c.noticeBuffered now) htimely
  have hserved : (c.noticeBuffered now).result = c.result := by
    obtain ⟨phase, deadline, hnotice⟩ := noticeBuffered_eq c now
    rw [hnotice]
  have hdelay := htimely.delay
  rw [hserved] at hle
  constructor <;> omega

/-- A response has been sent in time. -/
theorem completeWrite
    (h : LifeInv δ start config c clock)
    (htimely : Timely δ config.timeouts)
    (hstate : c.state = .writing)
    {now : Int}
    (hnow : now ≤ c.writeDeadline + 1000 + δ) :
    LifeInv δ start config (c.completeWrite now) now := by
  obtain ⟨turn, hturn, hdeadline, hread, _, hserved⟩ := h.writing hstate
  have hdelay := htimely.delay
  have hkeep := htimely.keepAlive
  have hend := turnStart_mono start htimely (Nat.succ_le_of_lt hturn)
  unfold Connection.completeWrite
  dsimp only
  split_ifs with hclose
  · have hbefore : now ≤ turnStart δ start config (turn + 1) := by omega
    refine of_finish ?_ (hbefore.trans hend) ?_ _
    · exact h.config_eq
    · dsimp only
      omega
  · have hcount := hserved (Bool.eq_false_of_not_eq_true hclose)
    refine ⟨h.config_eq, by simp, fun _ => ?_, by simp, by simp⟩
    simp only [beginKeepAliveTimeout, readDue, h.config_eq, hcount]
    refine ⟨?_, ?_, fun _ => ?_⟩ <;> omega

variable (hserved : c.state ≠ .closed → (c.state = .writing → c.closeAfterWrite = false) →
  c.result.requestsServed < config.limits.maxRequests)

include hserved in
/-- A prompt round keeps a connection within its turns. -/
theorem step
    (h : LifeInv δ start config c clock)
    (htimely : Timely δ config.timeouts)
    (hdoes : Does handler order env c (c', word))
    (hnow : env.now ≤ clock + δ)
    (hlater : env.later ≤ env.now + allowance word + δ) :
    LifeInv δ start config c' env.later := by
  have hdelay := htimely.delay
  have hwrite := htimely.write
  cases hdoes with
  | readInterrupted hstate harm =>
      have hend := later_le_of_armed [] harm rfl (by simpa using hlater)
      refine ⟨h.config_eq, fun _ => ⟨(h.reading hstate).1, by omega⟩, ?_, ?_, ?_⟩ <;> simp [hstate]
  | received hstate harm =>
      have hend := later_le_of_armed [] harm rfl (by simpa using hlater)
      exact h.receive htimely hstate hend _
  | timedOut hstate hphase hexpired =>
      obtain ⟨hdue, hclock⟩ := h.reading hstate
      have hend := later_le_of_expired hexpired rfl hlater
      have hle := readDue_le start c htimely
      exact of_queue htimely h.config_eq (hserved (by simp [hstate]) (by simp [hstate]))
        (by omega) (by omega) _ _ (by simp)
  | needsMore hstate =>
      obtain ⟨hconfig, hdue, hclock⟩ := h.notice htimely hstate hnow
      have hquiet : env.later ≤ env.now + δ := by simpa [allowance] using hlater
      refine ⟨hconfig, fun _ => ⟨hdue, ?_⟩, by simp, by simp, by simp⟩
      change env.later ≤ (c.noticeBuffered env.now).readDeadline + 1000 + 3 * δ
      omega
  | refused hstate _ hqueued =>
      have hquiet : env.later ≤ env.now + δ := by simpa [allowance] using hlater
      subst hqueued
      obtain ⟨hqueued, hread⟩ := h.parsed htimely hstate hnow hquiet
      refine of_queue htimely ?_ (hserved (by simp [hstate]) (by simp [hstate])) hqueued ?_
        _ _ (by simp)
      · exact (h.notice htimely hstate hnow).1
      · exact hread
  | answered hstate _ hqueued =>
      have hquiet : env.later ≤ env.now + δ := by simpa [allowance] using hlater
      have hcount : (c.noticeBuffered env.now).result = c.result := by
        obtain ⟨phase, deadline, hnotice⟩ := noticeBuffered_eq c env.now
        rw [hnotice]
      subst hqueued
      rw [answer_eq]
      obtain ⟨hqueued, hread⟩ := h.parsed htimely hstate hnow hquiet
      refine of_queue htimely ?_ (hserved (by simp [hstate]) (by simp [hstate])) hqueued ?_
        _ _ (fun _ => ?_)
      · exact (h.notice htimely hstate hnow).1
      · exact hread
      · simp [hcount]
  | sendInterrupted hstate harm =>
      have hend := later_le_of_armed [] harm rfl (by simpa using hlater)
      obtain ⟨turn, hturn, hdeadline, hread, _, hcount⟩ := h.writing hstate
      refine ⟨h.config_eq, ?_, ?_, fun _ => ⟨turn, hturn, hdeadline, hread, hend, hcount⟩, ?_⟩ <;>
        simp [hstate]
  | sentPart hstate harm =>
      have hend := later_le_of_armed [] harm rfl (by simpa using hlater)
      obtain ⟨turn, hturn, hdeadline, hread, _, hcount⟩ := h.writing hstate
      refine ⟨h.config_eq, ?_, ?_, fun _ => ⟨turn, hturn, hdeadline, hread, hend, hcount⟩, ?_⟩ <;>
        simp [hstate, Connection.advance]
  | sentAll hstate harm =>
      have hend := later_le_of_armed [] harm rfl (by simpa using hlater)
      exact (h.advance _).completeWrite htimely hstate hend
  | ended hends =>
      rcases later_le_of_ends hends hlater with ⟨hstate, hend⟩ | ⟨hstate, hend⟩
      · obtain ⟨hdue, hclock⟩ := h.reading hstate
        have hle := readDue_le start c htimely
        have hlimit := hserved (by simp [hstate]) (by simp [hstate])
        have hturn := turnStart_mono start htimely (Nat.succ_le_of_lt hlimit)
        have hbefore :
            env.later ≤ turnStart δ start config (c.result.requestsServed + 1) := by omega
        exact of_finish h.config_eq (hbefore.trans hturn) (by omega) _
      · obtain ⟨turn, hlimit, hdeadline, hread, hclock, _⟩ := h.writing hstate
        have hturn := turnStart_mono start htimely (Nat.succ_le_of_lt hlimit)
        have hbefore : env.later ≤ turnStart δ start config (turn + 1) := by omega
        exact of_finish h.config_eq (hbefore.trans hturn) (by omega) _

include hserved in
/-- What the turns say about the clock. -/
theorem clock_le
    (h : LifeInv δ start config c clock)
    (htimely : Timely δ config.timeouts) :
    clock ≤ turnStart δ start config config.limits.maxRequests ∧
      clock ≤ c.readDeadline + milliseconds config.timeouts.writeTimeout + 2000 + 8 * δ := by
  have hdelay := htimely.delay
  have hwrite := htimely.write
  have hle := readDue_le start c htimely
  have hturn : ∀ {turn : ℕ}, turn < config.limits.maxRequests →
      turnStart δ start config (turn + 1) ≤ turnStart δ start config config.limits.maxRequests :=
    fun hlimit => turnStart_mono start htimely (Nat.succ_le_of_lt hlimit)
  cases hstate : c.state with
  | reading =>
      obtain ⟨hdue, hclock⟩ := h.reading hstate
      have hend := hturn (hserved (by simp [hstate]) (by simp [hstate]))
      constructor <;> omega
  | parsing =>
      obtain ⟨hdue, hclock, _⟩ := h.parsing hstate
      have hend := hturn (hserved (by simp [hstate]) (by simp [hstate]))
      constructor <;> omega
  | writing =>
      obtain ⟨turn, hlimit, hdeadline, hread, hclock, _⟩ := h.writing hstate
      have hend := hturn hlimit
      constructor <;> omega
  | closed => exact h.closed hstate

end LifeInv

end Lifetime

section Results

variable {maxHeaderBytes maxBodyBytes : Nat} {fd now later : Int} {config : ConnectionConfig}
  {c₀ : Connection} {s s' : Timed} {trace : List Event}

theorem timely_of_make
    (hmake : make fd config maxHeaderBytes maxBodyBytes now later = .ok c₀)
    (hdelay : 0 ≤ δ) :
    Timely δ config.timeouts := by
  obtain ⟨hread, hkeep, hwrite⟩ := timeouts_pos hmake
  refine ⟨hdelay, ?_, ?_, ?_⟩ <;>
  · unfold milliseconds
    omega

theorem lifeInv_make
    (hmake : make fd config maxHeaderBytes maxBodyBytes now later = .ok c₀)
    (htimely : Timely δ config.timeouts)
    (hlater : later ≤ now + δ) :
    LifeInv δ now config c₀ later := by
  have hdelay := htimely.delay
  have hread := htimely.read
  have hkeep := htimely.keepAlive
  have hwrite := htimely.write
  have hfirst : turnStart δ now config 0 = now := by simp [turnStart]
  unfold make at hmake
  split_ifs at hmake with hbad hfd
  · cases hmake
    refine ⟨rfl, fun _ => ⟨?_, ?_⟩, by simp, by simp, by simp⟩
    · simp only [readDue, hfirst]
      omega
    · dsimp only
      omega
  · cases hmake
    have hturn := turnStart_mono now htimely
      (Nat.one_le_iff_ne_zero.2 (fun hzero => hbad (Or.inr (Or.inr (Or.inr hzero)))))
    have hsucc := turnStart_succ δ now config 0
    rw [Nat.zero_add] at hsucc
    refine ⟨rfl, by simp, by simp, by simp, fun _ => ⟨?_, ?_⟩⟩
    · omega
    · dsimp only
      omega

/-- A prompt round is a round under a clock. -/
theorem PromptStep.timed
    (h : PromptStep δ handler order s word s') :
    TimedStep handler order s word s' := by
  obtain ⟨hopen, env, hpermitted, hclock, _, hnow, _, hround⟩ := h
  exact ⟨hopen, env, hpermitted, hclock, hnow, hround⟩

theorem PromptStep.does
    (h : PromptStep δ handler order s word s') :
    Step handler order s.connection word s'.connection ∧
      ∃ env, Does handler order env s.connection (s'.connection, word) ∧
        env.now ≤ s.clock + δ ∧ env.later ≤ env.now + allowance word + δ ∧
        s'.clock = env.later := by
  obtain ⟨hopen, env, hpermitted, _, hnow, _, hlater, hround⟩ := h
  unfold round at hround
  cases hround
  exact ⟨⟨hopen, env, hpermitted, rfl⟩, env, does_step _ handler order env hopen, hnow, hlater, rfl⟩

theorem lifeInv_of_run
    (hmake : make fd config maxHeaderBytes maxBodyBytes now later = .ok c₀)
    (htimely : Timely δ config.timeouts)
    (hlater : later ≤ now + δ)
    (hrun : Run (PromptStep δ handler order) (Timed.start c₀ now later) trace s) :
    RunInv trace s.connection ∧ LifeInv δ now config s.connection s.clock := by
  refine hrun.invariant
    (fun trace s => RunInv trace s.connection ∧ LifeInv δ now config s.connection s.clock)
    ⟨(runInv_make hmake).1, lifeInv_make hmake htimely hlater⟩ ?_
  rintro trace s word s' ⟨hinv, hlife⟩ hstep
  obtain ⟨hround, env, hdoes, hnow, hlater, hclock⟩ := hstep.does
  refine ⟨runInv_step hinv hround, ?_⟩
  rw [hclock]
  refine hlife.step ?_ htimely hdoes hnow hlater
  rw [← hlife.config_eq]
  exact hinv.servedOpen

/--
Whatever the client does, a connection is served for no longer than its configuration
allows for `max_requests` requests, and the response to a request has been sent, or
the connection closed, within the read and the write timeout from its first byte.
-/
theorem lifetime_bounded
    (hmake : make fd config maxHeaderBytes maxBodyBytes now later = .ok c₀)
    (hdelay : 0 ≤ δ)
    (hconstructed : now ≤ later ∧ later ≤ now + δ)
    (hrun : Run (PromptStep δ handler order) (Timed.start c₀ now later) trace s) :
    s.clock ≤ now + config.limits.maxRequests *
      (milliseconds config.timeouts.keepAliveTimeout + milliseconds config.timeouts.readTimeout +
        milliseconds config.timeouts.writeTimeout + 3000 + 9 * δ) ∧
    ∀ start, s.timeline.requestStart = some start →
      s.clock ≤ start + milliseconds config.timeouts.readTimeout +
        milliseconds config.timeouts.writeTimeout + 2000 + 8 * δ := by
  have htimely := timely_of_make hmake hdelay
  obtain ⟨hinv, hlife⟩ := lifeInv_of_run hmake htimely hconstructed.2 hrun
  have hserved := hinv.servedOpen
  rw [hlife.config_eq] at hserved
  obtain ⟨hbound, hread⟩ := hlife.clock_le hserved htimely
  refine ⟨hbound, fun start hstart => ?_⟩
  have htimed := hrun.mono (fun _ _ _ hstep => PromptStep.timed hstep)
  have hdeadline := ((deadlineInv_of_run hmake hconstructed.1 htimed).request start hstart).2
  omega

/-- The client of the sample connection sends its request nine seconds late. -/
def lateEnv : Env :=
  { sampleEnvs 0 with
    now := 1000
    later := 9000000000 }

/-- The connection is still within its time after that. -/
theorem lifetime_bounded_late :
    ∃ trace s, Run (PromptStep 1000 bareHandler .insertion) (Timed.start sampleConnection 0 0)
        trace s ∧ s.clock = 9000000000 ∧ s.timeline.requestStart = some 0 ∧
      s.clock ≤ 0 + 100 * (milliseconds 5000 + milliseconds 10000 + milliseconds 10000 + 3000 +
        9 * 1000) ∧
      s.clock ≤ 0 + milliseconds 10000 + milliseconds 10000 + 2000 + 8 * 1000 := by
  have hstep : PromptStep 1000 bareHandler .insertion (Timed.start sampleConnection 0 0)
      (round (Timed.start sampleConnection 0 0) bareHandler .insertion lateEnv).2
      (round (Timed.start sampleConnection 0 0) bareHandler .insertion lateEnv).1 := by
    refine ⟨by decide, lateEnv, ?_, by decide, by decide, by decide, by decide +kernel, rfl⟩
    intro hstate
    cases hstate
  have hrun := Run.refl.tail hstep
  obtain ⟨hbound, hrequest⟩ := lifetime_bounded sampleConnection_make (by decide)
    ⟨by decide, by decide⟩ hrun
  exact ⟨_, _, hrun, rfl, rfl, hbound, hrequest 0 rfl⟩

end Results

end Connection

end HttpServer
