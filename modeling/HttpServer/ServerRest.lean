import HttpServer.AcceptLoop
import HttpServer.Lib.Ranking

/-!
# The server comes to rest

The steps of the server are its own or come from outside (`OutsideStep`): a client
connects or goes away, a signal arrives, a system call is interrupted or fails, some
thread asks for shutdown, or a thread wakes up without having been notified.

`ServerState.rank` falls with every step of the server's own (`outside_or_rank_lt`)
and rises by a bounded amount with a step from outside.  So the server does no more
than a bounded number of steps for each thing that happens to it, in whatever order
its threads run, and comes to rest when nothing more happens.  What rest means is
the subject of `rest_leaves_no_client` and, after a request for shutdown, of
`shutdown_completes`.  To serve a connection is one step here.
-/

namespace HttpServer

open Transition Threads Ranking

universe u v

section Outside

variable {ω : Type u} {ρ : Type v} [DecidableEq ω] [DecidableEq ρ]

/-- The steps that somebody or something outside the server causes. -/
inductive OutsideStep (s : ServerState ω ρ) : ServerState ω ρ → Prop
  | environment {g : ServerShared}
      (henv : EnvironmentStep s.shared g) :
      OutsideStep s { s with shared := g }
  | spurious {q : QueueState (ServerThread ω ρ) Fd}
      (hwake : s.queue.SpuriousWake q) :
      OutsideStep s { s with queue := q }
  | pollInterrupted
      (hpc : s.acceptor = .polling) :
      OutsideStep s { s with acceptor := .checking }
  | pollFails
      (hpc : s.acceptor = .polling) :
      OutsideStep s { s with acceptor := .threw }
  | acceptInterrupted
      (hpc : s.acceptor = .accepting) :
      OutsideStep s s
  | acceptFails
      (hpc : s.acceptor = .accepting) :
      OutsideStep s { s with acceptor := .threw }
  | requestStarts {r : ρ}
      (hpc : s.request (.requester r) = .idle) :
      OutsideStep s (s.setRequest (.requester r) .exchanging)

/-- A step of the server's own threads. -/
def OwnStep (s : ServerState ω ρ) (word : List (ServerEvent ω ρ)) (s' : ServerState ω ρ) : Prop :=
  ServerStep s word s' ∧ ¬ OutsideStep s s'

/-- What a step from outside leaves alone. -/
theorem OutsideStep.frame
    {s s' : ServerState ω ρ}
    (h : OutsideStep s s') :
    s'.worker = s.worker ∧
    (s'.queue = s.queue ∨ s.queue.SpuriousWake s'.queue) ∧
    (s'.acceptor = s.acceptor ∨
      s.acceptor = .polling ∧ (s'.acceptor = .checking ∨ s'.acceptor = .threw) ∨
      s.acceptor = .accepting ∧ s'.acceptor = .threw) ∧
    ∀ t, s'.request t = s.request t ∨ s.request t = .idle := by
  cases h with
  | environment => exact ⟨rfl, Or.inl rfl, Or.inl rfl, fun _ => Or.inl rfl⟩
  | spurious hwake => exact ⟨rfl, Or.inr hwake, Or.inl rfl, fun _ => Or.inl rfl⟩
  | pollInterrupted hpc =>
      exact ⟨rfl, Or.inl rfl, Or.inr (Or.inl ⟨hpc, Or.inl rfl⟩), fun _ => Or.inl rfl⟩
  | pollFails hpc =>
      exact ⟨rfl, Or.inl rfl, Or.inr (Or.inl ⟨hpc, Or.inr rfl⟩), fun _ => Or.inl rfl⟩
  | acceptInterrupted => exact ⟨rfl, Or.inl rfl, Or.inl rfl, fun _ => Or.inl rfl⟩
  | acceptFails hpc =>
      exact ⟨rfl, Or.inl rfl, Or.inr (Or.inr ⟨hpc, rfl⟩), fun _ => Or.inl rfl⟩
  | @requestStarts r hpc =>
      refine ⟨rfl, Or.inl rfl, Or.inl rfl, fun t => ?_⟩
      by_cases ht : t = .requester r
      · exact Or.inr (ht ▸ hpc)
      · exact Or.inl (Function.update_of_ne ht _ _)

end Outside

section ServerRank

variable {ω : Type u} {ρ : Type v}

/-- The steps that the acceptor has left, and those it makes other threads take, where `n` is
the number of threads: a poll that finds nothing but the pipe is followed by the shutdown. -/
def AcceptorPc.rank (n : ℕ) : AcceptorPc → ℕ
  | .returned => 0
  | .joining => 1
  | .closingPool => 1
  | .stopping => 2 * n + 8
  | .requesting => 2 * n + 9
  | .threw => 4 * n + 18
  | .polled _ true => 4 * n + 18
  | .accepting => 4 * n + 19
  | .polled true false => 4 * n + 20
  | .polling => 4 * n + 21
  | .checking => 4 * n + 22
  | .polled false false => 4 * n + 23
  | .dispatched _ _ => 4 * n + 23
  | .dispatching _ _ _ => 4 * n + 24
  | .pushReturned _ _ _ _ => 4 * n + 25
  | .pushing _ _ => 4 * n + 26
  | .counted _ => 4 * n + 41
  | .accepted _ => 4 * n + 42

/-- The steps that a call to `request_shutdown` has left, with those of its `close`. -/
def RequestPc.rank (n : ℕ) : RequestPc → ℕ
  | .idle => 0
  | .exchanging => 2 * n + 8
  | .closing => 2
  | .writing => 1

theorem WorkerStep.work_lt
    {w : ω}
    {g g' : ServerShared}
    {pc pc' : WorkerPc}
    {word : List (ServerEvent ω ρ)}
    (h : WorkerStep w g pc word g' pc') :
    pc'.work < pc.work ∧ g'.backlog = g.backlog := by
  cases h <;> exact ⟨by simp [WorkerPc.work], rfl⟩

theorem RequestStep.rank_lt
    {g g' : ServerShared}
    {pc pc' : RequestPc}
    (h : RequestStep g pc g' pc')
    (n : ℕ) :
    pc'.rank n < pc.rank n ∧ g'.backlog = g.backlog := by
  cases h <;> exact ⟨by simp [RequestPc.rank], rfl⟩

/-- A step of the acceptor is an interruption or a failure, or lowers the rank. -/
theorem AcceptorStep.rank_lt
    {g g' : ServerShared}
    {pc pc' : AcceptorPc}
    {word : List (ServerEvent ω ρ)}
    (h : AcceptorStep g pc word g' pc')
    (n : ℕ) :
    (g' = g ∧ (pc = .polling ∧ (pc' = .checking ∨ pc' = .threw) ∨
      pc = .accepting ∧ (pc' = .accepting ∨ pc' = .threw))) ∨
    24 * g'.backlog + pc'.rank n < 24 * g.backlog + pc.rank n := by
  cases h with
  | pollInterrupted => exact Or.inl ⟨rfl, Or.inl ⟨rfl, Or.inl rfl⟩⟩
  | pollFails => exact Or.inl ⟨rfl, Or.inl ⟨rfl, Or.inr rfl⟩⟩
  | acceptInterrupted => exact Or.inl ⟨rfl, Or.inr ⟨rfl, Or.inl rfl⟩⟩
  | acceptFails => exact Or.inl ⟨rfl, Or.inr ⟨rfl, Or.inr rfl⟩⟩
  | pollReturns hready =>
      right
      by_cases hpipe : 0 < g.pipe
      · simp [hpipe, AcceptorPc.rank]
      · have hbacklog : 0 < g.backlog := hready.resolve_right hpipe
        simp [hpipe, hbacklog, AcceptorPc.rank]
  | accepts number hbacklog =>
      right
      simp only [AcceptorPc.rank]
      omega
  | serveOneReturns =>
      right
      split_ifs <;> simp [AcceptorPc.rank, ServerShared.destroy]
  | loopEnds =>
      right
      simp only [AcceptorPc.rank]
      omega
  | loopPolls | listenerReady | nothingReady | countsAccepted | destroysItem | countsDispatch =>
      right
      simp [AcceptorPc.rank, ServerShared.destroy]

variable [Fintype ω] [Fintype ρ]

/-- The steps that the server has left; every client that waits for `accept` makes for some. -/
def ServerState.rank (s : ServerState ω ρ) : ℕ :=
  24 * s.shared.backlog + s.acceptor.rank (Fintype.card (ServerThread ω ρ)) + s.queue.rank +
    total WorkerPc.work s.worker +
    total (RequestPc.rank (Fintype.card (ServerThread ω ρ))) s.request

variable [DecidableEq ω] [DecidableEq ρ] {s s' : ServerState ω ρ}

/-- A step from outside raises the rank by what one client or one request makes for. -/
theorem OutsideStep.rank_le
    (h : OutsideStep s s') :
    s'.rank ≤ s.rank + (2 * Fintype.card (ServerThread ω ρ) + 24) := by
  cases h with
  | environment henv =>
      cases henv <;> simp only [ServerState.rank] <;> omega
  | spurious hwake =>
      have hle := hwake.rank_le
      simp only [ServerState.rank]
      omega
  | pollInterrupted hpc =>
      simp only [ServerState.rank, hpc, AcceptorPc.rank]
      omega
  | pollFails hpc =>
      simp only [ServerState.rank, hpc, AcceptorPc.rank]
      omega
  | acceptInterrupted => exact Nat.le_add_right _ _
  | acceptFails hpc =>
      simp only [ServerState.rank, hpc, AcceptorPc.rank]
      omega
  | @requestStarts r hpc =>
      have htotal := total_update (RequestPc.rank (Fintype.card (ServerThread ω ρ))) s.request
        (.requester r) .exchanging
      simp only [ServerState.rank, ServerState.setRequest, hpc, RequestPc.rank] at htotal ⊢
      omega

/-- What a call returns to its thread is paid for by the call. -/
theorem Delivery.rank_le
    {q : QueueState (ServerThread ω ρ) Fd}
    {word : List (QueueEvent (ServerThread ω ρ) Fd)}
    (h : Delivery s q word s') :
    s'.rank + s.queue.rank ≤ s.rank + q.rank + (word.map QueueEvent.work).sum := by
  cases h with
  | quiet =>
      simp only [ServerState.rank]
      omega
  | accepted hpc | rejected hpc =>
      simp only [ServerState.rank, hpc, AcceptorPc.rank]
      omega
  | @popped w item hpc =>
      have htotal := total_update WorkerPc.work s.worker w (.popped item)
      simp [ServerState.rank, ServerState.setWorker, QueueEvent.work, hpc, WorkerPc.work]
        at htotal ⊢
      omega
  | @drained w hpc =>
      have htotal := total_update WorkerPc.work s.worker w .exited
      simp [ServerState.rank, ServerState.setWorker, QueueEvent.work, hpc, WorkerPc.work]
        at htotal ⊢
      omega
  | @requestClosed t hpc =>
      have htotal := total_update (RequestPc.rank (Fintype.card (ServerThread ω ρ))) s.request
        t .writing
      simp [ServerState.rank, ServerState.setRequest, QueueEvent.work, hpc, RequestPc.rank]
        at htotal ⊢
      omega
  | poolClosed hpc =>
      simp only [ServerState.rank, hpc, AcceptorPc.rank]
      omega

/-- The request that the acceptor makes on its way out, from `poll` or after an exception. -/
theorem rank_requesting_lt
    (hpc : s.acceptor.rank (Fintype.card (ServerThread ω ρ)) =
      4 * Fintype.card (ServerThread ω ρ) + 18) :
    ServerState.rank { s.setRequest .acceptor .exchanging with acceptor := .requesting } <
      s.rank := by
  have htotal := total_update (RequestPc.rank (Fintype.card (ServerThread ω ρ))) s.request
    .acceptor .exchanging
  rw [ServerState.rank, ServerState.rank, hpc]
  simp only [ServerState.setRequest, AcceptorPc.rank]
  rw [RequestPc.rank] at htotal
  omega

/-- Every step of the server's own threads lowers the rank. -/
theorem outside_or_rank_lt
    (hcalls : CallsInv s)
    {word : List (ServerEvent ω ρ)}
    (hstep : ServerStep s word s') :
    OutsideStep s s' ∨ s'.rank < s.rank := by
  cases hstep with
  | environment henv => exact Or.inl (.environment henv)
  | queueMoves hmove =>
      have hdelivery := hcalls.delivery hmove
      rcases hmove.rank_lt with ⟨rfl, hwake⟩ | hless
      · exact Or.inl (.spurious hwake)
      · have hle := hdelivery.rank_le
        exact Or.inr (by omega)
  | acceptor hstep =>
      rcases hstep.rank_lt (Fintype.card (ServerThread ω ρ)) with
        ⟨rfl, ⟨hpc, rfl | rfl⟩ | ⟨hpc, rfl | rfl⟩⟩ | hless
      · exact Or.inl (.pollInterrupted hpc)
      · exact Or.inl (.pollFails hpc)
      · rw [← hpc]
        exact Or.inl (.acceptInterrupted hpc)
      · exact Or.inl (.acceptFails hpc)
      · right
        simp only [ServerState.rank]
        omega
  | @worker w _ g pc hstep =>
      obtain ⟨hless, hbacklog⟩ := hstep.work_lt
      have htotal := total_update WorkerPc.work s.worker w pc
      right
      simp only [ServerState.rank, ServerState.setWorker]
      omega
  | @request t g pc hstep =>
      obtain ⟨hless, hbacklog⟩ := hstep.rank_lt (Fintype.card (ServerThread ω ρ))
      have htotal := total_update (RequestPc.rank (Fintype.card (ServerThread ω ρ))) s.request t pc
      right
      simp only [ServerState.rank, ServerState.setRequest]
      omega
  | @callsPush client hpc =>
      have hcall := total_rank_update (s := s.queue) (t := .acceptor) rfl
        (.pushReady client.moved.moved)
      right
      simp [ServerState.rank, ServerState.call, QueueState.rank, QueueState.move, hpc,
        AcceptorPc.rank, QueuePc.rank] at hcall ⊢
      omega
  | @callsPop w hpc =>
      have htotal := total_update WorkerPc.work s.worker w .popping
      have hcall := total_rank_update (s := s.queue) (t := .worker w) rfl .popReady
      right
      simp [ServerState.rank, ServerState.call, ServerState.setWorker, QueueState.rank,
        QueueState.move, hpc, WorkerPc.work, QueuePc.rank] at htotal hcall ⊢
      omega
  | requestStarts hpc => exact Or.inl (.requestStarts hpc)
  | pipeReady hpc => exact Or.inr (rank_requesting_lt (by rw [hpc]; rfl))
  | destructs hpc => exact Or.inr (rank_requesting_lt (by rw [hpc]; rfl))
  | @exchangesFirst t hpc =>
      have htotal := total_update (RequestPc.rank (Fintype.card (ServerThread ω ρ))) s.request
        t .closing
      have hcall := total_rank_update (s := s.queue) (t := t) rfl .closeReady
      right
      simp [ServerState.rank, ServerState.call, ServerState.setRequest, QueueState.rank,
        QueueState.move, hpc, RequestPc.rank, QueuePc.rank] at htotal hcall ⊢
      omega
  | requestReturns hpc =>
      right
      simp only [ServerState.rank, hpc, AcceptorPc.rank]
      omega
  | closesPool hpc =>
      have hcall := total_rank_update (s := s.queue) (t := .acceptor) rfl .closeReady
      right
      simp [ServerState.rank, ServerState.call, QueueState.rank, QueueState.move, hpc,
        AcceptorPc.rank, QueuePc.rank] at hcall ⊢
      omega
  | joins hpc =>
      right
      simp only [ServerState.rank, hpc, AcceptorPc.rank]
      omega

end ServerRank

section Pipe

variable {ω : Type u} {ρ : Type v}

theorem AcceptorStep.pipe_eq
    {g g' : ServerShared}
    {pc pc' : AcceptorPc}
    {word : List (ServerEvent ω ρ)}
    (h : AcceptorStep g pc word g' pc') :
    g'.pipe = g.pipe := by
  cases h <;> rfl

theorem WorkerStep.pipe_eq
    {w : ω}
    {g g' : ServerShared}
    {pc pc' : WorkerPc}
    {word : List (ServerEvent ω ρ)}
    (h : WorkerStep w g pc word g' pc') :
    g'.pipe = g.pipe := by
  cases h <;> rfl

/-- The program points of `request_shutdown` between setting the flag and the pipe. -/
def RequestPc.notifies : RequestPc → Bool
  | .closing => true
  | .writing => true
  | _ => false

theorem notifies_update
    [DecidableEq ω]
    [DecidableEq ρ]
    {s : ServerState ω ρ}
    {t u : ServerThread ω ρ}
    {pc : RequestPc}
    (hkept : (s.request t).notifies = true → pc.notifies = true)
    (hu : (s.request u).notifies = true) :
    (Function.update s.request t pc u).notifies = true := by
  by_cases hut : u = t
  · subst hut
    rw [Function.update_self]
    exact hkept hu
  · rwa [Function.update_of_ne hut]

variable [Fintype ω] [Fintype ρ] [DecidableEq ω] [DecidableEq ρ] {s s' : ServerState ω ρ}

/-- Nobody reads from the pipe. -/
theorem ServerStep.pipe_le
    (hcalls : CallsInv s)
    {word : List (ServerEvent ω ρ)}
    (hstep : ServerStep s word s') :
    s.shared.pipe ≤ s'.shared.pipe := by
  cases hstep with
  | environment henv => cases henv <;> simp
  | queueMoves hmove => rw [(hcalls.delivery hmove).shared_eq]
  | acceptor hstep => exact hstep.pipe_eq.ge
  | worker hstep => exact hstep.pipe_eq.ge
  | @request t _ _ hstep =>
      generalize s.request t = pc at hstep
      cases hstep <;> simp
  | _ => exact le_rfl

/-- A thread between the flag and the pipe stays there until it has written. -/
theorem ServerStep.notifies
    (hcalls : CallsInv s)
    {word : List (ServerEvent ω ρ)}
    (hstep : ServerStep s word s')
    {t : ServerThread ω ρ}
    (ht : (s.request t).notifies = true) :
    (s'.request t).notifies = true ∨ 0 < s'.shared.pipe := by
  cases hstep with
  | queueMoves hmove =>
      have hdelivery := hcalls.delivery hmove
      generalize List.foldl _ _ _ = after at hdelivery ⊢
      cases hdelivery with
      | requestClosed => exact Or.inl (notifies_update (fun _ => rfl) ht)
      | _ => exact Or.inl ht
  | @request u g pc hstep =>
      generalize hbefore : s.request u = before at hstep
      cases hstep with
      | exchangesAgain =>
          refine Or.inl (notifies_update (fun hu => ?_) ht)
          rw [hbefore] at hu
          cases hu
      | writesPipe => exact Or.inr (Nat.succ_pos _)
      | pipeFull hfull => exact Or.inr hfull
  | requestStarts hpc => exact Or.inl (notifies_update (fun hu => by rw [hpc] at hu; cases hu) ht)
  | pipeReady hpc =>
      refine Or.inl (notifies_update (fun hu => ?_) ht)
      rw [hcalls.acceptor.resolve_right (by simp [hpc])] at hu
      cases hu
  | destructs hpc =>
      refine Or.inl (notifies_update (fun hu => ?_) ht)
      rw [hcalls.acceptor.resolve_right (by simp [hpc])] at hu
      cases hu
  | exchangesFirst => exact Or.inl (notifies_update (fun _ => rfl) ht)
  | _ => exact Or.inl ht

/-- Who sets the flag goes on to the pipe. -/
theorem ServerStep.flag_rises
    (hcalls : CallsInv s)
    {word : List (ServerEvent ω ρ)}
    (hstep : ServerStep s word s')
    (hflag : s'.shared.shutdownRequested = true) :
    s.shared.shutdownRequested = true ∨ ∃ t, s'.request t = .closing := by
  cases hstep with
  | environment henv => exact Or.inl (henv.flag_eq.symm.trans hflag)
  | queueMoves hmove =>
      rw [(hcalls.delivery hmove).shared_eq] at hflag
      exact Or.inl hflag
  | acceptor hstep => exact Or.inl (hstep.flag_eq.symm.trans hflag)
  | worker hstep => exact Or.inl (hstep.flag_eq.symm.trans hflag)
  | request hstep => exact Or.inl (hstep.flag_eq.symm.trans hflag)
  | @exchangesFirst t =>
      refine Or.inr ⟨t, ?_⟩
      simp [ServerState.call, ServerState.setRequest]
  | _ => exact Or.inl hflag

/-- The thread that has set the flag is on its way to the pipe, or there is a byte in it. -/
def PipeInv (s : ServerState ω ρ) : Prop :=
  s.shared.shutdownRequested = true →
    0 < s.shared.pipe ∨ ∃ t, (s.request t).notifies = true

theorem PipeInv.step
    (h : PipeInv s)
    (hcalls : CallsInv s)
    {word : List (ServerEvent ω ρ)}
    (hstep : ServerStep s word s') :
    PipeInv s' := by
  intro hflag
  rcases hstep.flag_rises hcalls hflag with hbefore | ⟨t, ht⟩
  · rcases h hbefore with hpos | ⟨t, ht⟩
    · exact Or.inl (lt_of_lt_of_le hpos (hstep.pipe_le hcalls))
    · exact (hstep.notifies hcalls ht).symm.imp_right (fun ht' => ⟨t, ht'⟩)
  · exact Or.inr ⟨t, by rw [ht]; rfl⟩

theorem pipeInv_of_run
    {q : BoundedQueue Fd}
    {trace : List (ServerEvent ω ρ)}
    (hrun : Run ServerStep (ServerState.start ω ρ q) trace s) :
    PipeInv s := by
  refine (hrun.invariant (fun _ s => CallsInv s ∧ PipeInv s) ⟨callsInv_start q, ?_⟩ ?_).2
  · intro hflag
    cases hflag
  · rintro _ s word s' ⟨hcalls, hpipe⟩ hstep
    exact ⟨hcalls.step hstep, hpipe.step hcalls hstep⟩

/-- A thread that has set the flag stays in `close` until the queue has been closed. -/
theorem ServerStep.closing
    (hcalls : CallsInv s)
    (hclosed : ClosedInv s)
    {word : List (ServerEvent ω ρ)}
    (hstep : ServerStep s word s')
    {t : ServerThread ω ρ}
    (ht : s.request t = .closing) :
    s'.request t = .closing ∨ s'.queue.shared.closed = true := by
  have hother : ∀ {u pc}, s.request u ≠ .closing →
      Function.update s.request u pc t = .closing := by
    intro u pc hu
    have htu : t ≠ u := fun heq => hu (heq ▸ ht)
    rwa [Function.update_of_ne htu]
  cases hstep with
  | queueMoves hmove =>
      have hdelivery := hcalls.delivery hmove
      have hstays := hmove.effect.closed_stays
      generalize List.foldl _ _ _ = after at hdelivery ⊢
      cases hdelivery with
      | requestClosed =>
          exact Or.inr (hstays (hclosed.notifying _ (by rw [hmove.of_closeReturned]; rfl)))
      | _ => exact Or.inl ht
  | @request u g pc hstep =>
      refine Or.inl (hother (fun hu => ?_))
      rw [hu] at hstep
      cases hstep
  | requestStarts hpc => exact Or.inl (hother (by simp [hpc]))
  | pipeReady hpc =>
      exact Or.inl (hother (by rw [hcalls.acceptor.resolve_right (by simp [hpc])]; simp))
  | destructs hpc =>
      exact Or.inl (hother (by rw [hcalls.acceptor.resolve_right (by simp [hpc])]; simp))
  | @exchangesFirst u hpc => exact Or.inl (hother (by simp [hpc]))
  | _ => exact Or.inl ht

/-- Once the flag is set and nobody is in `request_shutdown`, the queue has been closed. -/
theorem closed_of_flag
    {q : BoundedQueue Fd}
    {trace : List (ServerEvent ω ρ)}
    (hrun : Run ServerStep (ServerState.start ω ρ q) trace s)
    (hflag : s.shared.shutdownRequested = true)
    (hidle : ∀ t, s.request t = .idle) :
    s.queue.shared.closed = true := by
  have hclosing : s.shared.shutdownRequested = true →
      s.queue.shared.closed = true ∨ ∃ t, s.request t = .closing := by
    refine (hrun.invariant (fun trace s => Run ServerStep (ServerState.start ω ρ q) trace s ∧
      (s.shared.shutdownRequested = true →
        s.queue.shared.closed = true ∨ ∃ t, s.request t = .closing)) ⟨.refl, nofun⟩ ?_).2
    rintro trace s word s' ⟨hrun, h⟩ hstep
    refine ⟨hrun.tail hstep, fun hflag => ?_⟩
    have hcalls := (queueRun_of_run hrun).1
    rcases hstep.flag_rises hcalls hflag with hbefore | hsome
    · rcases h hbefore with hclosed | ⟨t, ht⟩
      · exact Or.inl (hstep.closed_stays hcalls hclosed)
      · rcases hstep.closing hcalls (closedInv_of_run hrun) ht with ht' | hclosed
        · exact Or.inr ⟨t, ht'⟩
        · exact Or.inl hclosed
    · exact Or.inr hsome
  refine (hclosing hflag).resolve_right ?_
  rintro ⟨t, ht⟩
  rw [hidle t] at ht
  cases ht

end Pipe

section Rest

variable {ω : Type u} {ρ : Type v} [DecidableEq ω] [DecidableEq ρ]

/-- No thread of the server has a step of its own. -/
def ServerState.Rests (s : ServerState ω ρ) : Prop :=
  ∀ word s', ¬ OwnStep s word s'

variable {s s' : ServerState ω ρ} {word : List (ServerEvent ω ρ)}

theorem OwnStep.of_queue
    (hstep : ServerStep s word s')
    {t : ServerThread ω ρ}
    (hmoved : s'.queue.pc t ≠ s.queue.pc t)
    (hnotified : ¬ s.queue.SpuriousWake s'.queue) :
    OwnStep s word s' := by
  refine ⟨hstep, fun houtside => ?_⟩
  rcases houtside.frame.2.1 with hsame | hwake
  · exact hmoved (by rw [hsame])
  · exact hnotified hwake

theorem OwnStep.of_request
    (hstep : ServerStep s word s')
    {t : ServerThread ω ρ}
    (hbusy : s.request t ≠ .idle)
    (hmoved : s'.request t ≠ s.request t) :
    OwnStep s word s' :=
  ⟨hstep, fun houtside => (houtside.frame.2.2.2 t).elim hmoved hbusy⟩

/-- `poll` and `accept` are the calls that may be interrupted or fail. -/
theorem OwnStep.of_acceptor
    (hstep : ServerStep s word s')
    (hmoved : s'.acceptor ≠ s.acceptor)
    (hsucceeds : s.acceptor ≠ .polling ∧ s.acceptor ≠ .accepting ∨
      s'.acceptor ≠ .checking ∧ s'.acceptor ≠ .threw) :
    OwnStep s word s' := by
  refine ⟨hstep, fun houtside => ?_⟩
  rcases houtside.frame.2.2.1 with hsame | ⟨hpc, hpc'⟩ | ⟨hpc, hpc'⟩
  · exact hmoved hsame
  · rcases hsucceeds with ⟨hne, _⟩ | ⟨hne, hne'⟩
    · exact hne hpc
    · exact hpc'.elim hne hne'
  · rcases hsucceeds with ⟨_, hne⟩ | ⟨_, hne⟩
    · exact hne hpc
    · exact hne hpc'

/-- The acceptor has no step of its own that `poll` or `accept` could not spoil. -/
theorem ServerState.Rests.not_acceptorStep
    (h : s.Rests)
    {pc pc' : AcceptorPc}
    (hpc : s.acceptor = pc)
    {g : ServerShared}
    (hmoved : pc' ≠ pc)
    (hsucceeds : pc ≠ .polling ∧ pc ≠ .accepting ∨ pc' ≠ .checking ∧ pc' ≠ .threw) :
    ¬ AcceptorStep s.shared pc word g pc' := by
  subst hpc
  exact fun hstep => h _ _ (.of_acceptor (.acceptor hstep) hmoved hsucceeds)

variable [Fintype ω] [Fintype ρ]

/-- An unaided step that uses up work is one of the server's own. -/
theorem OwnStep.of_work_lt
    (hstep : Unaided s word s')
    (hless : s'.work < s.work) :
    OwnStep s word s' := by
  refine ⟨hstep.step, fun houtside => ?_⟩
  obtain ⟨hworker, hqueue, _⟩ := houtside.frame
  rcases hqueue with hsame | hwake
  · rw [ServerState.work, ServerState.work, hworker, hsame] at hless
    exact lt_irrefl _ hless
  · exact hstep.notified hwake

namespace ServerState.Rests

/-- At rest every worker waits for an item or has left its loop. -/
theorem worker
    (h : s.Rests)
    (hcalls : CallsInv s)
    (w : ω) :
    s.worker w = .exited ∨ s.queue.pc (.worker w) = .popWait := by
  by_contra hneither
  push Not at hneither
  obtain ⟨word, s', hstep, hless⟩ := exists_step_of_worker hcalls hneither.1 hneither.2
  exact h word s' (.of_work_lt hstep hless)

/-- At rest every call to the queue waits. -/
theorem call
    (h : s.Rests)
    (hcalls : CallsInv s)
    (t : ServerThread ω ρ) :
    (s.queue.pc t).phase.AtRest := by
  by_contra hbusy
  obtain ⟨word, q, hmove, hmoved⟩ := exists_move_of_not_atRest hbusy
  have hqueue := (hcalls.delivery hmove).queue_eq
  refine h _ _ (.of_queue (.queueMoves hmove) (t := t) ?_ ?_)
  · rw [hqueue]
    exact hmoved
  · rw [hqueue]
    exact not_spuriousWake (Or.inl hbusy) hmoved

/-- At rest nobody is in `close`. -/
theorem not_closing
    (h : s.Rests)
    (hcalls : CallsInv s)
    (t : ServerThread ω ρ) :
    (s.queue.pc t).method ≠ some .close := by
  intro hmethod
  have hrest := h.call hcalls t
  cases hpc : s.queue.pc t <;>
    simp [hpc, QueuePc.method, QueuePc.phase, QueuePhase.AtRest] at hmethod hrest

/-- At rest nobody is in `request_shutdown`. -/
theorem request
    (h : s.Rests)
    (hcalls : CallsInv s)
    (t : ServerThread ω ρ) :
    s.request t = .idle := by
  by_contra hbusy
  have hlocal : ∀ {g pc}, RequestStep s.shared (s.request t) g pc → pc ≠ s.request t → False := by
    intro g pc hstep hmoved
    refine h _ _ (.of_request (.request hstep) hbusy ?_)
    simpa [ServerState.setRequest] using hmoved
  cases hpc : s.request t with
  | idle => exact hbusy hpc
  | exchanging =>
      cases hflag : s.shared.shutdownRequested with
      | false =>
          refine h _ _ (.of_request (.exchangesFirst hpc hflag) hbusy ?_)
          simp [ServerState.call, ServerState.setRequest, hpc]
      | true =>
          have hstep := RequestStep.exchangesAgain hflag
          rw [← hpc] at hstep
          exact hlocal hstep (by simp [hpc])
  | closing =>
      refine h.not_closing hcalls t ?_
      rw [hcalls.method, ServerState.method, hpc]
      rfl
  | writing =>
      have hstep := RequestStep.writesPipe (g := s.shared)
      rw [← hpc] at hstep
      exact hlocal hstep (by simp [hpc])

/-- At rest the acceptor waits for a client, or `serve_forever` has returned. -/
theorem acceptor
    [Nonempty ω]
    {capacity : Nat}
    {q : BoundedQueue Fd}
    {trace : List (ServerEvent ω ρ)}
    (hmake : BoundedQueue.make capacity = .ok q)
    (hrun : Run ServerStep (ServerState.start ω ρ q) trace s)
    (h : s.Rests) :
    (s.acceptor = .polling ∧ s.shared.backlog = 0 ∧ s.shared.pipe = 0) ∨
      (s.acceptor = .accepting ∧ s.shared.backlog = 0) ∨ s.acceptor = .returned := by
  have hcalls := (queueRun_of_run hrun).1
  have hother : ∀ {pc pc' word g}, s.acceptor = pc → (pc ≠ .polling ∧ pc ≠ .accepting) →
      pc' ≠ pc → AcceptorStep s.shared pc word g pc' → False :=
    fun hpc hcall hmoved hstep => h.not_acceptorStep hpc hmoved (Or.inl hcall) hstep
  cases hpc : s.acceptor with
  | checking =>
      cases hflag : s.shared.shutdownRequested with
      | false => exact (hother hpc (by simp) (by simp) (.loopPolls hflag)).elim
      | true => exact (hother hpc (by simp) (by simp) (.loopEnds hflag)).elim
  | polling =>
      refine Or.inl ⟨rfl, ?_⟩
      by_contra hready
      refine h.not_acceptorStep hpc ?_ (Or.inr ?_) (.pollReturns ?_)
      · simp
      · simp
      · omega
  | polled listener pipe =>
      cases pipe with
      | true =>
          refine (h _ _ (.of_acceptor (.pipeReady hpc) ?_ (Or.inl ?_))).elim <;> simp [hpc]
      | false =>
          cases listener with
          | true => exact (hother hpc (by simp) (by simp) .listenerReady).elim
          | false => exact (hother hpc (by simp) (by simp) .nothingReady).elim
  | accepting =>
      refine Or.inr (Or.inl ⟨rfl, ?_⟩)
      by_contra hsome
      obtain ⟨number, hnumber, hfresh⟩ := s.shared.os.exists_fresh
      refine h.not_acceptorStep hpc ?_ (Or.inr ?_)
        (.accepts number (Nat.pos_of_ne_zero hsome) hnumber hfresh) <;> simp
  | accepted => exact (hother hpc (by simp) (by simp) .countsAccepted).elim
  | counted =>
      refine (h _ _ (.of_acceptor (.callsPush hpc) ?_ (Or.inl ?_))).elim <;> simp [hpc]
  | pushing =>
      obtain ⟨word, s', hstep, hless⟩ := exists_step_of_pushing hmake hrun hpc
      exact (h word s' (.of_work_lt hstep hless)).elim
  | pushReturned => exact (hother hpc (by simp) (by simp) .destroysItem).elim
  | dispatching => exact (hother hpc (by simp) (by simp) .countsDispatch).elim
  | dispatched =>
      refine (hother hpc (by simp) ?_ .serveOneReturns).elim
      split_ifs <;> simp
  | threw =>
      refine (h _ _ (.of_acceptor (.destructs hpc) ?_ (Or.inl ?_))).elim <;> simp [hpc]
  | requesting =>
      refine (h _ _ (.of_acceptor (.requestReturns hpc (h.request hcalls .acceptor)) ?_
        (Or.inl ?_))).elim <;> simp [hpc]
  | stopping =>
      refine (h _ _ (.of_acceptor (.closesPool hpc) ?_ (Or.inl ?_))).elim <;> simp [hpc]
  | closingPool =>
      refine (h.not_closing hcalls .acceptor ?_).elim
      rw [hcalls.method, method_acceptor (h.request hcalls .acceptor), hpc]
      rfl
  | joining =>
      obtain ⟨word, s', hstep, hmove⟩ := exists_step_of_joining hrun hpc
      rcases hmove with hmoved | hless
      · refine (h word s' (.of_acceptor hstep.step hmoved (Or.inl ?_))).elim
        simp [hpc]
      · exact (h word s' (.of_work_lt hstep hless)).elim
  | returned => exact Or.inr (Or.inr rfl)

theorem inPhase_eq_zero
    (h : s.Rests)
    (hcalls : CallsInv s)
    {k : QueuePhase}
    (hk : ¬ k.AtRest) :
    inPhase s.queue.pc k = 0 := by
  rw [inPhase_eq_zero_iff]
  rintro t rfl
  exact hk (h.call hcalls t)

/-- At rest nobody waits on a closed queue. -/
theorem exited_of_closed
    {q : BoundedQueue Fd}
    {trace : List (ServerEvent ω ρ)}
    (hrun : Run ServerStep (ServerState.start ω ρ q) trace s)
    (h : s.Rests)
    (hclosed : s.queue.shared.closed = true)
    (w : ω) :
    s.worker w = .exited := by
  obtain ⟨hcalls, hqueue⟩ := queueRun_of_run hrun
  refine (h.worker hcalls w).resolve_right (fun hwaits => ?_)
  have hone : 0 < inPhase s.queue.pc .popWait :=
    (inPhase_pos_iff _ _).2 ⟨.worker w, by rw [hwaits]; rfl⟩
  have hcloser := (wakeInv_of_run hqueue).closedPop hclosed hone
  rw [h.inPhase_eq_zero hcalls (by simp [QueuePhase.AtRest])] at hcloser
  exact lt_irrefl 0 hcloser

/-- At rest no client waits in the queue. -/
theorem queue
    [Nonempty ω]
    {capacity : Nat}
    {q : BoundedQueue Fd}
    {trace : List (ServerEvent ω ρ)}
    (hmake : BoundedQueue.make capacity = .ok q)
    (hrun : Run ServerStep (ServerState.start ω ρ q) trace s)
    (h : s.Rests) :
    s.queue.shared.queue = [] := by
  obtain ⟨_, rfl⟩ := (BoundedQueue.make_eq_ok_iff _ _).1 hmake
  obtain ⟨hcalls, hqueue⟩ := queueRun_of_run hrun
  have hexit := (running_of_run rfl hrun).2
  obtain ⟨w⟩ := ‹Nonempty ω›
  cases hclosed : s.queue.shared.closed with
  | true => exact (hexit.drained w (h.exited_of_closed hrun hclosed w)).2
  | false =>
      rcases h.worker hcalls w with hexited | hwaits
      · exact (hexit.drained w hexited).2
      · have hone : 0 < inPhase s.queue.pc .popWait :=
          (inPhase_pos_iff _ _).2 ⟨.worker w, by rw [hwaits]; rfl⟩
        have hitems := (wakeInv_of_run hqueue).items hclosed hone
        rw [h.inPhase_eq_zero hcalls (k := .pushNotify) (by simp [QueuePhase.AtRest]),
          h.inPhase_eq_zero hcalls (k := .popReady) (by simp [QueuePhase.AtRest])] at hitems
        exact List.length_eq_zero_iff.1 (Nat.le_zero.1 hitems)

/-- At rest every descriptor has been closed. -/
theorem table
    [Nonempty ω]
    {capacity : Nat}
    {q : BoundedQueue Fd}
    {trace : List (ServerEvent ω ρ)}
    (hmake : BoundedQueue.make capacity = .ok q)
    (hrun : Run ServerStep (ServerState.start ω ρ q) trace s)
    (h : s.Rests) :
    s.shared.os.table = [] := by
  have hempty := h.queue hmake hrun
  have hacceptor := h.acceptor hmake hrun
  obtain ⟨_, rfl⟩ := (BoundedQueue.make_eq_ok_iff _ _).1 hmake
  obtain ⟨⟨hcalls, _⟩, _, a, _, htracks⟩ := refines_of_run hrun rfl
  have hplace : placeNumbers s.acceptor.holdings (s.queue.pc .acceptor) = 0 := by
    rcases hacceptor with ⟨hpc, _⟩ | ⟨hpc, _⟩ | hpc <;>
    · rw [hcalls.acceptor_idle (by simp [hpc]) (by rw [hpc]; rfl), hpc]
      rfl
  have hworkers : ∀ w, placeNumbers (s.worker w).holdings (s.queue.pc (.worker w)) = 0 := by
    intro w
    rcases h.worker hcalls w with hpc | hpc
    · rw [hcalls.worker_idle (by rw [hpc]; rfl), hpc]
      rfl
    · have hpopping : s.worker w = .popping := by
        obtain ⟨_, heq, hpopping⟩ := hcalls.popping (t := .worker w) (by rw [hpc]; rfl)
        cases heq
        exact hpopping
      rw [hpc, hpopping]
      rfl
  have hnumbers := htracks.numbers_eq
  rw [numbers_holdings hcalls, hplace, hempty,
    Finset.sum_eq_zero (fun w _ => hworkers w)] at hnumbers
  have hnone : a.inUse = 0 := Multiset.map_eq_zero.1 (hnumbers.symm.trans rfl)
  exact (Multiset.coe_eq_zero _).1 (htracks.table.trans hnone)

end ServerState.Rests

/-- Until shutdown is requested every worker that rests waits in `pop`. -/
theorem ServerState.Rests.waits
    {q : BoundedQueue Fd}
    {trace : List (ServerEvent ω ρ)}
    (hopen : q.closed = false)
    (hrun : Run ServerStep (ServerState.start ω ρ q) trace s)
    (h : s.Rests)
    (hflag : s.shared.shutdownRequested = false)
    (w : ω) :
    s.queue.pc (.worker w) = .popWait := by
  obtain ⟨hrunning, hexit⟩ := running_of_run hopen hrun
  refine (h.worker (queueRun_of_run hrun).1 w).resolve_left (fun hexited => ?_)
  have hclosed := (hexit.drained w hexited).1
  simp [(hrunning hflag).opened] at hclosed

/-- Once shutdown has been requested and every request has returned, the pipe holds a byte. -/
theorem pipe_pos_of_flag
    {q : BoundedQueue Fd}
    {trace : List (ServerEvent ω ρ)}
    (hrun : Run ServerStep (ServerState.start ω ρ q) trace s)
    (hflag : s.shared.shutdownRequested = true)
    (hidle : ∀ t, s.request t = .idle) :
    0 < s.shared.pipe := by
  refine (pipeInv_of_run hrun hflag).resolve_right ?_
  rintro ⟨t, ht⟩
  rw [hidle t] at ht
  cases ht

/--
When the threads of the server have nothing left to do, every client that was
accepted has been closed.  Then the server has stopped; or the acceptor waits in `poll`,
where nothing is pending; or it waits in `accept` for another client than the one that
`poll` had reported, and a request for shutdown does not change that.
-/
theorem rest_leaves_no_client
    [Nonempty ω]
    {capacity : Nat}
    {q : BoundedQueue Fd}
    (hmake : BoundedQueue.make capacity = .ok q)
    {trace : List (ServerEvent ω ρ)}
    (hrun : Run ServerStep (ServerState.start ω ρ q) trace s)
    (hrests : s.Rests) :
    (s.shared.os.table = [] ∧ s.queue.shared.queue = [] ∧ ∀ t, s.request t = .idle) ∧
    (s.acceptor = .polling ∧ s.shared.backlog = 0 ∧ s.shared.pipe = 0 ∧
        s.shared.shutdownRequested = false ∧ (∀ w, s.queue.pc (.worker w) = .popWait) ∨
      s.acceptor = .accepting ∧ s.shared.backlog = 0 ∧
        (s.shared.shutdownRequested = false ∧ (∀ w, s.queue.pc (.worker w) = .popWait) ∨
          s.shared.shutdownRequested = true ∧ 0 < s.shared.pipe ∧ ∀ w, s.worker w = .exited) ∨
      s.acceptor = .returned ∧ ∀ w, s.worker w = .exited) := by
  have hidle := hrests.request (queueRun_of_run hrun).1
  refine ⟨⟨hrests.table hmake hrun, hrests.queue hmake hrun, hidle⟩, ?_⟩
  have hacceptor := hrests.acceptor hmake hrun
  obtain ⟨_, rfl⟩ := (BoundedQueue.make_eq_ok_iff _ _).1 hmake
  rcases hacceptor with ⟨hpc, hbacklog, hpipe⟩ | ⟨hpc, hbacklog⟩ | hpc
  · have hflag : s.shared.shutdownRequested = false := by
      by_contra hset
      have hpos := pipe_pos_of_flag hrun (Bool.eq_true_of_not_eq_false hset) hidle
      omega
    exact Or.inl ⟨hpc, hbacklog, hpipe, hflag, hrests.waits rfl hrun hflag⟩
  · refine Or.inr (Or.inl ⟨hpc, hbacklog, ?_⟩)
    cases hflag : s.shared.shutdownRequested with
    | false => exact Or.inl ⟨rfl, hrests.waits rfl hrun hflag⟩
    | true =>
        have hclosed := closed_of_flag hrun hflag hidle
        exact Or.inr ⟨rfl, pipe_pos_of_flag hrun hflag hidle,
          hrests.exited_of_closed hrun hclosed⟩
  · exact Or.inr (Or.inr ⟨hpc, (running_of_run rfl hrun).2.joined hpc⟩)

end Rest

section Alone

variable {ω : Type u} {ρ : Type v} [DecidableEq ω] [DecidableEq ρ]

/-- The runs from a state with `m` steps of the server's own and `k` from outside. -/
abbrev ServerCounted (start : ServerState ω ρ) (m k : ℕ) (s : ServerState ω ρ) : Prop :=
  CountedRun (fun s s' => ∃ word, OwnStep s word s')
    (fun s s' => ∃ word, ServerStep s word s' ∧ OutsideStep s s') start m k s

variable [Fintype ω] [Fintype ρ] {s s' : ServerState ω ρ} {m k : ℕ}

/-- An own step keeps what ties calls to threads, and lowers the rank. -/
theorem OwnStep.rank_lt
    (hcalls : CallsInv s)
    (hstep : ∃ word, OwnStep s word s') :
    CallsInv s' ∧ s'.rank < s.rank := by
  obtain ⟨word, hstep, hown⟩ := hstep
  exact ⟨hcalls.step hstep, (outside_or_rank_lt hcalls hstep).resolve_left hown⟩

/-- The server's own steps are bounded by its rank and the steps from outside. -/
theorem ServerCounted.add_rank_le
    (hcalls : CallsInv s)
    (hrun : ServerCounted s m k s') :
    m + s'.rank ≤ s.rank + k * (2 * Fintype.card (ServerThread ω ρ) + 24) := by
  refine hrun.own_add_le CallsInv ServerState.rank _ hcalls
    (fun _ _ => OwnStep.rank_lt) ?_
  rintro _ _ hcalls ⟨word, hstep, houtside⟩
  exact ⟨hcalls.step hstep, houtside.rank_le⟩

/--
In any order of their steps, the threads of the server take a bounded number of
steps for each thing that happens from outside: for each client that connects, each
request for shutdown, each failed or interrupted call and each spurious wake-up.
-/
theorem own_steps_bounded
    {capacity : Nat}
    {q : BoundedQueue Fd}
    (hmake : BoundedQueue.make capacity = .ok q)
    (hrun : ServerCounted (ServerState.start ω ρ q) m k s) :
    m ≤ 4 * Fintype.card (ServerThread ω ρ) + 22 + 3 * Fintype.card ω +
      k * (2 * Fintype.card (ServerThread ω ρ) + 24) := by
  obtain ⟨_, rfl⟩ := (BoundedQueue.make_eq_ok_iff _ _).1 hmake
  have hle := hrun.add_rank_le (callsInv_start _)
  have hstart : (ServerState.start ω ρ { capacity := capacity }).rank =
      4 * Fintype.card (ServerThread ω ρ) + 22 + 3 * Fintype.card ω := by
    simp [ServerState.rank, ServerState.start, QueueState.start, QueueState.rank, total,
      AcceptorPc.rank, QueuePc.rank, WorkerPc.work, RequestPc.rank, Nat.mul_comm]
  omega

/-- A client connects, and the acceptor polls once before and once after. -/
theorem own_steps_bounded_connects :
    ∃ s : ServerState Unit Unit,
      ServerCounted (ServerState.start Unit Unit { capacity := 1 }) 2 1 s ∧
      2 ≤ 4 * Fintype.card (ServerThread Unit Unit) + 22 + 3 * Fintype.card Unit +
        1 * (2 * Fintype.card (ServerThread Unit Unit) + 24) := by
  have hmake : BoundedQueue.make 1 = .ok ({ capacity := 1 } : BoundedQueue Fd) := rfl
  have hstart : ServerCounted (ServerState.start Unit Unit { capacity := 1 }) 0 0 _ := .refl
  have hpolling := hstart.own ⟨_, .of_acceptor (.acceptor (.loopPolls rfl))
    (by simp [ServerState.start]) (Or.inr (by simp))⟩
  have hclient := hpolling.outside ⟨_, .environment .connects, .environment .connects⟩
  have hpolled := hclient.own ⟨_, .of_acceptor (.acceptor (.pollReturns (Or.inl Nat.one_pos)))
    (by simp) (Or.inr (by simp))⟩
  exact ⟨_, hpolled, own_steps_bounded hmake hpolled⟩

variable {q : BoundedQueue Fd} {trace : List (ServerEvent ω ρ)}

omit [Fintype ω] [Fintype ρ] in
/-- A run with its steps counted goes on from a run. -/
theorem ServerCounted.exists_run
    (hrun : Run ServerStep (ServerState.start ω ρ q) trace s)
    (hmore : ServerCounted s m k s') :
    ∃ later, Run ServerStep (ServerState.start ω ρ q) later s' := by
  refine hmore.invariant (fun x => ∃ later, Run ServerStep (ServerState.start ω ρ q) later x)
    ⟨trace, hrun⟩ ?_ ?_
  · rintro x x' ⟨later, hx⟩ ⟨word, hstep⟩
    exact ⟨_, hx.tail hstep.1⟩
  · rintro x x' ⟨later, hx⟩ ⟨word, hstep, _⟩
    exact ⟨_, hx.tail hstep⟩

/-- Left alone, the server comes to rest. -/
theorem exists_rests
    (hcalls : CallsInv s) :
    ∃ m s', ServerCounted s m 0 s' ∧ s'.Rests := by
  have hstop : ∃ m s', ServerCounted s m 0 s' ∧ ∀ s'', ¬ ∃ word, OwnStep s' word s'' :=
    exists_stop CallsInv ServerState.rank (fun _ _ => OwnStep.rank_lt) s hcalls
  obtain ⟨m, s', hmore, hstop⟩ := hstop
  exact ⟨m, s', hmore, fun word s'' hstep => hstop s'' ⟨word, hstep⟩⟩

/-- The server as started comes to rest and waits for its first client. -/
theorem rest_leaves_no_client_started :
    ∃ (trace : List (ServerEvent Unit Unit)) (s : ServerState Unit Unit),
      Run ServerStep (ServerState.start Unit Unit { capacity := 1 }) trace s ∧ s.Rests ∧
      (s.shared.os.table = [] ∧ s.queue.shared.queue = [] ∧ ∀ t, s.request t = .idle) ∧
      (s.acceptor = .polling ∧ s.shared.backlog = 0 ∧ s.shared.pipe = 0 ∧
          s.shared.shutdownRequested = false ∧ (∀ w, s.queue.pc (.worker w) = .popWait) ∨
        s.acceptor = .accepting ∧ s.shared.backlog = 0 ∧
          (s.shared.shutdownRequested = false ∧ (∀ w, s.queue.pc (.worker w) = .popWait) ∨
            s.shared.shutdownRequested = true ∧ 0 < s.shared.pipe ∧ ∀ w, s.worker w = .exited) ∨
        s.acceptor = .returned ∧ ∀ w, s.worker w = .exited) := by
  have hmake : BoundedQueue.make 1 = .ok ({ capacity := 1 } : BoundedQueue Fd) := rfl
  obtain ⟨m, s, hmore, hrests⟩ :=
    exists_rests (callsInv_start (ω := Unit) (ρ := Unit) { capacity := 1 })
  obtain ⟨trace, hrun⟩ := hmore.exists_run Run.refl
  exact ⟨trace, s, hrun, hrests, rest_leaves_no_client hmake hrun hrests⟩

/-- The server's own steps take no client from the backlog but with `accept`. -/
theorem OwnStep.backlog
    (hcalls : CallsInv s)
    {word : List (ServerEvent ω ρ)}
    (h : OwnStep s word s') :
    s'.shared.backlog = s.shared.backlog ∨
      0 < s.shared.backlog ∧ ∃ client, s'.acceptor = .accepted client := by
  obtain ⟨hstep, hown⟩ := h
  cases hstep with
  | environment henv => exact absurd (.environment henv) hown
  | queueMoves hmove =>
      rw [(hcalls.delivery hmove).shared_eq]
      exact Or.inl rfl
  | acceptor hstep =>
      generalize s.acceptor = pc at hstep
      cases hstep with
      | accepts _ hpos => exact Or.inr ⟨hpos, _, rfl⟩
      | _ => exact Or.inl rfl
  | worker hstep => exact Or.inl hstep.work_lt.2
  | request hstep => exact Or.inl (hstep.rank_lt 0).2
  | _ => exact Or.inl rfl

end Alone

section Stops

variable {ω : Type u} {ρ : Type v}

/-- Shutdown has been requested by a signal, or some thread has called `request_shutdown`. -/
def ServerState.Asked (s : ServerState ω ρ) : Prop :=
  0 < s.shared.pipe ∨ s.shared.shutdownRequested = true ∨ ∃ t, s.request t ≠ .idle

/-- The acceptor is in `accept` or on its way there, and the client that `poll` has reported
is gone. -/
def ServerState.Stranded (s : ServerState ω ρ) : Prop :=
  s.acceptor.reported = true ∧ s.shared.backlog = 0

variable [DecidableEq ω] [DecidableEq ρ] {s s' : ServerState ω ρ}

theorem update_request_ne_idle
    {t u : ServerThread ω ρ}
    {pc : RequestPc}
    (hpc : pc ≠ .idle)
    (ht : s.request t ≠ .idle) :
    Function.update s.request u pc t ≠ .idle := by
  by_cases htu : t = u
  · subst htu
    rwa [Function.update_self]
  · rwa [Function.update_of_ne htu]

variable [Fintype ω] [Fintype ρ]

/-- A call to `request_shutdown` does not return before the flag is set. -/
theorem ServerStep.request_ne_idle
    (hcalls : CallsInv s)
    {word : List (ServerEvent ω ρ)}
    (hstep : ServerStep s word s')
    {t : ServerThread ω ρ}
    (ht : s.request t = .exchanging) :
    s'.request t ≠ .idle ∨ s'.shared.shutdownRequested = true := by
  have hne : s.request t ≠ .idle := by simp [ht]
  cases hstep with
  | queueMoves hmove =>
      have hdelivery := hcalls.delivery hmove
      generalize List.foldl _ _ _ = after at hdelivery ⊢
      cases hdelivery with
      | requestClosed => exact Or.inl (update_request_ne_idle (by simp) hne)
      | _ => exact Or.inl hne
  | @request u g pc hstep =>
      by_cases htu : t = u
      · subst htu
        rw [ht] at hstep
        cases hstep with
        | exchangesAgain hflag => exact Or.inr hflag
      · left
        simpa [ServerState.setRequest, htu] using hne
  | requestStarts => exact Or.inl (update_request_ne_idle (by simp) hne)
  | pipeReady => exact Or.inl (update_request_ne_idle (by simp) hne)
  | destructs => exact Or.inl (update_request_ne_idle (by simp) hne)
  | exchangesFirst => exact Or.inl (update_request_ne_idle (by simp) hne)
  | _ => exact Or.inl hne

theorem ServerState.Asked.step
    (h : s.Asked)
    (hcalls : CallsInv s)
    (hrunning : s.shared.shutdownRequested = false → Running s)
    {word : List (ServerEvent ω ρ)}
    (hstep : ServerStep s word s') :
    s'.Asked := by
  by_cases hflag' : s'.shared.shutdownRequested = true
  · exact Or.inr (Or.inl hflag')
  · have hflag := hstep.flag hcalls (Bool.eq_false_of_not_eq_true hflag')
    rcases h with hpos | hset | ⟨t, ht⟩
    · exact Or.inl (lt_of_lt_of_le hpos (hstep.pipe_le hcalls))
    · simp [hflag] at hset
    · have hexchanging := ((hrunning hflag).request t).resolve_left ht
      have hbusy := (hstep.request_ne_idle hcalls hexchanging).resolve_right hflag'
      exact Or.inr (Or.inr ⟨t, hbusy⟩)

variable {q : BoundedQueue Fd} {trace : List (ServerEvent ω ρ)}

/-- A server that was asked to shut down and rests has a byte in its pipe. -/
theorem ServerState.Asked.pipe_pos
    (h : s.Asked)
    (hrun : Run ServerStep (ServerState.start ω ρ q) trace s)
    (hidle : ∀ t, s.request t = .idle) :
    0 < s.shared.pipe := by
  rcases h with hpos | hset | ⟨t, ht⟩
  · exact hpos
  · exact pipe_pos_of_flag hrun hset hidle
  · exact absurd (hidle t) ht

/-- The server does not get into `accept` without a client of its own accord. -/
theorem OwnStep.stranded
    (hcalls : CallsInv s)
    {word : List (ServerEvent ω ρ)}
    (hstep : OwnStep s word s')
    (hstranded : s'.Stranded) :
    s.Stranded := by
  obtain ⟨hreported, hnone⟩ := hstranded
  have hbacklog : s'.shared.backlog = s.shared.backlog := by
    refine (hstep.backlog hcalls).resolve_right ?_
    rintro ⟨_, client, hpc⟩
    simp [hpc, AcceptorPc.reported] at hreported
  refine ⟨(hstep.1.reported hcalls hreported).resolve_right (by omega), ?_⟩
  rw [← hbacklog, hnone]

/-- On its own the server does not get out of it either. -/
theorem ServerState.Stranded.ownStep
    (h : s.Stranded)
    (hcalls : CallsInv s)
    {word : List (ServerEvent ω ρ)}
    (hstep : OwnStep s word s') :
    s'.Stranded := by
  obtain ⟨hreported, hnone⟩ := h
  have hbacklog := (hstep.backlog hcalls).resolve_right (by omega)
  refine ⟨?_, hbacklog.trans hnone⟩
  have hother : ∀ {pc}, s.acceptor = pc → pc.reported = false → False := by
    intro pc hpc hnot
    rw [hpc, hnot] at hreported
    cases hreported
  obtain ⟨hstep, hown⟩ := hstep
  cases hstep with
  | queueMoves hmove =>
      have hdelivery := hcalls.delivery hmove
      generalize List.foldl _ _ _ = after at hdelivery ⊢
      cases hdelivery with
      | accepted hpc => exact (hother hpc rfl).elim
      | rejected hpc => exact (hother hpc rfl).elim
      | poolClosed hpc => exact (hother hpc rfl).elim
      | _ => exact hreported
  | acceptor hstep =>
      generalize hpc : s.acceptor = pc at hstep
      cases hstep with
      | listenerReady => rfl
      | acceptInterrupted => rfl
      | accepts _ hpos => omega
      | acceptFails => exact absurd (.acceptFails hpc) hown
      | _ => exact (hother hpc rfl).elim
  | callsPush hpc => exact (hother hpc rfl).elim
  | pipeReady hpc => exact (hother hpc (by simp [AcceptorPc.reported])).elim
  | destructs hpc => exact (hother hpc rfl).elim
  | requestReturns hpc => exact (hother hpc rfl).elim
  | closesPool hpc => exact (hother hpc rfl).elim
  | joins hpc => exact (hother hpc rfl).elim
  | _ => exact hreported

/-- What the server keeps of its own accord, once it has been asked to shut down. -/
theorem ServerCounted.asked
    (hopen : q.closed = false)
    (hrun : Run ServerStep (ServerState.start ω ρ q) trace s)
    (hasked : s.Asked)
    {m : ℕ}
    (hmore : ServerCounted s m 0 s') :
    (∃ later, Run ServerStep (ServerState.start ω ρ q) later s') ∧ s'.Asked ∧
      (s'.Stranded ↔ s.Stranded) := by
  refine hmore.invariant_alone
    (fun x => (∃ later, Run ServerStep (ServerState.start ω ρ q) later x) ∧ x.Asked ∧
      (x.Stranded ↔ s.Stranded)) ⟨⟨trace, hrun⟩, hasked, Iff.rfl⟩ ?_
  rintro x x' ⟨⟨later, hx⟩, hx', hiff⟩ ⟨word, hstep⟩
  have hcalls := (queueRun_of_run hx).1
  refine ⟨⟨_, hx.tail hstep.1⟩, hx'.step hcalls (running_of_run hopen hx).1 hstep.1, ?_⟩
  rw [← hiff]
  exact ⟨fun h => hstep.stranded hcalls h, fun h => h.ownStep hcalls hstep⟩

/-- A server that was asked to shut down rests stopped, or in `accept` without a client. -/
theorem ServerState.Rests.stopped
    [Nonempty ω]
    {capacity : Nat}
    (hmake : BoundedQueue.make capacity = .ok q)
    (hrun : Run ServerStep (ServerState.start ω ρ q) trace s)
    (hasked : s.Asked)
    (h : s.Rests) :
    s.Stranded ∧ s.acceptor = .accepting ∨ ¬ s.Stranded ∧ s.acceptor = .returned := by
  have hpipe := hasked.pipe_pos hrun (h.request (queueRun_of_run hrun).1)
  rcases h.acceptor hmake hrun with ⟨_, _, hnone⟩ | ⟨hpc, hnone⟩ | hpc
  · omega
  · exact Or.inl ⟨⟨by rw [hpc]; rfl, hnone⟩, hpc⟩
  · refine Or.inr ⟨fun hstranded => ?_, hpc⟩
    simp [ServerState.Stranded, hpc, AcceptorPc.reported] at hstranded

/--
Once shutdown has been asked for, by a signal or by a thread that has called
`request_shutdown`, the threads take a bounded number of steps, in whatever order they run.
They do not come to rest before `serve_forever` has returned, every worker has left its
loop and every descriptor has been closed; unless `poll` had reported a client that was
gone when `accept` was to return it, in which case they come to rest in `accept`.
-/
theorem shutdown_completes
    [Nonempty ω]
    {capacity : Nat}
    (hmake : BoundedQueue.make capacity = .ok q)
    (hrun : Run ServerStep (ServerState.start ω ρ q) trace s)
    (hasked : s.Asked) :
    (∃ m s', ServerCounted s m 0 s' ∧ s'.Rests) ∧
    ∀ m s', ServerCounted s m 0 s' → m ≤ s.rank ∧
      (s'.Rests → s'.shared.os.table = [] ∧
        (¬ s.Stranded → s'.acceptor = .returned ∧ ∀ w, s'.worker w = .exited) ∧
        (s.Stranded → s'.acceptor = .accepting ∧ s'.shared.backlog = 0)) := by
  have hcalls := (queueRun_of_run hrun).1
  refine ⟨exists_rests hcalls, fun m s' hmore => ⟨?_, fun hrests => ?_⟩⟩
  · have hle := hmore.add_rank_le hcalls
    omega
  · have hopen : q.closed = false := by
      obtain ⟨_, rfl⟩ := (BoundedQueue.make_eq_ok_iff _ _).1 hmake
      rfl
    obtain ⟨⟨later, hlater⟩, hasked', hiff⟩ := hmore.asked hopen hrun hasked
    refine ⟨hrests.table hmake hlater, ?_⟩
    rw [← hiff]
    rcases hrests.stopped hmake hlater hasked' with ⟨hstranded, hpc⟩ | ⟨hnot, hpc⟩
    · exact ⟨fun hnot => absurd hstranded hnot, fun _ => ⟨hpc, hstranded.2⟩⟩
    · exact ⟨fun _ => ⟨hpc, (running_of_run hopen hlater).2.joined hpc⟩,
        fun hstranded => absurd hstranded hnot⟩

/-- A signal arrives while a client that `poll` has reported waits for `accept`. -/
theorem shutdown_completes_signal :
    ∃ (trace : List (ServerEvent Unit Unit)) (s : ServerState Unit Unit),
      Run ServerStep (ServerState.start Unit Unit { capacity := 1 }) trace s ∧
      s.acceptor = .accepting ∧ s.Asked ∧ ¬ s.Stranded ∧
      ∃ m s', ServerCounted s m 0 s' ∧ m ≤ s.rank ∧ s'.acceptor = .returned ∧
        (∀ w, s'.worker w = .exited) ∧ s'.shared.os.table = [] := by
  have hmake : BoundedQueue.make 1 = .ok ({ capacity := 1 } : BoundedQueue Fd) := rfl
  have hstart : Run ServerStep (ServerState.start Unit Unit { capacity := 1 }) [] _ := .refl
  have hpolled := ((hstart.tail (.environment .connects)).tail
    (.acceptor (.loopPolls rfl))).tail (.acceptor (.pollReturns (Or.inl Nat.one_pos)))
  have hsignal := (hpolled.tail (.acceptor .listenerReady)).tail (.environment .signals)
  have hasked : hsignal.target.Asked := Or.inl Nat.one_pos
  have hwaits : ¬ hsignal.target.Stranded := fun h => Nat.one_ne_zero h.2
  obtain ⟨⟨m, s', hmore, hrests⟩, hall⟩ := shutdown_completes hmake hsignal hasked
  obtain ⟨hle, hend⟩ := hall m s' hmore
  obtain ⟨htable, hstops, _⟩ := hend hrests
  obtain ⟨hreturned, hexited⟩ := hstops hwaits
  exact ⟨_, _, hsignal, rfl, hasked, hwaits, m, s', hmore, hle, hreturned, hexited, htable⟩

end Stops

end HttpServer
