import HttpServer.QueueWakeups
import HttpServer.Shutdown

/-!
# The accept loop and what can stop it

The acceptor blocks in `poll`, in `accept`, in the `push` of a dispatch and, on its
way out, when it joins the workers.  A call is over for good when no run of the
other threads ends it, without another client (`NeedsClient`).

`poll` returns once there is a byte in the pipe.  For `push` and for the joins,
`ServerState.work` counts the steps that the threads have left: some thread other
than the acceptor always has one, and needs nobody to wake it up spuriously.  What
remains is `accept`: the listener blocks, so the acceptor waits there when the
client that `poll` has reported is gone (`needsClient_iff`).

An exception of a `Connection` stays in its worker, and that of a refused dispatch
is thrown only before the flag is set, when no dispatch is refused.  So it is
`accept`, besides `poll`, whose failure ends `serve_forever` before shutdown.
-/

namespace HttpServer

open Transition Threads

universe u v

section QueueRank

variable {τ : Type v} {α : Type u}

/-- The steps that a call has left, and those it makes other threads take. -/
def QueuePc.rank (n : ℕ) : QueuePc α → ℕ
  | .idle => 0
  | .pushReady _ => 14
  | .pushWait _ => 13
  | .pushNotify _ => 2
  | .popReady => 2
  | .popWait => 1
  | .popNotify _ => 11
  | .closeReady => 2 * n + 5
  | .closeNotifyEmpty => 2 * n + 4
  | .closeNotifyFull => n + 2

/-- The steps that a worker has left with what `pop` returned to it. -/
def QueueEvent.work : QueueEvent τ α → ℕ
  | .popReturned _ _ => 9
  | _ => 0

/-- A thread that is woken checks its predicate once more. -/
theorem rank_wakePop
    (n : ℕ)
    (a b : QueuePc α)
    (h : wakePop a = some b) :
    b.rank n ≤ a.rank n + 1 := by
  obtain ⟨rfl, rfl⟩ := wakePop_eq_some_iff.1 h
  exact le_rfl

theorem rank_wakePush
    (n : ℕ)
    (a b : QueuePc α)
    (h : wakePush a = some b) :
    b.rank n ≤ a.rank n + 1 := by
  obtain ⟨item, rfl, rfl⟩ := wakePush_eq_some_iff.1 h
  exact le_rfl

variable [Fintype τ]

/-- An item in the queue makes for the steps of the worker that removes it. -/
def QueueState.rank (s : QueueState τ α) : ℕ :=
  11 * s.shared.queue.length + total (QueuePc.rank (Fintype.card τ)) s.pc

variable [DecidableEq τ] {s s' : QueueState τ α} {t : τ}

/-- The rank of the calls after one of them has gone on. -/
theorem total_rank_update
    {a : QueuePc α}
    (hpc : s.pc t = a)
    (b : QueuePc α) :
    total (QueuePc.rank (Fintype.card τ)) (Function.update s.pc t b) + a.rank (Fintype.card τ) =
      total (QueuePc.rank (Fintype.card τ)) s.pc + b.rank (Fintype.card τ) := by
  rw [← hpc]
  exact total_update _ s.pc t b

/-- A wake-up without notification makes for one more check. -/
theorem QueueState.SpuriousWake.rank_le
    (h : s.SpuriousWake s') :
    s'.rank ≤ s.rank + 1 := by
  obtain ⟨t, pc, hwake, rfl⟩ := h
  have htotal := total_rank_update (s := s) (t := t) rfl pc
  have hstep : pc.rank (Fintype.card τ) ≤ (s.pc t).rank (Fintype.card τ) + 1 :=
    hwake.elim (rank_wakePop _ _ _) (rank_wakePush _ _ _)
  simp only [QueueState.rank, QueueState.move]
  omega

/-- Any other step of a call lowers the rank, also counting what `pop` returns to a worker. -/
theorem QueueMove.rank_lt
    {word : List (QueueEvent τ α)}
    (h : QueueMove s word s') :
    (word = [] ∧ s.SpuriousWake s') ∨ s'.rank + (word.map QueueEvent.work).sum < s.rank := by
  unfold QueueState.rank
  cases h with
  | @pushWaits u item hpc =>
      have htotal := total_rank_update hpc (.pushWait item)
      simp [QueuePc.rank, QueueState.move] at htotal ⊢
      omega
  | @pushRejected u item hpc =>
      have htotal := total_rank_update hpc .idle
      simp [QueuePc.rank, QueueEvent.work, QueueState.move] at htotal ⊢
      omega
  | @pushInserts u item q hpc hsection =>
      obtain ⟨_, _, rfl⟩ := (BoundedQueue.pushSection_eq_inserted_iff _ _ _).1 hsection
      have htotal := total_rank_update hpc (.pushNotify item)
      simp [QueuePc.rank, QueueEvent.work, BoundedQueue.insert] at htotal ⊢
      omega
  | @pushNotifies u item pc hpc hnotify =>
      have htotal := total_rank_update hpc .idle
      have hwoken := hnotify.total_le (rank_wakePop (Fintype.card τ))
      simp [QueuePc.rank, QueueEvent.work] at htotal ⊢
      omega
  | @popWaits u hpc =>
      have htotal := total_rank_update hpc .popWait
      simp [QueuePc.rank, QueueState.move] at htotal ⊢
      omega
  | @popDrained u hpc =>
      have htotal := total_rank_update hpc .idle
      simp [QueuePc.rank, QueueEvent.work, QueueState.move] at htotal ⊢
      omega
  | @popRemoves u item q hpc hsection =>
      obtain ⟨hqueue, _⟩ := (BoundedQueue.popSection_eq_removed_iff _ _ _).1 hsection
      have htotal := total_rank_update hpc (.popNotify item)
      simp [QueuePc.rank, QueueEvent.work, hqueue] at htotal ⊢
      omega
  | @popNotifies u item pc hpc hnotify =>
      have htotal := total_rank_update hpc .idle
      have hwoken := hnotify.total_le (rank_wakePush (Fintype.card τ))
      simp [QueuePc.rank, QueueEvent.work] at htotal ⊢
      omega
  | @closes u hpc =>
      have htotal := total_rank_update hpc .closeNotifyEmpty
      simp [QueuePc.rank, QueueEvent.work, BoundedQueue.close] at htotal ⊢
      omega
  | @closeNotifiesEmpty u hpc =>
      have htotal := total_rank_update hpc .closeNotifyFull
      have hwoken := total_notifyAll_le (rank_wakePop (Fintype.card τ))
        (Function.update s.pc u .closeNotifyFull)
      simp [QueuePc.rank] at htotal ⊢
      omega
  | @closeNotifiesFull u hpc =>
      have htotal := total_rank_update hpc .idle
      have hwoken := total_notifyAll_le (rank_wakePush (Fintype.card τ))
        (Function.update s.pc u .idle)
      simp [QueuePc.rank, QueueEvent.work] at htotal ⊢
      omega
  | @spuriousPop u pc hwake => exact Or.inl ⟨rfl, u, pc, Or.inl hwake, rfl⟩
  | @spuriousPush u pc hwake => exact Or.inl ⟨rfl, u, pc, Or.inr hwake, rfl⟩

omit [Fintype τ] in
/-- A step of a thread that does not wait is not a spurious wake-up. -/
theorem not_spuriousWake
    (hrest : ¬ (s.pc t).phase.AtRest ∨ s.pc t = .idle)
    (hmoved : s'.pc t ≠ s.pc t) :
    ¬ s.SpuriousWake s' := by
  rintro ⟨u, pc, hwake, rfl⟩
  have htu : t = u := by
    by_contra htu
    exact hmoved (Function.update_of_ne htu _ _)
  subst htu
  rcases hwake with hwake | hwake
  · have hphase := (wakesFrom_wakePop.phases hwake).1
    rcases hrest with hbusy | hidle
    · exact hbusy (Or.inr (Or.inr hphase))
    · simp [hidle, wakePop] at hwake
  · have hphase := (wakesFrom_wakePush.phases hwake).1
    rcases hrest with hbusy | hidle
    · exact hbusy (Or.inr (Or.inl hphase))
    · simp [hidle, wakePush] at hwake

omit [Fintype τ] in
theorem not_spuriousWake_self :
    ¬ s.SpuriousWake s := by
  rintro ⟨u, pc, hwake, heq⟩
  have hpc : s.pc u = pc := by
    conv_lhs => rw [heq]
    exact Function.update_self u pc s.pc
  rw [← hpc] at hwake
  cases hu : s.pc u <;> simp [hu, wakePop, wakePush] at hwake

end QueueRank

section Progress

variable {ω : Type u} {ρ : Type v}

/-- The steps of `worker_loop` until the next call to `pop`. -/
def WorkerPc.work : WorkerPc → ℕ
  | .looping => 3
  | .popping => 0
  | .popped _ => 9
  | .active _ => 8
  | .serving _ _ => 7
  | .recording _ _ _ => 6
  | .leaving _ _ => 5
  | .unwinding _ _ => 6
  | .caught _ => 5
  | .finishing _ => 4
  | .exited => 0

/-- A worker that has removed a descriptor can go on until its next call. -/
theorem WorkerPc.exists_step
    (w : ω)
    (g : ServerShared)
    (pc : WorkerPc)
    (hbusy : 3 < pc.work) :
    ∃ (word : List (ServerEvent ω ρ)) (g' : ServerShared) (pc' : WorkerPc),
      WorkerStep w g pc word g' pc' ∧ g'.backlog = g.backlog ∧ pc'.work < pc.work := by
  cases pc with
  | looping => simp [WorkerPc.work] at hbusy
  | popping => simp [WorkerPc.work] at hbusy
  | exited => simp [WorkerPc.work] at hbusy
  | popped client => exact ⟨_, _, _, .countsActive, rfl, Nat.lt_succ_self _⟩
  | active client => exact ⟨_, _, _, .constructs, rfl, Nat.lt_succ_self _⟩
  | serving client connection =>
      exact ⟨_, _, _, @WorkerStep.serveReturns _ _ _ _ _ _ {}, rfl, Nat.lt_succ_self _⟩
  | recording client connection result =>
      exact ⟨_, _, _, .recordsResult, rfl, Nat.lt_succ_self _⟩
  | leaving client connection => exact ⟨_, _, _, .destroysConnection, rfl, Nat.lt_succ_self _⟩
  | unwinding client connection => exact ⟨_, _, _, .unwinds, rfl, Nat.lt_succ_self _⟩
  | caught client => exact ⟨_, _, _, .countsError, rfl, Nat.lt_succ_self _⟩
  | finishing client => exact ⟨_, _, _, .finishes, rfl, Nat.lt_succ_self _⟩

variable [Fintype ω] [Fintype ρ] [DecidableEq ω] [DecidableEq ρ]

/-- The steps that the threads have left in their calls and with their descriptors. -/
def ServerState.work (s : ServerState ω ρ) : ℕ :=
  s.queue.rank + total WorkerPc.work s.worker

/--
A step that needs nobody from outside: no client connects, no call of the acceptor
fails, and no thread wakes up that was not notified.
-/
structure Unaided (s : ServerState ω ρ) (word : List (ServerEvent ω ρ)) (s' : ServerState ω ρ) :
    Prop where
  step : ServerStep s word s'
  clients : s'.shared.backlog ≤ s.shared.backlog
  succeeds : s'.acceptor = .threw → s.acceptor = .threw
  notified : ¬ s.queue.SpuriousWake s'.queue

variable {s s' : ServerState ω ρ}

theorem Delivery.work_le
    {q : QueueState (ServerThread ω ρ) Fd}
    {word : List (QueueEvent (ServerThread ω ρ) Fd)}
    (h : Delivery s q word s') :
    s'.work ≤ q.rank + (word.map QueueEvent.work).sum + total WorkerPc.work s.worker := by
  cases h with
  | @popped w item hpc =>
      have htotal := total_update WorkerPc.work s.worker w (.popped item)
      simp [ServerState.work, ServerState.setWorker, QueueEvent.work, hpc, WorkerPc.work]
        at htotal ⊢
      omega
  | @drained w hpc =>
      have htotal := total_update WorkerPc.work s.worker w .exited
      simp [ServerState.work, ServerState.setWorker, QueueEvent.work, hpc, WorkerPc.work]
        at htotal ⊢
      omega
  | _ =>
      simp only [ServerState.work, ServerState.setRequest]
      omega

/-- A call to the queue that does not wait goes on. -/
theorem exists_step_of_call
    (hcalls : CallsInv s)
    {t : ServerThread ω ρ}
    (hbusy : ¬ (s.queue.pc t).phase.AtRest) :
    ∃ word s', Unaided s word s' ∧ s'.work < s.work := by
  obtain ⟨word, q, hmove, hmoved⟩ := exists_move_of_not_atRest hbusy
  have hdelivery := hcalls.delivery hmove
  have hnotified : ¬ s.queue.SpuriousWake q := not_spuriousWake (Or.inl hbusy) hmoved
  refine ⟨_, _, ⟨.queueMoves hmove, ?_, hdelivery.threw, ?_⟩, ?_⟩
  · rw [hdelivery.shared_eq]
  · rw [hdelivery.queue_eq]
    exact hnotified
  · have hqueue := hmove.rank_lt.resolve_left (fun hwake => hnotified hwake.2)
    have hall := hdelivery.work_le
    have hwork : s.work = s.queue.rank + total WorkerPc.work s.worker := rfl
    omega

/-- A worker that is in its loop and does not wait can go on. -/
theorem exists_step_of_worker
    (hcalls : CallsInv s)
    {w : ω}
    (hloop : s.worker w ≠ .exited)
    (hwait : s.queue.pc (.worker w) ≠ .popWait) :
    ∃ word s', Unaided s word s' ∧ s'.work < s.work := by
  by_cases hbusy : 3 < (s.worker w).work
  · obtain ⟨word, g, pc, hstep, hbacklog, hless⟩ :=
      WorkerPc.exists_step (ρ := ρ) w s.shared (s.worker w) hbusy
    refine ⟨word, _, ⟨.worker hstep, hbacklog.le, id, not_spuriousWake_self⟩, ?_⟩
    have htotal := total_update WorkerPc.work s.worker w pc
    simp only [ServerState.work, ServerState.setWorker]
    omega
  · cases hpc : s.worker w with
    | looping =>
        have hidle : s.queue.pc (.worker w) = .idle := hcalls.worker_idle (by rw [hpc]; rfl)
        refine ⟨_, _, ⟨.callsPop hpc, le_rfl, id, ?_⟩, ?_⟩
        · refine not_spuriousWake (t := .worker w) (Or.inr hidle) ?_
          simp [ServerState.call, ServerState.setWorker, QueueState.move, hidle]
        · have htotal := total_update WorkerPc.work s.worker w .popping
          have hcall := total_rank_update hidle .popReady
          simp [ServerState.work, ServerState.call, ServerState.setWorker, QueueState.move,
            QueueState.rank, WorkerPc.work, QueuePc.rank, hpc] at htotal hcall ⊢
          omega
    | popping =>
        have hmethod : (s.queue.pc (.worker w)).method = some .pop := by
          rw [hcalls.method, method_worker (hcalls.worker w), hpc]
          rfl
        refine exists_step_of_call hcalls (t := .worker w) ?_
        rintro (hphase | hphase | hphase) <;>
          cases hcall : s.queue.pc (.worker w) <;> simp_all [QueuePc.phase, QueuePc.method]
    | exited => exact absurd hpc hloop
    | _ => simp [hpc, WorkerPc.work] at hbusy

end Progress

section Closed

variable {ω : Type u} {ρ : Type v}

theorem QueueEffect.closed_stays
    {τ : Type u}
    {α : Type v}
    {q q' : BoundedQueue α}
    {word : List (QueueEvent τ α)}
    (h : QueueEffect q word q')
    (hclosed : q.closed = true) :
    q'.closed = true := by
  cases h with
  | closed => rfl
  | _ => exact hclosed

/-- The program points of `close` after its critical section. -/
def QueuePc.hasClosed {α : Type u} : QueuePc α → Bool
  | .closeNotifyEmpty => true
  | .closeNotifyFull => true
  | _ => false

/-- A thread gets to these program points by closing the queue. -/
theorem QueueMove.hasClosed
    {τ : Type u}
    {α : Type v}
    [DecidableEq τ]
    {s s' : QueueState τ α}
    {word : List (QueueEvent τ α)}
    (h : QueueMove s word s')
    (t : τ)
    (ht : (s'.pc t).hasClosed = true) :
    (s.pc t).hasClosed = true ∨ s'.shared.closed = true := by
  have hupdate : ∀ {u a b}, s.pc u = a → (b.hasClosed = true → a.hasClosed = true) →
      (Function.update s.pc u b t).hasClosed = true → (s.pc t).hasClosed = true := by
    intro u a b hpc hab hb
    by_cases htu : t = u
    · subst htu
      rw [Function.update_self] at hb
      rw [hpc]
      exact hab hb
    · rwa [Function.update_of_ne htu] at hb
  cases h with
  | closes => exact Or.inr rfl
  | pushNotifies hpc hnotify =>
      rw [hnotify.apply_eq (f := QueuePc.hasClosed) (apply_wakePop rfl)] at ht
      exact Or.inl (hupdate hpc (by simp [QueuePc.hasClosed]) ht)
  | popNotifies hpc hnotify =>
      rw [hnotify.apply_eq (f := QueuePc.hasClosed) (apply_wakePush fun _ => rfl)] at ht
      exact Or.inl (hupdate hpc (by simp [QueuePc.hasClosed]) ht)
  | closeNotifiesEmpty hpc =>
      rw [notifyAll_apply_eq (f := QueuePc.hasClosed) (apply_wakePop rfl)] at ht
      exact Or.inl (hupdate hpc (fun _ => rfl) ht)
  | closeNotifiesFull hpc =>
      rw [notifyAll_apply_eq (f := QueuePc.hasClosed) (apply_wakePush fun _ => rfl)] at ht
      exact Or.inl (hupdate hpc (fun _ => rfl) ht)
  | spuriousPop hwake =>
      have hsame := apply_wakePop (f := QueuePc.hasClosed) rfl _ _ hwake
      exact Or.inl (hupdate rfl (fun hb => hsame.symm.trans hb) ht)
  | spuriousPush hwake =>
      have hsame := apply_wakePush (f := QueuePc.hasClosed) (fun _ => rfl) _ _ hwake
      exact Or.inl (hupdate rfl (fun hb => hsame.symm.trans hb) ht)
  | pushWaits hpc => exact Or.inl (hupdate hpc (by simp [QueuePc.hasClosed]) ht)
  | pushRejected hpc => exact Or.inl (hupdate hpc (by simp [QueuePc.hasClosed]) ht)
  | pushInserts hpc => exact Or.inl (hupdate hpc (by simp [QueuePc.hasClosed]) ht)
  | popWaits hpc => exact Or.inl (hupdate hpc (by simp [QueuePc.hasClosed]) ht)
  | popDrained hpc => exact Or.inl (hupdate hpc (by simp [QueuePc.hasClosed]) ht)
  | popRemoves hpc => exact Or.inl (hupdate hpc (by simp [QueuePc.hasClosed]) ht)

theorem QueueMove.of_closeReturned
    {τ : Type u}
    {α : Type v}
    [DecidableEq τ]
    {s s' : QueueState τ α}
    {t : τ}
    (h : QueueMove s [.closeReturned t] s') :
    s.pc t = .closeNotifyFull := by
  cases h with
  | closeNotifiesFull hpc => exact hpc

theorem AcceptorStep.ne_joining
    {g g' : ServerShared}
    {pc pc' : AcceptorPc}
    {word : List (ServerEvent ω ρ)}
    (h : AcceptorStep g pc word g' pc') :
    pc' ≠ .joining := by
  cases h with
  | serveOneReturns => split_ifs <;> simp
  | _ => simp

/-- What a thread that has come back from `close` knows. -/
structure ClosedInv (s : ServerState ω ρ) : Prop where
  notifying : ∀ t, (s.queue.pc t).hasClosed = true → s.queue.shared.closed = true
  joining : s.acceptor = .joining → s.queue.shared.closed = true

variable [Fintype ω] [Fintype ρ] [DecidableEq ω] [DecidableEq ρ] {s s' : ServerState ω ρ}

theorem Delivery.joining
    {q : QueueState (ServerThread ω ρ) Fd}
    {word : List (QueueEvent (ServerThread ω ρ) Fd)}
    (h : Delivery s q word s')
    (hjoining : s'.acceptor = .joining) :
    s.acceptor = .joining ∨ word = [.closeReturned .acceptor] := by
  cases h with
  | accepted => cases hjoining
  | rejected => cases hjoining
  | poolClosed => exact Or.inr rfl
  | _ => exact Or.inl hjoining

theorem ServerStep.closed_stays
    {word : List (ServerEvent ω ρ)}
    (hstep : ServerStep s word s')
    (hcalls : CallsInv s)
    (hclosed : s.queue.shared.closed = true) :
    s'.queue.shared.closed = true := by
  rcases hstep.queue hcalls with ⟨hsame, _⟩ | hqueue
  · rw [hsame]
    exact hclosed
  · exact hqueue.effect.closed_stays hclosed

theorem ClosedInv.step
    (h : ClosedInv s)
    (hcalls : CallsInv s)
    {word : List (ServerEvent ω ρ)}
    (hstep : ServerStep s word s') :
    ClosedInv s' := by
  have hstays := hstep.closed_stays hcalls
  constructor
  · intro t ht
    rcases hstep.queue hcalls with ⟨hsame, _⟩ | hqueue
    · rw [hsame] at ht ⊢
      exact h.notifying t ht
    · generalize s'.queue = q at hqueue ht hstays ⊢
      generalize word.filterMap ServerEvent.queueEvent = events at hqueue
      cases hqueue with
      | move hmove =>
          rcases hmove.hasClosed t ht with hbefore | hclosed
          · exact hstays (h.notifying t hbefore)
          · exact hclosed
      | @call u pc _ hcall =>
          refine hstays (h.notifying t ?_)
          by_cases htu : t = u
          · subst htu
            cases hcall <;> simp [QueueState.move, QueuePc.hasClosed] at ht
          · simpa [QueueState.move, htu] using ht
  · intro hjoining
    cases hstep with
    | queueMoves hmove =>
        rcases (hcalls.delivery hmove).joining hjoining with hbefore | rfl
        · exact hstays (h.joining hbefore)
        · exact hstays (h.notifying .acceptor (by rw [hmove.of_closeReturned]; rfl))
    | acceptor hstep => exact absurd hjoining hstep.ne_joining
    | callsPush => cases hjoining
    | pipeReady => cases hjoining
    | destructs => cases hjoining
    | requestReturns => cases hjoining
    | closesPool => cases hjoining
    | joins => cases hjoining
    | _ => exact hstays (h.joining hjoining)

theorem closedInv_of_run
    {q : BoundedQueue Fd}
    {trace : List (ServerEvent ω ρ)}
    (hrun : Run ServerStep (ServerState.start ω ρ q) trace s) :
    ClosedInv s := by
  refine (hrun.invariant (fun _ s => CallsInv s ∧ ClosedInv s) ?_ ?_).2
  · refine ⟨callsInv_start q, fun t ht => ?_, fun hpc => ?_⟩
    · cases ht
    · cases hpc
  · rintro _ s word s' ⟨hcalls, hclosed⟩ hstep
    exact ⟨hcalls.step hstep, hclosed.step hcalls hstep⟩

end Closed

section Blocked

variable {ω : Type u} {ρ : Type v} [Fintype ω] [Fintype ρ] [DecidableEq ω] [DecidableEq ρ]

/-- The calls in which the acceptor may block. -/
def AcceptorPc.blocks : AcceptorPc → Bool
  | .polling => true
  | .accepting => true
  | .pushing _ _ => true
  | .joining => true
  | _ => false

/-- The acceptor is in a call that only a further client can end. -/
def ServerState.NeedsClient (s : ServerState ω ρ) : Prop :=
  s.acceptor.blocks = true ∧
    ∀ trace s', Run Unaided s trace s' → s'.acceptor = s.acceptor

variable {s s' : ServerState ω ρ} {capacity : Nat} {q : BoundedQueue Fd}
  {trace : List (ServerEvent ω ρ)}

/-- The threads that notify the waiting threads of a closed queue can go on. -/
theorem exists_step_of_hasClosed
    (hcalls : CallsInv s)
    {t : ServerThread ω ρ}
    (ht : (s.queue.pc t).phase = .closeNotifyEmpty ∨ (s.queue.pc t).phase = .closeNotifyFull) :
    ∃ word s', Unaided s word s' ∧ s'.work < s.work := by
  refine exists_step_of_call hcalls (t := t) ?_
  rcases ht with ht | ht <;> simp [ht, QueuePhase.AtRest]

/-- On an open queue some worker can go on, or all wait and the queue is empty. -/
theorem exists_step_or_empty
    [Nonempty ω]
    (hcalls : CallsInv s)
    (hexit : ExitInv s)
    (hwake : WakeInv s.queue.shared (inPhase s.queue.pc))
    (hopen : s.queue.shared.closed = false)
    (hpush : ∀ item, s.queue.pc .acceptor ≠ .pushNotify item) :
    (∃ word s', Unaided s word s' ∧ s'.work < s.work) ∨
      s.queue.shared.queue = [] ∧ inPhase s.queue.pc .popNotify = 0 := by
  by_cases hwaits : ∀ w, s.queue.pc (.worker w) = .popWait
  · have hpop : ∀ k, (k = .popReady ∨ k = .popNotify) → inPhase s.queue.pc k = 0 := by
      intro k hk
      rw [inPhase_eq_zero_iff]
      intro t ht
      have hmethod : (s.queue.pc t).method = some .pop := by
        rcases hk with rfl | rfl <;> cases hpc : s.queue.pc t <;>
          simp_all [QueuePc.phase, QueuePc.method]
      obtain ⟨w, rfl, _⟩ := hcalls.popping hmethod
      rw [hwaits w] at ht
      rcases hk with rfl | rfl <;> cases ht
    have hnotify : inPhase s.queue.pc .pushNotify = 0 := by
      rw [inPhase_eq_zero_iff]
      intro t ht
      have hmethod : (s.queue.pc t).method = some .push := by
        cases hpc : s.queue.pc t <;> simp_all [QueuePc.phase, QueuePc.method]
      obtain ⟨rfl, _⟩ := hcalls.pushing hmethod
      cases hpc : s.queue.pc .acceptor <;> simp_all [QueuePc.phase]
    obtain ⟨w⟩ := ‹Nonempty ω›
    have hone : 0 < inPhase s.queue.pc .popWait :=
      (inPhase_pos_iff _ _).2 ⟨.worker w, by rw [hwaits w]; rfl⟩
    have hitems := hwake.items hopen hone
    rw [hnotify, hpop .popReady (Or.inl rfl)] at hitems
    exact Or.inr ⟨List.length_eq_zero_iff.1 (Nat.le_zero.1 hitems), hpop .popNotify (Or.inr rfl)⟩
  · push Not at hwaits
    obtain ⟨w, hw⟩ := hwaits
    refine Or.inl (exists_step_of_worker hcalls (w := w) ?_ hw)
    intro hexited
    have hclosed := (hexit.drained w hexited).1
    simp [hopen] at hclosed

/-- While the acceptor is in `push`, a worker, a thread in `close` or its own call goes on. -/
theorem exists_step_of_pushing
    [Nonempty ω]
    (hmake : BoundedQueue.make capacity = .ok q)
    (hrun : Run ServerStep (ServerState.start ω ρ q) trace s)
    {client arg : Fd}
    (hpc : s.acceptor = .pushing client arg) :
    ∃ word s', Unaided s word s' ∧ s'.work < s.work := by
  obtain ⟨hcapacity, rfl⟩ := (BoundedQueue.make_eq_ok_iff _ _).1 hmake
  obtain ⟨hcalls, hqueue⟩ := queueRun_of_run hrun
  have hexit := (running_of_run rfl hrun).2
  have hwake := wakeInv_of_run hqueue
  have hbound : s.queue.shared.capacity = capacity := (fifoInv_of_run hmake hqueue).capacity_eq
  have hmethod : (s.queue.pc .acceptor).method = some .push := by
    rw [hcalls.method, method_acceptor (hcalls.acceptor.resolve_right (by simp [hpc])), hpc]
    rfl
  cases hcall : s.queue.pc .acceptor with
  | pushNotify item =>
      exact exists_step_of_call hcalls (t := .acceptor)
        (by simp [hcall, QueuePc.phase, QueuePhase.AtRest])
  | pushReady item =>
      exact exists_step_of_call hcalls (t := .acceptor)
        (by simp [hcall, QueuePc.phase, QueuePhase.AtRest])
  | pushWait item =>
      have hone : 0 < inPhase s.queue.pc .pushWait :=
        (inPhase_pos_iff _ _).2 ⟨.acceptor, by rw [hcall]; rfl⟩
      cases hclosed : s.queue.shared.closed with
      | true =>
          have hcloser := hwake.closedPush hclosed hone
          rcases Nat.add_pos_iff_pos_or_pos.1 hcloser with hpos | hpos
          · obtain ⟨t, ht⟩ := (inPhase_pos_iff _ _).1 hpos
            exact exists_step_of_hasClosed hcalls (Or.inl ht)
          · obtain ⟨t, ht⟩ := (inPhase_pos_iff _ _).1 hpos
            exact exists_step_of_hasClosed hcalls (Or.inr ht)
      | false =>
          rcases exists_step_or_empty hcalls hexit hwake hclosed (by simp [hcall]) with
            hstep | ⟨hempty, hnotify⟩
          · exact hstep
          · have hready : inPhase s.queue.pc .pushReady = 0 := by
              rw [inPhase_eq_zero_iff]
              intro t ht
              have hpush : (s.queue.pc t).method = some .push := by
                cases hpc : s.queue.pc t <;> simp_all [QueuePc.phase, QueuePc.method]
              obtain ⟨rfl, _⟩ := hcalls.pushing hpush
              rw [hcall] at ht
              cases ht
            have hplaces := hwake.places hclosed hone
            rw [hempty, hnotify, hready, hbound] at hplaces
            exact absurd (Nat.le_zero.1 hplaces) hcapacity
  | _ => simp [hcall, QueuePc.method] at hmethod

/-- While the acceptor joins the workers, one of them goes on, or all have left their loop. -/
theorem exists_step_of_joining
    (hrun : Run ServerStep (ServerState.start ω ρ q) trace s)
    (hpc : s.acceptor = .joining) :
    ∃ word s', Unaided s word s' ∧ (s'.acceptor ≠ s.acceptor ∨ s'.work < s.work) := by
  obtain ⟨hcalls, hqueue⟩ := queueRun_of_run hrun
  have hclosed := (closedInv_of_run hrun).joining hpc
  by_cases hall : ∀ w, s.worker w = .exited
  · exact ⟨_, _, ⟨.joins hpc hall, le_rfl, by simp, not_spuriousWake_self⟩,
      Or.inl (by simp [hpc])⟩
  · push Not at hall
    obtain ⟨w, hloop⟩ := hall
    by_cases hwait : s.queue.pc (.worker w) = .popWait
    · have hone : 0 < inPhase s.queue.pc .popWait :=
        (inPhase_pos_iff _ _).2 ⟨.worker w, by rw [hwait]; rfl⟩
      obtain ⟨t, ht⟩ := (inPhase_pos_iff _ _).1
        ((wakeInv_of_run hqueue).closedPop hclosed hone)
      obtain ⟨word, s', hstep, hless⟩ := exists_step_of_hasClosed hcalls (Or.inl ht)
      exact ⟨word, s', hstep, Or.inr hless⟩
    · obtain ⟨word, s', hstep, hless⟩ := exists_step_of_worker hcalls hloop hwait
      exact ⟨word, s', hstep, Or.inr hless⟩

/-- A `push` and the joins come to their end without another client. -/
theorem exists_run_leaves
    [Nonempty ω]
    (hmake : BoundedQueue.make capacity = .ok q)
    (hrun : Run ServerStep (ServerState.start ω ρ q) trace s)
    (hpc : (∃ client arg, s.acceptor = .pushing client arg) ∨ s.acceptor = .joining) :
    ∃ later s', Run Unaided s later s' ∧ s'.acceptor ≠ s.acceptor := by
  refine exists_run_of_measure
    (fun x => (∃ trace, Run ServerStep (ServerState.start ω ρ q) trace x) ∧
      x.acceptor = s.acceptor)
    (fun x => x.acceptor ≠ s.acceptor) ServerState.work ?_ s ⟨⟨trace, hrun⟩, rfl⟩
  rintro x ⟨⟨trace, hx⟩, hsame⟩
  have hstep : ∃ word x', Unaided x word x' ∧
      (x'.acceptor ≠ x.acceptor ∨ x'.work < x.work) := by
    rw [← hsame] at hpc
    rcases hpc with ⟨client, arg, hpushing⟩ | hjoining
    · obtain ⟨word, x', hstep, hless⟩ := exists_step_of_pushing hmake hx hpushing
      exact ⟨word, x', hstep, Or.inr hless⟩
    · exact exists_step_of_joining hx hjoining
  obtain ⟨word, x', hstep, hmove⟩ := hstep
  refine ⟨word, x', hstep, ?_⟩
  by_cases hsame' : x'.acceptor = s.acceptor
  · refine Or.inr ⟨⟨⟨_, hx.tail hstep.step⟩, hsame'⟩, ?_⟩
    exact hmove.resolve_left (fun hne => hne (hsame'.trans hsame.symm))
  · exact Or.inl hsame'

/-- In `accept` on an empty backlog the acceptor stays. -/
theorem Unaided.accepting
    {word : List (ServerEvent ω ρ)}
    (h : Unaided s word s')
    (hcalls : CallsInv s)
    (hpc : s.acceptor = .accepting)
    (hnone : s.shared.backlog = 0) :
    s'.acceptor = .accepting ∧ s'.shared.backlog = 0 := by
  refine ⟨?_, Nat.le_zero.1 (hnone ▸ h.clients)⟩
  have hsucceeds := h.succeeds
  have hother : ∀ {pc}, s.acceptor = pc → pc ≠ .accepting → False :=
    fun hpc' hne => hne (hpc'.symm.trans hpc)
  cases h.step with
  | queueMoves hmove =>
      have hdelivery := hcalls.delivery hmove
      generalize List.foldl _ _ _ = after at hdelivery ⊢
      cases hdelivery with
      | accepted hpc' => exact (hother hpc' (by simp)).elim
      | rejected hpc' => exact (hother hpc' (by simp)).elim
      | poolClosed hpc' => exact (hother hpc' (by simp)).elim
      | _ => exact hpc
  | acceptor hstep =>
      rw [hpc] at hstep hsucceeds
      cases hstep with
      | accepts _ hbacklog => omega
      | acceptInterrupted => rfl
      | acceptFails => cases hsucceeds rfl
  | callsPush hpc' => exact (hother hpc' (by simp)).elim
  | pipeReady hpc' => exact (hother hpc' (by simp)).elim
  | destructs hpc' => exact (hother hpc' (by simp)).elim
  | requestReturns hpc' => exact (hother hpc' (by simp)).elim
  | closesPool hpc' => exact (hother hpc' (by simp)).elim
  | joins hpc' => exact (hother hpc' (by simp)).elim
  | _ => exact hpc

/-- The operating system has a number for every descriptor. -/
theorem Descriptors.exists_fresh
    (os : Descriptors) :
    ∃ number : Int, 0 ≤ number ∧ number ∉ os.table.map Prod.fst := by
  obtain ⟨number, hnumber, hfresh⟩ :=
    (Set.Ici_infinite (0 : Int)).exists_notMem_finset (os.table.map Prod.fst).toFinset
  exact ⟨number, hnumber, fun hmem => hfresh (List.mem_toFinset.2 hmem)⟩

/--
With a byte in the pipe, the acceptor depends on a further client only in `accept`,
when the client that `poll` has reported is gone.
-/
theorem needsClient_iff
    [Nonempty ω]
    (hmake : BoundedQueue.make capacity = .ok q)
    (hrun : Run ServerStep (ServerState.start ω ρ q) trace s)
    (hpipe : 0 < s.shared.pipe) :
    s.NeedsClient ↔ s.acceptor = .accepting ∧ s.shared.backlog = 0 := by
  constructor
  · rintro ⟨hblocks, hstays⟩
    have hleaves : ∀ {word s'}, Unaided s word s' → s'.acceptor ≠ s.acceptor → False :=
      fun hstep hne => hne (hstays _ _ (Run.refl.tail hstep))
    cases hpc : s.acceptor with
    | polling =>
        have hstep := AcceptorStep.pollReturns (ω := ω) (ρ := ρ) (g := s.shared) (Or.inr hpipe)
        rw [← hpc] at hstep
        exact (hleaves ⟨.acceptor hstep, le_rfl, by simp, not_spuriousWake_self⟩
          (by simp [hpc])).elim
    | accepting =>
        refine ⟨rfl, ?_⟩
        by_contra hsome
        obtain ⟨number, hnumber, hfresh⟩ := s.shared.os.exists_fresh
        have hstep := AcceptorStep.accepts (ω := ω) (ρ := ρ) (g := s.shared) number
          (Nat.pos_of_ne_zero hsome) hnumber hfresh
        rw [← hpc] at hstep
        exact hleaves ⟨.acceptor hstep, Nat.sub_le _ _, by simp, not_spuriousWake_self⟩
          (by simp [hpc])
    | pushing client arg =>
        obtain ⟨later, s', hlater, hne⟩ :=
          exists_run_leaves hmake hrun (Or.inl ⟨client, arg, hpc⟩)
        exact absurd (hstays later s' hlater) hne
    | joining =>
        obtain ⟨later, s', hlater, hne⟩ := exists_run_leaves hmake hrun (Or.inr hpc)
        exact absurd (hstays later s' hlater) hne
    | _ => simp [hpc, AcceptorPc.blocks] at hblocks
  · rintro ⟨hpc, hnone⟩
    refine ⟨by rw [hpc]; rfl, fun later s' hlater => ?_⟩
    have hmain := hlater.invariant (fun _ x => CallsInv x ∧ x.acceptor = .accepting ∧
      x.shared.backlog = 0) ⟨(queueRun_of_run hrun).1, hpc, hnone⟩ ?_
    · rw [hmain.2.1, hpc]
    · rintro _ x word x' ⟨hcalls, hx, hbacklog⟩ hstep
      exact ⟨hcalls.step hstep.step, hstep.accepting hcalls hx hbacklog⟩

end Blocked

section Patience

variable {ω : Type u} {ρ : Type v} [DecidableEq ω] [DecidableEq ρ]

/-- `poll` has reported the listener and not the pipe, and `accept` has not returned yet. -/
def AcceptorPc.reported : AcceptorPc → Bool
  | .polled listener pipe => listener && !pipe
  | .accepting => true
  | _ => false

/-- The client that `poll` has reported, or another one, waits until `accept` returns it. -/
structure PatientStep (s : ServerState ω ρ) (word : List (ServerEvent ω ρ))
    (s' : ServerState ω ρ) : Prop where
  step : ServerStep s word s'
  waits : s.acceptor.reported = true → 0 < s.shared.backlog →
    0 < s'.shared.backlog ∨ ∃ client, s'.acceptor = .accepted client

variable [Fintype ω] [Fintype ρ] {s s' : ServerState ω ρ} {trace : List (ServerEvent ω ρ)}

/-- `poll` reports the listener only when a client waits. -/
theorem ServerStep.reported
    {word : List (ServerEvent ω ρ)}
    (hstep : ServerStep s word s')
    (hcalls : CallsInv s)
    (hreported : s'.acceptor.reported = true) :
    s.acceptor.reported = true ∨ 0 < s'.shared.backlog := by
  cases hstep with
  | queueMoves hmove =>
      have hdelivery := hcalls.delivery hmove
      generalize List.foldl _ _ _ = after at hdelivery hreported ⊢
      cases hdelivery with
      | accepted => cases hreported
      | rejected => cases hreported
      | poolClosed => cases hreported
      | _ => exact Or.inl hreported
  | acceptor hstep =>
      generalize s.acceptor = pc at hstep ⊢
      cases hstep with
      | pollReturns => exact Or.inr (of_decide_eq_true (Bool.and_eq_true_iff.1 hreported).1)
      | listenerReady => exact Or.inl rfl
      | acceptInterrupted => exact Or.inl rfl
      | serveOneReturns =>
          dsimp only at hreported
          split_ifs at hreported <;> cases hreported
      | _ => cases hreported
  | callsPush => cases hreported
  | pipeReady => cases hreported
  | destructs => cases hreported
  | requestReturns => cases hreported
  | closesPool => cases hreported
  | joins => cases hreported
  | _ => exact Or.inl hreported

theorem backlog_pos_of_reported
    {q : BoundedQueue Fd}
    (hrun : Run PatientStep (ServerState.start ω ρ q) trace s)
    (hreported : s.acceptor.reported = true) :
    0 < s.shared.backlog := by
  refine (hrun.invariant (fun _ s => CallsInv s ∧
    (s.acceptor.reported = true → 0 < s.shared.backlog)) ?_ ?_).2 hreported
  · refine ⟨callsInv_start q, fun hstart => ?_⟩
    cases hstart
  · rintro _ s word s' ⟨hcalls, hwaits⟩ hstep
    refine ⟨hcalls.step hstep.step, fun hreported' => ?_⟩
    rcases hstep.step.reported hcalls hreported' with hbefore | hpos
    · rcases hstep.waits hbefore (hwaits hbefore) with hpos | ⟨client, haccepted⟩
      · exact hpos
      · simp [haccepted, AcceptorPc.reported] at hreported'
    · exact hpos

/--
As long as the clients that `poll` reports wait for `accept`, a byte in the pipe is
never missed: in no state is the acceptor in a call that only a further client can
end.
-/
theorem shutdown_never_missed
    [Nonempty ω]
    {capacity : Nat}
    {q : BoundedQueue Fd}
    (hmake : BoundedQueue.make capacity = .ok q)
    (hrun : Run PatientStep (ServerState.start ω ρ q) trace s)
    (hpipe : 0 < s.shared.pipe) :
    ¬ s.NeedsClient := by
  intro hneeds
  have hsteps := hrun.mono (fun _ _ _ hstep => hstep.step)
  obtain ⟨hpc, hnone⟩ := (needsClient_iff hmake hsteps hpipe).1 hneeds
  have hpos := backlog_pos_of_reported hrun (by rw [hpc]; rfl)
  omega

/-- A signal arrives while the acceptor is in `accept` and its client waits. -/
theorem shutdown_never_missed_accepting :
    ∃ (trace : List (ServerEvent Unit Unit)) (s : ServerState Unit Unit),
      Run PatientStep (ServerState.start Unit Unit { capacity := 1 }) trace s ∧
      s.acceptor = .accepting ∧ 0 < s.shared.pipe ∧ ¬ s.NeedsClient := by
  have hmake : BoundedQueue.make 1 = .ok ({ capacity := 1 } : BoundedQueue Fd) := rfl
  have hstart : Run PatientStep (ServerState.start Unit Unit { capacity := 1 }) [] _ := .refl
  have hpolling := (hstart.tail ⟨.environment .connects, by simp [ServerState.start]⟩).tail
    ⟨.acceptor (.loopPolls rfl), by simp [ServerState.start]⟩
  have haccepting := (hpolling.tail ⟨.acceptor (.pollReturns (Or.inl Nat.one_pos)),
    fun _ hpos => Or.inl hpos⟩).tail ⟨.acceptor .listenerReady, fun _ hpos => Or.inl hpos⟩
  have hsignal := haccepting.tail ⟨.environment .signals, fun _ hpos => Or.inl hpos⟩
  exact ⟨_, _, hsignal, rfl, Nat.one_pos, shutdown_never_missed hmake hsignal Nat.one_pos⟩

/--
The client that `poll` has reported goes away before `accept`, and the signal that
asks for shutdown only interrupts `accept`, which is called again.
-/
theorem shutdown_missed_in_accept :
    ∃ (trace : List (ServerEvent Unit Unit)) (s : ServerState Unit Unit),
      Run ServerStep (ServerState.start Unit Unit { capacity := 1 }) trace s ∧
      0 < s.shared.pipe ∧ s.NeedsClient := by
  have hmake : BoundedQueue.make 1 = .ok ({ capacity := 1 } : BoundedQueue Fd) := rfl
  have hstart : Run ServerStep (ServerState.start Unit Unit { capacity := 1 }) [] _ := .refl
  have hpolled := ((hstart.tail (.environment .connects)).tail
    (.acceptor (.loopPolls rfl))).tail (.acceptor (.pollReturns (Or.inl Nat.one_pos)))
  have haccepting := (hpolled.tail (.environment .aborts)).tail (.acceptor .listenerReady)
  have hsignal := (haccepting.tail (.environment .signals)).tail (.acceptor .acceptInterrupted)
  exact ⟨_, _, hsignal, Nat.one_pos,
    (needsClient_iff hmake hsignal Nat.one_pos).2 ⟨rfl, rfl⟩⟩

end Patience

section Faults

variable {ω : Type u} {ρ : Type v} [DecidableEq ω] [DecidableEq ρ]

/--
A step in which nothing fails but single connections: the constructor and `serve`
may throw and `accept` may fail, but `poll` does not.
-/
structure ConnectionFaultStep (s : ServerState ω ρ) (word : List (ServerEvent ω ρ))
    (s' : ServerState ω ρ) : Prop where
  step : ServerStep s word s'
  poll : s.acceptor = .polling → s'.acceptor ≠ .threw

/-- Besides, `accept` does not fail. -/
structure ContainedFaultStep (s : ServerState ω ρ) (word : List (ServerEvent ω ρ))
    (s' : ServerState ω ρ) : Prop extends ConnectionFaultStep s word s' where
  accept : s.acceptor = .accepting → s'.acceptor ≠ .threw

theorem ContainedFaultStep.of_running
    {s s' : ServerState ω ρ}
    {word : List (ServerEvent ω ρ)}
    (hstep : ServerStep s word s')
    (hrunning : s'.acceptor ≠ .threw) :
    ContainedFaultStep s word s' :=
  ⟨⟨hstep, fun _ => hrunning⟩, fun _ => hrunning⟩

variable [Fintype ω] [Fintype ρ] {s : ServerState ω ρ} {trace : List (ServerEvent ω ρ)}

/--
As long as `accept` does not fail, the failures of single connections stay with
them: until shutdown is requested every worker is in its loop, and `serve_forever`
has neither returned nor thrown.
-/
theorem connection_faults_contained
    {capacity : Nat}
    {q : BoundedQueue Fd}
    (hmake : BoundedQueue.make capacity = .ok q)
    (hrun : Run ContainedFaultStep (ServerState.start ω ρ q) trace s)
    (hflag : s.shared.shutdownRequested = false) :
    (∀ w, s.worker w ≠ .exited) ∧ s.acceptor ≠ .returned ∧ s.acceptor ≠ .threw := by
  obtain ⟨_, rfl⟩ := (BoundedQueue.make_eq_ok_iff _ _).1 hmake
  have hsteps := hrun.mono (fun _ _ _ hstep => hstep.step)
  obtain ⟨hrunning, hexit⟩ := running_of_run rfl hsteps
  refine ⟨fun w hexited => ?_, fun hreturned => ?_, ?_⟩
  · have hclosed := (hexit.drained w hexited).1
    simp [(hrunning hflag).opened] at hclosed
  · have hstopped := (hrunning hflag).acceptor
    simp [hreturned, AcceptorPc.stopped] at hstopped
  · refine (hrun.invariant (fun trace s => Run ServerStep (ServerState.start ω ρ _) trace s ∧
      s.acceptor ≠ .threw) ⟨.refl, by simp [ServerState.start]⟩ ?_).2
    rintro trace s word s' ⟨hsteps, hbefore⟩ hstep
    refine ⟨hsteps.tail hstep.step, fun hthrew => ?_⟩
    rcases hstep.step.threw (queueRun_of_run hsteps).1 (running_of_run rfl hsteps).1 hthrew with
      hpc | hpc | hpc
    · exact hbefore hpc
    · exact hstep.poll hpc hthrew
    · exact hstep.accept hpc hthrew

/-- A connection is dispatched to a worker, whose constructor of `Connection` throws. -/
theorem connection_faults_contained_throws :
    ∃ (trace : List (ServerEvent Unit Unit)) (s : ServerState Unit Unit),
      Run ContainedFaultStep (ServerState.start Unit Unit { capacity := 1 }) trace s ∧
      .constructorThrew () (some 0) ∈ trace ∧ s.shared.shutdownRequested = false ∧
      (∀ w, s.worker w ≠ .exited) ∧ s.acceptor ≠ .returned ∧ s.acceptor ≠ .threw := by
  have hmake : BoundedQueue.make 1 = .ok ({ capacity := 1 } : BoundedQueue Fd) := rfl
  have hstart : Run ContainedFaultStep (ServerState.start Unit Unit { capacity := 1 }) [] _ :=
    .refl
  have hnext : ∀ {s s' : ServerState Unit Unit} {word : List (ServerEvent Unit Unit)},
      ServerStep s word s' → (s'.acceptor matches .threw) = false →
      ContainedFaultStep s word s' := by
    intro s s' word hstep hrunning
    refine .of_running hstep (fun hthrew => ?_)
    simp [hthrew] at hrunning
  have haccepted := ((((hstart.tail (hnext (.environment .connects) rfl)).tail
    (hnext (.acceptor (.loopPolls rfl)) rfl)).tail
    (hnext (.acceptor (.pollReturns (Or.inl Nat.one_pos))) rfl)).tail
    (hnext (.acceptor .listenerReady) rfl)).tail
    (hnext (.acceptor (.accepts 5 Nat.one_pos (by decide) (by simp [ServerState.start]))) rfl)
  have hpushed := (((haccepted.tail (hnext (.acceptor .countsAccepted) rfl)).tail
    (hnext (.callsPush rfl) rfl)).tail
    (hnext (.queueMoves (.pushInserts (t := .acceptor) rfl rfl)) rfl)).tail
    (hnext (.queueMoves (.pushNotifies (t := .acceptor) rfl
      (notifyOne_of_none rfl (fun _ => rfl) (fun _ => rfl)))) rfl)
  have hpopped := ((hpushed.tail (hnext (.callsPop (w := ()) rfl) rfl)).tail
    (hnext (.queueMoves (.popRemoves (t := .worker ()) rfl rfl)) rfl)).tail
    (hnext (.queueMoves (.popNotifies (t := .worker ()) rfl
      (notifyOne_of_none rfl (fun _ => rfl) (fun _ => rfl)))) rfl)
  have hthrown := (hpopped.tail (hnext (.worker (w := ()) .countsActive) rfl)).tail
    (hnext (.worker (w := ()) .constructorThrows) rfl)
  exact ⟨_, _, hthrown, List.mem_append_right _ List.mem_cons_self, rfl,
    connection_faults_contained hmake hthrown rfl⟩

/-- `accept` fails for a client that has gone away, and the exception leaves `serve_forever`. -/
theorem accept_failure_ends_server :
    ∃ (trace : List (ServerEvent Unit Unit)) (s : ServerState Unit Unit),
      Run ConnectionFaultStep (ServerState.start Unit Unit { capacity := 1 }) trace s ∧
      s.shared.shutdownRequested = false ∧ s.acceptor = .threw := by
  have hstart : Run ConnectionFaultStep (ServerState.start Unit Unit { capacity := 1 }) [] _ :=
    .refl
  have hpolled := ((hstart.tail ⟨.environment .connects, by simp [ServerState.start]⟩).tail
    ⟨.acceptor (.loopPolls rfl), by simp [ServerState.start]⟩).tail
    ⟨.acceptor (.pollReturns (Or.inl Nat.one_pos)), by simp⟩
  have hthrew := (hpolled.tail ⟨.acceptor .listenerReady, by simp⟩).tail
    ⟨.acceptor .acceptFails, fun hpc => by cases hpc⟩
  exact ⟨_, _, hthrew, rfl, rfl⟩

end Faults

end HttpServer
