import HttpServer.DescriptorOwnership

/-!
# Shutdown drains the queue

The queue is closed by `request_shutdown`, which has set the flag before, and by
the acceptor on its way out.  A worker leaves its loop only when the queue is
closed and empty.  Once the acceptor has joined the workers, every descriptor that
was dispatched has been served to its end by one of them.

* `Running`: what holds until shutdown is requested;
* `ExitInv`: what a worker that has left its loop has seen;
* `Dispatches`: what a step does to the client that the acceptor is dispatching;
* `SerialInv`: the results of `dispatch` are those of the clients in the order in
  which they were accepted.
-/

namespace HttpServer

open Transition Threads

universe u v

section Running

variable {ω : Type u} {ρ : Type v}

/-- The acceptor has left its loop, or knows that the queue is closed. -/
def AcceptorPc.stopped : AcceptorPc → Bool
  | .pushReturned _ _ _ inserted => !inserted
  | .dispatching _ _ inserted => !inserted
  | .dispatched _ inserted => !inserted
  | .stopping => true
  | .closingPool => true
  | .joining => true
  | .returned => true
  | _ => false

/-- What holds until shutdown is requested. -/
structure Running (s : ServerState ω ρ) : Prop where
  opened : s.queue.shared.closed = false
  request : ∀ t, s.request t = .idle ∨ s.request t = .exchanging
  acceptor : s.acceptor.stopped = false
  requesting : s.acceptor = .requesting → s.request .acceptor = .exchanging

/-- A notification while no thread waits. -/
theorem notifyOne_of_none
    [DecidableEq ω]
    [DecidableEq ρ]
    {wake : QueuePc Fd → Option (QueuePc Fd)}
    {pc : ServerThread ω ρ → QueuePc Fd}
    (hacceptor : wake (pc .acceptor) = none)
    (hworker : ∀ w, wake (pc (.worker w)) = none)
    (hrequester : ∀ r, wake (pc (.requester r)) = none) :
    NotifyOne wake pc pc := by
  refine .nobody (fun t => ?_)
  cases t with
  | acceptor => exact hacceptor
  | worker w => exact hworker w
  | requester r => exact hrequester r

/-- Who closes the queue is in `close`. -/
theorem QueueMove.closed
    {τ : Type u}
    {α : Type v}
    [DecidableEq τ]
    {s s' : QueueState τ α}
    {word : List (QueueEvent τ α)}
    (h : QueueMove s word s')
    (hclosed : s'.shared.closed = true) :
    s.shared.closed = true ∨ ∃ t, (s.pc t).method = some .close := by
  cases h with
  | pushInserts _ hsection =>
      obtain ⟨_, _, rfl⟩ := (BoundedQueue.pushSection_eq_inserted_iff _ _ _).1 hsection
      exact Or.inl hclosed
  | popRemoves _ hsection =>
      obtain ⟨_, hq⟩ := (BoundedQueue.popSection_eq_removed_iff _ _ _).1 hsection
      dsimp only at hclosed
      rw [hq] at hclosed
      exact Or.inl hclosed
  | @closes t hpc => exact Or.inr ⟨t, by rw [hpc]; rfl⟩
  | _ => exact Or.inl hclosed

/-- A `push` that is rejected has found the queue closed. -/
theorem QueueMove.of_rejected
    {τ : Type u}
    {α : Type v}
    [DecidableEq τ]
    {s s' : QueueState τ α}
    {t : τ}
    {item : α}
    (h : QueueMove s [.pushReturned t item false] s') :
    s.shared.closed = true ∧ s.pc t = .pushReady item := by
  cases h with
  | pushRejected hpc hsection =>
      exact ⟨(BoundedQueue.pushSection_eq_rejected_iff _ _).1 hsection, hpc⟩

theorem AcceptorStep.flag_eq
    {g g' : ServerShared}
    {pc pc' : AcceptorPc}
    {word : List (ServerEvent ω ρ)}
    (h : AcceptorStep g pc word g' pc') :
    g'.shutdownRequested = g.shutdownRequested := by
  cases h <;> rfl

theorem WorkerStep.flag_eq
    {w : ω}
    {g g' : ServerShared}
    {pc pc' : WorkerPc}
    {word : List (ServerEvent ω ρ)}
    (h : WorkerStep w g pc word g' pc') :
    g'.shutdownRequested = g.shutdownRequested := by
  cases h <;> rfl

theorem RequestStep.flag_eq
    {g g' : ServerShared}
    {pc pc' : RequestPc}
    (h : RequestStep g pc g' pc') :
    g'.shutdownRequested = g.shutdownRequested := by
  cases h <;> rfl

theorem EnvironmentStep.flag_eq
    {g g' : ServerShared}
    (h : EnvironmentStep g g') :
    g'.shutdownRequested = g.shutdownRequested := by
  cases h <;> rfl

/-- The steps that take the acceptor out of its loop see the flag, or a closed queue. -/
theorem AcceptorStep.stopped_eq_false
    {g g' : ServerShared}
    {pc pc' : AcceptorPc}
    {word : List (ServerEvent ω ρ)}
    (h : AcceptorStep g pc word g' pc')
    (hflag : g.shutdownRequested = false)
    (hpc : pc.stopped = false) :
    pc'.stopped = false ∧ pc' ≠ .requesting := by
  cases h with
  | loopEnds hset => simp [hflag] at hset
  | destroysItem => exact ⟨hpc, by simp⟩
  | countsDispatch => exact ⟨hpc, by simp⟩
  | serveOneReturns =>
      split_ifs
      · exact ⟨rfl, by simp⟩
      · exact ⟨rfl, by simp⟩
  | _ => exact ⟨rfl, by simp⟩

variable [Fintype ω] [Fintype ρ] [DecidableEq ω] [DecidableEq ρ] {s s' : ServerState ω ρ}

theorem Delivery.shared_eq
    {q : QueueState (ServerThread ω ρ) Fd}
    {word : List (QueueEvent (ServerThread ω ρ) Fd)}
    (h : Delivery s q word s') :
    s'.shared = s.shared := by
  cases h <;> rfl

theorem Delivery.threw
    {q : QueueState (ServerThread ω ρ) Fd}
    {word : List (QueueEvent (ServerThread ω ρ) Fd)}
    (h : Delivery s q word s')
    (hthrew : s'.acceptor = .threw) :
    s.acceptor = .threw := by
  cases h with
  | accepted => cases hthrew
  | rejected => cases hthrew
  | poolClosed => cases hthrew
  | _ => exact hthrew

/-- The flag is never cleared. -/
theorem ServerStep.flag
    (hcalls : CallsInv s)
    {word : List (ServerEvent ω ρ)}
    (hstep : ServerStep s word s')
    (hflag : s'.shared.shutdownRequested = false) :
    s.shared.shutdownRequested = false := by
  cases hstep with
  | environment henv => exact henv.flag_eq.symm.trans hflag
  | queueMoves hmove =>
      rw [(hcalls.delivery hmove).shared_eq] at hflag
      exact hflag
  | acceptor hstep => exact hstep.flag_eq.symm.trans hflag
  | worker hstep => exact hstep.flag_eq.symm.trans hflag
  | request hstep => exact hstep.flag_eq.symm.trans hflag
  | exchangesFirst => cases hflag
  | _ => exact hflag

namespace Running

omit [Fintype ω] [Fintype ρ] [DecidableEq ω] [DecidableEq ρ] in
/-- Until shutdown is requested nobody is in `close`. -/
theorem not_closing
    (h : Running s)
    (hcalls : CallsInv s)
    (t : ServerThread ω ρ) :
    (s.queue.pc t).method ≠ some .close := by
  intro hclose
  rcases hcalls.closing hclose with hrequest | ⟨_, _, hpc⟩
  · rcases h.request t with hidle | hexchanging
    · simp [hidle] at hrequest
    · simp [hexchanging] at hrequest
  · have hacceptor := h.acceptor
    simp [hpc, AcceptorPc.stopped] at hacceptor

omit [Fintype ω] [Fintype ρ] in
/-- A thread moves in `request_shutdown`, which it has not got through. -/
theorem request_update
    (h : Running s)
    {pc : RequestPc}
    (hpc : pc = .idle ∨ pc = .exchanging)
    (t u : ServerThread ω ρ) :
    Function.update s.request t pc u = .idle ∨ Function.update s.request t pc u = .exchanging := by
  by_cases hut : u = t
  · subst hut
    rw [Function.update_self]
    exact hpc
  · rw [Function.update_of_ne hut]
    exact h.request u

theorem of_delivery
    (h : Running s)
    (hcalls : CallsInv s)
    {word : List (QueueEvent (ServerThread ω ρ) Fd)}
    {q : QueueState (ServerThread ω ρ) Fd}
    (hmove : QueueMove s.queue word q)
    (hdelivery : Delivery s q word s') :
    Running s' := by
  have hopened : q.shared.closed = false := by
    rw [← Bool.not_eq_true]
    intro hclosed
    rcases hmove.closed hclosed with hclosed | ⟨t, hclose⟩
    · simp [h.opened] at hclosed
    · exact h.not_closing hcalls t hclose
  cases hdelivery with
  | quiet => exact ⟨hopened, h.request, h.acceptor, h.requesting⟩
  | accepted => exact ⟨hopened, h.request, rfl, by simp⟩
  | rejected =>
      have hclosed := hmove.of_rejected.1
      simp [h.opened] at hclosed
  | popped => exact ⟨hopened, h.request, h.acceptor, h.requesting⟩
  | drained => exact ⟨hopened, h.request, h.acceptor, h.requesting⟩
  | @requestClosed t hpc =>
      rcases h.request t with hidle | hexchanging
      · simp [hidle] at hpc
      · simp [hexchanging] at hpc
  | poolClosed hpc =>
      have hacceptor := h.acceptor
      simp [hpc, AcceptorPc.stopped] at hacceptor

theorem step
    (h : Running s)
    (hcalls : CallsInv s)
    {word : List (ServerEvent ω ρ)}
    (hstep : ServerStep s word s')
    (hflag : s'.shared.shutdownRequested = false) :
    Running s' := by
  have hbefore := hstep.flag hcalls hflag
  cases hstep with
  | environment => exact ⟨h.opened, h.request, h.acceptor, h.requesting⟩
  | queueMoves hmove => exact h.of_delivery hcalls hmove (hcalls.delivery hmove)
  | acceptor hstep =>
      obtain ⟨hstopped, hrequesting⟩ := hstep.stopped_eq_false hbefore h.acceptor
      exact ⟨h.opened, h.request, hstopped, fun hpc => absurd hpc hrequesting⟩
  | worker => exact ⟨h.opened, h.request, h.acceptor, h.requesting⟩
  | @request t g pc hstep =>
      exfalso
      generalize hrequest : s.request t = before at hstep
      have hmid := h.request t
      cases hstep with
      | exchangesAgain hset => simp [hbefore] at hset
      | writesPipe => simp [hrequest] at hmid
      | pipeFull => simp [hrequest] at hmid
  | callsPush => exact ⟨h.opened, h.request, rfl, by simp⟩
  | callsPop => exact ⟨h.opened, h.request, h.acceptor, h.requesting⟩
  | @requestStarts r hpc =>
      exact ⟨h.opened, h.request_update (Or.inr rfl) _, h.acceptor, h.requesting⟩
  | pipeReady =>
      exact ⟨h.opened, h.request_update (Or.inr rfl) _, rfl,
        fun _ => by simp [ServerState.setRequest]⟩
  | destructs =>
      exact ⟨h.opened, h.request_update (Or.inr rfl) _, rfl,
        fun _ => by simp [ServerState.setRequest]⟩
  | exchangesFirst => cases hflag
  | requestReturns hpc hrequest =>
      have hexchanging := h.requesting hpc
      simp [hrequest] at hexchanging
  | closesPool hpc =>
      have hacceptor := h.acceptor
      simp [hpc, AcceptorPc.stopped] at hacceptor
  | joins hpc =>
      have hacceptor := h.acceptor
      simp [hpc, AcceptorPc.stopped] at hacceptor

end Running

/-- Only `poll` and `accept` make `serve_forever` throw. -/
theorem ServerStep.threw
    {word : List (ServerEvent ω ρ)}
    (hstep : ServerStep s word s')
    (hcalls : CallsInv s)
    (hrunning : s.shared.shutdownRequested = false → Running s)
    (hthrew : s'.acceptor = .threw) :
    s.acceptor = .threw ∨ s.acceptor = .polling ∨ s.acceptor = .accepting := by
  cases hstep with
  | queueMoves hmove => exact Or.inl ((hcalls.delivery hmove).threw hthrew)
  | acceptor hstep =>
      have hstopped : s.shared.shutdownRequested = false → s.acceptor.stopped = false :=
        fun hflag => (hrunning hflag).acceptor
      generalize s.acceptor = pc at hstep hstopped ⊢
      cases hstep with
      | pollFails => exact Or.inr (Or.inl rfl)
      | acceptFails => exact Or.inr (Or.inr rfl)
      | @serveOneReturns client inserted =>
          -- A dispatch that was refused has found the queue closed, and so the flag is set.
          dsimp only at hthrew
          split_ifs at hthrew with hcontinues
          simp only [Bool.or_eq_true, not_or, Bool.not_eq_true] at hcontinues
          have hsuccess := hstopped hcontinues.2
          simp [AcceptorPc.stopped, hcontinues.1] at hsuccess
      | _ => cases hthrew
  | callsPush => cases hthrew
  | pipeReady => cases hthrew
  | destructs => cases hthrew
  | requestReturns => cases hthrew
  | closesPool => cases hthrew
  | joins => cases hthrew
  | _ => exact Or.inl hthrew

end Running

section Drained

variable {ω : Type u} {ρ : Type v}

/-- What is known of the workers that have left their loop. -/
structure ExitInv (s : ServerState ω ρ) : Prop where
  drained : ∀ w, s.worker w = .exited →
    s.queue.shared.closed = true ∧ s.queue.shared.queue = []
  joined : s.acceptor = .returned → ∀ w, s.worker w = .exited

theorem QueueEffect.drained_stays
    {τ : Type u}
    {α : Type v}
    {q q' : BoundedQueue α}
    {word : List (QueueEvent τ α)}
    (h : QueueEffect q word q')
    (hdrained : q.closed = true ∧ q.queue = []) :
    q'.closed = true ∧ q'.queue = [] := by
  cases h with
  | inserted hopen => simp [hdrained.1] at hopen
  | removed hqueue => simp [hdrained.2] at hqueue
  | closed => exact ⟨rfl, hdrained.2⟩
  | _ => exact hdrained

theorem WorkerStep.ne_exited
    {w : ω}
    {g g' : ServerShared}
    {pc pc' : WorkerPc}
    {word : List (ServerEvent ω ρ)}
    (h : WorkerStep w g pc word g' pc') :
    pc ≠ .exited ∧ pc' ≠ .exited := by
  cases h <;> simp

theorem AcceptorStep.ne_returned
    {g g' : ServerShared}
    {pc pc' : AcceptorPc}
    {word : List (ServerEvent ω ρ)}
    (h : AcceptorStep g pc word g' pc') :
    pc' ≠ .returned := by
  cases h with
  | serveOneReturns => split_ifs <;> simp
  | _ => simp

variable [DecidableEq ω] [DecidableEq ρ] {s s' : ServerState ω ρ}

omit [DecidableEq ρ] in
/-- A worker that has left its loop had left it before another one moved. -/
theorem exited_of_update
    {w w' : ω}
    {pc : WorkerPc}
    (hpc : pc ≠ .exited)
    (hexited : Function.update s.worker w' pc w = .exited) :
    s.worker w = .exited := by
  by_cases hw : w = w'
  · subst hw
    rw [Function.update_self] at hexited
    exact absurd hexited hpc
  · rwa [Function.update_of_ne hw] at hexited

variable [Fintype ω] [Fintype ρ]

namespace ExitInv

theorem of_delivery
    (h : ExitInv s)
    {word : List (QueueEvent (ServerThread ω ρ) Fd)}
    {q : QueueState (ServerThread ω ρ) Fd}
    (hmove : QueueMove s.queue word q)
    (hdelivery : Delivery s q word s') :
    ExitInv s' := by
  have heffect := hmove.effect
  have hstays : ∀ w, s.worker w = .exited → q.shared.closed = true ∧ q.shared.queue = [] :=
    fun w hexited => heffect.drained_stays (h.drained w hexited)
  cases hdelivery with
  | quiet => exact ⟨hstays, h.joined⟩
  | accepted => exact ⟨hstays, by simp⟩
  | rejected => exact ⟨hstays, by simp⟩
  | @popped w _ hpc =>
      refine ⟨fun w' hexited => hstays w' (exited_of_update (by simp) hexited), ?_⟩
      intro hreturned
      simp [h.joined hreturned w] at hpc
  | @drained w hpc =>
      refine ⟨fun _ _ => ?_, ?_⟩
      · dsimp only
        generalize q.shared = after at heffect ⊢
        cases heffect with
        | drained hclosed hempty => exact ⟨hclosed, hempty⟩
      · intro hreturned
        simp [h.joined hreturned w] at hpc
  | requestClosed => exact ⟨hstays, h.joined⟩
  | poolClosed => exact ⟨hstays, by simp⟩

theorem step
    (h : ExitInv s)
    (hcalls : CallsInv s)
    {word : List (ServerEvent ω ρ)}
    (hstep : ServerStep s word s') :
    ExitInv s' := by
  have hstays : ∀ w, s.worker w = .exited →
      s'.queue.shared.closed = true ∧ s'.queue.shared.queue = [] := by
    intro w hexited
    rcases hstep.queue hcalls with ⟨hsame, _⟩ | hqueue
    · rw [hsame]
      exact h.drained w hexited
    · exact hqueue.effect.drained_stays (h.drained w hexited)
  cases hstep with
  | environment => exact ⟨hstays, h.joined⟩
  | queueMoves hmove => exact h.of_delivery hmove (hcalls.delivery hmove)
  | acceptor hstep => exact ⟨hstays, fun hreturned => absurd hreturned hstep.ne_returned⟩
  | @worker w _ _ _ hstep =>
      refine ⟨fun w' hexited => hstays w' (exited_of_update hstep.ne_exited.2 hexited), ?_⟩
      intro hreturned
      exact absurd (h.joined hreturned w) hstep.ne_exited.1
  | request => exact ⟨hstays, h.joined⟩
  | callsPush => exact ⟨hstays, by simp⟩
  | @callsPop w hpc =>
      refine ⟨fun w' hexited => hstays w' (exited_of_update (by simp) hexited), ?_⟩
      intro hreturned
      simp [h.joined hreturned w] at hpc
  | requestStarts => exact ⟨hstays, h.joined⟩
  | pipeReady => exact ⟨hstays, by simp⟩
  | destructs => exact ⟨hstays, by simp⟩
  | exchangesFirst => exact ⟨hstays, h.joined⟩
  | requestReturns => exact ⟨hstays, by simp⟩
  | closesPool => exact ⟨hstays, by simp⟩
  | joins _ hexited => exact ⟨hstays, fun _ => hexited⟩

end ExitInv

/-- The flag and the drained queue, in every state that a run reaches. -/
theorem running_of_run
    {q : BoundedQueue Fd}
    (hopen : q.closed = false)
    {trace : List (ServerEvent ω ρ)}
    (hrun : Run ServerStep (ServerState.start ω ρ q) trace s) :
    (s.shared.shutdownRequested = false → Running s) ∧ ExitInv s := by
  have hmain := hrun.invariant (fun _ s => CallsInv s ∧
    (s.shared.shutdownRequested = false → Running s) ∧ ExitInv s) ?_ ?_
  · exact hmain.2
  · refine ⟨callsInv_start q, fun _ => ⟨hopen, fun _ => Or.inl rfl, rfl, ?_⟩, ?_, ?_⟩
    · intro hpc
      cases hpc
    · intro w hexited
      cases hexited
    · intro hpc
      cases hpc
  · rintro _ s word s' ⟨hcalls, hrunning, hexit⟩ hstep
    refine ⟨hcalls.step hstep, ?_, hexit.step hcalls hstep⟩
    intro hflag
    exact (hrunning (hstep.flag hcalls hflag)).step hcalls hstep hflag

end Drained

section Serials

variable {ω : Type u} {ρ : Type v}

/-- What a call to `push` returned. -/
def QueueEvent.pushResult {τ : Type u} {α : Type v} : QueueEvent τ α → Option Bool
  | .pushReturned _ _ accepted => some accepted
  | _ => none

/-- What a call to `dispatch` is going to return. -/
def ServerEvent.dispatchResult (e : ServerEvent ω ρ) : Option Bool :=
  e.queueEvent.bind QueueEvent.pushResult

def ServerEvent.rejectedSerial : ServerEvent ω ρ → Option ℕ
  | .rejected serial => serial
  | _ => none

/-- The connection that a worker has come to the end of. -/
def ServerEvent.endedSerial : ServerEvent ω ρ → Option ℕ
  | .constructorThrew _ serial => serial
  | .serveReturned _ serial _ => serial
  | .serveThrew _ serial => serial
  | _ => none

/-- The results of `dispatch`, one for each client in the order in which they were accepted. -/
def dispatchResults (trace : List (ServerEvent ω ρ)) : List Bool :=
  trace.filterMap ServerEvent.dispatchResult

def rejectedSerials (trace : List (ServerEvent ω ρ)) : List ℕ :=
  trace.filterMap ServerEvent.rejectedSerial

def endedSerials (trace : List (ServerEvent ω ρ)) : List ℕ :=
  trace.filterMap ServerEvent.endedSerial

theorem dispatchResults_eq
    (trace : List (ServerEvent ω ρ)) :
    dispatchResults trace =
      (trace.filterMap ServerEvent.queueEvent).filterMap QueueEvent.pushResult :=
  (List.filterMap_filterMap).symm

/-- The number of clients whose dispatch has not been decided. -/
def AcceptorPc.undispatched : AcceptorPc → ℕ
  | .accepted _ => 1
  | .counted _ => 1
  | .pushing _ _ => 1
  | _ => 0

/-- The number that the acceptor is dispatching; `push` holds it until it takes effect. -/
def AcceptorPc.inHand (items : List Fd) : AcceptorPc → List Int
  | .accepted client => [client.fd]
  | .counted client => [client.fd]
  | .pushing _ _ => items.map Fd.fd
  | _ => []

def ServerState.inHand (s : ServerState ω ρ) : List Int :=
  s.acceptor.inHand (s.queue.pc .acceptor).items

/-- What a step does to the client that the acceptor is dispatching. -/
inductive Dispatches (s : ServerState ω ρ) (word : List (ServerEvent ω ρ))
    (s' : ServerState ω ρ) : Prop
  | same
      (hresults : dispatchResults word = [])
      (hrejected : rejectedSerials word = [])
      (hnext : s'.shared.os.next = s.shared.os.next)
      (hpc : s'.acceptor.undispatched = s.acceptor.undispatched)
      (hhand : ∀ n ∈ s'.inHand, n ∈ s.inHand)
  | accepts {number : Int}
      (hresults : dispatchResults word = [])
      (hrejected : rejectedSerials word = [])
      (hos : s'.shared.os = s.shared.os.accept number)
      (hpc : s.acceptor.undispatched = 0)
      (hpc' : s'.acceptor = .accepted ⟨number⟩)
  | decides {item : Fd} {inserted : Bool}
      (hword : word = s.reports (.pushReturned .acceptor item inserted))
      (hos : s'.shared.os = s.shared.os)
      (hpc : s.acceptor.undispatched = 1)
      (hpc' : s'.acceptor.undispatched = 0)
      (hhand : s'.inHand = [])
      (hitem : inserted = false → item.fd ∈ s.inHand)

section Frames

theorem next_destroy
    (g : ServerShared)
    (f : Fd) :
    (g.destroy f).os.next = g.os.next := by
  simp only [ServerShared.destroy, Fd.destroy, Fd.reset, Descriptors.close]
  split_ifs
  · split <;> rfl
  · rfl

theorem rejectedSerials_destroyEvents
    (g : ServerShared)
    (f : Fd) :
    rejectedSerials (g.destroyEvents f : List (ServerEvent ω ρ)) = [] := by
  simp [rejectedSerials, ServerShared.destroyEvents, List.filterMap_map, Function.comp_def,
    ServerEvent.rejectedSerial]

theorem WorkerStep.next_eq
    {w : ω}
    {g g' : ServerShared}
    {pc pc' : WorkerPc}
    {word : List (ServerEvent ω ρ)}
    (h : WorkerStep w g pc word g' pc') :
    g'.os.next = g.os.next ∧ rejectedSerials word = [] := by
  cases h with
  | destroysConnection => exact ⟨next_destroy g _, rejectedSerials_destroyEvents g _⟩
  | unwinds => exact ⟨next_destroy g _, rejectedSerials_destroyEvents g _⟩
  | @finishes client => exact ⟨next_destroy g client, rejectedSerials_destroyEvents g client⟩
  | _ => exact ⟨rfl, rfl⟩

theorem AcceptorStep.inHand
    {g g' : ServerShared}
    {pc pc' : AcceptorPc}
    {word : List (ServerEvent ω ρ)}
    (h : AcceptorStep g pc word g' pc') :
    rejectedSerials word = [] ∧
      ((g'.os.next = g.os.next ∧ pc'.undispatched = pc.undispatched ∧
          pc'.inHand = pc.inHand) ∨
        ∃ number, g'.os = g.os.accept number ∧ pc.undispatched = 0 ∧
          pc' = .accepted ⟨number⟩) := by
  have hdestroyed : ∀ f, rejectedSerials (g.destroyEvents f : List (ServerEvent ω ρ)) = [] :=
    rejectedSerials_destroyEvents g
  cases h with
  | accepts number => exact ⟨rfl, Or.inr ⟨number, rfl, rfl, rfl⟩⟩
  | destroysItem => exact ⟨hdestroyed _, Or.inl ⟨next_destroy g _, rfl, rfl⟩⟩
  | countsDispatch => exact ⟨hdestroyed _, Or.inl ⟨next_destroy g _, rfl, rfl⟩⟩
  | serveOneReturns =>
      refine ⟨hdestroyed _, Or.inl ⟨next_destroy g _, ?_⟩⟩
      split_ifs
      · exact ⟨rfl, rfl⟩
      · exact ⟨rfl, rfl⟩
  | _ => exact ⟨rfl, Or.inl ⟨rfl, rfl, rfl⟩⟩

/-- A call to `push` holds no other item than its argument. -/
theorem QueueMove.items_subset
    {τ : Type u}
    {α : Type v}
    [DecidableEq τ]
    {s s' : QueueState τ α}
    {word : List (QueueEvent τ α)}
    (h : QueueMove s word s')
    {t : τ}
    (hcall : (s.pc t).method = some .push)
    {x : α}
    (hx : x ∈ (s'.pc t).items) :
    x ∈ (s.pc t).items := by
  have hother : ∀ {u a b}, s.pc u = a → a.method ≠ some .push →
      ∀ {pc' : τ → QueuePc α}, (∀ v, (pc' v).items = (Function.update s.pc u b v).items) →
        x ∈ (pc' t).items → x ∈ (s.pc t).items := by
    intro u a b hpc hmethod pc' hitems hmem
    have htu : t ≠ u := by
      rintro rfl
      exact hmethod (hpc ▸ hcall)
    rwa [hitems, Function.update_of_ne htu] at hmem
  have hself : ∀ {u b}, (∀ y ∈ b.items, y ∈ (s.pc u).items) →
      ∀ {pc' : τ → QueuePc α}, (∀ v, (pc' v).items = (Function.update s.pc u b v).items) →
        x ∈ (pc' t).items → x ∈ (s.pc t).items := by
    intro u b hb pc' hitems hmem
    rw [hitems] at hmem
    by_cases htu : t = u
    · subst htu
      rw [Function.update_self] at hmem
      exact hb x hmem
    · rwa [Function.update_of_ne htu] at hmem
  cases h with
  | pushWaits hpc => exact hself (by simp [hpc, QueuePc.items]) (fun _ => rfl) hx
  | pushRejected hpc => exact hself (by simp [QueuePc.items]) (fun _ => rfl) hx
  | pushInserts hpc => exact hself (by simp [QueuePc.items]) (fun _ => rfl) hx
  | pushNotifies hpc hnotify =>
      exact hself (by simp [QueuePc.items])
        (hnotify.apply_eq (f := QueuePc.items) (apply_wakePop rfl)) hx
  | popWaits hpc => exact hother hpc (by simp [QueuePc.method]) (fun _ => rfl) hx
  | popDrained hpc => exact hother hpc (by simp [QueuePc.method]) (fun _ => rfl) hx
  | popRemoves hpc => exact hother hpc (by simp [QueuePc.method]) (fun _ => rfl) hx
  | popNotifies hpc hnotify =>
      exact hother hpc (by simp [QueuePc.method])
        (hnotify.apply_eq (f := QueuePc.items) (apply_wakePush fun _ => rfl)) hx
  | closes hpc => exact hother hpc (by simp [QueuePc.method]) (fun _ => rfl) hx
  | closeNotifiesEmpty hpc =>
      exact hother hpc (by simp [QueuePc.method])
        (notifyAll_apply_eq (f := QueuePc.items) (apply_wakePop rfl) _) hx
  | closeNotifiesFull hpc =>
      exact hother hpc (by simp [QueuePc.method])
        (notifyAll_apply_eq (f := QueuePc.items) (apply_wakePush fun _ => rfl) _) hx
  | spuriousPop hwake =>
      exact hself (by simp [apply_wakePop (f := QueuePc.items) rfl _ _ hwake]) (fun _ => rfl) hx
  | spuriousPush hwake =>
      exact hself (by simp [apply_wakePush (f := QueuePc.items) (fun _ => rfl) _ _ hwake])
        (fun _ => rfl) hx

/-- A step after which every thread is in the method it was in returns no call. -/
theorem QueueChange.quiet_events
    {τ : Type u}
    {α : Type v}
    [Fintype τ]
    [DecidableEq τ]
    {s s' : QueueState τ α}
    {word : List (QueueEvent τ α)}
    (h : QueueChange s word s')
    (hmethod : ∀ t, (s'.pc t).method = (s.pc t).method) :
    ∀ e ∈ word, e.pushResult = none := by
  cases h with
  | quiet hword =>
      intro e he
      rcases hword e he with ⟨t, item, rfl⟩ | ⟨t, item, rfl⟩ | ⟨t, rfl⟩ <;> rfl
  | @accepted _ t _ hcall hmethod' =>
      have hsame := hmethod t
      simp [hmethod' t, hcall] at hsame
  | @rejected _ t _ hcall hmethod' =>
      have hsame := hmethod t
      simp [hmethod' t, hcall] at hsame
  | _ => simp [QueueEvent.pushResult]

end Frames

section Steps

variable [Fintype ω] [Fintype ρ] [DecidableEq ω] [DecidableEq ρ] {s s' : ServerState ω ρ}

omit [Fintype ω] [Fintype ρ] [DecidableEq ω] [DecidableEq ρ] in
/-- A step that leaves the acceptor where it is, and its item with it. -/
theorem dispatches_of_eq
    {word : List (ServerEvent ω ρ)}
    (hqueue : word.filterMap ServerEvent.queueEvent = [])
    (hrejected : rejectedSerials word = [])
    (hnext : s'.shared.os.next = s.shared.os.next)
    (hpc : s'.acceptor.undispatched = s.acceptor.undispatched)
    (hhand : s'.inHand = s.inHand) :
    Dispatches s word s' := by
  refine .same ?_ hrejected hnext hpc (by rw [hhand]; exact fun _ hn => hn)
  rw [dispatchResults_eq, hqueue]
  rfl

omit [Fintype ω] [Fintype ρ] [DecidableEq ω] [DecidableEq ρ] in
theorem rejectedSerials_queue
    (word : List (QueueEvent (ServerThread ω ρ) Fd)) :
    rejectedSerials (word.map ServerEvent.queue) = [] := by
  simp [rejectedSerials, List.filterMap_map, Function.comp_def, ServerEvent.rejectedSerial]

omit [Fintype ω] [Fintype ρ] in
/-- A call of another thread, or one that the acceptor makes with empty hands. -/
theorem inHand_call
    {t : ServerThread ω ρ}
    {pc : QueuePc Fd}
    (ht : t = .acceptor → ∀ items, s.acceptor.inHand items = []) :
    (s.call t pc).inHand = s.inHand := by
  by_cases hacceptor : t = .acceptor
  · simp [ServerState.inHand, ServerState.call, ht hacceptor]
  · simp [ServerState.inHand, ServerState.call, QueueState.move,
      Function.update_of_ne (Ne.symm hacceptor)]

theorem Delivery.dispatches
    (hcalls : CallsInv s)
    {word : List (QueueEvent (ServerThread ω ρ) Fd)}
    {q : QueueState (ServerThread ω ρ) Fd}
    (hmove : QueueMove s.queue word q)
    (hdelivery : Delivery s q word s') :
    Dispatches s (word.flatMap s.reports) s' := by
  have hhand : ∀ {acceptor}, acceptor = s.acceptor →
      ∀ n ∈ AcceptorPc.inHand (q.pc .acceptor).items acceptor, n ∈ s.inHand := by
    rintro _ rfl n hn
    unfold ServerState.inHand
    cases hpc : s.acceptor with
    | pushing client arg =>
        have hcall : (s.queue.pc .acceptor).method = some .push := by
          rw [hcalls.method, method_acceptor (hcalls.acceptor.resolve_right (by simp [hpc])), hpc]
          rfl
        rw [hpc] at hn
        obtain ⟨item, hitem, rfl⟩ := List.mem_map.1 hn
        exact List.mem_map_of_mem (hmove.items_subset hcall hitem)
    | _ =>
        rw [hpc] at hn
        exact hn
  have hquiet : (∀ e ∈ word, e.pushResult = none) → word.flatMap s.reports = word.map .queue →
      s'.shared.os.next = s.shared.os.next → s'.acceptor = s.acceptor → s'.queue = q →
      Dispatches s (word.flatMap s.reports) s' := by
    intro hnone hreports hnext hpc hqueue
    refine .same ?_ ?_ hnext (by rw [hpc]) ?_
    · rw [dispatchResults_eq, queueEvents_reports]
      exact List.filterMap_eq_nil_iff.2 hnone
    · rw [hreports]
      exact rejectedSerials_queue word
    · unfold ServerState.inHand
      rw [hqueue]
      exact hhand hpc
  cases hdelivery with
  | quiet hreports hmethod _ =>
      refine hquiet (hmove.change.quiet_events ?_) hreports rfl rfl rfl
      intro t
      rw [hmethod, hcalls.method]
  | @accepted client arg item hpc _ _ =>
      have hword : [QueueEvent.pushReturned .acceptor item true].flatMap s.reports =
          s.reports (.pushReturned .acceptor item true) := by simp
      exact .decides hword rfl (by rw [hpc]; rfl) rfl rfl (by simp)
  | @rejected client arg item hpc _ _ =>
      have hword : [QueueEvent.pushReturned .acceptor item false].flatMap s.reports =
          s.reports (.pushReturned .acceptor item false) := by simp
      refine .decides hword rfl (by rw [hpc]; rfl) rfl rfl (fun _ => ?_)
      rw [ServerState.inHand, hpc, hmove.of_rejected.2]
      exact List.mem_singleton.2 rfl
  | popped => exact hquiet (by simp [QueueEvent.pushResult]) rfl rfl rfl rfl
  | drained => exact hquiet (by simp [QueueEvent.pushResult]) rfl rfl rfl rfl
  | requestClosed => exact hquiet (by simp [QueueEvent.pushResult]) rfl rfl rfl rfl
  | poolClosed hpc =>
      refine .same rfl rfl rfl (by rw [hpc]; rfl) ?_
      simp [ServerState.inHand, AcceptorPc.inHand]

theorem ServerStep.dispatches
    (hcalls : CallsInv s)
    {word : List (ServerEvent ω ρ)}
    (hstep : ServerStep s word s') :
    Dispatches s word s' := by
  cases hstep with
  | environment henv =>
      refine dispatches_of_eq rfl rfl ?_ rfl rfl
      cases henv <;> rfl
  | queueMoves hmove => exact Delivery.dispatches hcalls hmove (hcalls.delivery hmove)
  | acceptor hstep =>
      obtain ⟨hrejected, ⟨hnext, hpc, hhand⟩ | ⟨number, hos, hpc, hpc'⟩⟩ := hstep.inHand
      · refine dispatches_of_eq hstep.queueEvents hrejected hnext hpc ?_
        exact congrFun hhand _
      · refine .accepts ?_ hrejected hos hpc hpc'
        rw [dispatchResults_eq, hstep.queueEvents]
        rfl
  | worker hstep => exact dispatches_of_eq hstep.queueEvents hstep.next_eq.2 hstep.next_eq.1 rfl rfl
  | request hstep =>
      refine dispatches_of_eq rfl rfl ?_ rfl rfl
      exact congrArg Descriptors.next hstep.os_eq
  | callsPush hpc =>
      refine dispatches_of_eq rfl rfl rfl (by rw [hpc]; rfl) ?_
      simp [ServerState.inHand, ServerState.call, QueueState.move, hpc, AcceptorPc.inHand,
        QueuePc.items, Fd.moved]
  | callsPop hpc => exact dispatches_of_eq rfl rfl rfl rfl (inHand_call (by simp))
  | requestStarts => exact dispatches_of_eq rfl rfl rfl rfl rfl
  | pipeReady hpc =>
      exact .same rfl rfl rfl (by rw [hpc]; rfl) (by simp [ServerState.inHand, AcceptorPc.inHand])
  | destructs hpc =>
      exact .same rfl rfl rfl (by rw [hpc]; rfl) (by simp [ServerState.inHand, AcceptorPc.inHand])
  | exchangesFirst hpc =>
      refine dispatches_of_eq rfl rfl rfl rfl (inHand_call (s := s.setRequest _ _) ?_)
      rintro rfl
      have hacceptor := hcalls.acceptor.resolve_left (by simp [hpc])
      simp [ServerState.setRequest, hacceptor, AcceptorPc.inHand]
  | requestReturns hpc hrequest =>
      exact .same rfl rfl rfl (by rw [hpc]; rfl) (by simp [ServerState.inHand, AcceptorPc.inHand])
  | closesPool hpc =>
      exact .same rfl rfl rfl (by rw [hpc]; rfl) (by simp [ServerState.inHand, AcceptorPc.inHand])
  | joins hpc hexited =>
      exact .same rfl rfl rfl (by rw [hpc]; rfl) (by simp [ServerState.inHand, AcceptorPc.inHand])

end Steps

section Invariant

open Holdings

variable {a : Lifecycle.State Int}

/-- A descriptor that waits is not closed by a step. -/
theorem Tracks.mem_table
    {os os' : Descriptors}
    {h h' : Holdings}
    (htracks : Tracks os h a)
    (hkeys : (a.inUse.map Prod.fst).Nodup)
    {word : List (ServerEvent ω ρ)}
    (hhandover : Handover os word h h' os')
    {n : Int}
    {c : ℕ}
    (hn : n ∈ h.1)
    (hmem : (n, c) ∈ os.table) :
    (n, c) ∈ os'.table := by
  cases hhandover with
  | accept => exact List.mem_cons_of_mem _ hmem
  | @release _ number _ hword =>
      obtain ⟨k, others, hentry, _⟩ := exists_entry htracks.leaving
      have hnodup : (os.table.map Prod.fst).Nodup := by
        rw [← htracks.table, Multiset.map_coe] at hkeys
        exact hkeys
      have hinUse : (number, k) ∈ a.inUse := by simp [Lifecycle.State.inUse, hentry]
      rw [← htracks.table] at hinUse
      obtain ⟨rfl, _⟩ := hword k (lookup_of_mem hnodup hinUse)
      refine List.mem_filter.2 ⟨hmem, ?_⟩
      -- The two numbers are owned at different stages.
      have hwaiting : n ∈ a.waiting.map Prod.fst := by
        rw [← htracks.waiting]
        exact hn
      have hleaving : number ∈ a.leaving.map Prod.fst := by simp [hentry]
      rw [Lifecycle.State.inUse, Multiset.map_add, Multiset.map_add, add_assoc] at hkeys
      have hdisjoint := (Multiset.nodup_add.1 hkeys).2.2
      simp only [decide_eq_true_eq]
      rintro rfl
      exact Multiset.disjoint_left.1 hdisjoint hwaiting (Multiset.mem_add.2 (Or.inr hleaving))
  | _ => exact hmem

variable [Fintype ω] [Fintype ρ] {s s' : ServerState ω ρ} {trace : List (ServerEvent ω ρ)}

/-- The client that is being dispatched waits. -/
theorem mem_waiting_of_inHand
    {n : Int}
    (hn : n ∈ s.inHand) :
    n ∈ s.holdings.1 := by
  unfold ServerState.inHand at hn
  simp only [ServerState.holdings, Prod.fst_add, Multiset.mem_add]
  cases hpc : s.acceptor with
  | accepted client =>
      rw [hpc] at hn
      exact Or.inl (Or.inl (Multiset.mem_singleton.2 (List.mem_singleton.1 hn)))
  | counted client =>
      rw [hpc] at hn
      exact Or.inl (Or.inl (Multiset.mem_singleton.2 (List.mem_singleton.1 hn)))
  | pushing client arg =>
      rw [hpc] at hn
      obtain ⟨item, hitem, rfl⟩ := List.mem_map.1 hn
      refine Or.inl (Or.inr (Multiset.mem_map_of_mem _ ?_))
      rw [QueueState.inTransit, Multiset.mem_add]
      exact Or.inl (Multiset.mem_sum.2 ⟨.acceptor, Finset.mem_univ _, hitem⟩)
  | _ =>
      rw [hpc] at hn
      simp [AcceptorPc.inHand] at hn

/-- The results of `dispatch` belong to the clients in the order of their serial numbers. -/
structure SerialInv (trace : List (ServerEvent ω ρ)) (s : ServerState ω ρ) : Prop where
  length : (dispatchResults trace).length + s.acceptor.undispatched = s.shared.os.next
  inHand : ∀ n ∈ s.inHand, (n, (dispatchResults trace).length) ∈ s.shared.os.table
  rejected : ∀ c, c ∈ rejectedSerials trace ↔ (dispatchResults trace)[c]? = some false
  rejections : (rejectedSerials trace).length = (dispatchResults trace).count false

omit [Fintype ω] [Fintype ρ] in
theorem dispatchResults_append
    (front back : List (ServerEvent ω ρ)) :
    dispatchResults (front ++ back) = dispatchResults front ++ dispatchResults back := by
  simp [dispatchResults]

omit [Fintype ω] [Fintype ρ] in
theorem rejectedSerials_append
    (front back : List (ServerEvent ω ρ)) :
    rejectedSerials (front ++ back) = rejectedSerials front ++ rejectedSerials back := by
  simp [rejectedSerials]

theorem getElem?_concat_iff
    (results : List Bool)
    (last b : Bool)
    (c : ℕ) :
    (results ++ [last])[c]? = some b ↔
      results[c]? = some b ∨ c = results.length ∧ last = b := by
  rcases Nat.lt_trichotomy c results.length with hlt | rfl | hgt
  · rw [List.getElem?_append_left hlt]
    have hne : c ≠ results.length := by omega
    simp [hne]
  · simp
  · have hnone : results[c]? = none := List.getElem?_eq_none (by omega)
    have hnone' : (results ++ [last])[c]? = none := List.getElem?_eq_none (by simp; omega)
    have hne : c ≠ results.length := by omega
    simp [hnone, hnone', hne]

omit [Fintype ω] [Fintype ρ] in
/-- A step at which no `dispatch` returns changes nothing about the results. -/
theorem SerialInv.append
    (h : SerialInv trace s)
    {word : List (ServerEvent ω ρ)}
    (hresults : dispatchResults word = [])
    (hrejected : rejectedSerials word = []) :
    dispatchResults (trace ++ word) = dispatchResults trace ∧
      (∀ c, c ∈ rejectedSerials (trace ++ word) ↔
        (dispatchResults (trace ++ word))[c]? = some false) ∧
      (rejectedSerials (trace ++ word)).length = (dispatchResults (trace ++ word)).count false := by
  rw [dispatchResults_append, hresults, rejectedSerials_append, hrejected, List.append_nil,
    List.append_nil]
  exact ⟨rfl, h.rejected, h.rejections⟩

theorem SerialInv.step
    (h : SerialInv trace s)
    (htracks : Tracks s.shared.os s.holdings a)
    (hkeys : (a.inUse.map Prod.fst).Nodup)
    {word : List (ServerEvent ω ρ)}
    (hhandover : Handover s.shared.os word s.holdings s'.holdings s'.shared.os)
    (hdispatches : Dispatches s word s') :
    SerialInv (trace ++ word) s' := by
  have hlength := h.length
  cases hdispatches with
  | same hresults hrejected hnext hpc hhand =>
      obtain ⟨hsame, hserials, hcount⟩ := h.append hresults hrejected
      refine ⟨by rw [hsame, hpc, hnext, hlength], ?_, hserials, hcount⟩
      intro n hn
      rw [hsame]
      have hbefore := hhand n hn
      exact htracks.mem_table hkeys hhandover (mem_waiting_of_inHand hbefore) (h.inHand n hbefore)
  | @accepts number hresults hrejected hos hpc hpc' =>
      obtain ⟨hsame, hserials, hcount⟩ := h.append hresults hrejected
      rw [hpc, add_zero] at hlength
      refine ⟨?_, ?_, hserials, hcount⟩
      · rw [hsame, hpc', hos, hlength]
        rfl
      · intro n hn
        rw [ServerState.inHand, hpc'] at hn
        rw [List.mem_singleton.1 hn, hsame, hos, hlength]
        exact List.mem_cons_self
  | @decides item inserted hword hos hpc hpc' hhand hitem =>
      have hresults : dispatchResults (trace ++ word) = dispatchResults trace ++ [inserted] := by
        rw [dispatchResults_append, hword]
        cases inserted <;> rfl
      have hrejected : rejectedSerials word =
          if inserted then [] else [(dispatchResults trace).length] := by
        rw [hword]
        cases inserted with
        | true => rfl
        | false =>
            have hnodup : (s.shared.os.table.map Prod.fst).Nodup := by
              rw [← htracks.table, Multiset.map_coe] at hkeys
              exact hkeys
            have hlookup := lookup_of_mem hnodup (h.inHand _ (hitem rfl))
            simp only [ServerState.reports, hlookup]
            rfl
      refine ⟨?_, by simp [hhand], ?_, ?_⟩
      · rw [hresults, hpc', hos, List.length_append, List.length_singleton, add_zero, ← hlength,
          hpc]
      · intro c
        rw [hresults, getElem?_concat_iff, ← h.rejected, rejectedSerials_append, List.mem_append,
          hrejected]
        cases inserted <;> simp
      · rw [hresults, rejectedSerials_append, hrejected, List.length_append, h.rejections,
          List.count_append]
        cases inserted <;> rfl

variable [DecidableEq ω] [DecidableEq ρ]

theorem serialInv_of_run
    {q : BoundedQueue Fd}
    (hrun : Run ServerStep (ServerState.start ω ρ q) trace s)
    (hempty : q.queue = []) :
    SerialInv trace s := by
  have hmain := hrun.invariant (fun trace s =>
    Run ServerStep (ServerState.start ω ρ q) trace s ∧ SerialInv trace s) ?_ ?_
  · exact hmain.2
  · refine ⟨.refl, rfl, ?_, ?_, rfl⟩
    · intro n hn
      simp [ServerState.inHand, ServerState.start, AcceptorPc.inHand] at hn
    · intro c
      simp [rejectedSerials, dispatchResults]
  · rintro trace s word s' ⟨hrun, hinv⟩ hstep
    obtain ⟨⟨hcalls, hlocal⟩, _, a, ha, htracks⟩ := refines_of_run hrun hempty
    exact ⟨hrun.tail hstep, hinv.step htracks (Lifecycle.Sound.of_run ha).keys
      (hstep.handover hcalls hlocal) (hstep.dispatches hcalls)⟩

end Invariant

end Serials

section Finished

variable {ω : Type u} {ρ : Type v} {trace : List (ServerEvent ω ρ)} {s : ServerState ω ρ}
  {a : Lifecycle.State Int}

theorem coe_filterMap_cons
    {β : Type u}
    {γ : Type v}
    (f : β → Option γ)
    (e : β)
    (rest : List β) :
    ((e :: rest).filterMap f : Multiset γ) = (f e).toList + (rest.filterMap f : Multiset γ) := by
  cases h : f e <;> simp [h]

/-- A descriptor leaves because it is rejected, or because its connection has ended. -/
theorem leftSerials_life
    (trace : List (ServerEvent ω ρ)) :
    Lifecycle.serials Lifecycle.Event.leftSerial (trace.filterMap ServerEvent.life) =
      rejectedSerials trace + endedSerials trace := by
  have hone : ∀ e : ServerEvent ω ρ,
      ((e.life.bind Lifecycle.Event.leftSerial).toList : Multiset ℕ) =
        e.rejectedSerial.toList + e.endedSerial.toList := by
    intro e
    rcases e with
      _ | ⟨_ | _ | _⟩ | ⟨_ | _⟩ | ⟨_, _ | _⟩ | ⟨_, _ | _⟩ | ⟨_, _ | _, _⟩ | ⟨_, _ | _⟩ <;> rfl
  rw [Lifecycle.serials, List.filterMap_filterMap, rejectedSerials, endedSerials]
  induction trace with
  | nil => rfl
  | cons e trace ih =>
      rw [coe_filterMap_cons, coe_filterMap_cons, coe_filterMap_cons, ih, hone]
      abel

/-- A descriptor leaves at most once. -/
theorem count_left_le
    (hsound : Lifecycle.Sound (trace.filterMap ServerEvent.life) a)
    (c : ℕ) :
    (rejectedSerials trace).count c + (endedSerials trace).count c ≤ 1 := by
  have hleft := congrArg (Multiset.count c) hsound.left
  have haccounted := congrArg (Multiset.count c) hsound.accounted
  have honce : (Multiset.range a.next).count c ≤ 1 :=
    Multiset.nodup_iff_count_le_one.1 (Multiset.nodup_range _) c
  rw [leftSerials_life, Multiset.count_add, Multiset.coe_count, Multiset.coe_count] at hleft
  rw [Lifecycle.State.inUse, Multiset.map_add] at haccounted
  simp only [Multiset.count_add] at hleft haccounted
  omega

/-- Once nothing is owned any more every accepted descriptor has left. -/
theorem leftSerials_of_inUse
    (hsound : Lifecycle.Sound (trace.filterMap ServerEvent.life) a)
    (hinUse : a.inUse = 0) :
    (rejectedSerials trace + endedSerials trace : Multiset ℕ) = Multiset.range a.next := by
  have hleaving : a.leaving = 0 := by
    have hle : a.leaving ≤ a.inUse := Multiset.le_add_left _ _
    rw [hinUse] at hle
    exact Multiset.le_zero.1 hle
  rw [← leftSerials_life, hsound.left, ← hsound.accounted, hinUse, hleaving]

variable [Fintype ω] [Fintype ρ]

/-- Once the acceptor has joined the workers nothing is owned any more. -/
theorem inUse_eq_zero
    (hcalls : CallsInv s)
    (hexit : ExitInv s)
    (htracks : Tracks s.shared.os s.holdings a)
    (hreturned : s.acceptor = .returned)
    (hqueue : s.queue.shared.queue = []) :
    a.inUse = 0 := by
  have hacceptor : s.queue.pc .acceptor = .idle :=
    hcalls.acceptor_idle (by simp [hreturned]) (by rw [hreturned]; rfl)
  have hworkers : ∀ w, placeNumbers (s.worker w).holdings (s.queue.pc (.worker w)) = 0 := by
    intro w
    have hexited := hexit.joined hreturned w
    rw [hcalls.worker_idle (by rw [hexited]; rfl), hexited]
    rfl
  have hnumbers := htracks.numbers_eq
  rw [numbers_holdings hcalls, hacceptor, hreturned, hqueue,
    Finset.sum_eq_zero (fun w _ => hworkers w)] at hnumbers
  exact Multiset.map_eq_zero.1 (hnumbers.symm.trans rfl)

end Finished

end HttpServer
