import HttpServer.FdObjects
import HttpServer.Lib.ServiceOrder
import HttpServer.Shutdown

/-!
# The order in which clients are served

The acceptor hands clients to the queue one after the other, and the queue is first
in, first out; but a worker that has popped a client may be slow to construct its
connection, and others may pass it.  How far this can go is a property of the abstract
line of `Lib.ServiceOrder`, which the server refines:

* `LineStep`: what a step does to the clients in the queue, to the one that the
  acceptor brings and to those that workers have popped;
* `Lines`: the numbers of these clients are those of the abstract line;
* `lines_of_run`: a run of the server is a run of the line.
-/

namespace HttpServer

open Transition Threads

universe u v

section Places

variable {α : Type u}

/-- The item that a call to `push` has not inserted yet. -/
def QueuePc.offer : QueuePc α → Option α
  | .pushReady item => some item
  | .pushWait item => some item
  | _ => none

/-- The item that a call to `pop` has removed. -/
def QueuePc.taken : QueuePc α → Option α
  | .popNotify item => some item
  | _ => none

/-- The client that the acceptor holds in its own code. -/
def AcceptorPc.offer : AcceptorPc → Option Fd
  | .accepted client => some client
  | .counted client => some client
  | _ => none

/-- The client that a worker has popped and not begun to serve. -/
def WorkerPc.taken : WorkerPc → Option Fd
  | .popped client => some client
  | .active client => some client
  | _ => none

variable {ω : Type u} {ρ : Type v}

namespace ServerState

/-- The serial number of the client whose descriptor an object owns. -/
def serial (s : ServerState ω ρ) (f : Fd) : Option ℕ :=
  s.shared.os.lookup f.fd

/-- The client on its way from `accept` to the queue. -/
def offering (s : ServerState ω ρ) : Option Fd :=
  s.acceptor.offer.or (s.queue.pc .acceptor).offer

/-- The client that a worker has taken from the queue and not begun to serve. -/
def holding (s : ServerState ω ρ) (w : ω) : Option Fd :=
  (s.worker w).taken.or (s.queue.pc (.worker w)).taken

/-- The clients that have not been begun. -/
def Awaits (s : ServerState ω ρ) (f : Fd) : Prop :=
  f ∈ s.queue.shared.queue ∨ s.offering = some f ∨ ∃ w, s.holding w = some f

end ServerState

/-- What an event says about the order of service. -/
def ServerEvent.order : ServerEvent ω ρ → Option (ServiceOrder.Event ω)
  | .constructed w (some n) => some (.begun w n)
  | .constructorThrew w (some n) => some (.begun w n)
  | .rejected (some n) => some (.refused n)
  | _ => none

theorem order_rejected
    (serial : Option ℕ) :
    [(.rejected serial : ServerEvent ω ρ)].filterMap ServerEvent.order =
      serial.toList.map .refused := by
  cases serial <;> rfl

theorem order_constructed
    (w : ω)
    (serial : Option ℕ) :
    [(.constructed w serial : ServerEvent ω ρ)].filterMap ServerEvent.order =
      serial.toList.map (.begun w) := by
  cases serial <;> rfl

theorem order_constructorThrew
    (w : ω)
    (serial : Option ℕ) :
    [(.constructorThrew w serial : ServerEvent ω ρ)].filterMap ServerEvent.order =
      serial.toList.map (.begun w) := by
  cases serial <;> rfl

theorem order_destroyEvents
    (g : ServerShared)
    (f : Fd) :
    (g.destroyEvents (ω := ω) (ρ := ρ) f).filterMap ServerEvent.order = [] := by
  unfold ServerShared.destroyEvents
  rw [List.filterMap_map]
  exact List.filterMap_eq_nil_iff.2 (fun _ _ => rfl)

end Places

section Steps

variable {ω : Type u} {ρ : Type v}

/-- What a step does to the clients that have not been begun. -/
inductive LineStep [DecidableEq ω] (s s' : ServerState ω ρ) (word : List (ServerEvent ω ρ)) : Prop
  | rest
      (hword : word.filterMap ServerEvent.order = [])
      (hqueue : s'.queue.shared.queue = s.queue.shared.queue)
      (hclosed : s'.queue.shared.closed = s.queue.shared.closed)
      (hoffering : s'.offering = s.offering)
      (hholding : s'.holding = s.holding)
      (hnext : s'.shared.os.next = s.shared.os.next)
  | arrive (number : Int)
      (hword : word.filterMap ServerEvent.order = [])
      (hqueue : s'.queue = s.queue)
      (hoffering : s.offering = none)
      (hoffering' : s'.offering = some ⟨number⟩)
      (hholding : s'.holding = s.holding)
      (hos : s'.shared.os = s.shared.os.accept number)
  | enter (f : Fd)
      (hword : word.filterMap ServerEvent.order = [])
      (hqueue : s'.queue.shared.queue = s.queue.shared.queue ++ [f])
      (hopen : s.queue.shared.closed = false)
      (hopen' : s'.queue.shared.closed = false)
      (hoffering : s.offering = some f)
      (hoffering' : s'.offering = none)
      (hholding : s'.holding = s.holding)
      (hos : s'.shared = s.shared)
  | refuse (f : Fd)
      (hword : word.filterMap ServerEvent.order = (s.serial f).toList.map .refused)
      (hqueue : s'.queue.shared = s.queue.shared)
      (hclosed : s.queue.shared.closed = true)
      (hoffering : s.offering = some f)
      (hoffering' : s'.offering = none)
      (hholding : s'.holding = s.holding)
      (hos : s'.shared = s.shared)
  | close
      (hword : word.filterMap ServerEvent.order = [])
      (hqueue : s'.queue.shared.queue = s.queue.shared.queue)
      (hclosed : s'.queue.shared.closed = true)
      (hoffering : s'.offering = s.offering)
      (hholding : s'.holding = s.holding)
      (hos : s'.shared = s.shared)
  | take (w : ω) (f : Fd)
      (hword : word.filterMap ServerEvent.order = [])
      (hqueue : s.queue.shared.queue = f :: s'.queue.shared.queue)
      (hclosed : s'.queue.shared.closed = s.queue.shared.closed)
      (hoffering : s'.offering = s.offering)
      (hfree : s.holding w = none)
      (hholding : s'.holding = Function.update s.holding w (some f))
      (hos : s'.shared = s.shared)
  | start (w : ω) (f : Fd)
      (hword : word.filterMap ServerEvent.order = (s.serial f).toList.map (.begun w))
      (hqueue : s'.queue = s.queue)
      (hoffering : s'.offering = s.offering)
      (hheld : s.holding w = some f)
      (hholding : s'.holding = Function.update s.holding w none)
      (hos : s'.shared = s.shared)

variable {s s' : ServerState ω ρ}

theorem holding_congr
    (hworker : ∀ w, (s'.worker w).taken = (s.worker w).taken)
    (htaken : ∀ w, (s'.queue.pc (.worker w)).taken = (s.queue.pc (.worker w)).taken) :
    s'.holding = s.holding := by
  funext w
  simp only [ServerState.holding, hworker, htaken]

variable [DecidableEq ω]

/-- A call goes on, and all items stay where they are. -/
theorem LineStep.of_pc
    {q : QueueState (ServerThread ω ρ) Fd}
    (hshared : q.shared = s.queue.shared)
    (hoffer : ∀ t, (q.pc t).offer = (s.queue.pc t).offer)
    (htaken : ∀ t, (q.pc t).taken = (s.queue.pc t).taken) :
    LineStep s { s with queue := q } [] := by
  refine .rest rfl (by rw [hshared]) (by rw [hshared]) ?_ ?_ rfl
  · simp only [ServerState.offering, hoffer]
  · funext w
    simp only [ServerState.holding, htaken]

/-- One worker moves, in its own code or in a call. -/
theorem holding_of_worker
    (s' : ServerState ω ρ)
    (w : ω)
    (pc : WorkerPc)
    (hworker : s'.worker = Function.update s.worker w pc)
    (htaken : ∀ w', w' ≠ w →
      (s'.queue.pc (.worker w')).taken = (s.queue.pc (.worker w')).taken) :
    s'.holding =
      Function.update s.holding w (pc.taken.or (s'.queue.pc (.worker w)).taken) := by
  funext w'
  by_cases hw : w' = w
  · subst hw
    simp [ServerState.holding, hworker]
  · simp [ServerState.holding, hworker, hw, htaken w' hw]

variable [DecidableEq ρ]

section Moves

variable {q : QueueState (ServerThread ω ρ) Fd}

/-- Where the items are when one thread returns and others may be woken. -/
theorem places_of_return
    {t : ServerThread ω ρ}
    {pc : ServerThread ω ρ → QueuePc Fd}
    (hoffer : ∀ u, (pc u).offer = (Function.update s.queue.pc t .idle u).offer)
    (htaken : ∀ u, (pc u).taken = (Function.update s.queue.pc t .idle u).taken) :
    (pc t).offer = none ∧ (pc t).taken = none ∧
      ∀ u, u ≠ t → (pc u).offer = (s.queue.pc u).offer ∧ (pc u).taken = (s.queue.pc u).taken := by
  refine ⟨by rw [hoffer, Function.update_self]; rfl, by rw [htaken, Function.update_self]; rfl, ?_⟩
  intro u hu
  rw [hoffer, htaken, Function.update_of_ne hu]
  exact ⟨rfl, rfl⟩

/-- `pop` returns an item that its worker has already taken, or none. -/
theorem lineStep_of_popReturn
    {w : ω}
    {pc : ServerThread ω ρ → QueuePc Fd}
    {word : List (ServerEvent ω ρ)}
    (pc' : WorkerPc)
    (hword : word.filterMap ServerEvent.order = [])
    (hworker : s.worker w = .popping)
    (htaken' : pc'.taken = (s.queue.pc (.worker w)).taken)
    (hoffer : ∀ u, (pc u).offer = (Function.update s.queue.pc (.worker w) .idle u).offer)
    (htaken : ∀ u, (pc u).taken = (Function.update s.queue.pc (.worker w) .idle u).taken) :
    LineStep s { s.setWorker w pc' with queue := { s.queue with pc := pc } } word := by
  obtain ⟨_, hnone, hothers⟩ := places_of_return hoffer htaken
  refine .rest hword rfl rfl ?_ ?_ rfl
  · simp only [ServerState.offering, ServerState.setWorker, (hothers .acceptor (by simp)).1]
  · have hholding := holding_of_worker (s := s)
      { s.setWorker w pc' with queue := { s.queue with pc := pc } } w pc' rfl
      (fun w' hw => (hothers (.worker w') (by simpa using hw)).2)
    rw [hholding, hnone, Option.or_none, htaken']
    have hself : s.holding w = (s.queue.pc (.worker w)).taken := by
      simp [ServerState.holding, hworker, WorkerPc.taken]
    rw [← hself, Function.update_eq_self]

theorem lineStep_of_queueMove
    (hcalls : CallsInv s)
    {word : List (QueueEvent (ServerThread ω ρ) Fd)}
    (hmove : QueueMove s.queue word q) :
    LineStep s (word.foldl ServerState.deliver { s with queue := q })
      (word.flatMap s.reports) := by
  cases hmove with
  | pushWaits hpc =>
      exact .of_pc rfl (apply_update_eq (by rw [hpc]; rfl)) (apply_update_eq (by rw [hpc]; rfl))
  | @pushRejected t item hpc hsection =>
      obtain ⟨rfl, client, arg, hacceptor⟩ := hcalls.pushing (t := t) (by rw [hpc]; rfl)
      have hclosed := (QueueMove.of_rejected (.pushRejected hpc hsection)).1
      have hdeliver : [QueueEvent.pushReturned .acceptor item false].foldl ServerState.deliver
          { s with queue := s.queue.move .acceptor .idle } =
            { s with queue := s.queue.move .acceptor .idle
                     acceptor := .pushReturned client arg item false } := by
        simp [ServerState.deliver, ServerState.pushReturns, hacceptor]
      rw [hdeliver]
      refine .refuse item ?_ rfl hclosed ?_ ?_ ?_ rfl
      · exact order_rejected (s.serial item)
      · simp [ServerState.offering, hacceptor, hpc, AcceptorPc.offer, QueuePc.offer]
      · simp [ServerState.offering, QueueState.move, AcceptorPc.offer, QueuePc.offer]
      · exact holding_congr (fun _ => rfl) (fun w => by simp [QueueState.move])
  | @pushInserts t item q hpc hsection =>
      obtain ⟨rfl, client, arg, hacceptor⟩ := hcalls.pushing (t := t) (by rw [hpc]; rfl)
      obtain ⟨hopen, _, rfl⟩ := (BoundedQueue.pushSection_eq_inserted_iff _ _ _).1 hsection
      refine .enter item rfl rfl hopen hopen ?_ ?_ ?_ rfl
      · simp [ServerState.offering, hacceptor, hpc, AcceptorPc.offer, QueuePc.offer]
      · simp [ServerState.offering, ServerState.deliver, hacceptor, AcceptorPc.offer, QueuePc.offer]
      · exact holding_congr (fun _ => rfl) (fun w => by simp [ServerState.deliver])
  | @pushNotifies t item pc hpc hnotify =>
      obtain ⟨rfl, client, arg, hacceptor⟩ := hcalls.pushing (t := t) (by rw [hpc]; rfl)
      obtain ⟨hnone, _, hothers⟩ := places_of_return
        (hnotify.apply_eq (apply_wakePop rfl))
        (hnotify.apply_eq (apply_wakePop rfl))
      have hdeliver : [QueueEvent.pushReturned .acceptor item true].foldl ServerState.deliver
          { s with queue := { s.queue with pc := pc } } =
            { s with queue := { s.queue with pc := pc }
                     acceptor := .pushReturned client arg item.movedFrom true } := by
        simp [ServerState.deliver, ServerState.pushReturns, hacceptor]
      rw [hdeliver]
      refine .rest rfl rfl rfl ?_ ?_ rfl
      · simp only [ServerState.offering, hacceptor, hpc, hnone]
        rfl
      · exact holding_congr (fun _ => rfl) (fun w => (hothers (.worker w) (by simp)).2)
  | popWaits hpc =>
      exact .of_pc rfl (apply_update_eq (by rw [hpc]; rfl)) (apply_update_eq (by rw [hpc]; rfl))
  | @popDrained t hpc =>
      obtain ⟨w, rfl, hworker⟩ := hcalls.popping (t := t) (by rw [hpc]; rfl)
      exact lineStep_of_popReturn .exited rfl hworker (by rw [hpc]; rfl)
        (fun _ => rfl) (fun _ => rfl)
  | @popRemoves t item q hpc hsection =>
      obtain ⟨w, rfl, hworker⟩ := hcalls.popping (t := t) (by rw [hpc]; rfl)
      obtain ⟨hqueue, hq⟩ := (BoundedQueue.popSection_eq_removed_iff _ _ _).1 hsection
      have hclosed : q.closed = s.queue.shared.closed := by rw [hq]
      refine .take w item rfl hqueue hclosed ?_ ?_ ?_ rfl
      · simp [ServerState.offering, ServerState.deliver]
      · simp [ServerState.holding, hworker, hpc, WorkerPc.taken, QueuePc.taken]
      · rw [holding_of_worker (s := s) _ w (s.worker w) (by simp [ServerState.deliver])
          (fun w' hw => by simp [ServerState.deliver, hw])]
        simp [ServerState.deliver, hworker, WorkerPc.taken, QueuePc.taken]
  | @popNotifies t item pc hpc hnotify =>
      obtain ⟨w, rfl, hworker⟩ := hcalls.popping (t := t) (by rw [hpc]; rfl)
      exact lineStep_of_popReturn (.popped item) rfl hworker (by rw [hpc]; rfl)
        (hnotify.apply_eq (apply_wakePush fun _ => rfl))
        (hnotify.apply_eq (apply_wakePush fun _ => rfl))
  | @closes t hpc =>
      have hoffer : ∀ u, (Function.update s.queue.pc t .closeNotifyEmpty u).offer =
          (s.queue.pc u).offer := apply_update_eq (by rw [hpc]; rfl)
      have htaken : ∀ u, (Function.update s.queue.pc t .closeNotifyEmpty u).taken =
          (s.queue.pc u).taken := apply_update_eq (by rw [hpc]; rfl)
      refine .close rfl rfl rfl ?_ ?_ rfl
      · simp only [ServerState.offering, ServerState.deliver, List.foldl_cons, List.foldl_nil,
          hoffer]
      · exact holding_congr (fun _ => rfl) (fun w => htaken (.worker w))
  | @closeNotifiesEmpty t hpc =>
      refine .of_pc rfl (fun u => ?_) (fun u => ?_)
      · rw [notifyAll_apply_eq (f := QueuePc.offer) (apply_wakePop rfl)]
        exact apply_update_eq (by rw [hpc]; rfl) u
      · rw [notifyAll_apply_eq (f := QueuePc.taken) (apply_wakePop rfl)]
        exact apply_update_eq (by rw [hpc]; rfl) u
  | @closeNotifiesFull t hpc =>
      have hoffer : ∀ u, (notifyAll wakePush (Function.update s.queue.pc t .idle) u).offer =
          (s.queue.pc u).offer := by
        intro u
        rw [notifyAll_apply_eq (f := QueuePc.offer) (apply_wakePush fun _ => rfl)]
        exact apply_update_eq (by rw [hpc]; rfl) u
      have htaken : ∀ u, (notifyAll wakePush (Function.update s.queue.pc t .idle) u).taken =
          (s.queue.pc u).taken := by
        intro u
        rw [notifyAll_apply_eq (f := QueuePc.taken) (apply_wakePush fun _ => rfl)]
        exact apply_update_eq (by rw [hpc]; rfl) u
      rw [List.foldl_cons, List.foldl_nil, ServerState.deliver, ServerState.closeReturns]
      rcases hcalls.closing (t := t) (by rw [hpc]; rfl) with hrequest | ⟨hrequest, rfl, hacceptor⟩
      · rw [if_pos hrequest]
        refine .rest rfl rfl rfl ?_ ?_ rfl
        · simp only [ServerState.offering, ServerState.setRequest, hoffer]
        · exact holding_congr (fun _ => rfl) (fun w => htaken (.worker w))
      · rw [if_neg hrequest]
        refine .rest rfl rfl rfl ?_ ?_ rfl
        · simp only [ServerState.offering, hoffer, hacceptor, AcceptorPc.offer]
        · exact holding_congr (fun _ => rfl) (fun w => htaken (.worker w))
  | @spuriousPop t pc hwake =>
      exact .of_pc rfl (apply_update_eq (apply_wakePop rfl _ _ hwake))
        (apply_update_eq (apply_wakePop rfl _ _ hwake))
  | @spuriousPush t pc hwake =>
      exact .of_pc rfl (apply_update_eq (apply_wakePush (fun _ => rfl) _ _ hwake))
        (apply_update_eq (apply_wakePush (fun _ => rfl) _ _ hwake))

end Moves

end Steps

section Local

variable {ω : Type u} {ρ : Type v} {g g' : ServerShared} {word : List (ServerEvent ω ρ)}

/-- The acceptor accepts a client, or keeps what it has. -/
theorem AcceptorStep.line
    {pc pc' : AcceptorPc}
    (h : AcceptorStep g pc word g' pc') :
    word.filterMap ServerEvent.order = [] ∧
      (pc'.offer = pc.offer ∧ g'.os.next = g.os.next ∨
        pc.offer = none ∧ ∃ number, pc'.offer = some ⟨number⟩ ∧ g'.os = g.os.accept number) := by
  cases h with
  | accepts number => exact ⟨rfl, Or.inr ⟨rfl, number, rfl, rfl⟩⟩
  | @destroysItem _ _ item =>
      exact ⟨order_destroyEvents g item, Or.inl ⟨rfl, next_destroy g item⟩⟩
  | @countsDispatch _ arg => exact ⟨order_destroyEvents g arg, Or.inl ⟨rfl, next_destroy g arg⟩⟩
  | @serveOneReturns client accepted =>
      refine ⟨order_destroyEvents g client, Or.inl ⟨?_, next_destroy g client⟩⟩
      split_ifs <;> rfl
  | _ => exact ⟨rfl, Or.inl ⟨rfl, rfl⟩⟩

/-- A worker begins to serve the client that it holds, or keeps what it has. -/
theorem WorkerStep.line
    {w : ω}
    {pc pc' : WorkerPc}
    (h : WorkerStep w g pc word g' pc') :
    pc'.taken = pc.taken ∧ g'.os.next = g.os.next ∧ word.filterMap ServerEvent.order = [] ∨
      g' = g ∧ pc'.taken = none ∧ ∃ f, pc.taken = some f ∧
        word.filterMap ServerEvent.order = (g.os.lookup f.fd).toList.map (.begun w) := by
  cases h with
  | @constructs client =>
      exact Or.inr ⟨rfl, rfl, client, rfl, order_constructed w _⟩
  | @constructorThrows client =>
      exact Or.inr ⟨rfl, rfl, client, rfl, order_constructorThrew w _⟩
  | @destroysConnection _ connection =>
      exact Or.inl ⟨rfl, next_destroy g connection, order_destroyEvents g connection⟩
  | @unwinds _ connection =>
      exact Or.inl ⟨rfl, next_destroy g connection, order_destroyEvents g connection⟩
  | @finishes client => exact Or.inl ⟨rfl, next_destroy g client, order_destroyEvents g client⟩
  | _ => exact Or.inl ⟨rfl, rfl, rfl⟩

end Local

section Classification

variable {ω : Type u} {ρ : Type v} [DecidableEq ω] [DecidableEq ρ] {s s' : ServerState ω ρ}

/-- A thread calls a method of the queue without an item. -/
theorem places_call
    {t : ServerThread ω ρ}
    (pc : QueuePc Fd)
    (hidle : s.queue.pc t = .idle)
    (hoffer : pc.offer = none)
    (htaken : pc.taken = none) :
    (∀ u, ((s.queue.move t pc).pc u).offer = (s.queue.pc u).offer) ∧
      ∀ u, ((s.queue.move t pc).pc u).taken = (s.queue.pc u).taken := by
  constructor
  · exact apply_update_eq (by rw [hidle, hoffer]; rfl)
  · exact apply_update_eq (by rw [hidle, htaken]; rfl)

theorem ServerStep.line
    (hcalls : CallsInv s)
    {word : List (ServerEvent ω ρ)}
    (hstep : ServerStep s word s') :
    LineStep s s' word := by
  cases hstep with
  | environment henv => exact .rest rfl rfl rfl rfl rfl (by cases henv <;> rfl)
  | queueMoves hmove => exact lineStep_of_queueMove hcalls hmove
  | acceptor hstep =>
      obtain ⟨hmethod, _, hpc⟩ := hstep.method_eq_none
      have hidle := hcalls.acceptor_idle hpc hmethod
      obtain ⟨hword, ⟨hoffer, hnext⟩ | ⟨hnone, number, hoffer, hos⟩⟩ := hstep.line
      · refine .rest hword rfl rfl ?_ rfl hnext
        simp only [ServerState.offering, hoffer]
      · refine .arrive number hword rfl ?_ ?_ rfl hos
        · rw [ServerState.offering, hnone, hidle]
          rfl
        · rw [ServerState.offering, hoffer]
          rfl
  | @worker w word g pc hstep =>
      have hidle := hcalls.worker_idle hstep.method_eq_none.1
      have hself : s.holding w = (s.worker w).taken := by
        rw [ServerState.holding, hidle]
        exact Option.or_none
      have hholding : ServerState.holding { s.setWorker w pc with shared := g } =
          Function.update s.holding w pc.taken := by
        have hnone : pc.taken.or (s.queue.pc (.worker w)).taken = pc.taken := by
          rw [hidle]
          exact Option.or_none
        have hmoved := holding_of_worker (s := s) { s.setWorker w pc with shared := g } w pc rfl
          (fun _ _ => rfl)
        exact hmoved.trans (congrArg _ hnone)
      rcases hstep.line with ⟨htaken, hnext, hword⟩ | ⟨rfl, htaken, f, hheld, hword⟩
      · refine .rest hword rfl rfl rfl ?_ hnext
        rw [hholding, htaken, ← hself, Function.update_eq_self]
      · refine .start w f hword rfl rfl (hself.trans hheld) ?_ rfl
        rw [hholding, htaken]
  | request hstep => exact .rest rfl rfl rfl rfl rfl (by rw [hstep.os_eq])
  | callsPush hpc =>
      refine .rest rfl rfl rfl ?_ ?_ rfl
      · simp [ServerState.offering, ServerState.call, QueueState.move, hpc, AcceptorPc.offer,
          QueuePc.offer, Fd.moved]
      · exact holding_congr (fun _ => rfl) (fun w => by simp [ServerState.call, QueueState.move])
  | @callsPop w hpc =>
      have hidle := hcalls.worker_idle (w := w) (by rw [hpc]; rfl)
      obtain ⟨hoffer, htaken⟩ := places_call .popReady hidle rfl rfl
      refine .rest rfl rfl rfl ?_ ?_ rfl
      · simp only [ServerState.offering, ServerState.call, ServerState.setWorker, hoffer]
      · refine holding_congr (fun w' => ?_) (fun w' => htaken (.worker w'))
        exact apply_update_eq (by rw [hpc]; rfl) w'
  | requestStarts => exact .rest rfl rfl rfl rfl rfl rfl
  | pipeReady hpc =>
      refine .rest rfl rfl rfl ?_ rfl rfl
      simp [ServerState.offering, ServerState.setRequest, hpc, AcceptorPc.offer]
  | destructs hpc =>
      refine .rest rfl rfl rfl ?_ rfl rfl
      simp [ServerState.offering, ServerState.setRequest, hpc, AcceptorPc.offer]
  | @exchangesFirst t hpc =>
      have hidle := hcalls.request_idle (t := t) (by simp [hpc]) (by rw [hpc]; rfl)
      obtain ⟨hoffer, htaken⟩ := places_call .closeReady hidle rfl rfl
      refine .rest rfl rfl rfl ?_ ?_ rfl
      · simp only [ServerState.offering, ServerState.call, ServerState.setRequest, hoffer]
      · exact holding_congr (fun _ => rfl) (fun w => htaken (.worker w))
  | requestReturns hpc =>
      refine .rest rfl rfl rfl ?_ rfl rfl
      simp [ServerState.offering, hpc, AcceptorPc.offer]
  | closesPool hpc =>
      have hidle := hcalls.acceptor_idle (by simp [hpc]) (by rw [hpc]; rfl)
      obtain ⟨hoffer, htaken⟩ := places_call .closeReady hidle rfl rfl
      refine .rest rfl rfl rfl ?_ ?_ rfl
      · simp only [ServerState.offering, ServerState.call, hoffer, hpc, AcceptorPc.offer]
      · exact holding_congr (fun _ => rfl) (fun w => htaken (.worker w))
  | joins hpc =>
      refine .rest rfl rfl rfl ?_ rfl rfl
      simp [ServerState.offering, hpc, AcceptorPc.offer]

end Classification

section Refinement

variable {ω : Type u} {ρ : Type v}

/-- The clients that have not been begun are those of the line. -/
structure Lines (s : ServerState ω ρ) (a : ServiceOrder.State ω) : Prop where
  waiting : s.queue.shared.queue.map s.serial = a.waiting.map some
  offered : s.offering.map s.serial = a.offered.map some
  held : ∀ w, (s.holding w).map s.serial = (a.held w).map some
  next : s.shared.os.next = a.next
  closed : s.queue.shared.closed = a.closed

/-- The number of a client that waits is not reused while it waits. -/
theorem lookup_of_waiting
    {os os' : Descriptors}
    {h h' : Holdings}
    {a : Lifecycle.State Int}
    (htracks : Tracks os h a)
    (hkeys : (a.inUse.map Prod.fst).Nodup)
    {word : List (ServerEvent ω ρ)}
    (hhandover : Handover os word h h' os')
    {number : Int}
    (hnumber : number ∈ h.1) :
    os'.lookup number = os.lookup number := by
  have hwaits : number ∈ a.waiting.map Prod.fst := htracks.waiting ▸ hnumber
  have hnodup : (os.table.map Prod.fst).Nodup := by
    rw [← htracks.table, Multiset.map_coe] at hkeys
    exact hkeys
  cases hhandover with
  | keep => rfl
  | construct => rfl
  | abandon => rfl
  | finish => rfl
  | @accept _ number' _ hfresh =>
      rw [Descriptors.lookup_accept, if_neg]
      rintro rfl
      apply hfresh
      rw [← Multiset.mem_coe, ← Multiset.map_coe, htracks.table, Lifecycle.State.inUse]
      simp only [Multiset.map_add, Multiset.mem_add]
      exact Or.inl (Or.inl hwaits)
  | @release _ number' _ hword =>
      obtain ⟨c, others, hentry, _⟩ := exists_entry htracks.leaving
      have hmem : (number', c) ∈ os.table := by
        rw [← Multiset.mem_coe, htracks.table, Lifecycle.State.inUse, hentry]
        simp
      obtain ⟨rfl, _⟩ := hword c (lookup_of_mem hnodup hmem)
      refine (Descriptors.lookup_filter os.table number' number).trans (if_neg ?_)
      rintro rfl
      rw [Lifecycle.State.inUse, Multiset.map_add, Multiset.map_add, hentry] at hkeys
      have hdisjoint := (Multiset.nodup_add.1 hkeys).2.2
      refine Multiset.disjoint_left.1 hdisjoint (Multiset.mem_add.2 (Or.inl hwaits)) ?_
      simp

section Stays

theorem QueuePc.mem_items_of_offer
    {a : QueuePc Fd}
    {f : Fd}
    (h : a.offer = some f) :
    f ∈ a.items := by
  cases a with
  | pushReady item =>
      cases h
      exact List.mem_singleton_self f
  | pushWait item =>
      cases h
      exact List.mem_singleton_self f
  | _ => cases h

theorem QueuePc.mem_items_of_taken
    {a : QueuePc Fd}
    {f : Fd}
    (h : a.taken = some f) :
    f ∈ a.items := by
  cases a with
  | popNotify item =>
      cases h
      exact List.mem_singleton_self f
  | _ => cases h

theorem AcceptorPc.mem_holdings_of_offer
    {pc : AcceptorPc}
    {f : Fd}
    (h : pc.offer = some f) :
    f.fd ∈ pc.holdings.1 := by
  cases pc with
  | accepted client =>
      cases h
      exact Multiset.mem_singleton_self f.fd
  | counted client =>
      cases h
      exact Multiset.mem_singleton_self f.fd
  | _ => cases h

theorem WorkerPc.mem_holdings_of_taken
    {pc : WorkerPc}
    {f : Fd}
    (h : pc.taken = some f) :
    f.fd ∈ pc.holdings.1 := by
  cases pc with
  | popped client =>
      cases h
      exact Multiset.mem_singleton_self f.fd
  | active client =>
      cases h
      exact Multiset.mem_singleton_self f.fd
  | _ => cases h

variable [Fintype ω] [Fintype ρ] {s : ServerState ω ρ}

/-- The clients that have not been begun are owned. -/
theorem mem_holdings_of_inTransit
    {f : Fd}
    (h : f ∈ s.queue.inTransit) :
    f.fd ∈ s.holdings.1 := by
  simp only [ServerState.holdings, Prod.fst_add, Multiset.mem_add]
  exact Or.inl (Or.inr (Multiset.mem_map_of_mem Fd.fd h))

theorem mem_inTransit_of_items
    {t : ServerThread ω ρ}
    {f : Fd}
    (h : f ∈ (s.queue.pc t).items) :
    f ∈ s.queue.inTransit := by
  refine Multiset.mem_add.2 (Or.inl (Multiset.mem_sum.2 ⟨t, Finset.mem_univ t, ?_⟩))
  exact Multiset.mem_coe.2 h

theorem mem_holdings_of_awaits
    {f : Fd}
    (h : s.Awaits f) :
    f.fd ∈ s.holdings.1 := by
  rcases h with hqueue | hoffering | ⟨w, hholding⟩
  · exact mem_holdings_of_inTransit (Multiset.mem_add.2 (Or.inr (Multiset.mem_coe.2 hqueue)))
  · rcases Option.or_eq_some_iff.1 hoffering with hown | ⟨_, hcall⟩
    · simp only [ServerState.holdings, Prod.fst_add, Multiset.mem_add]
      exact Or.inl (Or.inl (AcceptorPc.mem_holdings_of_offer hown))
    · exact mem_holdings_of_inTransit (mem_inTransit_of_items (QueuePc.mem_items_of_offer hcall))
  · rcases Option.or_eq_some_iff.1 hholding with hown | ⟨_, hcall⟩
    · simp only [ServerState.holdings, Prod.fst_add, Multiset.mem_add]
      refine Or.inr ?_
      rw [total, Prod.fst_sum]
      exact Multiset.mem_sum.2 ⟨w, Finset.mem_univ w, WorkerPc.mem_holdings_of_taken hown⟩
    · exact mem_holdings_of_inTransit (mem_inTransit_of_items (QueuePc.mem_items_of_taken hcall))

end Stays

variable [DecidableEq ω] {s s' : ServerState ω ρ} {a : ServiceOrder.State ω}

theorem Lines.step
    (h : Lines s a)
    {word : List (ServerEvent ω ρ)}
    (hline : LineStep s s' word)
    (hserial : ∀ f, s.Awaits f → s'.serial f = s.serial f) :
    ∃ a', ServiceOrder.Step a (word.filterMap ServerEvent.order) a' ∧ Lines s' a' := by
  have hqueue : ∀ f ∈ s.queue.shared.queue, s'.serial f = s.serial f :=
    fun f hf => hserial f (Or.inl hf)
  have hoffered : s.offering.map s'.serial = a.offered.map some := by
    rw [← h.offered]
    exact Option.map_congr (fun f hf => hserial f (Or.inr (Or.inl hf)))
  have hheld : ∀ w, (s.holding w).map s'.serial = (a.held w).map some := by
    intro w
    rw [← h.held w]
    exact Option.map_congr (fun f hf => hserial f (Or.inr (Or.inr ⟨w, hf⟩)))
  have hwaiting : s.queue.shared.queue.map s'.serial = a.waiting.map some := by
    rw [← h.waiting]
    exact List.map_congr_left hqueue
  cases hline with
  | rest hword hqueue' hclosed hoffering hholding hnext =>
      rw [hword]
      refine ⟨a, .rest, by rw [hqueue']; exact hwaiting, by rw [hoffering]; exact hoffered,
        fun w => by rw [hholding]; exact hheld w, hnext.trans h.next, hclosed.trans h.closed⟩
  | arrive number hword hqueue' hoffering hoffering' hholding hos =>
      rw [hword]
      have hnone : a.offered = none := by
        have := h.offered
        rw [hoffering] at this
        simpa using this.symm
      refine ⟨_, .arrive hnone, by rw [hqueue']; exact hwaiting, ?_,
        fun w => by rw [hholding]; exact hheld w, ?_, by rw [hqueue']; exact h.closed⟩
      · rw [hoffering', Option.map_some, Option.map_some, ServerState.serial, hos,
          Descriptors.lookup_accept, if_pos rfl, h.next]
      · rw [hos, ← h.next]
        rfl
  | enter f hword hqueue' hopen hopen' hoffering hoffering' hholding hos =>
      rw [hword]
      rw [hoffering, Option.map_some] at hoffered
      obtain ⟨n, hn, hf⟩ := Option.map_eq_some_iff.1 hoffered.symm
      refine ⟨_, .enter hn (h.closed ▸ hopen), ?_, ?_,
        fun w => by rw [hholding]; exact hheld w, by rw [hos]; exact h.next,
        hopen'.trans (hopen.symm.trans h.closed)⟩
      · rw [hqueue', List.map_append, List.map_append, hwaiting]
        simp [hf]
      · rw [hoffering']
        rfl
  | refuse f hword hqueue' hclosed hoffering hoffering' hholding hos =>
      have hserving := h.offered
      rw [hoffering, Option.map_some] at hserving
      obtain ⟨n, hn, hf⟩ := Option.map_eq_some_iff.1 hserving.symm
      rw [hword, ← hf]
      refine ⟨_, .refuse hn (h.closed ▸ hclosed), by rw [hqueue']; exact hwaiting, ?_,
        fun w => by rw [hholding]; exact hheld w, by rw [hos]; exact h.next,
        by rw [hqueue']; exact h.closed⟩
      rw [hoffering']
      rfl
  | close hword hqueue' hclosed hoffering hholding hos =>
      rw [hword]
      refine ⟨_, .close, by rw [hqueue']; exact hwaiting, by rw [hoffering]; exact hoffered,
        fun w => by rw [hholding]; exact hheld w, by rw [hos]; exact h.next, hclosed⟩
  | take w f hword hqueue' hclosed hoffering hfree hholding hos =>
      rw [hword]
      rw [hqueue', List.map_cons] at hwaiting
      obtain ⟨n, rest, hrest, hf, hwaiting'⟩ := List.map_eq_cons_iff.1 hwaiting.symm
      have hnone : a.held w = none := by
        have hself := h.held w
        rw [hfree] at hself
        simpa using hself.symm
      refine ⟨_, .take hnone hrest, hwaiting'.symm, by rw [hoffering]; exact hoffered,
        fun w' => ?_, by rw [hos]; exact h.next, hclosed.trans h.closed⟩
      rw [hholding]
      by_cases hw : w' = w
      · subst hw
        simp [← hf]
      · simpa [hw] using hheld w'
  | start w f hword hqueue' hoffering hheld' hholding hos =>
      have hself := h.held w
      rw [hheld', Option.map_some] at hself
      obtain ⟨n, hn, hf⟩ := Option.map_eq_some_iff.1 hself.symm
      rw [hword, ← hf]
      refine ⟨_, .start hn, by rw [hqueue']; exact hwaiting, by rw [hoffering]; exact hoffered,
        fun w' => ?_, by rw [hos]; exact h.next, by rw [hqueue']; exact h.closed⟩
      rw [hholding]
      by_cases hw : w' = w
      · subst hw
        simp
      · simpa [hw] using hheld w'

end Refinement

section Order

variable {ω : Type u} {ρ : Type v} [Fintype ω] [Fintype ρ] [DecidableEq ω] [DecidableEq ρ]
  {q : BoundedQueue Fd} {trace : List (ServerEvent ω ρ)} {s : ServerState ω ρ}

/-- A run of the server is a run of the line. -/
theorem lines_of_run
    (hrun : Run ServerStep (ServerState.start ω ρ q) trace s)
    (hempty : q.queue = []) :
    ∃ a, Run ServiceOrder.Step ({ closed := q.closed } : ServiceOrder.State ω)
      (trace.filterMap ServerEvent.order) a ∧ Lines s a := by
  induction hrun with
  | refl =>
      refine ⟨_, .refl, ?_, rfl, fun _ => rfl, rfl, rfl⟩
      simp [ServerState.start, QueueState.start, hempty]
  | tail front last ih =>
      obtain ⟨a, hline, hlines⟩ := ih
      obtain ⟨⟨hcalls, hlocal⟩, _, b, hlife, htracks⟩ := refines_of_run front hempty
      have hserial : ∀ f, ServerState.Awaits _ f →
          ServerState.serial _ f = ServerState.serial _ f :=
        fun f hf => lookup_of_waiting htracks (Lifecycle.Sound.of_run hlife).keys
          (last.handover hcalls hlocal) (mem_holdings_of_awaits hf)
      obtain ⟨a', hstep, hlines'⟩ := hlines.step (last.line hcalls) hserial
      exact ⟨a', by rw [List.filterMap_append]; exact hline.tail hstep, hlines'⟩

/-- A worker has constructed the connection of a client, or tried to. -/
def Begun (trace : List (ServerEvent ω ρ)) (n : ℕ) : Prop :=
  ∃ w, .constructed w (some n) ∈ trace ∨ .constructorThrew w (some n) ∈ trace

omit [Fintype ω] [Fintype ρ] [DecidableEq ω] [DecidableEq ρ] in
theorem begun_iff
    (n : ℕ) :
    Begun trace n ↔ ∃ w, .begun w n ∈ trace.filterMap ServerEvent.order := by
  constructor
  · rintro ⟨w, h | h⟩
    · exact ⟨w, List.mem_filterMap.2 ⟨_, h, rfl⟩⟩
    · exact ⟨w, List.mem_filterMap.2 ⟨_, h, rfl⟩⟩
  · rintro ⟨w, h⟩
    obtain ⟨e, he, horder⟩ := List.mem_filterMap.1 h
    unfold ServerEvent.order at horder
    split at horder
    · cases horder
      exact ⟨w, Or.inl he⟩
    · cases horder
      exact ⟨w, Or.inr he⟩
    · cases horder
    · cases horder

/--
A client is not passed over: when a worker has begun a client, every client that was
accepted before it has been begun as well, or has been popped by a worker that is about
to begin it.  So at most as many clients are overtaken as workers hold one.
-/
theorem no_overtaking
    {capacity : ℕ}
    (hmake : BoundedQueue.make capacity = .ok q)
    (hrun : Run ServerStep (ServerState.start ω ρ q) trace s)
    {n : ℕ}
    (hbegun : Begun trace n) :
    (∀ m < n, Begun trace m ∨ ∃ w, (s.holding w).bind s.serial = some m) ∧
    ∀ overtaken : Finset ℕ, (∀ m ∈ overtaken, m < n ∧ ¬ Begun trace m) →
      overtaken.card ≤ (Finset.univ.filter (fun w => (s.holding w).isSome)).card := by
  obtain ⟨_, rfl⟩ := (BoundedQueue.make_eq_ok_iff _ _).1 hmake
  obtain ⟨a, hline, hlines⟩ := lines_of_run hrun rfl
  have horder := ServiceOrder.SameOrder.of_run hline
  obtain ⟨w, hw⟩ := (begun_iff n).1 hbegun
  constructor
  · intro m hm
    rcases horder.begun_or_held hw hm with hbefore | ⟨w', hheld⟩
    · exact Or.inl ((begun_iff m).2 hbefore)
    · refine Or.inr ⟨w', ?_⟩
      have hserial := hlines.held w'
      rw [hheld, Option.map_some] at hserial
      obtain ⟨f, hf, hsome⟩ := Option.map_eq_some_iff.1 hserial
      rw [hf]
      exact hsome
  · intro overtaken hovertaken
    have hholding : ∀ w', (s.holding w').isSome = (a.held w').isSome := by
      intro w'
      have hserial := congrArg Option.isSome (hlines.held w')
      simpa using hserial
    simp only [hholding]
    refine horder.not_begun_card_le hw (fun m hm => ?_)
    obtain ⟨hlt, hnot⟩ := hovertaken m hm
    exact ⟨hlt, fun w' hw' => hnot ((begun_iff m).2 ⟨w', hw'⟩)⟩

end Order

section Sample

/-- Two workers pop a client each, and the second is the faster. -/
theorem no_overtaking_second :
    ∃ (trace : List (ServerEvent Bool Unit)) (s : ServerState Bool Unit),
      Run ServerStep (ServerState.start Bool Unit { capacity := 2 }) trace s ∧
      Begun trace 1 ∧ (Begun trace 0 ∨ ∃ w, (s.holding w).bind s.serial = some 0) := by
  have hstart : Run ServerStep (ServerState.start Bool Unit { capacity := 2 }) [] _ := .refl
  have haccepted := (((((hstart.tail (.environment .connects)).tail
    (.environment .connects)).tail (.acceptor (.loopPolls rfl))).tail
    (.acceptor (.pollReturns (Or.inl Nat.two_pos)))).tail (.acceptor .listenerReady)).tail
    (.acceptor (.accepts 3 Nat.two_pos (by decide) (by simp [ServerState.start])))
  have hpushed := (((haccepted.tail (.acceptor .countsAccepted)).tail (.callsPush rfl)).tail
    (.queueMoves (.pushInserts (t := .acceptor) rfl rfl))).tail
    (.queueMoves (.pushNotifies (t := .acceptor) rfl
      (notifyOne_of_none rfl (fun _ => rfl) (fun _ => rfl))))
  have hdispatched := ((hpushed.tail (.acceptor .destroysItem)).tail
    (.acceptor .countsDispatch)).tail (.acceptor .serveOneReturns)
  have hagain := (((hdispatched.tail (.acceptor (.loopPolls rfl))).tail
    (.acceptor (.pollReturns (Or.inl Nat.one_pos)))).tail (.acceptor .listenerReady)).tail
    (.acceptor (.accepts 4 Nat.one_pos (by decide) (by decide)))
  have hqueued := (((hagain.tail (.acceptor .countsAccepted)).tail (.callsPush rfl)).tail
    (.queueMoves (.pushInserts (t := .acceptor) rfl rfl))).tail
    (.queueMoves (.pushNotifies (t := .acceptor) rfl
      (notifyOne_of_none rfl (fun _ => rfl) (fun _ => rfl))))
  have hfirst := ((hqueued.tail (.callsPop (w := true) rfl)).tail
    (.queueMoves (.popRemoves (t := .worker true) rfl rfl))).tail
    (.queueMoves (.popNotifies (t := .worker true) rfl
      (notifyOne_of_none rfl (fun w => by cases w <;> rfl) (fun _ => rfl))))
  have hsecond := ((hfirst.tail (.callsPop (w := false) rfl)).tail
    (.queueMoves (.popRemoves (t := .worker false) rfl rfl))).tail
    (.queueMoves (.popNotifies (t := .worker false) rfl
      (notifyOne_of_none rfl (fun w => by cases w <;> rfl) (fun _ => rfl))))
  have hbegun := (hsecond.tail (.worker (w := false) .countsActive)).tail
    (.worker (w := false) .constructs)
  have hmake : BoundedQueue.make 2 = .ok ({ capacity := 2 } : BoundedQueue Fd) := rfl
  refine ⟨_, _, hbegun, ?hone, (no_overtaking hmake hbegun ?hone).1 0 Nat.one_pos⟩
  exact ⟨false, Or.inl (List.mem_append_right _ List.mem_cons_self)⟩

end Sample

end HttpServer
