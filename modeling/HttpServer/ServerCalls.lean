import HttpServer.Server

/-!
# The threads of the server and their calls to the queue

A thread is inside a method of the queue exactly when its own program point says
so, and only the acceptor pushes and only workers pop.  This is the invariant
`CallsInv`.  With it, what a call returns can be read off a step of the queue
(`Delivery`), and the queue inside a run of the server runs as a queue
(`queueRun_of_run`), so that what holds of every run of the queue holds there.
-/

namespace HttpServer

open Transition Threads

universe u v

section Methods

variable {ω : Type u} {ρ : Type v}

/-- The method of the queue that the acceptor has called. -/
def AcceptorPc.method : AcceptorPc → Option QueueMethod
  | .pushing _ _ => some .push
  | .closingPool => some .close
  | _ => none

def WorkerPc.method : WorkerPc → Option QueueMethod
  | .popping => some .pop
  | _ => none

def RequestPc.method : RequestPc → Option QueueMethod
  | .closing => some .close
  | _ => none

/-- The method that a thread has called in its own code. -/
def ServerState.ownMethod (s : ServerState ω ρ) : ServerThread ω ρ → Option QueueMethod
  | .acceptor => s.acceptor.method
  | .worker w => (s.worker w).method
  | .requester _ => none

/-- The method that a thread has called, in its own code or in `request_shutdown`. -/
def ServerState.method (s : ServerState ω ρ) (t : ServerThread ω ρ) : Option QueueMethod :=
  (s.request t).method.or (s.ownMethod t)

theorem AcceptorPc.method_eq_push_iff
    (pc : AcceptorPc) :
    pc.method = some .push ↔ ∃ client arg, pc = .pushing client arg := by
  cases pc <;> simp [AcceptorPc.method]

theorem AcceptorPc.method_eq_close_iff
    (pc : AcceptorPc) :
    pc.method = some .close ↔ pc = .closingPool := by
  cases pc <;> simp [AcceptorPc.method]

theorem AcceptorPc.method_ne_pop
    (pc : AcceptorPc) :
    pc.method ≠ some .pop := by
  cases pc <;> simp [AcceptorPc.method]

theorem WorkerPc.method_eq_some_iff
    (pc : WorkerPc)
    (m : QueueMethod) :
    pc.method = some m ↔ m = .pop ∧ pc = .popping := by
  cases pc <;> simp [WorkerPc.method, eq_comm]

theorem RequestPc.method_eq_some_iff
    (pc : RequestPc)
    (m : QueueMethod) :
    pc.method = some m ↔ m = .close ∧ pc = .closing := by
  cases pc <;> simp [RequestPc.method, eq_comm]

theorem AcceptorStep.method_eq_none
    {g g' : ServerShared}
    {pc pc' : AcceptorPc}
    {word : List (ServerEvent ω ρ)}
    (h : AcceptorStep g pc word g' pc') :
    pc.method = none ∧ pc'.method = none ∧ pc ≠ .requesting := by
  cases h with
  | serveOneReturns => split_ifs <;> simp [AcceptorPc.method]
  | _ => simp [AcceptorPc.method]

theorem WorkerStep.method_eq_none
    {w : ω}
    {g g' : ServerShared}
    {pc pc' : WorkerPc}
    {word : List (ServerEvent ω ρ)}
    (h : WorkerStep w g pc word g' pc') :
    pc.method = none ∧ pc'.method = none := by
  cases h <;> exact ⟨rfl, rfl⟩

theorem RequestStep.method_eq_none
    {g g' : ServerShared}
    {pc pc' : RequestPc}
    (h : RequestStep g pc g' pc') :
    pc.method = none ∧ pc'.method = none ∧ pc ≠ .idle := by
  cases h <;> simp [RequestPc.method]

end Methods

section Invariant

variable {ω : Type u} {ρ : Type v}

/-- Every thread is in the method that it has called. -/
structure CallsInv (s : ServerState ω ρ) : Prop where
  method : ∀ t, (s.queue.pc t).method = s.method t
  worker : ∀ w, s.request (.worker w) = .idle
  acceptor : s.request .acceptor = .idle ∨ s.acceptor = .requesting

namespace CallsInv

variable {s : ServerState ω ρ}

/-- Only the acceptor pushes. -/
theorem pushing
    (h : CallsInv s)
    {t : ServerThread ω ρ}
    (ht : (s.queue.pc t).method = some .push) :
    t = .acceptor ∧ ∃ client arg, s.acceptor = .pushing client arg := by
  rw [h.method, ServerState.method, Option.or_eq_some_iff] at ht
  rcases ht with ht | ⟨_, ht⟩
  · simp [RequestPc.method_eq_some_iff] at ht
  · cases t with
    | acceptor => exact ⟨rfl, (AcceptorPc.method_eq_push_iff _).1 ht⟩
    | worker w => simp [ServerState.ownMethod, WorkerPc.method_eq_some_iff] at ht
    | requester r => simp [ServerState.ownMethod] at ht

/-- Only workers pop. -/
theorem popping
    (h : CallsInv s)
    {t : ServerThread ω ρ}
    (ht : (s.queue.pc t).method = some .pop) :
    ∃ w, t = .worker w ∧ s.worker w = .popping := by
  rw [h.method, ServerState.method, Option.or_eq_some_iff] at ht
  rcases ht with ht | ⟨_, ht⟩
  · simp [RequestPc.method_eq_some_iff] at ht
  · cases t with
    | acceptor => exact absurd ht (AcceptorPc.method_ne_pop _)
    | worker w => exact ⟨w, rfl, ((WorkerPc.method_eq_some_iff _ _).1 ht).2⟩
    | requester r => simp [ServerState.ownMethod] at ht

/-- The queue is closed in `request_shutdown`, or by the acceptor that stops the pool. -/
theorem closing
    (h : CallsInv s)
    {t : ServerThread ω ρ}
    (ht : (s.queue.pc t).method = some .close) :
    s.request t = .closing ∨
      s.request t ≠ .closing ∧ t = .acceptor ∧ s.acceptor = .closingPool := by
  rw [h.method, ServerState.method, Option.or_eq_some_iff] at ht
  rcases ht with ht | ⟨hrequest, ht⟩
  · exact Or.inl ((RequestPc.method_eq_some_iff _ _).1 ht).2
  · refine Or.inr ⟨?_, ?_⟩
    · intro hclosing
      simp [hclosing, RequestPc.method] at hrequest
    · cases t with
      | acceptor => exact ⟨rfl, (AcceptorPc.method_eq_close_iff _).1 ht⟩
      | worker w => simp [ServerState.ownMethod, WorkerPc.method_eq_some_iff] at ht
      | requester r => simp [ServerState.ownMethod] at ht

/-- A thread that has called nothing is in no method. -/
theorem idle
    (h : CallsInv s)
    {t : ServerThread ω ρ}
    (hrequest : (s.request t).method = none)
    (hown : s.ownMethod t = none) :
    s.queue.pc t = .idle := by
  apply QueuePc.eq_idle_of_method_eq_none
  rw [h.method, ServerState.method, hrequest, hown]
  rfl

end CallsInv

end Invariant

section Delivery

variable {ω : Type u} {ρ : Type v} [Fintype ω] [Fintype ρ] [DecidableEq ω] [DecidableEq ρ]

omit [DecidableEq ω] [DecidableEq ρ] in
/-- The threads are the acceptor, the workers and the requesters. -/
def ServerThread.equiv : ServerThread ω ρ ≃ Option (ω ⊕ ρ) where
  toFun
    | .acceptor => none
    | .worker w => some (.inl w)
    | .requester r => some (.inr r)
  invFun
    | none => .acceptor
    | some (.inl w) => .worker w
    | some (.inr r) => .requester r
  left_inv t := by cases t <;> rfl
  right_inv t := by rcases t with _ | _ | _ <;> rfl

instance : Fintype (ServerThread ω ρ) :=
  Fintype.ofEquiv _ ServerThread.equiv.symm

omit [DecidableEq ω] [DecidableEq ρ] in
theorem sum_threads
    {M : Type*}
    [AddCommMonoid M]
    (f : ServerThread ω ρ → M) :
    ∑ t, f t = f .acceptor + (∑ w, f (.worker w) + ∑ r, f (.requester r)) := by
  rw [Fintype.sum_equiv ServerThread.equiv f (fun t => f (ServerThread.equiv.symm t)) (by simp),
    Fintype.sum_option, Fintype.sum_sum_type]
  rfl

/-- What a step of the queue means to the threads of the server. -/
inductive Delivery (s : ServerState ω ρ) (q : QueueState (ServerThread ω ρ) Fd) :
    List (QueueEvent (ServerThread ω ρ) Fd) → ServerState ω ρ → Prop
  | quiet {word : List (QueueEvent (ServerThread ω ρ) Fd)}
      (hreports : word.flatMap s.reports = word.map .queue)
      (hmethod : ∀ t, (q.pc t).method = s.method t)
      (htransit : q.inTransit = s.queue.inTransit) :
      Delivery s q word { s with queue := q }
  | accepted {client arg item : Fd}
      (hpc : s.acceptor = .pushing client arg)
      (hmethod : ∀ t, (q.pc t).method = if t = .acceptor then none else s.method t)
      (htransit : q.inTransit = s.queue.inTransit) :
      Delivery s q [.pushReturned .acceptor item true]
        { s with queue := q, acceptor := .pushReturned client arg item.movedFrom true }
  | rejected {client arg item : Fd}
      (hpc : s.acceptor = .pushing client arg)
      (hmethod : ∀ t, (q.pc t).method = if t = .acceptor then none else s.method t)
      (htransit : s.queue.inTransit = {item} + q.inTransit) :
      Delivery s q [.pushReturned .acceptor item false]
        { s with queue := q, acceptor := .pushReturned client arg item false }
  | popped {w : ω} {item : Fd}
      (hpc : s.worker w = .popping)
      (hmethod : ∀ t, (q.pc t).method = if t = .worker w then none else s.method t)
      (htransit : s.queue.inTransit = {item} + q.inTransit) :
      Delivery s q [.popReturned (.worker w) item] { s.setWorker w (.popped item) with queue := q }
  | drained {w : ω}
      (hpc : s.worker w = .popping)
      (hmethod : ∀ t, (q.pc t).method = if t = .worker w then none else s.method t)
      (htransit : q.inTransit = s.queue.inTransit) :
      Delivery s q [.drained (.worker w)] { s.setWorker w .exited with queue := q }
  | requestClosed {t : ServerThread ω ρ}
      (hpc : s.request t = .closing)
      (hmethod : ∀ u, (q.pc u).method = if u = t then none else s.method u)
      (htransit : q.inTransit = s.queue.inTransit) :
      Delivery s q [.closeReturned t] { s.setRequest t .writing with queue := q }
  | poolClosed
      (hpc : s.acceptor = .closingPool)
      (hmethod : ∀ t, (q.pc t).method = if t = .acceptor then none else s.method t)
      (htransit : q.inTransit = s.queue.inTransit) :
      Delivery s q [.closeReturned .acceptor] { s with queue := q, acceptor := .joining }

omit [Fintype ω] [Fintype ρ] in
theorem deliver_quiet
    {word : List (QueueEvent (ServerThread ω ρ) Fd)}
    (hword : ∀ e ∈ word, (∃ t item, e = .inserted t item) ∨ (∃ t item, e = .removed t item) ∨
      ∃ t, e = .closed t)
    (s : ServerState ω ρ) :
    word.foldl ServerState.deliver s = s ∧ word.flatMap s.reports = word.map .queue := by
  induction word with
  | nil => exact ⟨rfl, rfl⟩
  | cons e word ih =>
      obtain ⟨hdeliver, hreports⟩ := ih (fun e' he' => hword e' (List.mem_cons_of_mem e he'))
      rw [List.foldl_cons, List.flatMap_cons, hreports]
      rcases hword e List.mem_cons_self with ⟨t, item, rfl⟩ | ⟨t, item, rfl⟩ | ⟨t, rfl⟩
      · exact ⟨hdeliver, rfl⟩
      · exact ⟨hdeliver, rfl⟩
      · exact ⟨hdeliver, rfl⟩

theorem CallsInv.delivery
    {s : ServerState ω ρ}
    (h : CallsInv s)
    {word : List (QueueEvent (ServerThread ω ρ) Fd)}
    {q : QueueState (ServerThread ω ρ) Fd}
    (hmove : QueueMove s.queue word q) :
    Delivery s q word (word.foldl ServerState.deliver { s with queue := q }) := by
  have hcalls := h.method
  cases hmove.change with
  | quiet hword hmethod htransit =>
      obtain ⟨hdeliver, _⟩ := deliver_quiet hword { s with queue := q }
      rw [hdeliver]
      exact .quiet (deliver_quiet hword s).2 (fun t => (hmethod t).trans (hcalls t)) htransit
  | accepted hcall hmethod htransit =>
      obtain ⟨rfl, client, arg, hpc⟩ := h.pushing hcall
      simp only [hcalls] at hmethod
      simpa [ServerState.deliver, ServerState.pushReturns, hpc] using
        Delivery.accepted hpc hmethod htransit
  | rejected hcall hmethod htransit =>
      obtain ⟨rfl, client, arg, hpc⟩ := h.pushing hcall
      simp only [hcalls] at hmethod
      simpa [ServerState.deliver, ServerState.pushReturns, hpc] using
        Delivery.rejected hpc hmethod htransit
  | popped hcall hmethod htransit =>
      obtain ⟨w, rfl, hpc⟩ := h.popping hcall
      simp only [hcalls] at hmethod
      exact .popped hpc hmethod htransit
  | drained hcall hmethod htransit =>
      obtain ⟨w, rfl, hpc⟩ := h.popping hcall
      simp only [hcalls] at hmethod
      exact .drained hpc hmethod htransit
  | closed hcall hmethod htransit =>
      simp only [hcalls] at hmethod
      rcases h.closing hcall with hpc | ⟨hrequest, rfl, hpc⟩
      · simpa [ServerState.deliver, ServerState.closeReturns, ServerState.setRequest, hpc] using
          Delivery.requestClosed hpc hmethod htransit
      · simpa [ServerState.deliver, ServerState.closeReturns, hrequest] using
          Delivery.poolClosed hpc hmethod htransit

end Delivery

section Steps

variable {ω : Type u} {ρ : Type v} {s s' : ServerState ω ρ}

/-- One thread changes its method, and the others stay in theirs. -/
theorem CallsInv.method_of_change
    (t₀ : ServerThread ω ρ)
    {m : Option QueueMethod}
    [DecidableEq ω]
    [DecidableEq ρ]
    (hqueue : ∀ t, (s'.queue.pc t).method = if t = t₀ then m else s.method t)
    (hself : s'.method t₀ = m)
    (hothers : ∀ t, t ≠ t₀ → s'.method t = s.method t)
    (t : ServerThread ω ρ) :
    (s'.queue.pc t).method = s'.method t := by
  rw [hqueue t]
  split_ifs with ht
  · rw [ht, hself]
  · exact (hothers t ht).symm

/-- The acceptor alone moves. -/
theorem method_of_acceptor
    (hrequest : s'.request = s.request)
    (hworker : s'.worker = s.worker)
    (t : ServerThread ω ρ)
    (ht : t ≠ .acceptor) :
    s'.method t = s.method t := by
  cases t with
  | acceptor => exact absurd rfl ht
  | worker w => simp [ServerState.method, ServerState.ownMethod, hrequest, hworker]
  | requester r => simp [ServerState.method, ServerState.ownMethod, hrequest]

variable [DecidableEq ω] [DecidableEq ρ]

omit [DecidableEq ρ] in
/-- One worker alone moves. -/
theorem method_of_worker
    {w : ω}
    {pc : WorkerPc}
    (hrequest : s'.request = s.request)
    (hacceptor : s'.acceptor = s.acceptor)
    (hworker : s'.worker = Function.update s.worker w pc)
    (t : ServerThread ω ρ)
    (ht : t ≠ .worker w) :
    s'.method t = s.method t := by
  cases t with
  | acceptor => simp [ServerState.method, ServerState.ownMethod, hrequest, hacceptor]
  | worker w' =>
      have hw : w' ≠ w := by
        rintro rfl
        exact ht rfl
      simp [ServerState.method, ServerState.ownMethod, hrequest, hworker, hw]
  | requester r => simp [ServerState.method, ServerState.ownMethod, hrequest]

/-- One thread alone moves in `request_shutdown`. -/
theorem method_of_request
    {t₀ : ServerThread ω ρ}
    {pc : RequestPc}
    (hrequest : s'.request = Function.update s.request t₀ pc)
    (hacceptor : s'.acceptor = s.acceptor)
    (hworker : s'.worker = s.worker)
    (t : ServerThread ω ρ)
    (ht : t ≠ t₀) :
    s'.method t = s.method t := by
  have hown : s'.ownMethod t = s.ownMethod t := by
    cases t <;> simp [ServerState.ownMethod, hacceptor, hworker]
  rw [ServerState.method, ServerState.method, hown, hrequest, Function.update_of_ne ht]

omit [DecidableEq ω] [DecidableEq ρ] in
theorem method_acceptor
    (hrequest : s.request .acceptor = .idle) :
    s.method .acceptor = s.acceptor.method := by
  simp [ServerState.method, ServerState.ownMethod, hrequest, RequestPc.method]

omit [DecidableEq ω] [DecidableEq ρ] in
theorem method_worker
    {w : ω}
    (hrequest : s.request (.worker w) = .idle) :
    s.method (.worker w) = (s.worker w).method := by
  simp [ServerState.method, ServerState.ownMethod, hrequest, RequestPc.method]

namespace CallsInv

omit [DecidableEq ω] [DecidableEq ρ] in
/-- A thread in `request_shutdown` has called nothing else. -/
theorem ownMethod_eq_none
    (h : CallsInv s)
    {t : ServerThread ω ρ}
    (hrequest : s.request t ≠ .idle) :
    s.ownMethod t = none := by
  cases t with
  | acceptor =>
      have hpc := h.acceptor.resolve_left hrequest
      simp [ServerState.ownMethod, hpc, AcceptorPc.method]
  | worker w => exact absurd (h.worker w) hrequest
  | requester r => rfl

omit [DecidableEq ω] [DecidableEq ρ] in
theorem acceptor_idle
    (h : CallsInv s)
    (hpc : s.acceptor ≠ .requesting)
    (hmethod : s.acceptor.method = none) :
    s.queue.pc .acceptor = .idle :=
  h.idle (by rw [h.acceptor.resolve_right hpc]; rfl) hmethod

omit [DecidableEq ω] [DecidableEq ρ] in
theorem worker_idle
    (h : CallsInv s)
    {w : ω}
    (hmethod : (s.worker w).method = none) :
    s.queue.pc (.worker w) = .idle :=
  h.idle (by rw [h.worker w]; rfl) hmethod

omit [DecidableEq ω] [DecidableEq ρ] in
theorem request_idle
    (h : CallsInv s)
    {t : ServerThread ω ρ}
    (hbusy : s.request t ≠ .idle)
    (hmethod : (s.request t).method = none) :
    s.queue.pc t = .idle :=
  h.idle hmethod (h.ownMethod_eq_none hbusy)

/-- The acceptor moves, outside `request_shutdown`. -/
theorem of_acceptor
    (h : CallsInv s)
    {m : Option QueueMethod}
    (hidle : s.request .acceptor = .idle)
    (hqueue : ∀ t, (s'.queue.pc t).method = if t = .acceptor then m else s.method t)
    (hmethod : s'.acceptor.method = m)
    (hrequest : s'.request = s.request)
    (hworker : s'.worker = s.worker) :
    CallsInv s' := by
  have hidle' : s'.request .acceptor = .idle := by
    rw [hrequest]
    exact hidle
  refine ⟨method_of_change .acceptor hqueue ?_ (method_of_acceptor hrequest hworker), ?_,
    Or.inl hidle'⟩
  · rw [method_acceptor hidle', hmethod]
  · rw [hrequest]
    exact h.worker

/-- A worker moves. -/
theorem of_worker
    (h : CallsInv s)
    {w : ω}
    (pc : WorkerPc)
    (hqueue : ∀ t, (s'.queue.pc t).method = if t = .worker w then pc.method else s.method t)
    (hrequest : s'.request = s.request)
    (hacceptor : s'.acceptor = s.acceptor)
    (hworker : s'.worker = Function.update s.worker w pc) :
    CallsInv s' := by
  refine ⟨method_of_change (.worker w) hqueue ?_ (method_of_worker hrequest hacceptor hworker),
    ?_, ?_⟩
  · rw [method_worker (by rw [hrequest]; exact h.worker w), hworker, Function.update_self]
  · rw [hrequest]
    exact h.worker
  · rw [hrequest, hacceptor]
    exact h.acceptor

/-- A thread moves in `request_shutdown`. -/
theorem of_request
    (h : CallsInv s)
    {t : ServerThread ω ρ}
    (pc : RequestPc)
    (hown : s.ownMethod t = none)
    (hthread : ∀ w, ServerThread.worker w ≠ t)
    (hrequesting : .acceptor = t → s.acceptor = .requesting)
    (hqueue : ∀ u, (s'.queue.pc u).method = if u = t then pc.method else s.method u)
    (hrequest : s'.request = Function.update s.request t pc)
    (hacceptor : s'.acceptor = s.acceptor)
    (hworker : s'.worker = s.worker) :
    CallsInv s' := by
  have hown' : s'.ownMethod t = none := by
    rw [← hown]
    cases t <;> simp [ServerState.ownMethod, hacceptor, hworker]
  refine ⟨method_of_change t hqueue ?_ (method_of_request hrequest hacceptor hworker), ?_, ?_⟩
  · rw [ServerState.method, hown', hrequest, Function.update_self, Option.or_none]
  · intro w
    rw [hrequest, Function.update_of_ne (hthread w)]
    exact h.worker w
  · rw [hrequest, hacceptor]
    by_cases ht : .acceptor = t
    · exact Or.inr (hrequesting ht)
    · rw [Function.update_of_ne ht]
      exact h.acceptor

/-- A thread moves on in `request_shutdown`. -/
theorem of_busy
    (h : CallsInv s)
    {t : ServerThread ω ρ}
    (pc : RequestPc)
    (hbusy : s.request t ≠ .idle)
    (hqueue : ∀ u, (s'.queue.pc u).method = if u = t then pc.method else s.method u)
    (hrequest : s'.request = Function.update s.request t pc)
    (hacceptor : s'.acceptor = s.acceptor)
    (hworker : s'.worker = s.worker) :
    CallsInv s' := by
  refine h.of_request pc (h.ownMethod_eq_none hbusy) ?_ ?_ hqueue hrequest hacceptor hworker
  · rintro w rfl
    exact hbusy (h.worker w)
  · rintro rfl
    exact h.acceptor.resolve_left hbusy

/-- The methods when a thread moves without entering or leaving one. -/
theorem method_same
    (h : CallsInv s)
    {t₀ : ServerThread ω ρ}
    (hmethod : s.method t₀ = none)
    (t : ServerThread ω ρ) :
    (s.queue.pc t).method = if t = t₀ then none else s.method t := by
  rw [h.method t]
  split_ifs with ht
  · rw [ht, hmethod]
  · rfl

/-- The methods when a thread calls one. -/
theorem method_call
    (h : CallsInv s)
    (t₀ : ServerThread ω ρ)
    (pc : QueuePc Fd)
    (t : ServerThread ω ρ) :
    ((s.queue.move t₀ pc).pc t).method = if t = t₀ then pc.method else s.method t := by
  by_cases ht : t = t₀
  · subst ht
    simp [QueueState.move]
  · simp [QueueState.move, ht, h.method t]

/-- The acceptor calls `request_shutdown`. -/
theorem of_requesting
    (h : CallsInv s)
    (hpc : s.acceptor ≠ .requesting)
    (hmethod : s.acceptor.method = none) :
    CallsInv { s.setRequest .acceptor .exchanging with acceptor := .requesting } := by
  have hrequest := h.acceptor.resolve_right hpc
  refine ⟨method_of_change .acceptor (h.method_same ?_) ?_ ?_, h.worker, Or.inr rfl⟩
  · rw [method_acceptor hrequest, hmethod]
  · simp [ServerState.method, ServerState.ownMethod, ServerState.setRequest, RequestPc.method,
      AcceptorPc.method]
  · intro t ht
    cases t with
    | acceptor => exact absurd rfl ht
    | worker w => rfl
    | requester r => rfl

theorem of_delivery
    [Fintype ω]
    [Fintype ρ]
    (h : CallsInv s)
    {q : QueueState (ServerThread ω ρ) Fd}
    {word : List (QueueEvent (ServerThread ω ρ) Fd)}
    (hdelivery : Delivery s q word s') :
    CallsInv s' := by
  have hidle : s.acceptor ≠ .requesting → s.request .acceptor = .idle := h.acceptor.resolve_right
  cases hdelivery with
  | quiet _ hmethod => exact ⟨hmethod, h.worker, h.acceptor⟩
  | accepted hpc hmethod => exact h.of_acceptor (hidle (by simp [hpc])) hmethod rfl rfl rfl
  | rejected hpc hmethod => exact h.of_acceptor (hidle (by simp [hpc])) hmethod rfl rfl rfl
  | popped hpc hmethod => exact h.of_worker (.popped _) hmethod rfl rfl rfl
  | drained hpc hmethod => exact h.of_worker .exited hmethod rfl rfl rfl
  | requestClosed hpc hmethod => exact h.of_busy .writing (by simp [hpc]) hmethod rfl rfl rfl
  | poolClosed hpc hmethod => exact h.of_acceptor (hidle (by simp [hpc])) hmethod rfl rfl rfl

theorem step
    [Fintype ω]
    [Fintype ρ]
    (h : CallsInv s)
    {word : List (ServerEvent ω ρ)}
    (hstep : ServerStep s word s') :
    CallsInv s' := by
  have hidle : s.acceptor ≠ .requesting → s.request .acceptor = .idle := h.acceptor.resolve_right
  have hnone : s.request .acceptor = .idle → s.acceptor.method = none →
      ∀ t, (s.queue.pc t).method = if t = .acceptor then none else s.method t :=
    fun hrequest hpc => h.method_same (by rw [method_acceptor hrequest, hpc])
  cases hstep with
  | environment => exact ⟨h.method, h.worker, h.acceptor⟩
  | queueMoves hmove => exact h.of_delivery (h.delivery hmove)
  | acceptor hstep =>
      obtain ⟨hmethod, hmethod', hpc⟩ := hstep.method_eq_none
      exact h.of_acceptor (hidle hpc) (hnone (hidle hpc) hmethod) hmethod' rfl rfl
  | @worker w _ _ pc hstep =>
      obtain ⟨hmethod, hmethod'⟩ := hstep.method_eq_none
      refine h.of_worker pc ?_ rfl rfl rfl
      rw [hmethod']
      exact h.method_same (by rw [method_worker (h.worker w), hmethod])
  | @request t _ pc hstep =>
      obtain ⟨hmethod, hmethod', hbusy⟩ := hstep.method_eq_none
      refine h.of_busy pc hbusy ?_ rfl rfl rfl
      rw [hmethod']
      exact h.method_same (by rw [ServerState.method, hmethod, h.ownMethod_eq_none hbusy]; rfl)
  | callsPush hpc =>
      exact h.of_acceptor (hidle (by simp [hpc])) (h.method_call .acceptor _) rfl rfl rfl
  | @callsPop w hpc =>
      exact h.of_worker .popping (h.method_call (.worker w) .popReady) rfl rfl rfl
  | @requestStarts r hpc =>
      refine h.of_request .exchanging rfl (by simp) (by simp) (h.method_same ?_) rfl rfl rfl
      simp [ServerState.method, ServerState.ownMethod, hpc, RequestPc.method]
  | pipeReady hpc => exact h.of_requesting (by simp [hpc]) (by rw [hpc]; rfl)
  | destructs hpc => exact h.of_requesting (by simp [hpc]) (by rw [hpc]; rfl)
  | @exchangesFirst t hpc =>
      exact h.of_busy .closing (by simp [hpc]) (h.method_call t .closeReady) rfl rfl rfl
  | requestReturns hpc hrequest =>
      exact h.of_acceptor hrequest (hnone hrequest (by simp [hpc, AcceptorPc.method])) rfl rfl rfl
  | closesPool hpc =>
      exact h.of_acceptor (hidle (by simp [hpc])) (h.method_call .acceptor .closeReady) rfl rfl rfl
  | joins hpc =>
      have hrequest := hidle (by simp [hpc])
      exact h.of_acceptor hrequest (hnone hrequest (by simp [hpc, AcceptorPc.method])) rfl rfl rfl

end CallsInv

end Steps

section Runs

variable {ω : Type u} {ρ : Type v}

def ServerEvent.queueEvent : ServerEvent ω ρ → Option (QueueEvent (ServerThread ω ρ) Fd)
  | .queue e => some e
  | _ => none

theorem queueEvents_destroyEvents
    (g : ServerShared)
    (f : Fd) :
    (g.destroyEvents (ω := ω) (ρ := ρ) f).filterMap ServerEvent.queueEvent = [] := by
  simp [ServerShared.destroyEvents, List.filterMap_map, Function.comp_def, ServerEvent.queueEvent]

theorem AcceptorStep.queueEvents
    {g g' : ServerShared}
    {pc pc' : AcceptorPc}
    {word : List (ServerEvent ω ρ)}
    (h : AcceptorStep g pc word g' pc') :
    word.filterMap ServerEvent.queueEvent = [] := by
  cases h with
  | destroysItem => exact queueEvents_destroyEvents _ _
  | countsDispatch => exact queueEvents_destroyEvents _ _
  | serveOneReturns => exact queueEvents_destroyEvents _ _
  | _ => rfl

theorem WorkerStep.queueEvents
    {w : ω}
    {g g' : ServerShared}
    {pc pc' : WorkerPc}
    {word : List (ServerEvent ω ρ)}
    (h : WorkerStep w g pc word g' pc') :
    word.filterMap ServerEvent.queueEvent = [] := by
  cases h with
  | destroysConnection => exact queueEvents_destroyEvents _ _
  | unwinds => exact queueEvents_destroyEvents _ _
  | finishes => exact queueEvents_destroyEvents _ _
  | _ => rfl

variable [DecidableEq ω] [DecidableEq ρ] {s s' : ServerState ω ρ}

omit [DecidableEq ω] [DecidableEq ρ] in
theorem queueEvents_reports
    (word : List (QueueEvent (ServerThread ω ρ) Fd)) :
    (word.flatMap s.reports).filterMap ServerEvent.queueEvent = word := by
  induction word with
  | nil => rfl
  | cons e word ih =>
      have hhead : (s.reports e).filterMap ServerEvent.queueEvent = [e] := by
        rcases e with _ | _ | _ | _ | ⟨t, item, _ | _⟩ | _ | _ <;> rfl
      rw [List.flatMap_cons, List.filterMap_append, ih, hhead]
      rfl

variable [Fintype ω] [Fintype ρ]

theorem Delivery.queue_eq
    {q : QueueState (ServerThread ω ρ) Fd}
    {word : List (QueueEvent (ServerThread ω ρ) Fd)}
    (h : Delivery s q word s') :
    s'.queue = q := by
  cases h <;> rfl

/-- The queue takes a step of its own, or none. -/
theorem ServerStep.queue
    (h : CallsInv s)
    {word : List (ServerEvent ω ρ)}
    (hstep : ServerStep s word s') :
    (s'.queue = s.queue ∧ word.filterMap ServerEvent.queueEvent = []) ∨
      QueueStep s.queue (word.filterMap ServerEvent.queueEvent) s'.queue := by
  cases hstep with
  | environment => exact Or.inl ⟨rfl, rfl⟩
  | queueMoves hmove =>
      rw [(h.delivery hmove).queue_eq, queueEvents_reports]
      exact Or.inr (.move hmove)
  | acceptor hstep => exact Or.inl ⟨rfl, hstep.queueEvents⟩
  | worker hstep => exact Or.inl ⟨rfl, hstep.queueEvents⟩
  | request => exact Or.inl ⟨rfl, rfl⟩
  | callsPush hpc =>
      exact Or.inr (.call (h.acceptor_idle (by simp [hpc]) (by rw [hpc]; rfl)) (.push _))
  | callsPop hpc => exact Or.inr (.call (h.worker_idle (by rw [hpc]; rfl)) .pop)
  | requestStarts => exact Or.inl ⟨rfl, rfl⟩
  | pipeReady => exact Or.inl ⟨rfl, rfl⟩
  | destructs => exact Or.inl ⟨rfl, rfl⟩
  | exchangesFirst hpc =>
      exact Or.inr (.call (h.request_idle (by simp [hpc]) (by rw [hpc]; rfl)) .close)
  | requestReturns => exact Or.inl ⟨rfl, rfl⟩
  | closesPool hpc =>
      exact Or.inr (.call (h.acceptor_idle (by simp [hpc]) (by rw [hpc]; rfl)) .close)
  | joins => exact Or.inl ⟨rfl, rfl⟩

omit [DecidableEq ω] [DecidableEq ρ] [Fintype ω] [Fintype ρ] in
theorem callsInv_start
    (q : BoundedQueue Fd) :
    CallsInv (ServerState.start ω ρ q) := by
  refine ⟨fun t => ?_, fun w => rfl, Or.inl rfl⟩
  cases t <;> rfl

/-- The queue inside a run of the server runs as a queue. -/
theorem queueRun_of_run
    {q : BoundedQueue Fd}
    {trace : List (ServerEvent ω ρ)}
    (hrun : Run ServerStep (ServerState.start ω ρ q) trace s) :
    CallsInv s ∧
      Run QueueStep (QueueState.start _ q) (trace.filterMap ServerEvent.queueEvent) s.queue := by
  refine hrun.invariant (fun trace s => CallsInv s ∧
    Run QueueStep (QueueState.start _ q) (trace.filterMap ServerEvent.queueEvent) s.queue) ?_ ?_
  · exact ⟨callsInv_start q, .refl⟩
  · rintro trace s word s' ⟨hcalls, hqueue⟩ hstep
    refine ⟨hcalls.step hstep, ?_⟩
    rw [List.filterMap_append]
    rcases hstep.queue hcalls with ⟨hsame, hword⟩ | hstep
    · rw [hsame, hword, List.append_nil]
      exact hqueue
    · exact hqueue.tail hstep

end Runs

end HttpServer
