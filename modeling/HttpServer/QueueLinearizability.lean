import HttpServer.BoundedQueue
import HttpServer.Lib.AtomicObject

/-!
# The queue is linearizable

The sequential specification (`Applies`) says what each method of `BoundedQueue` does
to a list of items that can be closed, as if nobody else used it; `push` and `pop`
are not enabled where they would wait.

`ObservedStep` is the queue with its calls and returns as events, and with the
methods that only look at it: `size`, `capacity`, `closed` and `high_water_mark`.
Every step is matched by a run of the canonical atomic object, since a call takes
effect in its critical section and not before or after.
-/

namespace HttpServer

open Transition Threads AtomicObject

universe u v

section Specification

/-- The methods that only look at the queue. -/
inductive QueueObserver
  | size
  | capacity
  | closed
  | highWaterMark

inductive QueueOp (α : Type u)
  | push (item : α)
  | pop
  | close
  | observe (o : QueueObserver)

inductive QueueResult (α : Type u)
  | pushed (accepted : Bool)
  | popped (item : Option α)
  | done
  | number (n : Nat)
  | flag (b : Bool)

/-- A list of items that can be closed, and the largest length that it has had. -/
structure QueueValue (α : Type u) where
  items : List α := []
  closed : Bool := false
  peak : Nat := 0

/-- What an operation does to the value, and its result. -/
inductive Applies {α : Type u} (capacity : Nat) :
    QueueValue α → QueueOp α → QueueResult α → QueueValue α → Prop
  | inserts {v : QueueValue α} {item : α}
      (hopen : v.closed = false)
      (hroom : v.items.length < capacity) :
      Applies capacity v (.push item) (.pushed true)
        { v with items := v.items ++ [item], peak := max v.peak (v.items.length + 1) }
  | rejects {v : QueueValue α} {item : α}
      (hclosed : v.closed = true) :
      Applies capacity v (.push item) (.pushed false) v
  | removes {v : QueueValue α} {item : α} {rest : List α}
      (hitems : v.items = item :: rest) :
      Applies capacity v .pop (.popped (some item)) { v with items := rest }
  | drained {v : QueueValue α}
      (hclosed : v.closed = true)
      (hempty : v.items = []) :
      Applies capacity v .pop (.popped none) v
  | closes {v : QueueValue α} :
      Applies capacity v .close .done { v with closed := true }
  | size {v : QueueValue α} :
      Applies capacity v (.observe .size) (.number v.items.length) v
  | capacity {v : QueueValue α} :
      Applies capacity v (.observe .capacity) (.number capacity) v
  | closed {v : QueueValue α} :
      Applies capacity v (.observe .closed) (.flag v.closed) v
  | highWaterMark {v : QueueValue α} :
      Applies capacity v (.observe .highWaterMark) (.number v.peak) v

end Specification

section Observed

variable {τ : Type v} {α : Type u}

/-- The critical sections of the methods that only look at the queue. -/
def BoundedQueue.observe (q : BoundedQueue α) : QueueObserver → QueueResult α
  | .size => .number q.queue.length
  | .capacity => .number q.capacity
  | .closed => .flag q.closed
  | .highWaterMark => .number q.highWaterMark

/-- The program points of a method that only looks at the queue. -/
inductive ObserverPc (α : Type u)
  | idle
  | ready (o : QueueObserver)
  | leaving (r : QueueResult α)

structure ObservedQueue (τ : Type v) (α : Type u) where
  queue : QueueState τ α
  observer : τ → ObserverPc α

def ObservedQueue.start (τ : Type v) (q : BoundedQueue α) : ObservedQueue τ α where
  queue := QueueState.start τ q
  observer := fun _ => .idle

/-- The operation that a call starts. -/
def QueuePc.operation : QueuePc α → QueueOp α
  | .pushReady item => .push item
  | .popReady => .pop
  | _ => .close

/-- The returns among the events of the queue. -/
def QueueEvent.returned : QueueEvent τ α → List (Event τ (QueueOp α) (QueueResult α))
  | .pushReturned t _ accepted => [.returned t (.pushed accepted)]
  | .popReturned t item => [.returned t (.popped (some item))]
  | .drained t => [.returned t (.popped none)]
  | .closeReturned t => [.returned t .done]
  | _ => []

variable [DecidableEq τ]

/-- The steps of the threads that use the queue, with what its callers see. -/
inductive ObservedStep :
    ObservedQueue τ α → List (Event τ (QueueOp α) (QueueResult α)) → ObservedQueue τ α → Prop
  | calls {s : ObservedQueue τ α} {t : τ} {pc : QueuePc α}
      (hpc : s.queue.pc t = .idle)
      (hobserver : s.observer t = .idle)
      (hcall : pc.IsCall) :
      ObservedStep s [.called t pc.operation] { s with queue := s.queue.move t pc }
  | moves {s : ObservedQueue τ α} {word : List (QueueEvent τ α)} {q : QueueState τ α}
      (hmove : QueueMove s.queue word q) :
      ObservedStep s (word.flatMap QueueEvent.returned) { s with queue := q }
  | observes {s : ObservedQueue τ α} {t : τ} {o : QueueObserver}
      (hpc : s.queue.pc t = .idle)
      (hobserver : s.observer t = .idle) :
      ObservedStep s [.called t (.observe o)]
        { s with observer := Function.update s.observer t (.ready o) }
  | looks {s : ObservedQueue τ α} {t : τ} {o : QueueObserver}
      (hobserver : s.observer t = .ready o) :
      ObservedStep s []
        { s with observer := Function.update s.observer t (.leaving (s.queue.shared.observe o)) }
  | leaves {s : ObservedQueue τ α} {t : τ} {r : QueueResult α}
      (hobserver : s.observer t = .leaving r) :
      ObservedStep s [.returned t r]
        { s with observer := Function.update s.observer t .idle }

end Observed

section Abstraction

variable {τ : Type v} {α : Type u}

/-- How far the call of a thread has got; its effect lies in the critical section. -/
def QueuePc.opPhase : QueuePc α → Phase (QueueOp α) (QueueResult α)
  | .idle => .idle
  | .pushReady item => .called (.push item)
  | .pushWait item => .called (.push item)
  | .pushNotify _ => .applied (.pushed true)
  | .popReady => .called .pop
  | .popWait => .called .pop
  | .popNotify item => .applied (.popped (some item))
  | .closeReady => .called .close
  | .closeNotifyEmpty => .applied .done
  | .closeNotifyFull => .applied .done

/-- A thread is in a method of either kind, or in none. -/
def opPhase (a : QueuePc α) : ObserverPc α → Phase (QueueOp α) (QueueResult α)
  | .idle => a.opPhase
  | .ready o => .called (.observe o)
  | .leaving r => .applied r

def BoundedQueue.value (q : BoundedQueue α) : QueueValue α where
  items := q.queue
  closed := q.closed
  peak := q.highWaterMark

def ObservedQueue.object (s : ObservedQueue τ α) :
    State τ (QueueValue α) (QueueOp α) (QueueResult α) where
  value := s.queue.shared.value
  phase := fun t => opPhase (s.queue.pc t) (s.observer t)

/-- A thread is not in two methods at once; the capacity never changes. -/
structure ObservedInv (capacity : Nat) (s : ObservedQueue τ α) : Prop where
  capacity_eq : s.queue.shared.capacity = capacity
  exclusive : ∀ t, s.observer t = .idle ∨ s.queue.pc t = .idle

theorem value_insert
    (q : BoundedQueue α)
    (item : α) :
    (q.insert item).value =
      { q.value with
        items := q.value.items ++ [item]
        peak := max q.value.peak (q.value.items.length + 1) } := by
  simp only [BoundedQueue.value, BoundedQueue.insert, List.length_append, List.length_singleton,
    QueueValue.mk.injEq, true_and]
  split_ifs <;> omega

theorem QueueEffect.capacity_eq
    {q q' : BoundedQueue α}
    {events : List (QueueEvent τ α)}
    (h : QueueEffect q events q') :
    q'.capacity = q.capacity := by
  cases h <;> rfl

theorem QueuePc.eq_idle_iff
    (a : QueuePc α) :
    a = .idle ↔ a.opPhase = .idle := by
  cases a <;> simp [QueuePc.opPhase]

theorem ObservedInv.observer_eq_idle
    {capacity : Nat}
    {s : ObservedQueue τ α}
    (h : ObservedInv capacity s)
    {t : τ}
    (hbusy : (s.queue.pc t).opPhase ≠ .idle) :
    s.observer t = .idle :=
  (h.exclusive t).resolve_right (fun hidle => hbusy ((QueuePc.eq_idle_iff _).1 hidle))

variable [DecidableEq τ]

/-- What a step of a call in progress means to the callers. -/
inductive CallStep (capacity : Nat) (s s' : QueueState τ α) :
    List (Event τ (QueueOp α) (QueueResult α)) → Prop
  | stutters
      (hvalue : s'.shared.value = s.shared.value)
      (hphase : ∀ u, (s'.pc u).opPhase = (s.pc u).opPhase) :
      CallStep capacity s s' []
  | applies {t : τ} {o : QueueOp α} {r : QueueResult α}
      (hcalled : (s.pc t).opPhase = .called o)
      (happlies : Applies capacity s.shared.value o r s'.shared.value)
      (hphase : ∀ u, (s'.pc u).opPhase =
        Function.update (fun u => (s.pc u).opPhase) t (.applied r) u) :
      CallStep capacity s s' []
  | completes {t : τ} {o : QueueOp α} {r : QueueResult α}
      (hcalled : (s.pc t).opPhase = .called o)
      (happlies : Applies capacity s.shared.value o r s'.shared.value)
      (hphase : ∀ u, (s'.pc u).opPhase =
        Function.update (fun u => (s.pc u).opPhase) t .idle u) :
      CallStep capacity s s' [.returned t r]
  | returns {t : τ} {r : QueueResult α}
      (happlied : (s.pc t).opPhase = .applied r)
      (hvalue : s'.shared.value = s.shared.value)
      (hphase : ∀ u, (s'.pc u).opPhase =
        Function.update (fun u => (s.pc u).opPhase) t .idle u) :
      CallStep capacity s s' [.returned t r]

theorem opPhase_update
    (pc : τ → QueuePc α)
    (t : τ)
    (b : QueuePc α)
    (u : τ) :
    (Function.update pc t b u).opPhase =
      Function.update (fun u => (pc u).opPhase) t b.opPhase u := by
  by_cases hut : u = t
  · subst hut
    simp
  · simp [hut]

/-- A call takes effect in its critical section. -/
theorem QueueMove.callStep
    {capacity : Nat}
    {s s' : QueueState τ α}
    {word : List (QueueEvent τ α)}
    (hcapacity : s.shared.capacity = capacity)
    (h : QueueMove s word s') :
    CallStep capacity s s' (word.flatMap QueueEvent.returned) := by
  cases h with
  | pushWaits hpc => exact .stutters rfl (apply_update_eq (by rw [hpc]; rfl))
  | pushRejected hpc hsection =>
      have hclosed := (BoundedQueue.pushSection_eq_rejected_iff _ _).1 hsection
      exact .completes (by rw [hpc]; rfl) (.rejects hclosed) (opPhase_update _ _ _)
  | pushInserts hpc hsection =>
      obtain ⟨hopen, hroom, rfl⟩ := (BoundedQueue.pushSection_eq_inserted_iff _ _ _).1 hsection
      refine .applies (by rw [hpc]; rfl) ?_ (opPhase_update _ _ _)
      dsimp only
      rw [value_insert]
      exact .inserts hopen (hcapacity ▸ hroom)
  | @pushNotifies t item pc hpc hnotify =>
      refine .returns (t := t) (by rw [hpc]; rfl) rfl (fun u => ?_)
      exact (hnotify.apply_eq (f := QueuePc.opPhase) (apply_wakePop rfl) u).trans
        (opPhase_update _ _ _ u)
  | popWaits hpc => exact .stutters rfl (apply_update_eq (by rw [hpc]; rfl))
  | popDrained hpc hsection =>
      obtain ⟨hclosed, hempty⟩ := (BoundedQueue.popSection_eq_drained_iff _).1 hsection
      exact .completes (by rw [hpc]; rfl) (.drained hclosed hempty) (opPhase_update _ _ _)
  | popRemoves hpc hsection =>
      obtain ⟨hqueue, hq⟩ := (BoundedQueue.popSection_eq_removed_iff _ _ _).1 hsection
      refine .applies (by rw [hpc]; rfl) ?_ (opPhase_update _ _ _)
      rw [hq]
      exact .removes hqueue
  | @popNotifies t item pc hpc hnotify =>
      refine .returns (t := t) (by rw [hpc]; rfl) rfl (fun u => ?_)
      exact (hnotify.apply_eq (f := QueuePc.opPhase) (apply_wakePush fun _ => rfl) u).trans
        (opPhase_update _ _ _ u)
  | closes hpc => exact .applies (by rw [hpc]; rfl) .closes (opPhase_update _ _ _)
  | closeNotifiesEmpty hpc =>
      refine .stutters rfl (fun u => ?_)
      rw [notifyAll_apply_eq (f := QueuePc.opPhase) (apply_wakePop rfl)]
      exact apply_update_eq (by rw [hpc]; rfl) u
  | @closeNotifiesFull t hpc =>
      refine .returns (t := t) (by rw [hpc]; rfl) rfl (fun u => ?_)
      rw [notifyAll_apply_eq (f := QueuePc.opPhase) (apply_wakePush fun _ => rfl)]
      exact opPhase_update _ _ _ u
  | spuriousPop hwake =>
      exact .stutters rfl (apply_update_eq (apply_wakePop rfl _ _ hwake))
  | spuriousPush hwake =>
      exact .stutters rfl (apply_update_eq (apply_wakePush (fun _ => rfl) _ _ hwake))

end Abstraction

section Simulation

variable {τ : Type v} {α : Type u} [DecidableEq τ] {capacity : Nat} {s s' : ObservedQueue τ α}
  {word : List (Event τ (QueueOp α) (QueueResult α))}

/-- The phases of the threads when one of them goes on with its call. -/
theorem phase_update_queue
    {pc : τ → QueuePc α}
    {t : τ}
    {phase : Phase (QueueOp α) (QueueResult α)}
    (hobserver : s.observer t = .idle)
    (hphase : ∀ u, (pc u).opPhase =
      Function.update (fun u => (s.queue.pc u).opPhase) t phase u) :
    (fun u => opPhase (pc u) (s.observer u)) =
      Function.update (fun u => opPhase (s.queue.pc u) (s.observer u)) t phase := by
  funext u
  by_cases hut : u = t
  · subst hut
    simp [hobserver, opPhase, hphase]
  · cases hu : s.observer u <;> simp [hut, hu, opPhase, hphase]

/-- The object when a thread goes on with a look at the queue. -/
theorem object_update_observer
    {t : τ}
    (hpc : s.queue.pc t = .idle)
    (b : ObserverPc α) :
    ObservedQueue.object { s with observer := Function.update s.observer t b } =
      { s.object with phase := Function.update s.object.phase t (opPhase .idle b) } := by
  refine congrArg (State.mk s.queue.shared.value) (funext (fun u => ?_))
  by_cases hut : u = t
  · subst hut
    simp [hpc]
  · simp [hut, ObservedQueue.object]

/-- A look at the queue, as the specification has it. -/
theorem applies_observe
    (q : BoundedQueue α)
    (o : QueueObserver) :
    Applies q.capacity q.value (.observe o) (q.observe o) q.value := by
  cases o with
  | size => exact .size
  | capacity => exact .capacity
  | closed => exact .closed
  | highWaterMark => exact .highWaterMark

namespace ObservedInv

/-- A thread that is idle stays out of the way of the others' calls. -/
theorem of_callStep
    (h : ObservedInv capacity s)
    {q : QueueState τ α}
    (hcapacity : q.shared.capacity = s.queue.shared.capacity)
    (hstep : CallStep capacity s.queue q word) :
    ObservedInv capacity { s with queue := q } := by
  refine ⟨hcapacity.trans h.capacity_eq, fun u => (h.exclusive u).imp_right (fun hidle => ?_)⟩
  rw [QueuePc.eq_idle_iff] at hidle ⊢
  have hother : ∀ {t phase}, (s.queue.pc t).opPhase ≠ .idle →
      (∀ u, (q.pc u).opPhase = Function.update (fun u => (s.queue.pc u).opPhase) t phase u) →
      (q.pc u).opPhase = .idle := by
    intro t phase hbusy hphase
    have hut : u ≠ t := by
      rintro rfl
      exact hbusy hidle
    rw [hphase, Function.update_of_ne hut]
    exact hidle
  cases hstep with
  | stutters _ hphase => exact (hphase u).trans hidle
  | applies hcalled _ hphase => exact hother (by simp [hcalled]) hphase
  | completes hcalled _ hphase => exact hother (by simp [hcalled]) hphase
  | returns happlied _ hphase => exact hother (by simp [happlied]) hphase

theorem of_observer
    (h : ObservedInv capacity s)
    {t : τ}
    (hpc : s.queue.pc t = .idle)
    (b : ObserverPc α) :
    ObservedInv capacity { s with observer := Function.update s.observer t b } := by
  refine ⟨h.capacity_eq, fun u => ?_⟩
  by_cases hut : u = t
  · exact Or.inr (hut ▸ hpc)
  · simpa [hut] using h.exclusive u

/-- The object after a move of one thread. -/
theorem object_eq
    (h : ObservedInv capacity s)
    {q : QueueState τ α}
    {t : τ}
    {phase : Phase (QueueOp α) (QueueResult α)}
    (hbusy : (s.queue.pc t).opPhase ≠ .idle)
    (hphase : ∀ u, (q.pc u).opPhase =
      Function.update (fun u => (s.queue.pc u).opPhase) t phase u) :
    s.object.phase t = (s.queue.pc t).opPhase ∧
    ObservedQueue.object { s with queue := q } =
      { value := q.shared.value, phase := Function.update s.object.phase t phase } := by
  have hobserver := h.observer_eq_idle hbusy
  constructor
  · simp [ObservedQueue.object, hobserver, opPhase]
  · exact congrArg (State.mk q.shared.value) (phase_update_queue hobserver hphase)

/-- A step of a call is a run of the canonical object. -/
theorem exists_run_of_callStep
    (h : ObservedInv capacity s)
    {q : QueueState τ α}
    (hstep : CallStep capacity s.queue q word) :
    ∃ run, Run (Step (Applies capacity)) s.object run
      (ObservedQueue.object { s with queue := q }) ∧ history run = word := by
  cases hstep with
  | stutters hvalue hphase =>
      have hsame : ObservedQueue.object { s with queue := q } = s.object := by
        refine congrArg₂ State.mk hvalue (funext (fun u => ?_))
        cases hu : s.observer u <;> simp [opPhase, hphase]
      rw [hsame]
      exact ⟨[], .refl, rfl⟩
  | @applies t o r hcalled happlies hphase =>
      obtain ⟨ht, hobject⟩ := h.object_eq (by simp [hcalled]) hphase
      rw [hobject]
      exact ⟨_, Run.refl.tail (.applies (ht.trans hcalled) happlies), rfl⟩
  | @completes t o r hcalled happlies hphase =>
      obtain ⟨ht, hobject⟩ := h.object_eq (by simp [hcalled]) hphase
      rw [hobject]
      exact ⟨_, run_applies_returns (ht.trans hcalled) happlies, rfl⟩
  | @returns t r happlied hvalue hphase =>
      obtain ⟨ht, hobject⟩ := h.object_eq (by simp [happlied]) hphase
      rw [hobject, hvalue]
      exact ⟨_, Run.refl.tail (.returns (ht.trans happlied)), rfl⟩

/-- Every step of the threads is a run of the canonical object with the same history. -/
theorem step
    (h : ObservedInv capacity s)
    (hstep : ObservedStep s word s') :
    ObservedInv capacity s' ∧
      ∃ run, Run (Step (Applies capacity)) s.object run s'.object ∧ history run = word := by
  cases hstep with
  | @calls t pc hpc hobserver hcall =>
      have hbegun : pc.opPhase = .called pc.operation := by
        cases hcall <;> rfl
      refine ⟨⟨h.capacity_eq, fun u => ?_⟩, [.called t pc.operation], ?_, rfl⟩
      · by_cases hut : u = t
        · exact Or.inl (hut ▸ hobserver)
        · simpa [QueueState.move, hut] using h.exclusive u
      · have hphase := phase_update_queue hobserver (opPhase_update s.queue.pc t pc)
        rw [hbegun] at hphase
        have hobject : ObservedQueue.object { s with queue := s.queue.move t pc } =
            { s.object with phase := Function.update s.object.phase t (.called pc.operation) } :=
          congrArg (State.mk s.queue.shared.value) hphase
        rw [hobject]
        refine Run.refl.tail (.calls ?_)
        simp [ObservedQueue.object, hpc, hobserver, opPhase, QueuePc.opPhase]
  | moves hmove =>
      have hcall := hmove.callStep h.capacity_eq
      exact ⟨h.of_callStep hmove.effect.capacity_eq hcall, h.exists_run_of_callStep hcall⟩
  | @observes t o hpc hobserver =>
      refine ⟨h.of_observer hpc _, [.called t (.observe o)], ?_, rfl⟩
      rw [object_update_observer hpc]
      refine Run.refl.tail (.calls ?_)
      simp [ObservedQueue.object, hpc, hobserver, opPhase, QueuePc.opPhase]
  | @looks t o hobserver =>
      have hpc := (h.exclusive t).resolve_left (by simp [hobserver])
      refine ⟨h.of_observer hpc _, [.applied t (.observe o) (s.queue.shared.observe o)], ?_, rfl⟩
      rw [object_update_observer hpc]
      have hphase : s.object.phase t = .called (.observe o) := by
        simp [ObservedQueue.object, hobserver, opPhase]
      exact Run.refl.tail (.applies hphase (h.capacity_eq ▸ applies_observe _ o))
  | @leaves t r hobserver =>
      have hpc := (h.exclusive t).resolve_left (by simp [hobserver])
      refine ⟨h.of_observer hpc _, [.returned t r], ?_, rfl⟩
      rw [object_update_observer hpc]
      refine Run.refl.tail (.returns ?_)
      simp [ObservedQueue.object, hobserver, opPhase]

end ObservedInv

/--
Whatever threads use the queue, and however their calls overlap and wait, each call
takes effect at one moment between its start and its return: the history is one of a
queue on which the methods are carried out one after the other.
-/
theorem queue_linearizable
    {q : BoundedQueue α}
    (hmake : BoundedQueue.make capacity = .ok q)
    {calls : List (Event τ (QueueOp α) (QueueResult α))}
    (hrun : Run ObservedStep (ObservedQueue.start τ q) calls s) :
    Linearizable (Applies capacity) {} calls := by
  obtain ⟨_, rfl⟩ := (BoundedQueue.make_eq_ok_iff _ _).1 hmake
  exact linearizable_of_simulation (ObservedInv capacity) ObservedQueue.object
    (fun _ _ _ hinv hstep => hinv.step hstep) ⟨rfl, fun _ => Or.inl rfl⟩ rfl hrun

/-- One thread inserts an item, and another sees it in the queue before `push` returns. -/
theorem queue_linearizable_overlapping :
    ∃ calls : List (Event Bool (QueueOp Nat) (QueueResult Nat)),
      calls = [.called false (.push 7), .called true (.observe .size), .returned true (.number 1),
        .returned false (.pushed true)] ∧
      Linearizable (Applies 1) {} calls := by
  have hmake : BoundedQueue.make 1 = .ok ({ capacity := 1 } : BoundedQueue Nat) := rfl
  have hstart : Run ObservedStep
      (ObservedQueue.start Bool ({ capacity := 1 } : BoundedQueue Nat)) [] _ := .refl
  have hcalled := (hstart.tail (.calls (t := false) rfl rfl (.push 7))).tail
    (.observes (t := true) (o := .size) rfl rfl)
  have hinserted := hcalled.tail (.moves (.pushInserts (t := false) rfl rfl))
  have hlooked := (hinserted.tail (.looks (t := true) rfl)).tail (.leaves (t := true) rfl)
  have hreturned := hlooked.tail (.moves (.pushNotifies (t := false) rfl (.nobody (by decide))))
  exact ⟨_, rfl, queue_linearizable hmake hreturned⟩

end Simulation

end HttpServer
