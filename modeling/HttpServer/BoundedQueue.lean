import HttpServer.Lib.Threads
import HttpServer.Lib.Transition

/-!
# The bounded queue

`BoundedQueue<T>` is a queue of bounded length that can be closed.  Its methods
run under one mutex, so each critical section is a function on the state
(`pushSection`, `popSection`, `close`).

A system of threads calls the methods.  A thread runs its critical section; if
the predicate of its wait is false it releases the mutex and waits; otherwise it
goes on to notify, after the mutex has been released.  A thread that is notified
or wakes up spuriously runs its critical section again.  `QueueMove` has a
constructor for each of these steps; `QueueStep` adds new calls, and
`QueueStep.effect` says what a step can do to the shared state.
-/

namespace HttpServer

open Transition Threads

universe u v

/-- The members of the queue. -/
structure BoundedQueue (α : Type u) where
  capacity : Nat
  queue : List α := []
  highWaterMark : Nat := 0
  closed : Bool := false

namespace BoundedQueue

variable {α : Type u}

/-- The constructor, which throws `std::invalid_argument` on a capacity of zero. -/
def make (capacity : Nat) : Except String (BoundedQueue α) :=
  if capacity = 0 then
    .error "queue capacity must be greater than zero"
  else
    .ok { capacity := capacity }

/-- Append an item and keep track of the largest size. -/
def insert (q : BoundedQueue α) (item : α) : BoundedQueue α :=
  { q with
    queue := q.queue ++ [item]
    highWaterMark :=
      if (q.queue ++ [item]).length > q.highWaterMark then (q.queue ++ [item]).length
      else q.highWaterMark }

inductive PushOutcome (α : Type u)
  | wait
  | rejected
  | inserted (q : BoundedQueue α)

/-- The critical section of `push`. -/
def pushSection (q : BoundedQueue α) (item : α) : PushOutcome α :=
  if q.closed || decide (q.queue.length < q.capacity) then
    if q.closed then .rejected else .inserted (q.insert item)
  else
    .wait

inductive PopOutcome (α : Type u)
  | wait
  | drained
  | removed (item : α) (q : BoundedQueue α)

/-- The critical section of `pop`. -/
def popSection (q : BoundedQueue α) : PopOutcome α :=
  if q.closed || !q.queue.isEmpty then
    match q.queue with
    | [] => .drained
    | item :: rest => .removed item { q with queue := rest }
  else
    .wait

/-- The critical section of `close`. -/
def close (q : BoundedQueue α) : BoundedQueue α :=
  { q with closed := true }

theorem make_eq_ok_iff
    (capacity : Nat)
    (q : BoundedQueue α) :
    make capacity = .ok q ↔ capacity ≠ 0 ∧ q = { capacity := capacity } := by
  unfold make
  split_ifs with hzero
  · simp [hzero]
  · simp [hzero, eq_comm]

theorem pushSection_eq_wait_iff
    (q : BoundedQueue α)
    (item : α) :
    q.pushSection item = .wait ↔ q.closed = false ∧ q.capacity ≤ q.queue.length := by
  unfold pushSection
  cases q.closed with
  | true => simp
  | false =>
      by_cases hroom : q.queue.length < q.capacity
      · simp [hroom]
      · have hfull : q.capacity ≤ q.queue.length := by omega
        simp [hroom, hfull]

theorem pushSection_eq_rejected_iff
    (q : BoundedQueue α)
    (item : α) :
    q.pushSection item = .rejected ↔ q.closed = true := by
  unfold pushSection
  cases q.closed with
  | true => simp
  | false => by_cases hroom : q.queue.length < q.capacity <;> simp [hroom]

theorem pushSection_eq_inserted_iff
    (q q' : BoundedQueue α)
    (item : α) :
    q.pushSection item = .inserted q' ↔
      q.closed = false ∧ q.queue.length < q.capacity ∧ q' = q.insert item := by
  unfold pushSection
  cases q.closed with
  | true => simp
  | false => by_cases hroom : q.queue.length < q.capacity <;> simp [hroom, eq_comm]

theorem popSection_eq_wait_iff
    (q : BoundedQueue α) :
    q.popSection = .wait ↔ q.closed = false ∧ q.queue = [] := by
  unfold popSection
  cases q.closed <;> cases q.queue <;> simp

theorem popSection_eq_drained_iff
    (q : BoundedQueue α) :
    q.popSection = .drained ↔ q.closed = true ∧ q.queue = [] := by
  unfold popSection
  cases q.closed <;> cases q.queue <;> simp

theorem popSection_eq_removed_iff
    (q q' : BoundedQueue α)
    (item : α) :
    q.popSection = .removed item q' ↔
      q.queue = item :: q'.queue ∧ q' = { q with queue := q'.queue } := by
  unfold popSection
  cases hqueue : q.queue with
  | nil => cases q.closed <;> simp
  | cons first rest =>
      simp only [List.isEmpty_cons, Bool.not_false, Bool.or_true, if_true,
        PopOutcome.removed.injEq, List.cons.injEq]
      constructor
      · rintro ⟨rfl, rfl⟩
        exact ⟨⟨rfl, rfl⟩, rfl⟩
      · rintro ⟨⟨rfl, hrest⟩, heq⟩
        exact ⟨rfl, by rw [heq, ← hrest]⟩

end BoundedQueue

section System

/-- The program points of a thread that uses the queue. -/
inductive QueuePc (α : Type u)
  | idle
  | pushReady (item : α)
  | pushWait (item : α)
  | pushNotify (item : α)
  | popReady
  | popWait
  | popNotify (item : α)
  | closeReady
  | closeNotifyEmpty
  | closeNotifyFull

/-- What threads do to the queue, and what their calls return. -/
inductive QueueEvent (τ : Type v) (α : Type u)
  | inserted (t : τ) (item : α)
  | removed (t : τ) (item : α)
  | drained (t : τ)
  | closed (t : τ)
  | pushReturned (t : τ) (item : α) (accepted : Bool)
  | popReturned (t : τ) (item : α)
  | closeReturned (t : τ)

structure QueueState (τ : Type v) (α : Type u) where
  shared : BoundedQueue α
  pc : τ → QueuePc α

variable {τ : Type v} {α : Type u}

/-- A thread that waits on `not_empty_` checks its predicate again. -/
def wakePop : QueuePc α → Option (QueuePc α)
  | .popWait => some .popReady
  | _ => none

/-- A thread that waits on `not_full_` checks its predicate again. -/
def wakePush : QueuePc α → Option (QueuePc α)
  | .pushWait item => some (.pushReady item)
  | _ => none

theorem wakePop_eq_some_iff
    {a b : QueuePc α} :
    wakePop a = some b ↔ a = .popWait ∧ b = .popReady := by
  cases a <;> simp [wakePop, eq_comm]

theorem wakePush_eq_some_iff
    {a b : QueuePc α} :
    wakePush a = some b ↔ ∃ item, a = .pushWait item ∧ b = .pushReady item := by
  cases a <;> simp [wakePush, eq_comm]

/-- What does not tell a thread that was woken from one that waits in `pop`. -/
theorem apply_wakePop
    {γ : Type*}
    {f : QueuePc α → γ}
    (hf : f .popReady = f .popWait)
    (a b : QueuePc α)
    (h : wakePop a = some b) :
    f b = f a := by
  obtain ⟨rfl, rfl⟩ := wakePop_eq_some_iff.1 h
  exact hf

theorem apply_wakePush
    {γ : Type*}
    {f : QueuePc α → γ}
    (hf : ∀ item, f (.pushReady item) = f (.pushWait item))
    (a b : QueuePc α)
    (h : wakePush a = some b) :
    f b = f a := by
  obtain ⟨item, rfl, rfl⟩ := wakePush_eq_some_iff.1 h
  exact hf item

variable [DecidableEq τ]

/-- Move one thread. -/
def QueueState.move (s : QueueState τ α) (t : τ) (pc : QueuePc α) : QueueState τ α :=
  { s with pc := Function.update s.pc t pc }

/-- The steps of the calls in progress, with the events they emit. -/
inductive QueueMove :
    QueueState τ α → List (QueueEvent τ α) → QueueState τ α → Prop
  | pushWaits {s : QueueState τ α} {t : τ} {item : α}
      (hpc : s.pc t = .pushReady item)
      (hsection : s.shared.pushSection item = .wait) :
      QueueMove s [] (s.move t (.pushWait item))
  | pushRejected {s : QueueState τ α} {t : τ} {item : α}
      (hpc : s.pc t = .pushReady item)
      (hsection : s.shared.pushSection item = .rejected) :
      QueueMove s [.pushReturned t item false] (s.move t .idle)
  | pushInserts {s : QueueState τ α} {t : τ} {item : α} {q : BoundedQueue α}
      (hpc : s.pc t = .pushReady item)
      (hsection : s.shared.pushSection item = .inserted q) :
      QueueMove s [.inserted t item]
        { shared := q, pc := Function.update s.pc t (.pushNotify item) }
  | pushNotifies {s : QueueState τ α} {t : τ} {item : α} {pc : τ → QueuePc α}
      (hpc : s.pc t = .pushNotify item)
      (hnotify : NotifyOne wakePop (Function.update s.pc t .idle) pc) :
      QueueMove s [.pushReturned t item true] { s with pc := pc }
  | popWaits {s : QueueState τ α} {t : τ}
      (hpc : s.pc t = .popReady)
      (hsection : s.shared.popSection = .wait) :
      QueueMove s [] (s.move t .popWait)
  | popDrained {s : QueueState τ α} {t : τ}
      (hpc : s.pc t = .popReady)
      (hsection : s.shared.popSection = .drained) :
      QueueMove s [.drained t] (s.move t .idle)
  | popRemoves {s : QueueState τ α} {t : τ} {item : α} {q : BoundedQueue α}
      (hpc : s.pc t = .popReady)
      (hsection : s.shared.popSection = .removed item q) :
      QueueMove s [.removed t item]
        { shared := q, pc := Function.update s.pc t (.popNotify item) }
  | popNotifies {s : QueueState τ α} {t : τ} {item : α} {pc : τ → QueuePc α}
      (hpc : s.pc t = .popNotify item)
      (hnotify : NotifyOne wakePush (Function.update s.pc t .idle) pc) :
      QueueMove s [.popReturned t item] { s with pc := pc }
  | closes {s : QueueState τ α} {t : τ}
      (hpc : s.pc t = .closeReady) :
      QueueMove s [.closed t]
        { shared := s.shared.close, pc := Function.update s.pc t .closeNotifyEmpty }
  | closeNotifiesEmpty {s : QueueState τ α} {t : τ}
      (hpc : s.pc t = .closeNotifyEmpty) :
      QueueMove s []
        { s with pc := notifyAll wakePop (Function.update s.pc t .closeNotifyFull) }
  | closeNotifiesFull {s : QueueState τ α} {t : τ}
      (hpc : s.pc t = .closeNotifyFull) :
      QueueMove s [.closeReturned t]
        { s with pc := notifyAll wakePush (Function.update s.pc t .idle) }
  | spuriousPop {s : QueueState τ α} {t : τ} {pc : QueuePc α}
      (hwake : wakePop (s.pc t) = some pc) :
      QueueMove s [] (s.move t pc)
  | spuriousPush {s : QueueState τ α} {t : τ} {pc : QueuePc α}
      (hwake : wakePush (s.pc t) = some pc) :
      QueueMove s [] (s.move t pc)

/-- The program points at which calls start. -/
inductive QueuePc.IsCall : QueuePc α → Prop
  | push (item : α) : IsCall (.pushReady item)
  | pop : IsCall .popReady
  | close : IsCall .closeReady

/-- The steps of the system: a thread starts a call, or a call goes on. -/
inductive QueueStep :
    QueueState τ α → List (QueueEvent τ α) → QueueState τ α → Prop
  | call {s : QueueState τ α} {t : τ} {pc : QueuePc α}
      (hpc : s.pc t = .idle)
      (hcall : pc.IsCall) :
      QueueStep s [] (s.move t pc)
  | move {s s' : QueueState τ α} {word : List (QueueEvent τ α)}
      (hmove : QueueMove s word s') :
      QueueStep s word s'

/-- The queue as constructed, with no call in progress. -/
def QueueState.start (τ : Type v) (q : BoundedQueue α) : QueueState τ α where
  shared := q
  pc := fun _ => .idle

/-- What a step can do to the shared state, with the events that say so. -/
inductive QueueEffect (q : BoundedQueue α) : List (QueueEvent τ α) → BoundedQueue α → Prop
  | unchanged : QueueEffect q [] q
  | pushReturned {t : τ} {item : α} {accepted : Bool} :
      QueueEffect q [.pushReturned t item accepted] q
  | popReturned {t : τ} {item : α} :
      QueueEffect q [.popReturned t item] q
  | closeReturned {t : τ} :
      QueueEffect q [.closeReturned t] q
  | inserted {t : τ} {item : α}
      (hopen : q.closed = false)
      (hroom : q.queue.length < q.capacity) :
      QueueEffect q [.inserted t item] (q.insert item)
  | removed {t : τ} {item : α} {rest : List α}
      (hqueue : q.queue = item :: rest) :
      QueueEffect q [.removed t item] { q with queue := rest }
  | drained {t : τ}
      (hclosed : q.closed = true)
      (hempty : q.queue = []) :
      QueueEffect q [.drained t] q
  | closed {t : τ} :
      QueueEffect q [.closed t] q.close

theorem QueueMove.effect
    {s s' : QueueState τ α}
    {word : List (QueueEvent τ α)}
    (h : QueueMove s word s') :
    QueueEffect s.shared word s'.shared := by
  cases h with
  | pushWaits => exact .unchanged
  | pushRejected => exact .pushReturned
  | pushInserts _ hsection =>
      obtain ⟨hopen, hroom, rfl⟩ := (BoundedQueue.pushSection_eq_inserted_iff _ _ _).1 hsection
      exact .inserted hopen hroom
  | pushNotifies => exact .pushReturned
  | popWaits => exact .unchanged
  | popDrained _ hsection =>
      obtain ⟨hclosed, hempty⟩ := (BoundedQueue.popSection_eq_drained_iff _).1 hsection
      exact .drained hclosed hempty
  | popRemoves _ hsection =>
      obtain ⟨hqueue, hq⟩ := (BoundedQueue.popSection_eq_removed_iff _ _ _).1 hsection
      dsimp only
      rw [hq]
      exact .removed hqueue
  | popNotifies => exact .popReturned
  | closes => exact .closed
  | closeNotifiesEmpty => exact .unchanged
  | closeNotifiesFull => exact .closeReturned
  | spuriousPop => exact .unchanged
  | spuriousPush => exact .unchanged

theorem QueueStep.effect
    {s s' : QueueState τ α}
    {word : List (QueueEvent τ α)}
    (h : QueueStep s word s') :
    QueueEffect s.shared word s'.shared := by
  cases h with
  | call => exact .unchanged
  | move hmove => exact hmove.effect

end System

end HttpServer
