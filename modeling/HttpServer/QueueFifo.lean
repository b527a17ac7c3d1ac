import HttpServer.BoundedQueue

/-!
# The queue is a bounded FIFO that drains after it is closed

The properties are about whole histories of any number of threads: the items
inserted, in order, are the items removed, in order, followed by the contents of
the queue.

* `FifoInv`: this equation, the bound and the high-water mark;
* `closed_of_closed`, `removedItems_of_drained`: what `close` and a failed `pop`
  rule out for the rest of the run;
* `run_returns`: what the calls of a thread return is what they did.
-/

namespace HttpServer

open Transition Threads

universe u v

variable {τ : Type v} {α : Type u}

section Histories

def QueueEvent.insertedItem : QueueEvent τ α → Option α
  | .inserted _ item => some item
  | _ => none

def QueueEvent.removedItem : QueueEvent τ α → Option α
  | .removed _ item => some item
  | _ => none

/-- The items inserted, in order. -/
def insertedItems (trace : List (QueueEvent τ α)) : List α :=
  trace.filterMap QueueEvent.insertedItem

/-- The items removed, in order. -/
def removedItems (trace : List (QueueEvent τ α)) : List α :=
  trace.filterMap QueueEvent.removedItem

/-- The number of items in the queue after some events. -/
def sizeAfter (trace : List (QueueEvent τ α)) : Nat :=
  (insertedItems trace).length - (removedItems trace).length

@[simp] theorem insertedItems_append (front back : List (QueueEvent τ α)) :
    insertedItems (front ++ back) = insertedItems front ++ insertedItems back := by
  simp [insertedItems]

@[simp] theorem removedItems_append (front back : List (QueueEvent τ α)) :
    removedItems (front ++ back) = removedItems front ++ removedItems back := by
  simp [removedItems]

/-- What is inserted enters the queue at the back, what is removed leaves it at the front. -/
theorem QueueEffect.balance
    {q q' : BoundedQueue α}
    {word : List (QueueEvent τ α)}
    (h : QueueEffect q word q') :
    q.queue ++ insertedItems word = removedItems word ++ q'.queue := by
  cases h with
  | inserted => rfl
  | removed hqueue =>
      rw [hqueue]
      exact List.append_nil _
  | unchanged => exact List.append_nil _
  | pushReturned => exact List.append_nil _
  | popReturned => exact List.append_nil _
  | closeReturned => exact List.append_nil _
  | drained => exact List.append_nil _
  | closed => exact List.append_nil _

/-- The queue along a run. -/
theorem run_balance
    [DecidableEq τ]
    {s s' : QueueState τ α}
    {trace : List (QueueEvent τ α)}
    (h : Run QueueStep s trace s') :
    s.shared.queue ++ insertedItems trace = removedItems trace ++ s'.shared.queue :=
  h.conservation QueueEvent.insertedItem QueueEvent.removedItem (fun s => s.shared.queue)
    (fun _ _ _ hstep => hstep.effect.balance)

end Histories

section Invariant

/-- What holds of a history and the queue at its end. -/
structure FifoInv (capacity : Nat) (trace : List (QueueEvent τ α)) (q : BoundedQueue α) :
    Prop where
  capacity_eq : q.capacity = capacity
  fifo : insertedItems trace = removedItems trace ++ q.queue
  bounded : q.queue.length ≤ capacity
  mark : IsGreatest {n | ∃ front, front <+: trace ∧ n = sizeAfter front} q.highWaterMark
  closed_iff : q.closed = true ↔ ∃ t, QueueEvent.closed t ∈ trace

theorem sizeAfter_eq
    {trace : List (QueueEvent τ α)}
    {queue : List α}
    (h : insertedItems trace = removedItems trace ++ queue) :
    sizeAfter trace = queue.length := by
  rw [sizeAfter, h, List.length_append]
  omega

/-- One more event, after which the mark is the largest of the old mark and the new size. -/
theorem isGreatest_sizeAfter_concat
    {trace : List (QueueEvent τ α)}
    {e : QueueEvent τ α}
    {mark : Nat}
    (h : IsGreatest {n | ∃ front, front <+: trace ∧ n = sizeAfter front} mark) :
    IsGreatest {n | ∃ front, front <+: trace ++ [e] ∧ n = sizeAfter front}
      (max mark (sizeAfter (trace ++ [e]))) := by
  obtain ⟨⟨front, hfront, hmark⟩, hhighest⟩ := h
  constructor
  · rcases le_total (sizeAfter (trace ++ [e])) mark with hle | hle
    · exact ⟨front, hfront.trans (List.prefix_append _ _), by rw [max_eq_left hle, hmark]⟩
    · exact ⟨trace ++ [e], List.prefix_refl _, max_eq_right hle⟩
  · rintro n ⟨front, hfront, rfl⟩
    rcases List.prefix_concat_iff.1 hfront with rfl | hfront
    · exact le_max_right _ _
    · exact (hhighest ⟨front, hfront, rfl⟩).trans (le_max_left _ _)

namespace FifoInv

variable {capacity : Nat} {trace : List (QueueEvent τ α)} {q q' : BoundedQueue α}

theorem length_le_highWaterMark
    (h : FifoInv capacity trace q) :
    q.queue.length ≤ q.highWaterMark :=
  h.mark.2 ⟨trace, List.prefix_refl _, (sizeAfter_eq h.fifo).symm⟩

theorem concat
    (h : FifoInv capacity trace q)
    {e : QueueEvent τ α}
    (heffect : QueueEffect q [e] q')
    (hcapacity : q'.capacity = q.capacity)
    (hbounded : q'.queue.length ≤ capacity)
    (hmark : q'.highWaterMark = max q.highWaterMark q'.queue.length)
    (hclosed : q'.closed = true ↔ q.closed = true ∨ ∃ t, e = .closed t) :
    FifoInv capacity (trace ++ [e]) q' := by
  have hfifo : insertedItems (trace ++ [e]) = removedItems (trace ++ [e]) ++ q'.queue := by
    rw [insertedItems_append, removedItems_append, h.fifo, List.append_assoc, List.append_assoc,
      heffect.balance]
  refine ⟨hcapacity.trans h.capacity_eq, hfifo, hbounded, ?_, ?_⟩
  · rw [hmark, ← sizeAfter_eq hfifo]
    exact isGreatest_sizeAfter_concat h.mark
  · rw [hclosed, h.closed_iff, ← exists_or]
    simp only [List.mem_append, List.mem_singleton, eq_comm]

theorem step
    (h : FifoInv capacity trace q)
    {word : List (QueueEvent τ α)}
    (heffect : QueueEffect q word q') :
    FifoInv capacity (trace ++ word) q' := by
  have hmark := h.length_le_highWaterMark
  have hbounded := h.bounded
  cases heffect with
  | unchanged =>
      rw [List.append_nil]
      exact h
  | pushReturned => exact h.concat .pushReturned rfl hbounded (max_eq_left hmark).symm (by simp)
  | popReturned => exact h.concat .popReturned rfl hbounded (max_eq_left hmark).symm (by simp)
  | closeReturned => exact h.concat .closeReturned rfl hbounded (max_eq_left hmark).symm (by simp)
  | inserted hopen hroom =>
      refine h.concat (.inserted hopen hroom) rfl ?_ ?_ (by simp [BoundedQueue.insert])
      · rw [h.capacity_eq] at hroom
        simpa [BoundedQueue.insert] using hroom
      · simp only [BoundedQueue.insert]
        split_ifs with hhigher
        · exact (max_eq_right (by omega)).symm
        · exact (max_eq_left (by omega)).symm
  | removed hqueue =>
      rw [hqueue, List.length_cons] at hbounded hmark
      exact h.concat (.removed hqueue) rfl (by dsimp only; omega)
        (max_eq_left (by dsimp only; omega)).symm (by simp)
  | drained hclosed hempty =>
      exact h.concat (.drained hclosed hempty) rfl hbounded (max_eq_left hmark).symm (by simp)
  | closed =>
      exact h.concat .closed rfl hbounded (max_eq_left hmark).symm (by simp [BoundedQueue.close])

end FifoInv

theorem fifoInv_make
    {capacity : Nat}
    {q : BoundedQueue α}
    (hmake : BoundedQueue.make capacity = .ok q) :
    FifoInv capacity ([] : List (QueueEvent τ α)) q := by
  obtain ⟨_, rfl⟩ := (BoundedQueue.make_eq_ok_iff _ _).1 hmake
  refine ⟨rfl, rfl, Nat.zero_le _, ⟨⟨[], List.prefix_refl _, rfl⟩, ?_⟩, by simp⟩
  rintro n ⟨front, hfront, rfl⟩
  rw [List.prefix_nil.1 hfront]
  rfl

theorem fifoInv_of_run
    [DecidableEq τ]
    {capacity : Nat}
    {q : BoundedQueue α}
    (hmake : BoundedQueue.make capacity = .ok q)
    {trace : List (QueueEvent τ α)}
    {s : QueueState τ α}
    (hrun : Run QueueStep (QueueState.start τ q) trace s) :
    FifoInv capacity trace s.shared :=
  hrun.invariant (fun trace s => FifoInv capacity trace s.shared) (fifoInv_make hmake)
    (fun _ _ _ _ h hstep => h.step hstep.effect)

end Invariant

section Finality

variable [DecidableEq τ] {s s' : QueueState τ α} {later : List (QueueEvent τ α)}

/-- Once closed, the queue stays closed and takes no more items. -/
theorem closed_of_closed
    (hclosed : s.shared.closed = true)
    (hrun : Run QueueStep s later s') :
    s'.shared.closed = true ∧ insertedItems later = [] := by
  refine hrun.invariant (fun later s => s.shared.closed = true ∧ insertedItems later = [])
    ⟨hclosed, rfl⟩ ?_
  rintro later s word s' ⟨hclosed, hlater⟩ hstep
  have heffect := hstep.effect
  rw [insertedItems_append, hlater]
  generalize s'.shared = q' at heffect ⊢
  cases heffect with
  | inserted hopen => simp [hclosed] at hopen
  | closed => exact ⟨rfl, rfl⟩
  | unchanged => exact ⟨hclosed, rfl⟩
  | pushReturned => exact ⟨hclosed, rfl⟩
  | popReturned => exact ⟨hclosed, rfl⟩
  | closeReturned => exact ⟨hclosed, rfl⟩
  | removed => exact ⟨hclosed, rfl⟩
  | drained => exact ⟨hclosed, rfl⟩

/-- Once closed and empty, the queue gives out no more items. -/
theorem removedItems_of_drained
    (hclosed : s.shared.closed = true)
    (hempty : s.shared.queue = [])
    (hrun : Run QueueStep s later s') :
    removedItems later = [] := by
  have hnothing := (closed_of_closed hclosed hrun).2
  have hbalance := run_balance hrun
  rw [hempty, hnothing] at hbalance
  exact (List.append_eq_nil_iff.1 hbalance.symm).1

end Finality

section Returns

/-- A call that has taken effect. -/
inductive QueueCall (α : Type u)
  | push (item : α)
  | pop (item : α)

variable [DecidableEq τ]

/-- The effects of the calls of a thread. -/
def QueueEvent.effectOf (t : τ) : QueueEvent τ α → Option (QueueCall α)
  | .inserted u item => if u = t then some (.push item) else none
  | .removed u item => if u = t then some (.pop item) else none
  | _ => none

/-- The successful returns of the calls of a thread. -/
def QueueEvent.returnOf (t : τ) : QueueEvent τ α → Option (QueueCall α)
  | .pushReturned u item true => if u = t then some (.push item) else none
  | .popReturned u item => if u = t then some (.pop item) else none
  | _ => none

/-- The call of a thread that has taken effect and has not returned yet. -/
def QueuePc.pendingReturn : QueuePc α → List (QueueCall α)
  | .pushNotify item => [.push item]
  | .popNotify item => [.pop item]
  | _ => []

@[simp] theorem pendingReturn_idle :
    (QueuePc.idle : QueuePc α).pendingReturn = [] := rfl

section Balance

variable {t u : τ} {pc pc' : τ → QueuePc α} {a b : QueuePc α} {e : QueueEvent τ α}
  {call : QueueCall α}

theorem returns_silent
    (hpending : ∀ t, (pc' t).pendingReturn = (pc t).pendingReturn) :
    (pc t).pendingReturn ++ List.filterMap (QueueEvent.effectOf t) [] =
      List.filterMap (QueueEvent.returnOf t) [] ++ (pc' t).pendingReturn := by
  simp [hpending t]

theorem returns_update
    (hpc : pc u = a)
    (hpending : b.pendingReturn = a.pendingReturn) :
    (pc t).pendingReturn ++ List.filterMap (QueueEvent.effectOf t) [] =
      List.filterMap (QueueEvent.returnOf t) [] ++ (Function.update pc u b t).pendingReturn :=
  returns_silent (apply_update_eq (by rw [hpc]; exact hpending))

/-- A call takes effect. -/
theorem returns_effect
    (hpc : pc u = a)
    (ha : a.pendingReturn = [])
    (hb : b.pendingReturn = [call])
    (heffect : e.effectOf t = if u = t then some call else none)
    (hreturn : e.returnOf t = none) :
    (pc t).pendingReturn ++ [e].filterMap (QueueEvent.effectOf t) =
      [e].filterMap (QueueEvent.returnOf t) ++ (Function.update pc u b t).pendingReturn := by
  by_cases htu : u = t
  · subst htu
    simp [hpc, ha, hb, heffect, hreturn]
  · simp [heffect, hreturn, htu, Ne.symm htu]

/-- A call returns and its thread is idle; another thread may have been notified. -/
theorem returns_return
    (hpc : pc u = a)
    (ha : a.pendingReturn = [call])
    (hpending : ∀ t, (pc' t).pendingReturn = (Function.update pc u .idle t).pendingReturn)
    (heffect : e.effectOf t = none)
    (hreturn : e.returnOf t = if u = t then some call else none) :
    (pc t).pendingReturn ++ [e].filterMap (QueueEvent.effectOf t) =
      [e].filterMap (QueueEvent.returnOf t) ++ (pc' t).pendingReturn := by
  rw [hpending t]
  by_cases htu : u = t
  · subst htu
    simp [hpc, ha, heffect, hreturn]
  · simp [heffect, hreturn, htu, Ne.symm htu]

end Balance

/-- A thread returns from the calls that took effect. -/
theorem returns_move
    (t : τ)
    {s s' : QueueState τ α}
    {word : List (QueueEvent τ α)}
    (h : QueueMove s word s') :
    (s.pc t).pendingReturn ++ word.filterMap (QueueEvent.effectOf t) =
      word.filterMap (QueueEvent.returnOf t) ++ (s'.pc t).pendingReturn := by
  cases h with
  | pushWaits hpc => exact returns_update hpc rfl
  | pushRejected hpc => exact returns_update hpc rfl
  | pushInserts hpc => exact returns_effect hpc rfl rfl rfl rfl
  | pushNotifies hpc hnotify =>
      exact returns_return hpc rfl (hnotify.apply_eq (apply_wakePop rfl)) rfl rfl
  | popWaits hpc => exact returns_update hpc rfl
  | popDrained hpc => exact returns_update hpc rfl
  | popRemoves hpc => exact returns_effect hpc rfl rfl rfl rfl
  | popNotifies hpc hnotify =>
      exact returns_return hpc rfl (hnotify.apply_eq (apply_wakePush fun _ => rfl)) rfl rfl
  | closes hpc => exact returns_update hpc rfl
  | closeNotifiesEmpty hpc =>
      refine returns_silent (fun t => ?_)
      rw [notifyAll_apply_eq (f := QueuePc.pendingReturn) (apply_wakePop rfl)]
      exact apply_update_eq (by rw [hpc]; rfl) t
  | closeNotifiesFull hpc =>
      refine returns_silent (fun t => ?_)
      rw [notifyAll_apply_eq (f := QueuePc.pendingReturn) (apply_wakePush fun _ => rfl)]
      exact apply_update_eq (by rw [hpc]; rfl) t
  | spuriousPop hwake => exact returns_silent (apply_update_eq (apply_wakePop rfl _ _ hwake))
  | spuriousPush hwake =>
      exact returns_silent (apply_update_eq (apply_wakePush (fun _ => rfl) _ _ hwake))

theorem returns_step
    (t : τ)
    {s s' : QueueState τ α}
    {word : List (QueueEvent τ α)}
    (h : QueueStep s word s') :
    (s.pc t).pendingReturn ++ word.filterMap (QueueEvent.effectOf t) =
      word.filterMap (QueueEvent.returnOf t) ++ (s'.pc t).pendingReturn := by
  cases h with
  | call hpc hcall =>
      cases hcall with
      | push => exact returns_update hpc rfl
      | pop => exact returns_update hpc rfl
      | close => exact returns_update hpc rfl
  | move hmove => exact returns_move t hmove

theorem run_returns
    (t : τ)
    {q : BoundedQueue α}
    {s : QueueState τ α}
    {trace : List (QueueEvent τ α)}
    (h : Run QueueStep (QueueState.start τ q) trace s) :
    trace.filterMap (QueueEvent.effectOf t) =
      trace.filterMap (QueueEvent.returnOf t) ++ (s.pc t).pendingReturn :=
  h.conservation (QueueEvent.effectOf t) (QueueEvent.returnOf t)
    (fun s => (s.pc t).pendingReturn) (fun _ _ _ hstep => returns_step t hstep)

end Returns

section Contract

variable [DecidableEq τ]

/--
The contract of the queue, in every state that a run of any threads reaches: the
history is first in, first out, and calls return what they did; the size is
bounded and the high-water mark is the largest size so far; `close` is final; and
`pop` fails only on a closed and empty queue, which stays so.
-/
theorem bounded_queue_contract
    {capacity : Nat}
    {q₀ : BoundedQueue α}
    (hmake : BoundedQueue.make capacity = .ok q₀)
    {trace : List (QueueEvent τ α)}
    {s : QueueState τ α}
    (hrun : Run QueueStep (QueueState.start τ q₀) trace s) :
    insertedItems trace = removedItems trace ++ s.shared.queue ∧
    (∀ t, trace.filterMap (QueueEvent.effectOf t) =
      trace.filterMap (QueueEvent.returnOf t) ++ (s.pc t).pendingReturn) ∧
    s.shared.queue.length ≤ capacity ∧
    IsGreatest {n | ∃ front, front <+: trace ∧ n = sizeAfter front} s.shared.highWaterMark ∧
    (s.shared.closed = true ↔ ∃ t, QueueEvent.closed t ∈ trace) ∧
    (s.shared.closed = true → ∀ later s', Run QueueStep s later s' →
      s'.shared.closed = true ∧ insertedItems later = []) ∧
    ∀ t s', QueueStep s [.drained t] s' →
      s.shared.closed = true ∧ s.shared.queue = [] ∧
      ∀ later s'', Run QueueStep s' later s'' → removedItems later = [] := by
  have hinv := fifoInv_of_run hmake hrun
  refine ⟨hinv.fifo, fun t => run_returns t hrun, hinv.bounded, hinv.mark, hinv.closed_iff,
    fun hclosed later s' hlater => closed_of_closed hclosed hlater, ?_⟩
  intro t s' hstep
  have heffect := hstep.effect
  generalize hq : s'.shared = q' at heffect
  cases heffect with
  | drained hclosed hempty =>
      refine ⟨hclosed, hempty, fun later s'' hlater => ?_⟩
      exact removedItems_of_drained (hq ▸ hclosed) (hq ▸ hempty) hlater

/-- A producer that inserts and closes, and a consumer that drains. -/
def sampleQueueTrace : List (QueueEvent Bool Nat) :=
  [.inserted false 7, .pushReturned false 7 true, .closed false, .removed true 7,
    .popReturned true 7]

theorem sampleQueueTrace_run :
    ∃ s s', Run QueueStep (QueueState.start Bool { capacity := 1 }) sampleQueueTrace s ∧
      QueueStep s [.drained true] s' := by
  have hstart : Run QueueStep (QueueState.start Bool (α := Nat) { capacity := 1 }) [] _ := .refl
  have hpush := (hstart.tail (.call (t := false) rfl (.push 7))).tail
    (.move (.pushInserts (t := false) rfl rfl))
  have hreturn := hpush.tail (.move (.pushNotifies (t := false) rfl (.nobody (by decide))))
  have hclose := (hreturn.tail (.call (t := false) rfl .close)).tail
    (.move (.closes (t := false) rfl))
  have hpop := (hclose.tail (.call (t := true) rfl .pop)).tail
    (.move (.popRemoves (t := true) rfl rfl))
  have hdone := hpop.tail (.move (.popNotifies (t := true) rfl (.nobody (by decide))))
  exact ⟨_, _, hdone.tail (.call (t := true) rfl .pop), .move (.popDrained rfl rfl)⟩

theorem bounded_queue_contract_sample :
    ∃ s, Run QueueStep (QueueState.start Bool { capacity := 1 }) sampleQueueTrace s ∧
      insertedItems sampleQueueTrace = removedItems sampleQueueTrace ++ s.shared.queue ∧
      s.shared.closed = true ∧ s.shared.queue = [] := by
  have hmake : BoundedQueue.make 1 = .ok ({ capacity := 1 } : BoundedQueue Nat) := rfl
  obtain ⟨s, s', hrun, hdrained⟩ := sampleQueueTrace_run
  obtain ⟨hfifo, _, _, _, _, _, hfinal⟩ := bounded_queue_contract hmake hrun
  obtain ⟨hclosed, hempty, _⟩ := hfinal true s' hdrained
  exact ⟨s, hrun, hfifo, hclosed, hempty⟩

end Contract

end HttpServer
