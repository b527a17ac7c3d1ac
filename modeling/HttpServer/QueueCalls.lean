import HttpServer.QueueFifo

/-!
# The queue as its callers see it

A caller hands an item to `push` and gets one back from `pop`; what happens in
between is the queue's own affair.  `QueueMove.change` says what a step of a call
in progress means to the callers: which call returns, if any, and which item it
hands back.  Items that are neither returned nor stored would be lost, so the
items in transit are counted: those in the queue and those that a call in
progress holds.
-/

namespace HttpServer

open Transition Threads

universe u v

section Calls

inductive QueueMethod
  | push
  | pop
  | close
deriving DecidableEq

variable {τ : Type v} {α : Type u}

/-- The method that a thread is in. -/
def QueuePc.method : QueuePc α → Option QueueMethod
  | .idle => none
  | .pushReady _ => some .push
  | .pushWait _ => some .push
  | .pushNotify _ => some .push
  | .popReady => some .pop
  | .popWait => some .pop
  | .popNotify _ => some .pop
  | .closeReady => some .close
  | .closeNotifyEmpty => some .close
  | .closeNotifyFull => some .close

theorem QueuePc.eq_idle_of_method_eq_none
    {a : QueuePc α}
    (h : a.method = none) :
    a = .idle := by
  cases a <;> simp_all [QueuePc.method]

/-- The items that a call in progress holds: `push` until it inserts its argument, `pop` from
the removal on. -/
def QueuePc.items : QueuePc α → List α
  | .pushReady item => [item]
  | .pushWait item => [item]
  | .popNotify item => [item]
  | _ => []

variable [Fintype τ]

/-- The items in the queue and in the calls in progress. -/
def QueueState.inTransit (s : QueueState τ α) : Multiset α :=
  total (fun a => (a.items : Multiset α)) s.pc + s.shared.queue

end Calls

section Change

variable {τ : Type v} {α : Type u} [Fintype τ] [DecidableEq τ]

/-- What a step of a call in progress means to the callers. -/
inductive QueueChange (s : QueueState τ α) :
    List (QueueEvent τ α) → QueueState τ α → Prop
  | quiet {s' : QueueState τ α} {word : List (QueueEvent τ α)}
      (hword : ∀ e ∈ word, (∃ t item, e = .inserted t item) ∨ (∃ t item, e = .removed t item) ∨
        ∃ t, e = .closed t)
      (hmethod : ∀ t, (s'.pc t).method = (s.pc t).method)
      (htransit : s'.inTransit = s.inTransit) :
      QueueChange s word s'
  | accepted {s' : QueueState τ α} {t : τ} {item : α}
      (hcall : (s.pc t).method = some .push)
      (hmethod : ∀ u, (s'.pc u).method = if u = t then none else (s.pc u).method)
      (htransit : s'.inTransit = s.inTransit) :
      QueueChange s [.pushReturned t item true] s'
  | rejected {s' : QueueState τ α} {t : τ} {item : α}
      (hcall : (s.pc t).method = some .push)
      (hmethod : ∀ u, (s'.pc u).method = if u = t then none else (s.pc u).method)
      (htransit : s.inTransit = {item} + s'.inTransit) :
      QueueChange s [.pushReturned t item false] s'
  | popped {s' : QueueState τ α} {t : τ} {item : α}
      (hcall : (s.pc t).method = some .pop)
      (hmethod : ∀ u, (s'.pc u).method = if u = t then none else (s.pc u).method)
      (htransit : s.inTransit = {item} + s'.inTransit) :
      QueueChange s [.popReturned t item] s'
  | drained {s' : QueueState τ α} {t : τ}
      (hcall : (s.pc t).method = some .pop)
      (hmethod : ∀ u, (s'.pc u).method = if u = t then none else (s.pc u).method)
      (htransit : s'.inTransit = s.inTransit) :
      QueueChange s [.drained t] s'
  | closed {s' : QueueState τ α} {t : τ}
      (hcall : (s.pc t).method = some .close)
      (hmethod : ∀ u, (s'.pc u).method = if u = t then none else (s.pc u).method)
      (htransit : s'.inTransit = s.inTransit) :
      QueueChange s [.closeReturned t] s'

variable {s : QueueState τ α} {t : τ} {a b : QueuePc α} {q : BoundedQueue α}

omit [Fintype τ] in
theorem method_update
    (b : QueuePc α)
    (hmethod : b.method = none)
    (u : τ) :
    (Function.update s.pc t b u).method = if u = t then none else (s.pc u).method := by
  by_cases hut : u = t
  · subst hut
    simp [hmethod]
  · simp [hut]

/-- Moving one thread moves what it holds to the queue, from there, or to the caller. -/
theorem inTransit_update
    (hpc : s.pc t = a)
    (handed : Multiset α)
    (hitems : (a.items : Multiset α) + s.shared.queue = handed + (b.items + q.queue)) :
    s.inTransit =
      handed + QueueState.inTransit { shared := q, pc := Function.update s.pc t b } := by
  have htotal := total_update (fun a => (a.items : Multiset α)) s.pc t b
  rw [hpc] at htotal
  unfold QueueState.inTransit
  refine add_right_cancel (b := (b.items : Multiset α)) ?_
  calc
    total (fun a => (a.items : Multiset α)) s.pc + s.shared.queue + b.items
      = total (fun a => (a.items : Multiset α)) s.pc + b.items + s.shared.queue := by abel
    _ = total (fun a => (a.items : Multiset α)) (Function.update s.pc t b) +
          (a.items + s.shared.queue) := by rw [← htotal]; abel
    _ = handed + (total (fun a => (a.items : Multiset α)) (Function.update s.pc t b) + q.queue) +
          b.items := by rw [hitems]; abel

theorem inTransit_update_eq
    (hpc : s.pc t = a)
    (hitems : (a.items : Multiset α) + s.shared.queue = b.items + q.queue) :
    QueueState.inTransit { shared := q, pc := Function.update s.pc t b } = s.inTransit := by
  have hzero := inTransit_update hpc 0 (hitems.trans (zero_add _).symm)
  rw [zero_add] at hzero
  exact hzero.symm

omit [DecidableEq τ] in
/-- Notifications move no items. -/
theorem inTransit_congr
    {pc pc' : τ → QueuePc α}
    (h : ∀ u, (pc' u).items = (pc u).items) :
    QueueState.inTransit { shared := q, pc := pc' } =
      QueueState.inTransit { shared := q, pc := pc } := by
  have htotal : total (fun a => (a.items : Multiset α)) pc' =
      total (fun a => (a.items : Multiset α)) pc := total_congr (fun u => by rw [h u])
  simp only [QueueState.inTransit, htotal]

theorem quiet_update
    {word : List (QueueEvent τ α)}
    (hpc : s.pc t = a)
    (hmethod : b.method = a.method)
    (hitems : (a.items : Multiset α) + s.shared.queue = b.items + q.queue)
    (hword : ∀ e ∈ word, (∃ t item, e = .inserted t item) ∨ (∃ t item, e = .removed t item) ∨
      ∃ t, e = .closed t) :
    QueueChange s word { shared := q, pc := Function.update s.pc t b } := by
  exact .quiet hword (apply_update_eq (by rw [hpc]; exact hmethod)) (inTransit_update_eq hpc hitems)

theorem QueueMove.change
    {s' : QueueState τ α}
    {word : List (QueueEvent τ α)}
    (h : QueueMove s word s') :
    QueueChange s word s' := by
  cases h with
  | pushWaits hpc => exact quiet_update hpc rfl rfl (by simp)
  | pushRejected hpc =>
      exact .rejected (by rw [hpc]; rfl) (method_update .idle rfl) (inTransit_update hpc _ rfl)
  | pushInserts hpc hsection =>
      obtain ⟨_, _, rfl⟩ := (BoundedQueue.pushSection_eq_inserted_iff _ _ _).1 hsection
      refine quiet_update hpc rfl ?_ (by simp)
      exact (add_comm _ _).trans (Multiset.coe_add _ _).symm
  | pushNotifies hpc hnotify =>
      have hmethod := hnotify.apply_eq (f := QueuePc.method) (apply_wakePop rfl)
      have hitems := hnotify.apply_eq (f := QueuePc.items) (apply_wakePop rfl)
      refine .accepted (by rw [hpc]; rfl) (fun u => ?_) ?_
      · exact (hmethod u).trans (method_update .idle rfl u)
      · exact (inTransit_congr hitems).trans (inTransit_update_eq hpc rfl)
  | popWaits hpc => exact quiet_update hpc rfl rfl (by simp)
  | popDrained hpc =>
      exact .drained (by rw [hpc]; rfl) (method_update .idle rfl) (inTransit_update_eq hpc rfl)
  | popRemoves hpc hsection =>
      obtain ⟨hqueue, _⟩ := (BoundedQueue.popSection_eq_removed_iff _ _ _).1 hsection
      refine quiet_update hpc rfl ?_ (by simp)
      rw [hqueue]
      simp [QueuePc.items]
  | popNotifies hpc hnotify =>
      have hmethod := hnotify.apply_eq (f := QueuePc.method) (apply_wakePush fun _ => rfl)
      have hitems := hnotify.apply_eq (f := QueuePc.items) (apply_wakePush fun _ => rfl)
      refine .popped (by rw [hpc]; rfl) (fun u => ?_) ?_
      · exact (hmethod u).trans (method_update .idle rfl u)
      · rw [inTransit_congr hitems]
        exact inTransit_update hpc _ (by simp [QueuePc.items])
  | closes hpc => exact quiet_update hpc rfl rfl (by simp)
  | @closeNotifiesEmpty t hpc =>
      have hmethod := notifyAll_apply_eq (f := QueuePc.method) (apply_wakePop rfl)
        (Function.update s.pc t .closeNotifyFull)
      have hitems := notifyAll_apply_eq (f := QueuePc.items) (apply_wakePop rfl)
        (Function.update s.pc t .closeNotifyFull)
      refine .quiet (by simp) (fun u => ?_) ?_
      · rw [hmethod]
        exact apply_update_eq (by rw [hpc]; rfl) u
      · exact (inTransit_congr hitems).trans (inTransit_update_eq hpc rfl)
  | @closeNotifiesFull t hpc =>
      have hmethod := notifyAll_apply_eq (f := QueuePc.method) (apply_wakePush fun _ => rfl)
        (Function.update s.pc t .idle)
      have hitems := notifyAll_apply_eq (f := QueuePc.items) (apply_wakePush fun _ => rfl)
        (Function.update s.pc t .idle)
      refine .closed (by rw [hpc]; rfl) (fun u => ?_) ?_
      · rw [hmethod]
        exact method_update .idle rfl u
      · exact (inTransit_congr hitems).trans (inTransit_update_eq hpc rfl)
  | spuriousPop hwake =>
      have hmethod := apply_wakePop (f := QueuePc.method) rfl _ _ hwake
      have hitems := apply_wakePop (f := QueuePc.items) rfl _ _ hwake
      exact quiet_update rfl hmethod (by rw [hitems]) (by simp)
  | spuriousPush hwake =>
      have hmethod := apply_wakePush (f := QueuePc.method) (fun _ => rfl) _ _ hwake
      have hitems := apply_wakePush (f := QueuePc.items) (fun _ => rfl) _ _ hwake
      exact quiet_update rfl hmethod (by rw [hitems]) (by simp)

end Change

end HttpServer
