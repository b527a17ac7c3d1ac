import HttpServer.QueueFifo

/-!
# The queue loses no wake-up

A notification is sent after the mutex has been released and wakes one waiter, so
other threads can come in between a change of the queue, the notification and the
check of the thread it wakes.  The invariant counts threads by their phase: while
a thread waits in `pop`, every item of an open queue is matched by a `push` that
has yet to notify or by a `pop` that has yet to check; free places and waiting
`push` calls are matched in the same way; and once the queue is closed, a waiting
thread is matched by a `close` that has yet to notify.

* `WakeInv`: the invariant, kept by every step (`WakeInv.step`);
* `Stuck`: the states in which the calls in progress have only spurious wake-ups
  left;
* `atRest_of_stuck`, `stuck_of_atRest`: those in which every thread is in no call
  or waits.
-/

namespace HttpServer

open Transition Threads

universe u v

section Phases

/-- A program point without its item. -/
inductive QueuePhase
  | idle
  | pushReady
  | pushWait
  | pushNotify
  | popReady
  | popWait
  | popNotify
  | closeReady
  | closeNotifyEmpty
  | closeNotifyFull
deriving DecidableEq

variable {τ : Type v} {α : Type u}

def QueuePc.phase : QueuePc α → QueuePhase
  | .idle => .idle
  | .pushReady _ => .pushReady
  | .pushWait _ => .pushWait
  | .pushNotify _ => .pushNotify
  | .popReady => .popReady
  | .popWait => .popWait
  | .popNotify _ => .popNotify
  | .closeReady => .closeReady
  | .closeNotifyEmpty => .closeNotifyEmpty
  | .closeNotifyFull => .closeNotifyFull

/-- `wake` takes the threads in phase `a`, and no others, to phase `b`. -/
def WakesFrom (wake : QueuePc α → Option (QueuePc α)) (a b : QueuePhase) : Prop :=
  ∀ pc, (pc.phase ≠ a ∧ wake pc = none) ∨ pc.phase = a ∧ ∃ pc', wake pc = some pc' ∧ pc'.phase = b

theorem wakesFrom_wakePop :
    WakesFrom (α := α) wakePop .popWait .popReady := by
  intro pc
  cases pc <;> simp [wakePop, QueuePc.phase]

theorem wakesFrom_wakePush :
    WakesFrom (α := α) wakePush .pushWait .pushReady := by
  intro pc
  cases pc <;> simp [wakePush, QueuePc.phase]

theorem WakesFrom.phases
    {wake : QueuePc α → Option (QueuePc α)}
    {a b : QueuePhase}
    (h : WakesFrom wake a b)
    {pc pc' : QueuePc α}
    (hwake : wake pc = some pc') :
    pc.phase = a ∧ pc'.phase = b := by
  rcases h pc with ⟨_, hnone⟩ | ⟨hpc, pc'', hsome, hpc'⟩
  · simp [hnone] at hwake
  · cases hsome.symm.trans hwake
    exact ⟨hpc, hpc'⟩

variable [Fintype τ]

/-- The number of threads in a phase. -/
def inPhase (pc : τ → QueuePc α) (k : QueuePhase) : Nat :=
  count (fun a => decide (a.phase = k)) pc

theorem inPhase_pos_iff
    (pc : τ → QueuePc α)
    (k : QueuePhase) :
    0 < inPhase pc k ↔ ∃ t, (pc t).phase = k := by
  simp [inPhase, count_pos_iff]

theorem inPhase_eq_zero_iff
    (pc : τ → QueuePc α)
    (k : QueuePhase) :
    inPhase pc k = 0 ↔ ∀ t, (pc t).phase ≠ k := by
  simp [inPhase, count_eq_zero_iff]

/-- One thread goes from phase `a` to phase `b`. -/
def Shift (a b : QueuePhase) (n n' : QueuePhase → Nat) : Prop :=
  ∀ k, n' k + (decide (a = k)).toNat = n k + (decide (b = k)).toNat

theorem shift_update
    [DecidableEq τ]
    {pc : τ → QueuePc α}
    {t : τ}
    {a : QueuePc α}
    (hpc : pc t = a)
    (b : QueuePc α) :
    Shift a.phase b.phase (inPhase pc) (inPhase (Function.update pc t b)) := by
  intro k
  subst hpc
  exact count_update (fun a => decide (a.phase = k)) pc t b

/-- The phases that the invariant counts. -/
theorem Shift.counts
    {a b : QueuePhase}
    {n n' : QueuePhase → Nat}
    (h : Shift a b n n') :
    n' .pushReady + (decide (a = .pushReady)).toNat =
      n .pushReady + (decide (b = .pushReady)).toNat ∧
    n' .pushWait + (decide (a = .pushWait)).toNat =
      n .pushWait + (decide (b = .pushWait)).toNat ∧
    n' .pushNotify + (decide (a = .pushNotify)).toNat =
      n .pushNotify + (decide (b = .pushNotify)).toNat ∧
    n' .popReady + (decide (a = .popReady)).toNat =
      n .popReady + (decide (b = .popReady)).toNat ∧
    n' .popWait + (decide (a = .popWait)).toNat =
      n .popWait + (decide (b = .popWait)).toNat ∧
    n' .popNotify + (decide (a = .popNotify)).toNat =
      n .popNotify + (decide (b = .popNotify)).toNat ∧
    n' .closeNotifyEmpty + (decide (a = .closeNotifyEmpty)).toNat =
      n .closeNotifyEmpty + (decide (b = .closeNotifyEmpty)).toNat ∧
    n' .closeNotifyFull + (decide (a = .closeNotifyFull)).toNat =
      n .closeNotifyFull + (decide (b = .closeNotifyFull)).toNat :=
  ⟨h _, h _, h _, h _, h _, h _, h _, h _⟩

end Phases

section Invariant

variable {α : Type u}

/-- Every waiting thread that could go on is matched by one that will notify or check. -/
structure WakeInv (q : BoundedQueue α) (n : QueuePhase → Nat) : Prop where
  items : q.closed = false → 0 < n .popWait → q.queue.length ≤ n .pushNotify + n .popReady
  places : q.closed = false → 0 < n .pushWait →
    q.capacity ≤ q.queue.length + n .popNotify + n .pushReady
  closedPop : q.closed = true → 0 < n .popWait → 0 < n .closeNotifyEmpty
  closedPush : q.closed = true → 0 < n .pushWait → 0 < n .closeNotifyEmpty + n .closeNotifyFull

namespace WakeInv

variable {q : BoundedQueue α} {n n' : QueuePhase → Nat} {a b : QueuePhase}

/-- On the same queue, no kind of waiter is added and none of its matches is lost. -/
theorem mono
    (h : WakeInv q n)
    (hpop : n' .popWait = 0 ∨ n' .popWait ≤ n .popWait ∧
      n .pushNotify + n .popReady ≤ n' .pushNotify + n' .popReady ∧
      n .closeNotifyEmpty ≤ n' .closeNotifyEmpty)
    (hpush : n' .pushWait = 0 ∨ n' .pushWait ≤ n .pushWait ∧
      n .popNotify + n .pushReady ≤ n' .popNotify + n' .pushReady ∧
      n .closeNotifyEmpty + n .closeNotifyFull ≤ n' .closeNotifyEmpty + n' .closeNotifyFull) :
    WakeInv q n' := by
  constructor
  · intro hopen hpos
    have hitems := h.items hopen
    omega
  · intro hopen hpos
    have hplaces := h.places hopen
    omega
  · intro hclosed hpos
    have hmatched := h.closedPop hclosed
    omega
  · intro hclosed hpos
    have hmatched := h.closedPush hclosed
    omega

/-- A thread that leaves no phase that matches and enters no phase that waits. -/
theorem shift_of_neutral
    (h : WakeInv q n)
    (hshift : Shift a b n n')
    (ha : a = .idle ∨ a = .closeReady ∨ a = .pushWait ∨ a = .popWait)
    (hb : b ≠ .pushWait ∧ b ≠ .popWait) :
    WakeInv q n' := by
  obtain ⟨h1, h2, h3, h4, h5, h6, h7, h8⟩ := hshift.counts
  have hwait : n' .pushWait ≤ n .pushWait ∧ n' .popWait ≤ n .popWait := by
    simp [hb] at h2 h5
    omega
  have hmatch : n .pushReady ≤ n' .pushReady ∧ n .pushNotify ≤ n' .pushNotify ∧
      n .popReady ≤ n' .popReady ∧ n .popNotify ≤ n' .popNotify ∧
      n .closeNotifyEmpty ≤ n' .closeNotifyEmpty ∧ n .closeNotifyFull ≤ n' .closeNotifyFull := by
    rcases ha with rfl | rfl | rfl | rfl <;> simp at h1 h3 h4 h6 h7 h8 <;> omega
  obtain ⟨hpushReady, hpushNotify, hpopReady, hpopNotify, hempty, hfull⟩ := hmatch
  exact h.mono (Or.inr ⟨hwait.2, Nat.add_le_add hpushNotify hpopReady, hempty⟩)
    (Or.inr ⟨hwait.1, Nat.add_le_add hpopNotify hpushReady, Nat.add_le_add hempty hfull⟩)

theorem pushWaits
    (h : WakeInv q n)
    (hshift : Shift .pushReady .pushWait n n')
    (hopen : q.closed = false)
    (hfull : q.capacity ≤ q.queue.length) :
    WakeInv q n' := by
  have hcounts := hshift.counts
  simp at hcounts
  refine ⟨?_, ?_, ?_, ?_⟩
  · intro _ hpos
    have := h.items hopen
    omega
  · intro _ _
    omega
  · simp [hopen]
  · simp [hopen]

theorem popWaits
    (h : WakeInv q n)
    (hshift : Shift .popReady .popWait n n')
    (hopen : q.closed = false)
    (hempty : q.queue = []) :
    WakeInv q n' := by
  have hcounts := hshift.counts
  simp at hcounts
  refine ⟨?_, ?_, ?_, ?_⟩
  · intro _ _
    simp [hempty]
  · intro _ hpos
    have := h.places hopen
    omega
  · simp [hopen]
  · simp [hopen]

/-- On a closed queue the phases that check or notify one thread match nothing. -/
theorem shift_of_closed
    (h : WakeInv q n)
    (hshift : Shift a .idle n n')
    (ha : a = .pushReady ∨ a = .popReady)
    (hclosed : q.closed = true) :
    WakeInv q n' := by
  have hcounts := hshift.counts
  refine ⟨by simp [hclosed], by simp [hclosed], ?_, ?_⟩
  · intro _ hpos
    have := h.closedPop hclosed
    rcases ha with rfl | rfl <;> simp at hcounts <;> omega
  · intro _ hpos
    have := h.closedPush hclosed
    rcases ha with rfl | rfl <;> simp at hcounts <;> omega

theorem pushInserts
    (h : WakeInv q n)
    (hshift : Shift .pushReady .pushNotify n n')
    (hopen : q.closed = false)
    (item : α) :
    WakeInv (q.insert item) n' := by
  have hcounts := hshift.counts
  simp at hcounts
  refine ⟨?_, ?_, ?_, ?_⟩
  · intro _ hpos
    have := h.items hopen
    simp [BoundedQueue.insert]
    omega
  · intro _ hpos
    have := h.places hopen
    simp [BoundedQueue.insert]
    omega
  · simp [BoundedQueue.insert, hopen]
  · simp [BoundedQueue.insert, hopen]

theorem popRemoves
    (h : WakeInv q n)
    (hshift : Shift .popReady .popNotify n n')
    {item : α}
    {rest : List α}
    (hqueue : q.queue = item :: rest) :
    WakeInv { q with queue := rest } n' := by
  have hcounts := hshift.counts
  have hitems := h.items
  have hplaces := h.places
  rw [hqueue, List.length_cons] at hitems hplaces
  simp at hcounts
  refine ⟨?_, ?_, ?_, ?_⟩
  · intro hopen hpos
    have := hitems hopen
    dsimp only
    omega
  · intro hopen hpos
    have := hplaces hopen
    dsimp only at hopen ⊢
    omega
  · intro hclosed hpos
    have := h.closedPop hclosed
    omega
  · intro hclosed hpos
    have := h.closedPush hclosed
    omega

/-- A `push` returns; if a thread waits in `pop`, one goes on to check. -/
theorem pushNotifies
    (h : WakeInv q n)
    {m : QueuePhase → Nat}
    (hshift : Shift .pushNotify .idle n m)
    (hwake : Shift .popWait .popReady m n' ∨ m .popWait = 0 ∧ n' = m) :
    WakeInv q n' := by
  have hcounts := hshift.counts
  simp at hcounts
  rcases hwake with hwake | ⟨hnone, rfl⟩
  · -- the woken thread takes the place of the one that returns
    have hcounts' := hwake.counts
    simp at hcounts'
    exact h.mono (by omega) (by omega)
  · exact h.mono (Or.inl hnone) (by omega)

/-- A `pop` returns; if a thread waits in `push`, one goes on to check. -/
theorem popNotifies
    (h : WakeInv q n)
    {m : QueuePhase → Nat}
    (hshift : Shift .popNotify .idle n m)
    (hwake : Shift .pushWait .pushReady m n' ∨ m .pushWait = 0 ∧ n' = m) :
    WakeInv q n' := by
  have hcounts := hshift.counts
  simp at hcounts
  rcases hwake with hwake | ⟨hnone, rfl⟩
  · have hcounts' := hwake.counts
    simp at hcounts'
    exact h.mono (by omega) (by omega)
  · exact h.mono (by omega) (Or.inl hnone)

theorem closes
    (hshift : Shift .closeReady .closeNotifyEmpty n n') :
    WakeInv q.close n' := by
  have hcounts := hshift.counts
  simp at hcounts
  refine ⟨by simp [BoundedQueue.close], by simp [BoundedQueue.close], ?_, ?_⟩
  · intro _ _
    omega
  · intro _ _
    omega

/-- After `not_empty_.notify_all()` no thread waits in `pop`. -/
theorem closeNotifiesEmpty
    (h : WakeInv q n)
    {m : QueuePhase → Nat}
    (hshift : Shift .closeNotifyEmpty .closeNotifyFull n m)
    (hnone : n' .popWait = 0)
    (hrest : ∀ k, k ≠ .popWait → k ≠ .popReady → n' k = m k) :
    WakeInv q n' := by
  have hcounts := hshift.counts
  simp at hcounts
  have hwait := hrest .pushWait (by simp) (by simp)
  have hready := hrest .pushReady (by simp) (by simp)
  have hnotify := hrest .popNotify (by simp) (by simp)
  have hclose := hrest .closeNotifyFull (by simp) (by simp)
  have hempty := hrest .closeNotifyEmpty (by simp) (by simp)
  exact h.mono (Or.inl hnone) (by omega)

/-- After `not_full_.notify_all()` no thread waits in `push`. -/
theorem closeNotifiesFull
    (h : WakeInv q n)
    {m : QueuePhase → Nat}
    (hshift : Shift .closeNotifyFull .idle n m)
    (hnone : n' .pushWait = 0)
    (hrest : ∀ k, k ≠ .pushWait → k ≠ .pushReady → n' k = m k) :
    WakeInv q n' := by
  have hcounts := hshift.counts
  simp at hcounts
  have hwait := hrest .popWait (by simp) (by simp)
  have hready := hrest .popReady (by simp) (by simp)
  have hnotify := hrest .pushNotify (by simp) (by simp)
  have hclose := hrest .closeNotifyEmpty (by simp) (by simp)
  exact h.mono (by omega) (Or.inl hnone)

end WakeInv

end Invariant

section Steps

variable {τ : Type v} {α : Type u} [Fintype τ] [DecidableEq τ]

theorem shift_of_notifyOne
    {wake : QueuePc α → Option (QueuePc α)}
    {a b : QueuePhase}
    (hwake : WakesFrom wake a b)
    {pc pc' : τ → QueuePc α}
    (h : NotifyOne wake pc pc') :
    Shift a b (inPhase pc) (inPhase pc') ∨ inPhase pc a = 0 ∧ inPhase pc' = inPhase pc := by
  cases h with
  | woken hwaits =>
      obtain ⟨ha, hb⟩ := hwake.phases hwaits
      subst ha hb
      exact Or.inl (shift_update rfl _)
  | nobody hnone =>
      refine Or.inr ⟨(inPhase_eq_zero_iff _ _).2 ?_, rfl⟩
      intro t
      rcases hwake (pc t) with ⟨hphase, _⟩ | ⟨_, pc', hsome, _⟩
      · exact hphase
      · simp [hnone t] at hsome

omit [DecidableEq τ] in
theorem inPhase_notifyAll
    {wake : QueuePc α → Option (QueuePc α)}
    {a b : QueuePhase}
    (hwake : WakesFrom wake a b)
    (hab : b ≠ a)
    (pc : τ → QueuePc α) :
    inPhase (notifyAll wake pc) a = 0 ∧
      ∀ k, k ≠ a → k ≠ b → inPhase (notifyAll wake pc) k = inPhase pc k := by
  have hphase : ∀ t, ((notifyAll wake pc t).phase = (pc t).phase ∧ (pc t).phase ≠ a) ∨
      (notifyAll wake pc t).phase = b ∧ (pc t).phase = a := by
    intro t
    rcases hwake (pc t) with ⟨ha, hnone⟩ | ⟨ha, pc', hsome, hb⟩
    · exact Or.inl ⟨by simp [notifyAll, hnone], ha⟩
    · exact Or.inr ⟨by simp [notifyAll, hsome, hb], ha⟩
  constructor
  · rw [inPhase_eq_zero_iff]
    intro t
    rcases hphase t with ⟨hsame, ha⟩ | ⟨hb, _⟩
    · rwa [hsame]
    · rwa [hb]
  · intro k hka hkb
    refine count_congr (fun t => ?_)
    rcases hphase t with ⟨hsame, _⟩ | ⟨hb, ha⟩
    · rw [hsame]
    · simp [ha, hb, Ne.symm hka, Ne.symm hkb]

theorem WakeInv.move
    {s s' : QueueState τ α}
    {word : List (QueueEvent τ α)}
    (h : WakeInv s.shared (inPhase s.pc))
    (hmove : QueueMove s word s') :
    WakeInv s'.shared (inPhase s'.pc) := by
  cases hmove with
  | pushWaits hpc hsection =>
      obtain ⟨hopen, hfull⟩ := (BoundedQueue.pushSection_eq_wait_iff _ _).1 hsection
      exact h.pushWaits (shift_update hpc _) hopen hfull
  | pushRejected hpc hsection =>
      have hclosed := (BoundedQueue.pushSection_eq_rejected_iff _ _).1 hsection
      exact h.shift_of_closed (shift_update hpc _) (Or.inl rfl) hclosed
  | pushInserts hpc hsection =>
      obtain ⟨hopen, _, rfl⟩ := (BoundedQueue.pushSection_eq_inserted_iff _ _ _).1 hsection
      exact h.pushInserts (shift_update hpc (.pushNotify _)) hopen _
  | pushNotifies hpc hnotify =>
      exact h.pushNotifies (shift_update hpc .idle) (shift_of_notifyOne wakesFrom_wakePop hnotify)
  | popWaits hpc hsection =>
      obtain ⟨hopen, hempty⟩ := (BoundedQueue.popSection_eq_wait_iff _).1 hsection
      exact h.popWaits (shift_update hpc _) hopen hempty
  | popDrained hpc hsection =>
      obtain ⟨hclosed, _⟩ := (BoundedQueue.popSection_eq_drained_iff _).1 hsection
      exact h.shift_of_closed (shift_update hpc _) (Or.inr rfl) hclosed
  | popRemoves hpc hsection =>
      obtain ⟨hqueue, hq⟩ := (BoundedQueue.popSection_eq_removed_iff _ _ _).1 hsection
      rw [hq]
      exact h.popRemoves (shift_update hpc (.popNotify _)) hqueue
  | popNotifies hpc hnotify =>
      exact h.popNotifies (shift_update hpc .idle) (shift_of_notifyOne wakesFrom_wakePush hnotify)
  | closes hpc => exact WakeInv.closes (shift_update hpc _)
  | closeNotifiesEmpty hpc =>
      obtain ⟨hnone, hrest⟩ :=
        inPhase_notifyAll wakesFrom_wakePop (by simp) (Function.update s.pc _ _)
      exact h.closeNotifiesEmpty (shift_update hpc .closeNotifyFull) hnone hrest
  | closeNotifiesFull hpc =>
      obtain ⟨hnone, hrest⟩ :=
        inPhase_notifyAll wakesFrom_wakePush (by simp) (Function.update s.pc _ _)
      exact h.closeNotifiesFull (shift_update hpc .idle) hnone hrest
  | spuriousPop hwake =>
      obtain ⟨ha, hb⟩ := wakesFrom_wakePop.phases hwake
      exact h.shift_of_neutral (shift_update rfl _) (by simp [ha]) (by simp [hb])
  | spuriousPush hwake =>
      obtain ⟨ha, hb⟩ := wakesFrom_wakePush.phases hwake
      exact h.shift_of_neutral (shift_update rfl _) (by simp [ha]) (by simp [hb])

theorem WakeInv.step
    {s s' : QueueState τ α}
    {word : List (QueueEvent τ α)}
    (h : WakeInv s.shared (inPhase s.pc))
    (hstep : QueueStep s word s') :
    WakeInv s'.shared (inPhase s'.pc) := by
  cases hstep with
  | @call t pc hpc hcall =>
      have hphase : pc.phase ≠ .pushWait ∧ pc.phase ≠ .popWait := by
        cases hcall <;> simp [QueuePc.phase]
      exact h.shift_of_neutral (shift_update hpc pc) (Or.inl rfl) hphase
  | move hmove => exact h.move hmove

end Steps

section Stuck

variable {τ : Type v} {α : Type u} [DecidableEq τ] {s s' : QueueState τ α}

/-- A waiting thread checks its predicate again without having been notified. -/
def QueueState.SpuriousWake (s s' : QueueState τ α) : Prop :=
  ∃ t pc, (wakePop (s.pc t) = some pc ∨ wakePush (s.pc t) = some pc) ∧ s' = s.move t pc

/-- No call in progress has a step left other than a spurious wake-up. -/
def QueueState.Stuck (s : QueueState τ α) : Prop :=
  ∀ word s', QueueMove s word s' → s.SpuriousWake s'

/-- The phases of a thread that is in no call, or waits. -/
def QueuePhase.AtRest (k : QueuePhase) : Prop :=
  k = .idle ∨ k = .pushWait ∨ k = .popWait

/-- A thread that is in a call and does not wait can go on. -/
theorem exists_move_of_not_atRest
    {t : τ}
    (h : ¬ (s.pc t).phase.AtRest) :
    ∃ word s', QueueMove s word s' ∧ s'.pc t ≠ s.pc t := by
  cases hpc : s.pc t with
  | idle => simp [hpc, QueuePc.phase, QueuePhase.AtRest] at h
  | pushWait => simp [hpc, QueuePc.phase, QueuePhase.AtRest] at h
  | popWait => simp [hpc, QueuePc.phase, QueuePhase.AtRest] at h
  | pushReady item =>
      cases hsection : s.shared.pushSection item with
      | wait => exact ⟨_, _, .pushWaits hpc hsection, by simp [QueueState.move]⟩
      | rejected => exact ⟨_, _, .pushRejected hpc hsection, by simp [QueueState.move]⟩
      | inserted q => exact ⟨_, _, .pushInserts hpc hsection, by simp⟩
  | popReady =>
      cases hsection : s.shared.popSection with
      | wait => exact ⟨_, _, .popWaits hpc hsection, by simp [QueueState.move]⟩
      | drained => exact ⟨_, _, .popDrained hpc hsection, by simp [QueueState.move]⟩
      | removed item q => exact ⟨_, _, .popRemoves hpc hsection, by simp⟩
  | pushNotify item =>
      obtain ⟨pc, hnotify⟩ := NotifyOne.exists wakePop (Function.update s.pc t .idle)
      refine ⟨_, _, .pushNotifies hpc hnotify, ?_⟩
      intro heq
      have hpending := hnotify.apply_eq (f := QueuePc.pendingReturn) (apply_wakePop rfl) t
      rw [show pc t = .pushNotify item from heq, Function.update_self] at hpending
      cases hpending
  | popNotify item =>
      obtain ⟨pc, hnotify⟩ := NotifyOne.exists wakePush (Function.update s.pc t .idle)
      refine ⟨_, _, .popNotifies hpc hnotify, ?_⟩
      intro heq
      have hpending := hnotify.apply_eq (f := QueuePc.pendingReturn)
        (apply_wakePush fun _ => rfl) t
      rw [show pc t = .popNotify item from heq, Function.update_self] at hpending
      cases hpending
  | closeReady => exact ⟨_, _, .closes hpc, by simp⟩
  | closeNotifyEmpty => exact ⟨_, _, .closeNotifiesEmpty hpc, by simp [notifyAll, wakePop]⟩
  | closeNotifyFull => exact ⟨_, _, .closeNotifiesFull hpc, by simp [notifyAll, wakePush]⟩

theorem atRest_of_stuck
    (h : s.Stuck)
    (t : τ) :
    (s.pc t).phase.AtRest := by
  by_contra hbusy
  obtain ⟨word, s', hmove, hmoved⟩ := exists_move_of_not_atRest hbusy
  obtain ⟨u, pc, hwaits, rfl⟩ := h word s' hmove
  have htu : t = u := by
    by_contra htu
    simp [QueueState.move, htu] at hmoved
  subst htu
  rcases hwaits with hwake | hwake
  · exact hbusy (Or.inr (Or.inr (wakesFrom_wakePop.phases hwake).1))
  · exact hbusy (Or.inr (Or.inl (wakesFrom_wakePush.phases hwake).1))

theorem stuck_of_atRest
    (h : ∀ t, (s.pc t).phase.AtRest) :
    s.Stuck := by
  intro word s' hmove
  have hrest : ∀ {t a}, s.pc t = a → a.phase.AtRest := fun hpc => hpc ▸ h _
  cases hmove with
  | spuriousPop hwake => exact ⟨_, _, Or.inl hwake, rfl⟩
  | spuriousPush hwake => exact ⟨_, _, Or.inr hwake, rfl⟩
  | pushWaits hpc => exact absurd (hrest hpc) (by simp [QueuePc.phase, QueuePhase.AtRest])
  | pushRejected hpc => exact absurd (hrest hpc) (by simp [QueuePc.phase, QueuePhase.AtRest])
  | pushInserts hpc => exact absurd (hrest hpc) (by simp [QueuePc.phase, QueuePhase.AtRest])
  | pushNotifies hpc => exact absurd (hrest hpc) (by simp [QueuePc.phase, QueuePhase.AtRest])
  | popWaits hpc => exact absurd (hrest hpc) (by simp [QueuePc.phase, QueuePhase.AtRest])
  | popDrained hpc => exact absurd (hrest hpc) (by simp [QueuePc.phase, QueuePhase.AtRest])
  | popRemoves hpc => exact absurd (hrest hpc) (by simp [QueuePc.phase, QueuePhase.AtRest])
  | popNotifies hpc => exact absurd (hrest hpc) (by simp [QueuePc.phase, QueuePhase.AtRest])
  | closes hpc => exact absurd (hrest hpc) (by simp [QueuePc.phase, QueuePhase.AtRest])
  | closeNotifiesEmpty hpc => exact absurd (hrest hpc) (by simp [QueuePc.phase, QueuePhase.AtRest])
  | closeNotifiesFull hpc => exact absurd (hrest hpc) (by simp [QueuePc.phase, QueuePhase.AtRest])

variable [Fintype τ]

theorem wakeInv_of_run
    {q : BoundedQueue α}
    {trace : List (QueueEvent τ α)}
    (hrun : Run QueueStep (QueueState.start τ q) trace s) :
    WakeInv s.shared (inPhase s.pc) := by
  refine hrun.invariant (fun _ s => WakeInv s.shared (inPhase s.pc)) ?_
    (fun _ _ _ _ h hstep => h.step hstep)
  have hnone : ∀ k, k ≠ .idle → inPhase (QueueState.start τ q).pc k = 0 := by
    intro k hk
    rw [inPhase_eq_zero_iff]
    exact fun t => hk.symm
  have hpop := hnone .popWait (by simp)
  have hpush := hnone .pushWait (by simp)
  exact ⟨by omega, by omega, by omega, by omega⟩

/--
When the calls in progress have only spurious wake-ups left, a thread that still
waits in `pop` faces an open and empty queue, and a thread that still waits in
`push` an open and full one.
-/
theorem no_lost_wakeup
    {capacity : Nat}
    {q₀ : BoundedQueue α}
    (hmake : BoundedQueue.make capacity = .ok q₀)
    {trace : List (QueueEvent τ α)}
    (hrun : Run QueueStep (QueueState.start τ q₀) trace s)
    (hstuck : s.Stuck) :
    (∀ t, s.pc t = .popWait → s.shared.closed = false ∧ s.shared.queue = []) ∧
    ∀ t item, s.pc t = .pushWait item →
      s.shared.closed = false ∧ s.shared.queue.length = capacity := by
  have hfifo := fifoInv_of_run hmake hrun
  have hwake := wakeInv_of_run hrun
  have hnone : ∀ k, ¬ k.AtRest → inPhase s.pc k = 0 := by
    intro k hk
    rw [inPhase_eq_zero_iff]
    intro t ht
    exact hk (ht ▸ atRest_of_stuck hstuck t)
  have hpushNotify := hnone .pushNotify (by simp [QueuePhase.AtRest])
  have hpushReady := hnone .pushReady (by simp [QueuePhase.AtRest])
  have hpopNotify := hnone .popNotify (by simp [QueuePhase.AtRest])
  have hpopReady := hnone .popReady (by simp [QueuePhase.AtRest])
  have hcloseEmpty := hnone .closeNotifyEmpty (by simp [QueuePhase.AtRest])
  have hcloseFull := hnone .closeNotifyFull (by simp [QueuePhase.AtRest])
  constructor
  · intro t ht
    have hwaits : 0 < inPhase s.pc .popWait := (inPhase_pos_iff _ _).2 ⟨t, by rw [ht]; rfl⟩
    have hopen : s.shared.closed = false := by
      rw [Bool.eq_false_iff]
      intro hclosed
      have := hwake.closedPop hclosed hwaits
      omega
    have hitems := hwake.items hopen hwaits
    exact ⟨hopen, List.length_eq_zero_iff.1 (by omega)⟩
  · intro t item ht
    have hwaits : 0 < inPhase s.pc .pushWait := (inPhase_pos_iff _ _).2 ⟨t, by rw [ht]; rfl⟩
    have hopen : s.shared.closed = false := by
      rw [Bool.eq_false_iff]
      intro hclosed
      have := hwake.closedPush hclosed hwaits
      omega
    have hplaces := hwake.places hopen hwaits
    have hcapacity := hfifo.capacity_eq
    have hbounded := hfifo.bounded
    exact ⟨hopen, by omega⟩

/-- One thread has filled the queue and waits in a second `push`; the other is idle. -/
theorem no_lost_wakeup_full :
    ∃ s : QueueState Bool Nat,
      Run QueueStep (QueueState.start Bool { capacity := 1 })
        [.inserted false 5, .pushReturned false 5 true] s ∧
      s.pc false = .pushWait 6 ∧ s.shared.closed = false ∧ s.shared.queue.length = 1 := by
  have hstart : Run QueueStep (QueueState.start Bool (α := Nat) { capacity := 1 }) [] _ := .refl
  have hpush := (hstart.tail (.call (t := false) rfl (.push 5))).tail
    (.move (.pushInserts (t := false) rfl rfl))
  have hreturn := hpush.tail (.move (.pushNotifies (t := false) rfl (.nobody (by decide))))
  have hrun := (hreturn.tail (.call (t := false) rfl (.push 6))).tail
    (.move (.pushWaits (t := false) rfl rfl))
  refine ⟨_, hrun, rfl, ?_⟩
  have hmake : BoundedQueue.make 1 = .ok ({ capacity := 1 } : BoundedQueue Nat) := rfl
  refine (no_lost_wakeup hmake hrun (stuck_of_atRest ?_)).2 false 6 rfl
  intro t
  cases t with
  | false => exact Or.inr (Or.inl rfl)
  | true => exact Or.inl rfl

end Stuck

end HttpServer
