import HttpServer.Process

/-!
# What holds of the process at every moment

The handler of a signal writes to the number that it finds in a global variable.  The
number is that of the shutdown pipe, which the destructor of the server closes.  When
an exception has brought the destructor about, the variable still has the number; but
then no thread is left that could open something else under it.

* `ProcessState.Sound`: the invariant, with `Sound.extend`, `Sound.setThread`,
  `Sound.opens`, `Sound.close` and `Sound.write` for the ways to keep it;
* `ProcessState.own`: the descriptors of the main thread;
* `marksOf`: what has gone wrong and what has been reported;
* `Sound.interrupt`, `Sound.own_interrupt`, `Interrupt.control`: no signal and no
  other thread breaks the invariant, touches these descriptors or makes such a mark.
-/

namespace HttpServer

open FdWorld

section Soundness

namespace ProcessEvent

/-- Notifications go to the pipe, or nowhere once it is closed; no descriptor is closed
twice, and no thread is destroyed before it has been joined. -/
def Fine (log : List ProcessEvent) : ProcessEvent → Prop
  | .notified serial => ∃ readEnd, .piped readEnd serial ∈ log
  | .missed _ => ∃ readEnd writeEnd, .piped readEnd writeEnd ∈ log ∧ .closed writeEnd ∈ log
  | .badClose _ => False
  | .terminated => False
  | _ => True

theorem Fine.mono
    {log log' : List ProcessEvent}
    {e : ProcessEvent}
    (h : e.Fine log)
    (hsub : log ⊆ log') :
    e.Fine log' := by
  cases e with
  | notified serial =>
      obtain ⟨readEnd, hpiped⟩ := h
      exact ⟨readEnd, hsub hpiped⟩
  | missed number =>
      obtain ⟨readEnd, writeEnd, hpiped, hclosed⟩ := h
      exact ⟨readEnd, writeEnd, hsub hpiped, hsub hclosed⟩
  | _ => exact h

/-- The events that have to do with a report: something goes wrong, or is reported. -/
def isMark : ProcessEvent → Bool
  | .failed _ _ => true
  | .threw _ => true
  | .refusedAddress _ => true
  | .unhandled _ => true
  | .reported _ => true
  | _ => false

end ProcessEvent

/-- What has gone wrong and what has been reported, in the order in which it happened. -/
def marksOf (log : List ProcessEvent) : List ProcessEvent :=
  log.filter ProcessEvent.isMark

/-- A record goes on, and nothing goes wrong. -/
def Quietly (log log' : List ProcessEvent) : Prop :=
  ∃ events, (∀ e ∈ events, e.isMark = false) ∧ log' = log ++ events

theorem Quietly.refl
    (log : List ProcessEvent) :
    Quietly log log :=
  ⟨[], by simp⟩

theorem Quietly.subset
    {log log' : List ProcessEvent}
    (h : Quietly log log') :
    log ⊆ log' := by
  obtain ⟨events, _, rfl⟩ := h
  exact List.subset_append_left _ _

theorem Quietly.marksOf
    {log log' : List ProcessEvent}
    (h : Quietly log log') :
    marksOf log' = marksOf log := by
  obtain ⟨events, hquiet, rfl⟩ := h
  have hnone : events.filter ProcessEvent.isMark = [] :=
    List.filter_eq_nil_iff.2 (fun e he => by simp [hquiet e he])
  rw [HttpServer.marksOf, List.filter_append, hnone, List.append_nil]
  rfl

def Control.AllJoined (c : Control) : Prop :=
  ∀ phase ∈ c.threads, phase = .joined

theorem Control.AllJoined.not_busy
    {c : Control}
    (h : c.AllJoined) :
    ¬ c.Busy := by
  rintro ⟨phase, hmem, hne⟩
  exact hne (h phase hmem)

namespace ProcessState

/-- The descriptors that the main thread has opened and not closed. -/
def own (s : ProcessState) : List (Int × Nat) :=
  s.os.table.filter (fun e => e.2 ∉ s.elsewhere)

/-- What is written to a number gets into the pipe. -/
def NotifiesPipe (s : ProcessState) (fd : Int) : Prop :=
  ∃ readEnd writeEnd, .piped readEnd writeEnd ∈ s.log ∧ s.os.lookup fd = some writeEnd

def PipeClosed (s : ProcessState) : Prop :=
  ∃ readEnd writeEnd, .piped readEnd writeEnd ∈ s.log ∧ .closed writeEnd ∈ s.log

/--
The global variable has the number of the pipe, even when the pipe has been closed;
then no thread is left that could get the number for something else.
-/
structure Sound (s : ProcessState) : Prop where
  table : TableInv s.os
  nodup : s.os.table.Nodup
  elsewhere : ∀ serial ∈ s.elsewhere, serial < s.os.next
  piped : ∀ readEnd writeEnd, .piped readEnd writeEnd ∈ s.log →
    writeEnd < s.os.next ∧ writeEnd ∉ s.elsewhere
  log : ∀ e ∈ s.log, e.Fine s.log
  target : 0 ≤ s.control.shutdownNotificationFd →
    s.NotifiesPipe s.control.shutdownNotificationFd ∨
      (s.os.lookup s.control.shutdownNotificationFd = none ∧ s.control.AllJoined ∧
        s.PipeClosed)
  handling : ∀ fd, .handling fd ∈ s.control.threads → s.NotifiesPipe fd

variable {s s' : ProcessState}

section Updates

/-- Fine events, and pipes of the main thread. -/
theorem Sound.extend
    (h : s.Sound)
    {events : List ProcessEvent}
    (hfine : ∀ e ∈ events, e.Fine (s.log ++ events))
    (hpiped : ∀ readEnd writeEnd, .piped readEnd writeEnd ∈ events →
      writeEnd < s.os.next ∧ writeEnd ∉ s.elsewhere)
    (errno : ErrorNumber) :
    Sound { s with log := s.log ++ events, errno := errno } := by
  have hsub : s.log ⊆ s.log ++ events := List.subset_append_left _ _
  have hkeep : ∀ fd, s.NotifiesPipe fd →
      NotifiesPipe { s with log := s.log ++ events, errno := errno } fd := by
    rintro fd ⟨readEnd, writeEnd, hpipe, hopen⟩
    exact ⟨readEnd, writeEnd, hsub hpipe, hopen⟩
  refine ⟨h.table, h.nodup, h.elsewhere, ?_, ?_, ?_, fun fd hfd => hkeep fd (h.handling fd hfd)⟩
  · intro readEnd writeEnd hmem
    rcases List.mem_append.1 hmem with hold | hnew
    · exact h.piped readEnd writeEnd hold
    · exact hpiped readEnd writeEnd hnew
  · intro e he
    rcases List.mem_append.1 he with hold | hnew
    · exact (h.log e hold).mono hsub
    · exact hfine e hnew
  · intro hfd
    rcases h.target hfd with hopen | ⟨hnone, hjoined, readEnd, writeEnd, hpipe, hclosed⟩
    · exact Or.inl (hkeep _ hopen)
    · exact Or.inr ⟨hnone, hjoined, readEnd, writeEnd, hsub hpipe, hsub hclosed⟩

theorem Sound.setControl
    (h : s.Sound)
    {c : Control}
    (htarget : 0 ≤ c.shutdownNotificationFd →
      s.NotifiesPipe c.shutdownNotificationFd ∨
        (s.os.lookup c.shutdownNotificationFd = none ∧ c.AllJoined ∧ s.PipeClosed))
    (hhandling : ∀ fd, .handling fd ∈ c.threads → s.NotifiesPipe fd) :
    Sound (s.setControl c) :=
  ⟨h.table, h.nodup, h.elsewhere, h.piped, h.log, htarget, hhandling⟩

theorem Sound.setThread
    (h : s.Sound)
    (i : Nat)
    (phase : ThreadPhase)
    (hphase : ∀ fd, phase = .handling fd → s.NotifiesPipe fd)
    (hjoined : s.control.AllJoined → phase = .joined) :
    Sound (s.setControl (s.control.setThread i phase)) := by
  refine h.setControl ?_ ?_
  · intro hfd
    rcases h.target hfd with hopen | ⟨hnone, hall, hclosed⟩
    · exact Or.inl hopen
    · refine Or.inr ⟨hnone, ?_, hclosed⟩
      intro other hother
      rcases List.mem_or_eq_of_mem_set hother with hold | rfl
      · exact hall other hold
      · exact hjoined hall
  · intro fd hfd
    rcases List.mem_or_eq_of_mem_set hfd with hold | hnew
    · exact h.handling fd hold
    · exact hphase fd hnew.symm

/-- A descriptor is opened, here or elsewhere, under a number that is free. -/
theorem Sound.opens
    (h : s.Sound)
    {number : Int}
    (hfree : s.os.lookup number = none)
    {elsewhere : List Nat}
    (helsewhere : ∀ serial ∈ elsewhere, serial ∈ s.elsewhere ∨ serial = s.os.next)
    (hbusy : 0 ≤ s.control.shutdownNotificationFd →
      s.NotifiesPipe s.control.shutdownNotificationFd) :
    Sound { s with os := s.os.accept number, elsewhere := elsewhere } := by
  have hkeep : ∀ fd, s.NotifiesPipe fd →
      NotifiesPipe { s with os := s.os.accept number, elsewhere := elsewhere } fd := by
    rintro fd ⟨readEnd, writeEnd, hpipe, hopen⟩
    refine ⟨readEnd, writeEnd, hpipe, ?_⟩
    rw [Descriptors.lookup_accept, if_neg, hopen]
    rintro rfl
    rw [hfree] at hopen
    cases hopen
  have hfresh : (number, s.os.next) ∉ s.os.table := fun hin => lt_irrefl _ (h.table.fresh _ hin)
  refine ⟨h.table.accept hfree, List.nodup_cons.2 ⟨hfresh, h.nodup⟩, ?_, ?_, h.log,
    fun hfd => Or.inl (hkeep _ (hbusy hfd)), fun fd hfd => hkeep fd (h.handling fd hfd)⟩
  · intro serial hserial
    rcases helsewhere serial hserial with hold | rfl
    · exact Nat.lt_succ_of_lt (h.elsewhere serial hold)
    · exact Nat.lt_succ_self _
  · intro readEnd writeEnd hmem
    obtain ⟨hlt, hnot⟩ := h.piped readEnd writeEnd hmem
    refine ⟨Nat.lt_succ_of_lt hlt, ?_⟩
    intro hin
    rcases helsewhere writeEnd hin with hold | rfl
    · exact hnot hold
    · exact lt_irrefl _ hlt

/-- A number that no handler can have is closed, or one that nobody can get again. -/
theorem Sound.close
    (h : s.Sound)
    {number : Int}
    {serial : Nat}
    (hopen : s.os.lookup number = some serial)
    (hwatched : s.NotifiesPipe number →
      (s.control.shutdownNotificationFd ≠ number ∧ .handling number ∉ s.control.threads) ∨
        (s.control.AllJoined ∧ .closed serial ∈ s.log)) :
    Sound { s with os := (s.os.close number).1 } := by
  have hkeep : ∀ fd, fd ≠ number → s.NotifiesPipe fd →
      NotifiesPipe { s with os := (s.os.close number).1 } fd := by
    rintro fd hne ⟨readEnd, writeEnd, hpipe, hlookup⟩
    exact ⟨readEnd, writeEnd, hpipe, by rw [Descriptors.lookup_close hopen, if_neg hne, hlookup]⟩
  have hnext : (s.os.close number).1.next = s.os.next := by
    rw [Descriptors.close_of_open hopen]
  have hnodup : (s.os.close number).1.table.Nodup := by
    rw [Descriptors.close_of_open hopen]
    exact h.nodup.filter _
  refine ⟨h.table.close hopen, hnodup, ?_, ?_, h.log, ?_, ?_⟩
  · intro other hother
    exact hnext ▸ h.elsewhere other hother
  · intro readEnd writeEnd hmem
    exact hnext ▸ h.piped readEnd writeEnd hmem
  · intro hfd
    rcases h.target hfd with hpipe | ⟨hnone, hall, hclosed⟩
    · by_cases heq : s.control.shutdownNotificationFd = number
      · rw [heq] at hpipe
        rcases hwatched hpipe with hother | ⟨hall, hclosed⟩
        · exact absurd heq hother.1
        · obtain ⟨readEnd, writeEnd, hpiped, hlookup⟩ := hpipe
          have hserial : writeEnd = serial := Option.some.inj (hlookup.symm.trans hopen)
          refine Or.inr ⟨?_, hall, readEnd, writeEnd, hpiped, hserial ▸ hclosed⟩
          rw [Descriptors.lookup_close hopen, if_pos heq]
      · exact Or.inl (hkeep _ heq hpipe)
    · refine Or.inr ⟨?_, hall, hclosed⟩
      rw [Descriptors.lookup_close hopen]
      split_ifs
      · rfl
      · exact hnone
  · intro fd hfd
    have hpipe := h.handling fd hfd
    refine hkeep fd ?_ hpipe
    rintro rfl
    rcases hwatched hpipe with hother | ⟨hall, _⟩
    · exact hother.2 hfd
    · cases hall _ hfd

/-- A notification for the pipe. -/
theorem Sound.write
    (h : s.Sound)
    {fd : Int}
    (hfd : s.NotifiesPipe fd ∨ (s.os.lookup fd = none ∧ s.PipeClosed))
    (errno errno' : ErrorNumber) :
    Sound { s.write fd errno with errno := errno' } := by
  have hsub : ∀ e, s.log ⊆ s.log ++ [e] := fun e => List.subset_append_left _ _
  unfold ProcessState.write
  rcases hfd with ⟨readEnd, writeEnd, hpipe, hopen⟩ | ⟨hnone, readEnd, writeEnd, hpipe, hclosed⟩
  · rw [hopen]
    refine h.extend ?_ (by simp) errno'
    intro e he
    rw [List.mem_singleton.1 he]
    exact ⟨readEnd, hsub _ hpipe⟩
  · rw [hnone]
    refine h.extend ?_ (by simp) errno'
    intro e he
    rw [List.mem_singleton.1 he]
    exact ⟨readEnd, writeEnd, hsub _ hpipe, hsub _ hclosed⟩

end Updates

section Ownership

theorem Sound.lookup_of_mem
    (h : s.Sound)
    {number : Int}
    {serial : Nat}
    (hmem : (number, serial) ∈ s.os.table) :
    s.os.lookup number = some serial := by
  cases hlookup : s.os.lookup number with
  | none =>
      have hne := List.lookup_eq_none_iff.1 hlookup _ hmem
      simp at hne
  | some other =>
      have heq := h.table.numbers _ (Descriptors.mem_of_lookup hlookup) _ hmem rfl
      rw [Prod.mk.injEq] at heq
      rw [heq.2]

theorem Sound.lookup_of_own
    (h : s.Sound)
    {number : Int}
    {serial : Nat}
    (hmem : (number, serial) ∈ s.own) :
    s.os.lookup number = some serial :=
  h.lookup_of_mem (List.mem_filter.1 hmem).1

theorem Sound.own_opens
    (h : s.Sound)
    (number : Int) :
    (s.opens number).own = (number, s.os.next) :: s.own := by
  have hnew : s.os.next ∉ s.elsewhere := fun hin => lt_irrefl _ (h.elsewhere _ hin)
  change ((number, s.os.next) :: s.os.table).filter (fun e => e.2 ∉ s.elsewhere) = _
  rw [List.filter_cons_of_pos (by simpa using hnew)]
  rfl

theorem Sound.own_opensElsewhere
    (h : s.Sound)
    (number : Int) :
    own { s with os := s.os.accept number, elsewhere := s.os.next :: s.elsewhere } = s.own := by
  change ((number, s.os.next) :: s.os.table).filter (fun e => e.2 ∉ s.os.next :: s.elsewhere) = _
  rw [List.filter_cons_of_neg (by simp)]
  refine List.filter_congr ?_
  intro e he
  have hne : e.2 ≠ s.os.next := (h.table.fresh e he).ne
  simp [hne]

theorem Sound.own_closesElsewhere
    (h : s.Sound)
    {number : Int}
    {serial : Nat}
    (hopen : s.os.lookup number = some serial)
    (helsewhere : serial ∈ s.elsewhere) :
    own { s with os := (s.os.close number).1 } = s.own := by
  rw [Descriptors.close_of_open hopen]
  change (s.os.table.filter (fun e => e.1 ≠ number)).filter _ = s.own
  rw [List.filter_filter, own]
  refine List.filter_congr ?_
  intro e he
  by_cases hnumber : e.1 = number
  · -- the number stands for one descriptor, which is not ours
    have heq := h.table.numbers e he _ (Descriptors.mem_of_lookup hopen) hnumber
    simp [heq, helsewhere]
  · simp [hnumber]

theorem Sound.own_close
    (h : s.Sound)
    {number : Int}
    {serial : Nat}
    {own : List (Int × Nat)}
    (hown : s.own = (number, serial) :: own) :
    ProcessState.own { s with os := (s.os.close number).1 } = own := by
  have hopen := h.lookup_of_own (hown ▸ List.mem_cons_self)
  have hnodup : ((number, serial) :: own).Nodup := hown ▸ h.nodup.filter _
  rw [Descriptors.close_of_open hopen]
  change (s.os.table.filter (fun e => e.1 ≠ number)).filter _ = own
  rw [List.filter_filter]
  have hcomm : s.os.table.filter (fun e => decide (e.2 ∉ s.elsewhere) && decide (e.1 ≠ number)) =
      s.own.filter (fun e => e.1 ≠ number) := by
    rw [ProcessState.own, List.filter_filter]
    refine List.filter_congr ?_
    intro e _
    rw [Bool.and_comm]
  rw [hcomm, hown, List.filter_cons_of_neg (by simp), List.filter_eq_self]
  intro e he
  have hin : e ∈ s.own := hown ▸ List.mem_cons_of_mem _ he
  have hne : e.1 ≠ number := by
    intro hnumber
    have heq := h.table.numbers e (List.mem_filter.1 hin).1 _
      (Descriptors.mem_of_lookup hopen) hnumber
    exact (List.nodup_cons.1 hnodup).1 (heq ▸ he)
  simpa using hne

end Ownership

section Interruptions

@[simp] theorem control_write
    (s : ProcessState)
    (fd : Int)
    (errno : ErrorNumber) :
    (s.write fd errno).control = s.control := by
  unfold write
  split <;> rfl

@[simp] theorem own_write
    (s : ProcessState)
    (fd : Int)
    (errno : ErrorNumber) :
    (s.write fd errno).own = s.own := by
  unfold write
  split <;> rfl

theorem quietly_write
    (s : ProcessState)
    (fd : Int)
    (errno : ErrorNumber) :
    Quietly s.log (s.write fd errno).log := by
  unfold write
  split
  · exact ⟨_, by simp [ProcessEvent.isMark], rfl⟩
  · exact ⟨_, by simp [ProcessEvent.isMark], rfl⟩

/-- What becomes of the control when a signal is handled on a worker, or a worker ends. -/
inductive ControlStep : Control → Control → Prop
  | workerHandles {c : Control} {i : Nat} (signal : ShutdownSignal)
      (hhandled : c.handled signal = true)
      (hrunning : c.threads[i]? = some .running) :
      ControlStep c (c.setThread i (.handling c.shutdownNotificationFd))
  | workerReturns {c : Control} {i : Nat} {fd : Int}
      (hhandling : c.threads[i]? = some (.handling fd)) :
      ControlStep c (c.setThread i .running)
  | workerEnds {c : Control} {i : Nat}
      (hclosed : c.queueClosed = true)
      (hrunning : c.threads[i]? = some .running) :
      ControlStep c (c.setThread i .ended)

theorem not_allJoined_of_getElem
    {c : Control}
    {i : Nat}
    {phase : ThreadPhase}
    (h : c.threads[i]? = some phase)
    (hne : phase ≠ .joined) :
    ¬ c.AllJoined :=
  fun hall => hne (hall phase (List.mem_of_getElem? h))

theorem Sound.interrupt
    (h : s.Sound)
    (hstep : Interrupt s s') :
    s'.Sound := by
  cases hstep with
  | handled signal errno hhandled =>
      unfold handleShutdownSignal
      by_cases hfd : 0 ≤ s.control.shutdownNotificationFd
      · simp only [hfd, if_true]
        refine h.write ?_ errno s.errno
        rcases h.target hfd with hpipe | ⟨hnone, _, hclosed⟩
        · exact Or.inl hpipe
        · exact Or.inr ⟨hnone, hclosed⟩
      · simp only [hfd, if_false]
        exact h
  | workerHandles signal hhandled hrunning hfd =>
      have halive := not_allJoined_of_getElem hrunning (by simp)
      refine h.setThread _ _ ?_ (fun hall => absurd hall halive)
      rintro fd ⟨⟩
      rcases h.target hfd with hpipe | ⟨_, hall, _⟩
      · exact hpipe
      · exact absurd hall halive
  | @workerWrites i fd errno hhandling =>
      have halive := not_allJoined_of_getElem hhandling (by simp)
      have hpipe := h.handling _ (List.mem_of_getElem? hhandling)
      have hwritten := h.write (Or.inl hpipe) errno s.errno
      have hset := hwritten.setThread i .running (by simp)
        (fun hall => absurd hall (by simpa using halive))
      simpa [ProcessState.workerWrites, ProcessState.setControl] using hset
  | workerEnds hclosed hrunning =>
      have halive := not_allJoined_of_getElem hrunning (by simp)
      exact h.setThread _ _ (by simp) (fun hall => absurd hall halive)
  | opensElsewhere hbusy hnumber hfree =>
      refine h.opens hfree ?_ ?_
      · intro serial hserial
        exact (List.mem_cons.1 hserial).symm
      · intro hfd
        rcases h.target hfd with hpipe | ⟨_, hall, _⟩
        · exact hpipe
        · exact absurd hbusy hall.not_busy
  | closesElsewhere hopen helsewhere =>
      refine h.close hopen ?_
      rintro ⟨readEnd, writeEnd, hpiped, hlookup⟩
      have hserial := Option.some.inj (hlookup.symm.trans hopen)
      exact absurd (hserial ▸ helsewhere) (h.piped readEnd writeEnd hpiped).2

theorem Sound.own_interrupt
    (h : s.Sound)
    (hstep : Interrupt s s') :
    s'.own = s.own := by
  cases hstep with
  | handled signal errno hhandled =>
      unfold handleShutdownSignal
      dsimp only
      split_ifs
      · exact s.own_write _ errno
      · rfl
  | workerHandles signal hhandled hrunning hfd => rfl
  | workerWrites errno hhandling => exact s.own_write _ errno
  | workerEnds hclosed hrunning => rfl
  | opensElsewhere hbusy hnumber hfree => exact h.own_opensElsewhere _
  | closesElsewhere hopen helsewhere => exact h.own_closesElsewhere hopen helsewhere

theorem Interrupt.control
    (hstep : Interrupt s s') :
    s'.control = s.control ∨ ControlStep s.control s'.control := by
  cases hstep with
  | handled signal errno hhandled =>
      refine Or.inl ?_
      unfold handleShutdownSignal
      dsimp only
      split_ifs
      · exact s.control_write _ errno
      · rfl
  | workerHandles signal hhandled hrunning hfd =>
      exact Or.inr (.workerHandles signal hhandled hrunning)
  | workerWrites errno hhandling => exact Or.inr (.workerReturns hhandling)
  | workerEnds hclosed hrunning => exact Or.inr (.workerEnds hclosed hrunning)
  | opensElsewhere hbusy hnumber hfree => exact Or.inl rfl
  | closesElsewhere hopen helsewhere => exact Or.inl rfl

/-- The handler restores `errno`, and nothing is erased from the record. -/
theorem Interrupt.errno_and_log
    (hstep : Interrupt s s') :
    s'.errno = s.errno ∧ Quietly s.log s'.log := by
  cases hstep with
  | handled signal errno hhandled =>
      refine ⟨rfl, ?_⟩
      unfold handleShutdownSignal
      dsimp only
      split_ifs
      · exact s.quietly_write _ errno
      · exact .refl _
  | workerHandles signal hhandled hrunning hfd => exact ⟨rfl, .refl _⟩
  | workerWrites errno hhandling => exact ⟨rfl, s.quietly_write _ errno⟩
  | workerEnds hclosed hrunning => exact ⟨rfl, .refl _⟩
  | opensElsewhere hbusy hnumber hfree => exact ⟨rfl, .refl _⟩
  | closesElsewhere hopen helsewhere => exact ⟨rfl, .refl _⟩

end Interruptions

end ProcessState

end Soundness

end HttpServer
