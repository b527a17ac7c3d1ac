import HttpServer.ProcessRules

/-!
# The constructors and destructors of the server

What each function of the start leaves behind, on every way out: a function that
returns an object has opened what the object owns, and one that throws has closed what
it had opened and joined the threads that it had started.

* `meets_bindIpv4`, `meets_makeShutdownPipe`: functions that open descriptors;
* `WorkerPool.meets_construct`, `WorkerPool.meets_shutdown`: the threads, which come
  to their end once the queue has been closed (`WorkerPool.exists_ended`);
* `ServerMembers.meets_construct`, `ServerMembers.meets_destruct`: both together.
-/

namespace HttpServer

open Unwinding Relation ProcessState

section Listener

variable {facts : Recorded} {own : List (Int × Nat)} {R : Control → Prop}
variable {s : ProcessState} {strerror : ErrorNumber → Bytes}

theorem meets_makeIpv4Address
    (address : Bytes)
    (hR : Steady R)
    (hs : At facts own R s) :
    Meets (fun _ => At facts own R) (Blamed strerror facts own R)
      (makeIpv4Address address) s := by
  let Q : Bool → ProcessState → Prop := fun valid =>
    if valid then At facts own R else At (facts.mark (.refusedAddress address)) own R
  have hQ : ∀ valid, Lasting (Q valid) := by
    intro valid
    cases valid with
    | true => exact lasting_at hR
    | false => exact lasting_at hR
  refine wp_seq (meets_sysCall (k := .inetPton address) (lasting_at hR) hQ
    (fun s _ => ⟨true, s, rfl⟩) ?_ hs) ?_
  · rintro s valid _ hat rfl
    cases valid with
    | true => exact hat
    | false => exact hat.marked rfl s.errno
  · intro valid s hs
    cases valid with
    | true => exact meets_pure (lasting_at hR) hs
    | false => exact meets_throw (lasting_blamed hR _) ⟨_, hs, rfl⟩

theorem meets_boundPort
    (fd : Int)
    (hR : Steady R)
    (hs : At facts own R s) :
    Meets (fun _ => At facts own R) (Blamed strerror facts own R)
      (boundPort strerror fd) s := by
  refine wp_seq (meets_mayFail (k := .getsockname fd) Option.isSome
    (fun _ _ _ h => mayFail_cases h) (fun s => ⟨some 0, s, rfl⟩) hR hs) ?_
  intro name s hs
  cases name with
  | some port => exact meets_pure (lasting_at hR) hs
  | none => exact meets_syscallError hR hs

theorem meets_listenOn
    (listener : Fd)
    (port : Nat)
    (backlog : Int)
    (address : Bytes)
    (hR : Steady R)
    (hs : Called facts own R (ascii "socket") listener.valid s) :
    Meets (fun l s => At facts own R s ∧ l.fd = listener ∧ listener.valid = true)
      (Blamed strerror facts own R) (listenOn strerror listener port backlog address) s := by
  refine wp_seq (meets_orSyscallError hR hs) ?_
  rintro _ s ⟨hs, hvalid⟩
  refine wp_seq (meets_mayFail (k := .setReuseAddr listener.fd) Option.isSome
    (fun _ _ _ h => mayFail_cases h) (fun s => ⟨some (), s, rfl⟩) hR hs) ?_
  intro reuse s hs
  refine wp_seq (meets_orSyscallError hR hs) ?_
  rintro _ s ⟨hs, _⟩
  refine wp_seq (meets_makeIpv4Address address hR hs) ?_
  intro _ s hs
  refine wp_seq (meets_mayFail (k := .bind listener.fd address port) Option.isSome
    (fun _ _ _ h => mayFail_cases h) (fun s => ⟨some (), s, rfl⟩) hR hs) ?_
  intro bound s hs
  refine wp_seq (meets_orSyscallError hR hs) ?_
  rintro _ s ⟨hs, _⟩
  refine wp_seq (meets_mayFail (k := .listen listener.fd backlog) Option.isSome
    (fun _ _ _ h => mayFail_cases h) (fun s => ⟨some (), s, rfl⟩) hR hs) ?_
  intro listening s hs
  refine wp_seq (meets_orSyscallError hR hs) ?_
  rintro _ s ⟨hs, _⟩
  refine wp_seq (meets_boundPort listener.fd hR hs) ?_
  intro assignedPort s hs
  exact meets_pure ((lasting_at hR).and (stable_const _)) ⟨hs, rfl, hvalid⟩

/-- A listener that is returned owns the one descriptor that has been opened. -/
theorem meets_bindIpv4
    (port : Nat)
    (backlog : Int)
    (address : Bytes)
    (hR : Steady R)
    (hquiet : ∀ c, R c → c.Uninstalled)
    (hs : At facts own R s) :
    Meets (fun l s => (∃ serial, At facts ((l.fd.fd, serial) :: own) R s) ∧ 0 ≤ l.fd.fd)
      (Blamed strerror facts own R) (bindIpv4 strerror port backlog address) s := by
  have hopened : ∀ number : Int, Lasting (fun s =>
      (∃ serial, At facts ((number, serial) :: own) R s) ∧ 0 ≤ number) := fun number =>
    (Lasting.exists fun serial => lasting_at hR).and (stable_const _)
  have hfailed : ∀ number : Int, Lasting (fun s =>
      Called facts own R (ascii "socket") false s ∧ number = -1) := fun number =>
    (lasting_called hR _ false).and (stable_const _)
  refine wp_seq (meets_sysCall (k := .socket) (lasting_at hR)
    (fun number => (hopened number).or (hfailed number)) ?_ ?_ hs) ?_
  · intro s _
    exact ⟨-1, s.fail (ascii "socket") 0, Or.inr ⟨rfl, 0, rfl⟩⟩
  · rintro s number _ hat (⟨hnumber, hfree, rfl⟩ | ⟨rfl, errno, rfl⟩)
    · exact Or.inl ⟨⟨_, hat.opens (hquiet _ hat.control) hfree⟩, hnumber⟩
    · exact Or.inr ⟨hat.fail _ errno, rfl⟩
  · rintro number s (⟨⟨serial, hat⟩, hnumber⟩ | ⟨hcalled, rfl⟩)
    · have hvalid : (Fd.mk number).valid = true := by simpa [Fd.valid] using hnumber
      have hcalled : Called facts ((number, serial) :: own) R (ascii "socket")
          (Fd.mk number).valid s := by
        rw [hvalid]
        exact hat
      refine wp_guarded ((meets_listenOn ⟨number⟩ port backlog address hR hcalled).mono ?_ ?_)
      · rintro l s ⟨hat, hl, _⟩
        refine (meets_destroyFd_of_neg (by simp [Fd.movedFrom]) hR hat).mono ?_
          (fun _ _ h => h)
        intro _ s hat
        refine meets_pure (hopened l.fd.fd) ?_
        rw [hl]
        exact ⟨⟨serial, hat⟩, hnumber⟩
      · intro what s hblamed
        exact meets_unwind (fun facts s hat => meets_destroyFd hnumber
          (fun c hc => Or.inl (hquiet c hc)) hR hat) hR hblamed
    · refine wp_guarded ((meets_listenOn ⟨-1⟩ port backlog address hR hcalled).mono ?_ ?_)
      · rintro l s ⟨_, _, hvalid⟩
        exact absurd hvalid (by decide)
      · intro what s hblamed
        exact meets_unwind (fun facts s hat => meets_destroyFd_of_neg (by decide) hR hat) hR
          hblamed

end Listener

section Pipe

variable {facts : Recorded} {own : List (Int × Nat)} {R : Control → Prop}
variable {s : ProcessState} {strerror : ErrorNumber → Bytes}

theorem meets_setPipeFlags
    (result : Fd × Fd)
    (hR : Steady R)
    (hs : At facts own R s) :
    Meets (fun pipe s => At facts own R s ∧ pipe = result) (Blamed strerror facts own R)
      (setPipeFlags strerror result) s := by
  refine wp_seq (meets_mayFail (k := .setCloexec result.1.fd) Option.isSome
    (fun _ _ _ h => mayFail_cases h) (fun s => ⟨some (), s, rfl⟩) hR hs) ?_
  intro first s hs
  refine wp_seq (meets_orSyscallError hR hs) ?_
  rintro _ s ⟨hs, _⟩
  refine wp_seq (meets_mayFail (k := .setCloexec result.2.fd) Option.isSome
    (fun _ _ _ h => mayFail_cases h) (fun s => ⟨some (), s, rfl⟩) hR hs) ?_
  intro second s hs
  refine wp_seq (meets_orSyscallError hR hs) ?_
  rintro _ s ⟨hs, _⟩
  refine wp_seq (meets_mayFail (k := .getFlags result.2.fd) Option.isSome
    (fun _ _ _ h => mayFail_cases h) (fun s => ⟨some 0, s, rfl⟩) hR hs) ?_
  intro flags s hs
  refine wp_seq (meets_orSyscallError hR hs) ?_
  rintro _ s ⟨hs, _⟩
  refine wp_seq (meets_mayFail (k := .setNonblock result.2.fd (flags.getD 0)) Option.isSome
    (fun _ _ _ h => mayFail_cases h) (fun s => ⟨some (), s, rfl⟩) hR hs) ?_
  intro done s hs
  refine wp_seq (meets_orSyscallError hR hs) ?_
  rintro _ s ⟨hs, _⟩
  exact meets_pure ((lasting_at hR).and (stable_const _)) ⟨hs, rfl⟩

/-- Both ends are closed, the one that was opened last first. -/
theorem meets_destroyPipe
    {E : Bytes → ProcessState → Prop}
    {pipe : Fd × Fd}
    {readEnd writeEnd : Nat}
    (hread : 0 ≤ pipe.1.fd)
    (hwrite : 0 ≤ pipe.2.fd)
    (hcalm : ∀ c, R c → c.Uninstalled ∨ c.AllJoined)
    (hR : Steady R)
    (hs : At facts ((pipe.2.fd, writeEnd) :: (pipe.1.fd, readEnd) :: own) R s) :
    Meets (fun _ => At facts own R) E (destroyPipe pipe) s := by
  refine wp_seq (meets_destroyFd hwrite hcalm hR hs) ?_
  intro _ s hs
  exact meets_destroyFd hread hcalm hR hs

/-- The members of a pipe own its ends, and the pipe has been recorded. -/
def OwnsPipe (pipe : Fd × Fd) (facts : Recorded) (own : List (Int × Nat))
    (R : Control → Prop) (s : ProcessState) : Prop :=
  ∃ readEnd writeEnd, At (facts.learn (.piped readEnd writeEnd))
    ((pipe.2.fd, writeEnd) :: (pipe.1.fd, readEnd) :: own) R s

theorem At.opensPipe
    (h : At facts own R s)
    (hquiet : s.control.Uninstalled)
    {readEnd writeEnd : Int}
    (hne : readEnd ≠ writeEnd)
    (hread : s.os.lookup readEnd = none)
    (hwrite : s.os.lookup writeEnd = none) :
    OwnsPipe (⟨readEnd⟩, ⟨writeEnd⟩) facts own R (s.opensPipe readEnd writeEnd) := by
  have hfirst := h.opens hquiet hread
  have hfree : (s.opens readEnd).os.lookup writeEnd = none := by
    change (s.os.accept readEnd).lookup writeEnd = none
    rw [Descriptors.lookup_accept, if_neg hne.symm, hwrite]
  have hboth := hfirst.opens hquiet hfree
  have hnew : s.os.next + 1 ∉ s.elsewhere := by
    intro hin
    have hlt := h.sound.elsewhere _ hin
    omega
  refine ⟨s.os.next, s.os.next + 1, hboth.quietly trivial rfl ?_⟩
  rintro readSerial writeSerial ⟨rfl, rfl⟩
  exact ⟨Nat.lt_succ_self _, hnew⟩

theorem meets_makeShutdownPipe
    (hR : Steady R)
    (hquiet : ∀ c, R c → c.Uninstalled)
    (hs : At facts own R s) :
    Meets (fun pipe s => OwnsPipe pipe facts own R s ∧ 0 ≤ pipe.1.fd ∧ 0 ≤ pipe.2.fd)
      (Blamed strerror facts own R) (makeShutdownPipe strerror) s := by
  have howns : ∀ pipe, Lasting (OwnsPipe pipe facts own R) := fun pipe =>
    Lasting.exists fun readEnd => Lasting.exists fun writeEnd => lasting_at hR
  let Q : Option (Int × Int) → ProcessState → Prop := fun reply s =>
    match reply with
    | some ends => OwnsPipe (⟨ends.1⟩, ⟨ends.2⟩) facts own R s ∧ 0 ≤ ends.1 ∧ 0 ≤ ends.2
    | none => Called facts own R (ascii "pipe") false s
  have hQ : ∀ reply, Lasting (Q reply) := by
    intro reply
    cases reply with
    | none => exact lasting_called hR _ false
    | some ends => exact (howns _).and (stable_const _)
  refine wp_seq (meets_sysCall (k := .pipe) (lasting_at hR) hQ ?_ ?_ hs) ?_
  · intro s _
    exact ⟨none, s.fail (ascii "pipe") 0, 0, rfl⟩
  · intro s reply s' hat hreply
    cases reply with
    | none =>
        obtain ⟨errno, rfl⟩ := hreply
        exact hat.fail _ errno
    | some ends =>
        obtain ⟨hread, hwrite, hne, hreadFree, hwriteFree, rfl⟩ := hreply
        exact ⟨hat.opensPipe (hquiet _ hat.control) hne hreadFree hwriteFree, hread, hwrite⟩
  · intro reply s hs
    cases reply with
    | none => exact meets_syscallError hR hs
    | some ends =>
        obtain ⟨⟨readEnd, writeEnd, hat⟩, hread, hwrite⟩ := hs
        refine wp_guarded ((meets_setPipeFlags (⟨ends.1⟩, ⟨ends.2⟩) hR hat).mono ?_ ?_)
        · rintro pipe s ⟨hat, rfl⟩
          refine wp_seq (meets_destroyFd_of_neg (by simp [Fd.movedFrom]) hR hat) ?_
          intro _ s hat
          refine (meets_destroyFd_of_neg (by simp [Fd.movedFrom]) hR hat).mono ?_ (fun _ _ h => h)
          intro _ s hat
          exact meets_pure ((howns _).and (stable_const _))
            ⟨⟨readEnd, writeEnd, hat⟩, hread, hwrite⟩
        · intro what s hblamed
          -- the pipe is forgotten: its ends are closed again
          exact meets_unwind (fun facts s hat => meets_destroyPipe hread hwrite
            (fun c hc => Or.inl (hquiet c hc)) hR hat) hR hblamed.forget

end Pipe

section Threads

variable {facts : Recorded} {own : List (Int × Nat)} {R R' : Control → Prop}
variable {s : ProcessState} {strerror : ErrorNumber → Bytes}
variable {E : Bytes → ProcessState → Prop}

namespace WorkerPool

/-- Once the queue has been closed, a worker comes to its end. -/
theorem exists_ended
    {i : Nat}
    {phase : ThreadPhase}
    (hphase : s.control.threads[i]? = some phase)
    (hne : phase ≠ .joined)
    (hclosed : s.control.queueClosed = true) :
    ∃ mid, ReflTransGen Interrupt s mid ∧ mid.control.threads[i]? = some .ended := by
  have hends : ∀ s : ProcessState, s.control.threads[i]? = some .running →
      s.control.queueClosed = true →
      ∃ mid, Interrupt s mid ∧ mid.control.threads[i]? = some .ended := by
    intro s hrunning hclosed
    refine ⟨_, .workerEnds hclosed hrunning, ?_⟩
    exact List.getElem?_set_self (List.getElem?_eq_some_iff.1 hrunning).1
  cases phase with
  | joined => exact absurd rfl hne
  | ended => exact ⟨s, .refl, hphase⟩
  | running =>
      obtain ⟨mid, hstep, hended⟩ := hends s hphase hclosed
      exact ⟨mid, .single hstep, hended⟩
  | handling fd =>
      -- the handler is finished first
      have hrunning : (s.workerWrites i fd 0).control.threads[i]? = some .running :=
        List.getElem?_set_self (List.getElem?_eq_some_iff.1 hphase).1
      obtain ⟨mid, hstep, hended⟩ := hends (s.workerWrites i fd 0) hrunning hclosed
      exact ⟨mid, .tail (.single (.workerWrites 0 hphase)) hstep, hended⟩

theorem At.join
    {i : Nat}
    (h : At facts own R s)
    (hjoin : R' (s.control.setThread i .joined)) :
    At facts own R' (s.setControl (s.control.setThread i .joined)) := by
  refine h.setControl rfl ?_ ?_ hjoin
  · intro _ hall phase hphase
    rcases List.mem_or_eq_of_mem_set hphase with hold | hnew
    · exact hall phase hold
    · exact hnew
  · intro fd hfd
    rcases List.mem_or_eq_of_mem_set hfd with hold | hnew
    · exact hold
    · cases hnew

theorem meets_join
    (i : Nat)
    (hclosed : ∀ c, R c → c.queueClosed = true)
    (halive : ∀ c, R c → ∃ phase, c.threads[i]? = some phase ∧ phase ≠ .joined)
    (hjoin : ∀ c, R c → R' (c.setThread i .joined))
    (hR : Steady R)
    (hR' : Steady R')
    (hs : At facts own R s) :
    Meets (fun _ => At facts own R') E (sysCall (.join i)) s := by
  refine wp_perform hs (lasting_at hR).stable (lasting_at hR).sound ?_ ?_
    (fun _ => (lasting_at hR').stable) (fun _ => (lasting_at hR').sound)
  · intro s hat
    obtain ⟨phase, hphase, hne⟩ := halive _ hat.control
    obtain ⟨mid, hreach, hended⟩ := exists_ended hphase hne (hclosed _ hat.control)
    exact ⟨mid, (), _, hreach, hended, rfl⟩
  · rintro s _ _ hat ⟨_, rfl⟩
    exact At.join hat (hjoin _ hat.control)

theorem meets_closeQueue
    (hclose : ∀ c, R c → R' { c with queueClosed := true })
    (hR : Steady R)
    (hR' : Steady R')
    (hs : At facts own R s) :
    Meets (fun _ => At facts own R') E (sysCall .closeQueue) s := by
  refine meets_sysCall_at own (fun s => ⟨(), _, rfl⟩) ?_ hR hR' hs
  rintro s _ _ hat rfl
  exact hat.setControl rfl (fun _ hall => hall) (fun _ hfd => hfd) (hclose _ hat.control)

theorem meets_workersSize
    (hR : Steady R)
    (hs : At facts own R s) :
    Meets (fun n => At facts own (fun c => R c ∧ c.threads.length = n)) E
      (sysCall .workersSize) s := by
  refine meets_sysCall (lasting_at hR)
    (fun n => lasting_at (hR.and (steady_length n))) (fun s _ => ⟨_, _, rfl, rfl⟩) ?_ hs
  rintro s _ _ hat ⟨rfl, rfl⟩
  exact ⟨hat.sound, hat.known, hat.marks, hat.own, hat.control, rfl⟩

theorem meets_joinable
    (i : Nat)
    (hR : Steady R)
    (hs : At facts own R s) :
    Meets (fun joinable => At facts own (fun c => R c ∧
      (joinable = true ↔ c.threads[i]? ≠ some .joined))) E (sysCall (.joinable i)) s := by
  refine meets_sysCall (lasting_at hR) (fun joinable => lasting_at (hR.and
    (steady_joined (fun joined => joinable = true ↔ ¬ joined i)))) (fun s _ => ⟨_, _, rfl, rfl⟩)
    ?_ hs
  rintro s _ _ hat ⟨rfl, rfl⟩
  exact ⟨hat.sound, hat.known, hat.marks, hat.own, hat.control, by simp⟩

theorem meets_destroyWorkers
    (hjoined : ∀ c, R c → c.AllJoined)
    (hR : Steady R)
    (hs : At facts own R s) :
    Meets (fun _ => At facts own R) E (sysCall .destroyWorkers) s := by
  refine meets_sysCall_at own (fun s => ⟨(), _, rfl⟩) ?_ hR hR hs
  rintro s _ _ hat rfl
  have hall : s.control.threads.all (fun phase => phase == .joined) = true := by
    simpa [Control.AllJoined] using hjoined _ hat.control
  rw [destroyWorkers, if_pos hall]
  exact hat

theorem allJoined_of_forall
    {c : Control}
    {n : Nat}
    (hlength : c.threads.length = n)
    (h : ∀ j < n, c.threads[j]? = some .joined) :
    c.AllJoined := by
  intro phase hphase
  obtain ⟨j, hj, rfl⟩ := List.mem_iff_getElem.1 hphase
  have hjoined := h j (hlength ▸ hj)
  rw [List.getElem?_eq_getElem hj] at hjoined
  exact Option.some.inj hjoined

theorem getElem_setThread_joined
    {c : Control}
    {i : Nat}
    (hi : i < c.threads.length)
    (j : Nat) :
    (c.setThread i .joined).threads[j]? = some .joined ↔ j = i ∨ c.threads[j]? = some .joined := by
  change (c.threads.set i .joined)[j]? = some .joined ↔ _
  by_cases hij : i = j
  · subst hij
    simp [List.getElem?_set_self hi]
  · rw [List.getElem?_set_ne hij]
    simp [Ne.symm hij]

theorem exists_alive
    {c : Control}
    {i : Nat}
    (hi : i < c.threads.length)
    (hne : c.threads[i]? ≠ some .joined) :
    ∃ phase, c.threads[i]? = some phase ∧ phase ≠ .joined := by
  refine ⟨c.threads[i], List.getElem?_eq_getElem hi, ?_⟩
  intro heq
  rw [List.getElem?_eq_getElem hi, heq] at hne
  exact hne rfl

/-- The loop over the threads has joined the first of them. -/
def JoinedBelow (n i : Nat) (c : Control) : Prop :=
  c.queueClosed = true ∧ c.threads.length = n ∧ ∀ j < i, c.threads[j]? = some .joined

theorem steady_joinedBelow
    (n i : Nat) :
    Steady (JoinedBelow n i) :=
  (steady_queueClosed true).and ((steady_length n).and
    (steady_joined (fun joined => ∀ j < i, joined j)))

theorem JoinedBelow.setThread
    {n i : Nat}
    {c : Control}
    (h : JoinedBelow n i c)
    (hi : i < n) :
    JoinedBelow n (i + 1) (c.setThread i .joined) := by
  obtain ⟨hclosed, hlength, hbelow⟩ := h
  refine ⟨hclosed, (List.length_set ..).trans hlength, ?_⟩
  intro j hj
  rw [getElem_setThread_joined (hlength ▸ hi)]
  rcases Nat.lt_succ_iff_lt_or_eq.1 hj with hlt | heq
  · exact Or.inr (hbelow j hlt)
  · exact Or.inl heq

def NoneJoined (c : Control) : Prop :=
  ∀ j : Nat, c.threads[j]? ≠ some .joined

theorem steady_noneJoined : Steady NoneJoined :=
  steady_joined (fun joined => ∀ j, ¬ joined j)

/-- The `catch` clause joins every thread that has been started. -/
theorem meets_joinAll
    (hs : At facts own (fun c => c.queueClosed = true ∧ NoneJoined c) s) :
    Meets (fun _ => At facts own Control.AllJoined) E joinAll s := by
  refine wp_seq (meets_workersSize ((steady_queueClosed true).and steady_noneJoined) hs) ?_
  intro n s hs
  -- in front of round `i`, the threads from `i` on are not joined
  let J : Nat → Control → Prop := fun i c =>
    JoinedBelow n i c ∧ ∀ j, i ≤ j → c.threads[j]? ≠ some .joined
  have hJ : ∀ i, Steady (J i) := fun i =>
    (steady_joinedBelow n i).and (steady_joined (fun joined => ∀ j, i ≤ j → ¬ joined j))
  have hstart : At facts own (J 0) s := by
    refine hs.mono ?_
    rintro c ⟨⟨hclosed, hnone⟩, hlength⟩
    exact ⟨⟨hclosed, hlength, nofun⟩, fun j _ => hnone j⟩
  have hloop : Meets (fun _ => At facts own (J n)) E
      (Prog.forUpTo n (fun i => sysCall (.join i))) s := by
    refine meets_forUpTo J hJ hstart ?_
    intro i hi s hat
    refine meets_join i (fun c hc => hc.1.1) ?_ ?_ (hJ i) (hJ (i + 1)) hat
    · intro c hc
      exact exists_alive (by rw [hc.1.2.1]; exact hi) (hc.2 i le_rfl)
    · intro c hc
      refine ⟨hc.1.setThread hi, ?_⟩
      intro j hj hjoined
      rw [getElem_setThread_joined (by rw [hc.1.2.1]; exact hi)] at hjoined
      rcases hjoined with rfl | hold
      · omega
      · exact hc.2 j (by omega) hold
  refine hloop.mono ?_ (fun _ _ h => h)
  intro _ s hat
  exact hat.mono (fun c hc => allJoined_of_forall hc.1.2.1 hc.1.2.2)

/-- `shutdown` joins every thread that has not been joined. -/
theorem meets_shutdown
    (hR : Steady R)
    (hs : At facts own R s) :
    Meets (fun _ => At facts own Control.AllJoined) E shutdown s := by
  refine wp_seq (meets_closeQueue (fun _ _ => rfl) hR (steady_queueClosed true) hs) ?_
  intro _ s hs
  refine wp_seq (meets_workersSize (steady_queueClosed true) hs) ?_
  intro n s hs
  have hstart : At facts own (JoinedBelow n 0) s := hs.mono (fun c hc => ⟨hc.1, hc.2, nofun⟩)
  refine (meets_forUpTo (JoinedBelow n) (steady_joinedBelow n) hstart ?_).mono ?_
    (fun _ _ h => h)
  · intro i hi s hat
    refine wp_seq (meets_joinable i (steady_joinedBelow n i) hat) ?_
    intro joinable s hat
    cases joinable with
    | true =>
        refine meets_join i (fun c hc => hc.1.1) ?_ (fun c hc => hc.1.setThread hi)
          ((steady_joinedBelow n i).and (steady_joined (fun joined => true = true ↔ ¬ joined i)))
          (steady_joinedBelow n (i + 1)) hat
        intro c hc
        exact exists_alive (by rw [hc.1.2.1]; exact hi) (hc.2.1 rfl)
    | false =>
        refine meets_pure (lasting_at (steady_joinedBelow n (i + 1))) (hat.mono ?_)
        rintro c ⟨⟨hclosed, hlength, hbelow⟩, hjoinable⟩
        refine ⟨hclosed, hlength, ?_⟩
        intro j hj
        rcases Nat.lt_succ_iff_lt_or_eq.1 hj with hlt | rfl
        · exact hbelow j hlt
        · simpa using hjoinable
  · intro _ s hat
    exact hat.mono (fun c hc => allJoined_of_forall hc.2.1 hc.2.2)

theorem meets_destruct
    (hR : Steady R)
    (hs : At facts own R s) :
    Meets (fun _ => At facts own Control.AllJoined) E destruct s := by
  refine wp_seq (meets_shutdown hR hs) ?_
  intro _ s hs
  exact meets_destroyWorkers (fun _ hc => hc) steady_allJoined hs

/-- No signal is handled, and the queue is open. -/
def Opening (c : Control) : Prop :=
  c.Uninstalled ∧ c.queueClosed = false

theorem steady_opening : Steady Opening :=
  steady_uninstalled.and (steady_queueClosed false)

/-- Besides, no thread has been joined. -/
def Starting (c : Control) : Prop :=
  Opening c ∧ NoneJoined c

theorem steady_starting : Steady Starting :=
  steady_opening.and steady_noneJoined

theorem meets_startWorkers
    (strerror : ErrorNumber → Bytes)
    (workerCount : Nat)
    (hs : At facts own Starting s) :
    Meets (fun _ => At facts own Starting) (Blamed strerror facts own Starting)
      (startWorkers workerCount) s := by
  refine meets_forUpTo (fun _ => Starting) (fun _ => steady_starting) hs ?_
  intro i _ s hat
  refine meets_mayThrow (k := .startWorker) (fun r => r) _ (fun s r s' h => h)
    (fun s => ⟨.error [], _, rfl⟩) ?_ steady_starting steady_starting hat
  intro s hat
  obtain ⟨⟨hquiet, hopened⟩, hopen⟩ := hat.control
  have hnew : ∀ phase, phase ∈ s.control.threads ++ [ThreadPhase.running] →
      phase ∈ s.control.threads ∨ phase = .running := by simp
  refine hat.setControl rfl ?_ ?_ ⟨⟨⟨hquiet.handled, hquiet.notificationFd, ?_⟩, hopened⟩, ?_⟩
  · rw [hquiet.notificationFd]
    intro hneg
    omega
  · intro fd hfd
    rcases hnew _ hfd with hold | hrunning
    · exact hold
    · cases hrunning
  · intro fd hfd
    rcases hnew _ hfd with hold | hrunning
    · exact hquiet.handling fd hold
    · cases hrunning
  · intro j hjoined
    rcases hnew _ (List.mem_of_getElem? hjoined) with hold | hrunning
    · obtain ⟨k, hk⟩ := List.mem_iff_getElem?.1 hold
      exact hopen k hk
    · cases hrunning

/-- No thread has been started. -/
def Fresh (c : Control) : Prop :=
  Opening c ∧ c.threads.length = 0

theorem steady_fresh : Steady Fresh :=
  steady_opening.and (steady_length 0)

theorem Fresh.threads
    {c : Control}
    (h : Fresh c) :
    c.threads = [] :=
  List.eq_nil_of_length_eq_zero h.2

theorem Fresh.allJoined
    {c : Control}
    (h : Fresh c) :
    c.AllJoined := by
  simp [Control.AllJoined, h.threads]

theorem Fresh.starting
    {c : Control}
    (h : Fresh c) :
    Starting c :=
  ⟨h.1, by simp [NoneJoined, h.threads]⟩

theorem meets_constructBody
    (strerror : ErrorNumber → Bytes)
    {workerCount : Nat}
    (hcount : 0 < workerCount)
    (hs : At facts own Fresh s) :
    Meets (fun _ => At facts own Starting) (Blamed strerror facts own Control.AllJoined)
      (constructBody workerCount) s := by
  unfold constructBody
  rw [if_neg (by omega)]
  refine wp_seq_two ((meets_mayThrow (k := .reserve workerCount) (fun r => r) id
    (fun _ _ _ h => h) (fun s => ⟨.ok (), s, rfl⟩) (fun _ h => h) steady_fresh steady_fresh
    hs).mono (fun _ _ h => h) (fun _ _ h => h.mono (fun _ hc => hc.allJoined))) ?_
  intro _ s hs
  refine wp_tryCatch ((meets_startWorkers strerror workerCount
    (hs.mono (fun _ hc => hc.starting))).mono (fun _ _ h => h) ?_)
  rintro what s ⟨fault, hat, htext⟩
  refine wp_seq (meets_closeQueue (fun _ hc => ⟨rfl, hc.2⟩) steady_starting
    ((steady_queueClosed true).and steady_noneJoined) hat) ?_
  intro _ s hat
  refine wp_seq (meets_joinAll hat) ?_
  intro _ s hat
  exact meets_throw (lasting_blamed steady_allJoined what) ⟨fault, hat, htext⟩

/-- When the constructor throws, every thread that it has started has been joined. -/
theorem meets_construct
    (strerror : ErrorNumber → Bytes)
    {workerCount queueCapacity : Nat}
    (hcount : 0 < workerCount)
    (hcapacity : 0 < queueCapacity)
    (hs : At facts own Fresh s) :
    Meets (fun _ => At facts own Starting) (Blamed strerror facts own Control.AllJoined)
      (construct workerCount queueCapacity) s := by
  unfold construct BoundedQueue.make
  rw [if_neg (by omega)]
  refine wp_onThrow ((meets_constructBody strerror hcount hs).mono (fun _ _ h => h) ?_)
  intro what s hblamed
  exact meets_unwind (fun facts s hat => meets_destroyWorkers (fun _ hc => hc)
    steady_allJoined hat) steady_allJoined hblamed

end WorkerPool

end Threads

section Server

variable {facts : Recorded} {own : List (Int × Nat)} {R R' : Control → Prop}
variable {s : ProcessState} {strerror : ErrorNumber → Bytes}
variable {E : Bytes → ProcessState → Prop}

namespace ServerMembers

/-- The members own a listener and a pipe, which were opened in this order. -/
structure Owns (server : ServerMembers) (facts : Recorded) (own : List (Int × Nat))
    (R : Control → Prop) (s : ProcessState) : Prop where
  opened : ∃ serial, OwnsPipe server.shutdownPipe facts
    ((server.listener.fd.fd, serial) :: own) R s
  listener : 0 ≤ server.listener.fd.fd
  readEnd : 0 ≤ server.shutdownPipe.1.fd
  writeEnd : 0 ≤ server.shutdownPipe.2.fd

theorem lasting_owns
    (server : ServerMembers)
    (hR : Steady R) :
    Lasting (server.Owns facts own R) := by
  have hopened : Lasting (fun s => ∃ serial, OwnsPipe server.shutdownPipe facts
      ((server.listener.fd.fd, serial) :: own) R s) :=
    Lasting.exists fun _ => Lasting.exists fun _ => Lasting.exists fun _ => lasting_at hR
  refine ⟨?_, fun s hs => hopened.sound s hs.opened⟩
  intro s s' hstep hs
  exact ⟨hopened.stable s s' hstep hs.opened, hs.listener, hs.readEnd, hs.writeEnd⟩

/-- When the constructor throws, nothing is left of what it has opened and started. -/
theorem meets_construct
    (documentRoot : Bytes)
    (port : Nat)
    (backlog : Int)
    (address : Bytes)
    {workerCount queueCapacity : Nat}
    (hcount : 0 < workerCount)
    (hcapacity : 0 < queueCapacity)
    (hs : At facts own WorkerPool.Fresh s) :
    Meets (fun server => server.Owns facts own WorkerPool.Opening)
      (Blamed strerror facts own Control.AllJoined)
      (construct strerror documentRoot port backlog address workerCount queueCapacity) s := by
  refine wp_seq_two ((meets_mayThrow (k := .canonical documentRoot) (fun r => r) id
    (fun _ _ _ h => h) (fun s => ⟨.ok (), s, rfl⟩) (fun _ h => h) WorkerPool.steady_fresh
    WorkerPool.steady_fresh hs).mono (fun _ _ h => h)
      (fun _ _ h => h.mono (fun _ hc => hc.allJoined))) ?_
  intro _ s hs
  refine wp_seq ((meets_bindIpv4 port backlog address WorkerPool.steady_fresh
    (fun _ hc => hc.1.1) hs).mono (fun _ _ h => h)
      (fun _ _ h => h.mono (fun _ hc => hc.allJoined))) ?_
  rintro listener s ⟨⟨serial, hs⟩, hlistener⟩
  -- an exception of the pool or of the pipe closes the listener
  refine wp_onThrow (wp.mono
    (E := Blamed strerror facts ((listener.fd.fd, serial) :: own) Control.AllJoined)
    (wp_seq (WorkerPool.meets_construct strerror hcount hcapacity hs) ?_)
    (fun _ _ h => h) ?_)
  · intro _ s hs
    have hquiet := hs.mono (fun _ hc => hc.1)
    refine wp_seq (wp_onThrow ((meets_makeShutdownPipe WorkerPool.steady_opening
      (fun _ hc => hc.1) hquiet).mono (fun _ _ h => h) ?_)) ?_
    · intro what s hblamed
      exact meets_unwind (fun facts s hat => WorkerPool.meets_destruct
        WorkerPool.steady_opening hat) steady_allJoined hblamed
    · rintro pipe s ⟨howns, hread, hwrite⟩
      exact meets_pure (lasting_owns _ WorkerPool.steady_opening)
        ⟨⟨serial, howns⟩, hlistener, hread, hwrite⟩
  · intro what s hblamed
    exact meets_unwind (fun facts s hat => meets_destroyFd hlistener (fun _ hc => Or.inr hc)
      steady_allJoined hat) steady_allJoined hblamed

theorem At.write
    {readEnd writeEnd : Nat}
    {fd : Int}
    (h : At facts own R s)
    (hpiped : .piped readEnd writeEnd ∈ facts.known)
    (hopen : (fd, writeEnd) ∈ own)
    (errno : ErrorNumber) :
    At facts own R (s.write fd errno) := by
  have hnotifies : s.NotifiesPipe fd :=
    ⟨readEnd, writeEnd, h.known hpiped, h.sound.lookup_of_own (h.own ▸ hopen)⟩
  have hlog := s.quietly_write fd errno
  refine ⟨h.sound.write (Or.inl hnotifies) errno (s.write fd errno).errno,
    List.Subset.trans h.known hlog.subset, hlog.marksOf.trans h.marks,
    (s.own_write fd errno).trans h.own, ?_⟩
  rw [control_write]
  exact h.control

theorem meets_requestShutdown
    (server : ServerMembers)
    {readEnd writeEnd : Nat}
    (hpiped : .piped readEnd writeEnd ∈ facts.known)
    (hopen : (server.shutdownPipe.2.fd, writeEnd) ∈ own)
    (hR : Steady R)
    (hs : At facts own R s) :
    Meets (fun _ => At facts own (fun _ => True)) E server.requestShutdown s := by
  refine wp_seq (meets_sysCall_at own (fun s => ⟨_, _, rfl, rfl⟩) ?_ hR
    steady_true hs) ?_
  · rintro s _ _ hat ⟨rfl, rfl⟩
    exact hat.setControl rfl (fun _ hall => hall) (fun _ hfd => hfd) trivial
  · intro requested s hs
    cases requested with
    | true => exact meets_pure (lasting_at steady_true) hs
    | false =>
        refine wp_seq (WorkerPool.meets_closeQueue (fun _ _ => trivial) steady_true steady_true
          hs) ?_
        intro _ s hs
        refine meets_sysCall_at own (fun s => ⟨(), _, 0, rfl⟩) ?_ steady_true steady_true hs
        rintro s _ _ hat ⟨errno, rfl⟩
        exact At.write hat hpiped hopen errno

/-- The destructor joins the threads and closes what the constructor has opened. -/
theorem meets_destruct
    (server : ServerMembers)
    (hR : Steady R)
    (hs : server.Owns facts own R s) :
    Meets (fun _ => At facts own Control.AllJoined) E server.destruct s := by
  obtain ⟨⟨serial, readEnd, writeEnd, hat⟩, hlistener, hread, hwrite⟩ := hs
  refine wp_seq (server.meets_requestShutdown List.mem_cons_self List.mem_cons_self hR hat) ?_
  intro _ s hat
  refine wp_seq (WorkerPool.meets_shutdown steady_true hat) ?_
  intro _ s hat
  refine wp_seq (meets_destroyPipe hread hwrite (fun _ hc => Or.inr hc) steady_allJoined hat) ?_
  intro _ s hat
  refine wp_seq (WorkerPool.meets_destruct steady_allJoined hat) ?_
  intro _ s hat
  refine (meets_destroyFd hlistener (fun _ hc => Or.inr hc) steady_allJoined hat).mono ?_
    (fun _ _ h => h)
  intro _ s hat
  exact hat.forget

/-- What is known when the loop is left; the queue is never found closed. -/
def LeftLoop (facts : Recorded) (own : List (Int × Nat)) : LoopExit → ProcessState → Prop
  | .shutdownRequested => At facts own (fun _ => True)
  | .pipeReadable => At facts own (fun _ => True)
  | .pollFailed => Called facts own (fun _ => True) (ascii "poll") false
  | .acceptFailed => Called facts own (fun _ => True) (ascii "accept") false
  | .poolClosed => fun _ => False

theorem lasting_leftLoop
    (left : LoopExit) :
    Lasting (LeftLoop facts own left) := by
  cases left with
  | shutdownRequested => exact lasting_at steady_true
  | pipeReadable => exact lasting_at steady_true
  | pollFailed => exact lasting_called steady_true _ false
  | acceptFailed => exact lasting_called steady_true _ false
  | poolClosed => exact ⟨fun _ _ _ h => h, fun _ h => h.elim⟩

theorem meets_serveLoop
    (listener shutdownPipe : Int)
    (hs : At facts own (fun c => c.queueClosed = false) s) :
    Meets (LeftLoop facts own) E (sysCall (.serveLoop listener shutdownPipe)) s := by
  refine meets_sysCall (k := .serveLoop listener shutdownPipe)
    (lasting_at (steady_queueClosed false)) lasting_leftLoop
    (fun s _ => ⟨.pollFailed, _, 0, rfl⟩) ?_ hs
  intro s left s' hat hleft
  have hany : At facts own (fun _ => True) s := hat.mono (fun _ _ => trivial)
  cases left with
  | shutdownRequested => exact hleft.2 ▸ hany
  | pipeReadable => exact hleft.2 ▸ hany
  | pollFailed =>
      obtain ⟨errno, rfl⟩ := hleft
      exact hany.fail _ errno
  | acceptFailed =>
      obtain ⟨errno, rfl⟩ := hleft
      exact hany.fail _ errno
  | poolClosed => exact absurd (hat.control.symm.trans hleft.1) (by decide)

theorem meets_leaveLoop
    (server : ServerMembers)
    {readEnd writeEnd : Nat}
    (hpiped : .piped readEnd writeEnd ∈ facts.known)
    (hopen : (server.shutdownPipe.2.fd, writeEnd) ∈ own)
    {left : LoopExit}
    (hs : LeftLoop facts own left s) :
    Meets (fun _ => At facts own (fun _ => True)) (Blamed strerror facts own (fun _ => True))
      (server.leaveLoop strerror left) s := by
  cases left with
  | shutdownRequested => exact meets_pure (lasting_at steady_true) hs
  | pipeReadable => exact server.meets_requestShutdown hpiped hopen steady_true hs
  | pollFailed => exact meets_syscallError steady_true hs
  | acceptFailed => exact meets_syscallError steady_true hs
  | poolClosed => exact hs.elim

theorem meets_serveForever
    (server : ServerMembers)
    {readEnd writeEnd : Nat}
    (hpiped : .piped readEnd writeEnd ∈ facts.known)
    (hopen : (server.shutdownPipe.2.fd, writeEnd) ∈ own)
    (hs : At facts own (fun c => c.queueClosed = false) s) :
    Meets (fun _ => At facts own Control.AllJoined)
      (Blamed strerror facts own (fun _ => True)) (server.serveForever strerror) s := by
  refine wp_seq (meets_serveLoop _ _ hs) ?_
  intro left s hleft
  refine wp_seq (server.meets_leaveLoop hpiped hopen hleft) ?_
  intro _ s hs
  exact WorkerPool.meets_shutdown steady_true hs

end ServerMembers

end Server

end HttpServer
