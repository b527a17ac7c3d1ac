import HttpServer.ProcessInvariant

/-!
# Rules for the functions of the main thread

A function of the main thread starts and ends in states that are described by the
descriptors that the main thread has open, by what it knows of the other threads and by
what has been recorded (`At`).  An exception leaves one mark more in the record, and its
text is that of the mark (`Blamed`).

* `ProcessEvent.text`: what is reported of an event;
* `Steady`, `Lasting`: descriptions that no signal and no other thread changes;
* `Meets`: a function keeps the invariant and ends as it should;
* `meets_mayFail`, `meets_orSyscallError`, `meets_mayThrow`: calls that fail and
  calls that throw;
* `meets_unwind`: a destructor while an exception passes;
* `meets_destroyFd`: a descriptor is closed by the object that owns it.
-/

namespace HttpServer

open Unwinding Relation ProcessState

section Assertions

/-- What no other thread changes. -/
def Steady (R : Control → Prop) : Prop :=
  ∀ c c', ControlStep c c' → R c → R c'

theorem Steady.and
    {R R' : Control → Prop}
    (h : Steady R)
    (h' : Steady R') :
    Steady (fun c => R c ∧ R' c) :=
  fun c c' hstep hc => ⟨h c c' hstep hc.1, h' c c' hstep hc.2⟩

theorem steady_true : Steady (fun _ => True) :=
  fun _ _ _ _ => trivial

/-- A thread that goes on was not joined and is not joined, and the others stay. -/
theorem ProcessState.ControlStep.exists_setThread
    {c c' : Control}
    (h : ControlStep c c') :
    ∃ i old phase, c.threads[i]? = some old ∧ old ≠ .joined ∧ phase ≠ .joined ∧
      c' = c.setThread i phase := by
  cases h with
  | workerHandles signal hhandled hrunning => exact ⟨_, _, _, hrunning, by simp, by simp, rfl⟩
  | workerReturns hhandling => exact ⟨_, _, _, hhandling, by simp, by simp, rfl⟩
  | workerEnds hclosed hrunning => exact ⟨_, _, _, hrunning, by simp, by simp, rfl⟩

theorem ProcessState.ControlStep.joined_iff
    {c c' : Control}
    (h : ControlStep c c')
    (j : Nat) :
    c'.threads[j]? = some .joined ↔ c.threads[j]? = some .joined := by
  obtain ⟨i, old, phase, hold, hne, hne', rfl⟩ := h.exists_setThread
  change (c.threads.set i phase)[j]? = some .joined ↔ _
  by_cases hij : i = j
  · subst hij
    rw [List.getElem?_set_self' , hold]
    simp [hne, hne']
  · rw [List.getElem?_set_ne hij]

theorem steady_allJoined : Steady Control.AllJoined := by
  intro c c' hstep hall
  obtain ⟨i, old, _, hold, hne, _⟩ := hstep.exists_setThread
  exact absurd hall (not_allJoined_of_getElem hold hne)

theorem steady_joined
    (P : (Nat → Prop) → Prop) :
    Steady (fun c => P (fun j => c.threads[j]? = some .joined)) := by
  intro c c' hstep hc
  simpa only [hstep.joined_iff] using hc

theorem steady_queueClosed
    (closed : Bool) :
    Steady (fun c => c.queueClosed = closed) := by
  intro c c' hstep hclosed
  obtain ⟨_, _, _, _, _, _, rfl⟩ := hstep.exists_setThread
  exact hclosed

theorem steady_length
    (n : Nat) :
    Steady (fun c => c.threads.length = n) := by
  intro c c' hstep hlength
  obtain ⟨_, _, _, _, _, _, rfl⟩ := hstep.exists_setThread
  exact (List.length_set ..).trans hlength

/-- No signal is handled. -/
structure Control.Uninstalled (c : Control) : Prop where
  handled : ∀ signal, c.handled signal = false
  notificationFd : c.shutdownNotificationFd = -1
  handling : ∀ fd, .handling fd ∉ c.threads

theorem steady_uninstalled : Steady Control.Uninstalled := by
  intro c c' hstep h
  cases hstep with
  | workerHandles signal hhandled hrunning =>
      rw [h.handled signal] at hhandled
      cases hhandled
  | workerReturns hhandling => exact absurd (List.mem_of_getElem? hhandling) (h.handling _)
  | workerEnds hclosed hrunning =>
      refine ⟨h.handled, h.notificationFd, ?_⟩
      intro fd hfd
      rcases List.mem_or_eq_of_mem_set hfd with hold | hnew
      · exact h.handling fd hold
      · cases hnew

/-- What is known of the record: some of its events, and all of its marks. -/
structure Recorded where
  known : List ProcessEvent := []
  marks : List ProcessEvent := []

namespace Recorded

def learn (facts : Recorded) (e : ProcessEvent) : Recorded :=
  { facts with known := e :: facts.known }

def mark (facts : Recorded) (e : ProcessEvent) : Recorded :=
  { facts with marks := facts.marks ++ [e] }

end Recorded

/-- The main thread has `own` open, the record is as `facts` say, and `R` is known. -/
structure At (facts : Recorded) (own : List (Int × Nat)) (R : Control → Prop)
    (s : ProcessState) : Prop where
  sound : s.Sound
  known : facts.known ⊆ s.log
  marks : marksOf s.log = facts.marks
  own : s.own = own
  control : R s.control

/-- The text that reports an event. -/
def ProcessEvent.text (strerror : ErrorNumber → Bytes) : ProcessEvent → Option Bytes
  | .failed operation errno => some (operation ++ ascii ": " ++ strerror errno)
  | .threw what => some what
  | .refusedAddress address => some (ascii "invalid IPv4 address: " ++ address)
  | .unhandled _ => some (ascii "failed to install shutdown signal handlers")
  | _ => none

/-- What a function leaves behind when it throws: one mark, and its text. -/
def Blamed (strerror : ErrorNumber → Bytes) (facts : Recorded) (own : List (Int × Nat))
    (R : Control → Prop) (what : Bytes) (s : ProcessState) : Prop :=
  ∃ fault, At (facts.mark fault) own R s ∧ fault.text strerror = some what

/-- A call that fails leaves a mark, with the `errno` that it has set. -/
def Called (facts : Recorded) (own : List (Int × Nat)) (R : Control → Prop) (operation : Bytes)
    (done : Bool) (s : ProcessState) : Prop :=
  if done then
    At facts own R s
  else
    ∃ errno, At (facts.mark (.failed operation errno)) own R s ∧ s.errno = errno

/-- An assertion that survives interruptions, and has the invariant in it. -/
structure Lasting (P : ProcessState → Prop) : Prop where
  stable : Stable processSystem P
  sound : ∀ s, P s → s.Sound

variable {facts : Recorded} {own : List (Int × Nat)} {R R' : Control → Prop}
variable {s s' : ProcessState} {strerror : ErrorNumber → Bytes}

theorem lasting_at
    (hR : Steady R) :
    Lasting (At facts own R) := by
  refine ⟨?_, fun s h => h.sound⟩
  intro s s' hstep h
  have hlog := hstep.errno_and_log.2
  refine ⟨h.sound.interrupt hstep, List.Subset.trans h.known hlog.subset,
    hlog.marksOf.trans h.marks, (h.sound.own_interrupt hstep).trans h.own, ?_⟩
  rcases hstep.control with heq | hcontrol
  · exact heq ▸ h.control
  · exact hR _ _ hcontrol h.control

theorem Lasting.and
    {P S : ProcessState → Prop}
    (hP : Lasting P)
    (hS : Stable processSystem S) :
    Lasting (fun s => P s ∧ S s) :=
  ⟨hP.stable.and hS, fun s hs => hP.sound s hs.1⟩

theorem Lasting.exists
    {ι : Sort*}
    {P : ι → ProcessState → Prop}
    (h : ∀ i, Lasting (P i)) :
    Lasting (fun s => ∃ i, P i s) := by
  refine ⟨.exists fun i => (h i).stable, ?_⟩
  rintro s ⟨i, hs⟩
  exact (h i).sound s hs

theorem Lasting.or
    {P P' : ProcessState → Prop}
    (h : Lasting P)
    (h' : Lasting P') :
    Lasting (fun s => P s ∨ P' s) := by
  refine ⟨?_, fun s hs => hs.elim (h.sound s) (h'.sound s)⟩
  intro s s' hstep hs
  exact hs.imp (h.stable s s' hstep) (h'.stable s s' hstep)

theorem stable_const
    (P : Prop) :
    Stable processSystem (fun _ => P) :=
  fun _ _ _ h => h

theorem stable_errno
    (errno : ErrorNumber) :
    Stable processSystem (fun s => s.errno = errno) :=
  fun _ _ hstep h => (Interrupt.errno_and_log hstep).1.trans h

theorem lasting_blamed
    (hR : Steady R)
    (what : Bytes) :
    Lasting (Blamed strerror facts own R what) :=
  Lasting.exists fun _ => (lasting_at hR).and (stable_const _)

theorem lasting_called
    (hR : Steady R)
    (operation : Bytes)
    (done : Bool) :
    Lasting (Called facts own R operation done) := by
  cases done with
  | true => exact lasting_at hR
  | false => exact Lasting.exists fun errno => (lasting_at hR).and (stable_errno errno)

theorem At.mono
    (h : At facts own R s)
    (himp : ∀ c, R c → R' c) :
    At facts own R' s :=
  ⟨h.sound, h.known, h.marks, h.own, himp _ h.control⟩

theorem At.forget
    {e : ProcessEvent}
    (h : At (facts.learn e) own R s) :
    At facts own R s :=
  ⟨h.sound, (List.cons_subset.1 h.known).2, h.marks, h.own, h.control⟩

theorem Blamed.mono
    {what : Bytes}
    (h : Blamed strerror facts own R what s)
    (himp : ∀ c, R c → R' c) :
    Blamed strerror facts own R' what s := by
  obtain ⟨fault, hat, htext⟩ := h
  exact ⟨fault, hat.mono himp, htext⟩

theorem Blamed.forget
    {e : ProcessEvent}
    {what : Bytes}
    (h : Blamed strerror (facts.learn e) own R what s) :
    Blamed strerror facts own R what s := by
  obtain ⟨fault, hat, htext⟩ := h
  have hforget : At (facts.mark fault) own R s := At.forget hat
  exact ⟨fault, hforget, htext⟩

/-- An event is recorded that is no mark. -/
theorem At.quietly
    (h : At facts own R s)
    {e : ProcessEvent}
    (hfine : e.Fine (s.log ++ [e]))
    (hquiet : e.isMark = false)
    (hpiped : ∀ readEnd writeEnd, e = .piped readEnd writeEnd →
      writeEnd < s.os.next ∧ writeEnd ∉ s.elsewhere) :
    At (facts.learn e) own R (s.record e) := by
  have hlog : Quietly s.log (s.log ++ [e]) := ⟨[e], by simpa using hquiet, rfl⟩
  refine ⟨h.sound.extend (by simpa using hfine) ?_ s.errno, ?_, hlog.marksOf.trans h.marks, h.own,
    h.control⟩
  · intro readEnd writeEnd hmem
    exact hpiped readEnd writeEnd (List.mem_singleton.1 hmem).symm
  · exact List.cons_subset.2
      ⟨List.mem_append_right _ List.mem_cons_self, List.Subset.trans h.known hlog.subset⟩

/-- A mark is made, with any `errno`. -/
theorem At.marked
    (h : At facts own R s)
    {e : ProcessEvent}
    (hmark : e.isMark = true)
    (errno : ErrorNumber) :
    At (facts.mark e) own R { s.record e with errno := errno } := by
  have hfine : e.Fine (s.log ++ [e]) := by
    cases e <;> first | exact trivial | cases hmark
  refine ⟨h.sound.extend (by simpa using hfine) ?_ errno,
    List.Subset.trans h.known (List.subset_append_left _ _), ?_, h.own, h.control⟩
  · intro readEnd writeEnd hmem
    rw [← List.mem_singleton.1 hmem] at hmark
    cases hmark
  · have hone : [e].filter ProcessEvent.isMark = [e] := by simp [hmark]
    change (s.log ++ [e]).filter ProcessEvent.isMark = facts.marks ++ [e]
    rw [List.filter_append, hone, ← h.marks]
    rfl

theorem At.fail
    (h : At facts own R s)
    (operation : Bytes)
    (errno : ErrorNumber) :
    Called facts own R operation false (s.fail operation errno) :=
  ⟨errno, h.marked rfl errno, rfl⟩

theorem At.blamed
    {fault : ProcessEvent}
    {what : Bytes}
    (h : At facts own R s)
    (hmark : fault.isMark = true)
    (htext : fault.text strerror = some what) :
    Blamed strerror facts own R what (s.record fault) :=
  ⟨fault, h.marked hmark s.errno, htext⟩

/-- The flags of the server and the end of a thread do not bear on the invariant. -/
theorem At.setControl
    (h : At facts own R s)
    {c : Control}
    (hfd : c.shutdownNotificationFd = s.control.shutdownNotificationFd)
    (hjoined : 0 ≤ s.control.shutdownNotificationFd → s.control.AllJoined → c.AllJoined)
    (hhandling : ∀ fd, .handling fd ∈ c.threads → .handling fd ∈ s.control.threads)
    (hc : R' c) :
    At facts own R' (s.setControl c) := by
  refine ⟨h.sound.setControl ?_ (fun fd hfd => h.sound.handling fd (hhandling fd hfd)), h.known,
    h.marks, h.own, hc⟩
  rw [hfd]
  intro hvalid
  rcases h.sound.target hvalid with hpipe | ⟨hnone, hall, hclosed⟩
  · exact Or.inl hpipe
  · exact Or.inr ⟨hnone, hjoined hvalid hall, hclosed⟩

end Assertions

section Rules

variable {facts : Recorded} {own : List (Int × Nat)} {R R' : Control → Prop}
variable {s s' : ProcessState} {strerror : ErrorNumber → Bytes}

/-- A function of the main thread keeps the invariant and ends as it should. -/
abbrev Meets {α : Type} (Q : α → ProcessState → Prop) (E : Bytes → ProcessState → Prop)
    (p : MainProg α) (s : ProcessState) : Prop :=
  wp processSystem Sound Q E p s

variable {E : Bytes → ProcessState → Prop}

theorem meets_pure
    {α : Type}
    {a : α}
    {Q : α → ProcessState → Prop}
    (hQ : Lasting (Q a))
    (hs : Q a s) :
    Meets Q E (pure a) s :=
  wp_pure hQ.stable hQ.sound hs

theorem meets_throw
    {α : Type}
    {what : Bytes}
    {Q : α → ProcessState → Prop}
    (hE : Lasting (E what))
    (hs : E what s) :
    Meets Q E (.throw what) s :=
  wp_throw hE.stable hE.sound hs

theorem meets_sysCall
    {k : SysCall}
    {P : ProcessState → Prop}
    {Q : k.Reply → ProcessState → Prop}
    (hP : Lasting P)
    (hQ : ∀ r, Lasting (Q r))
    (hgoes : ∀ s, P s → ∃ r s', Answers k s r s')
    (hanswer : ∀ s r s', P s → Answers k s r s' → Q r s')
    (hs : P s) :
    Meets Q E (sysCall k) s := by
  refine wp_perform hs hP.stable hP.sound ?_ hanswer (fun r => (hQ r).stable)
    (fun r => (hQ r).sound)
  intro s hs
  obtain ⟨r, s', h⟩ := hgoes s hs
  exact ⟨s, r, s', .refl, h⟩

/-- A call whose answer matters no more than the state it leaves. -/
theorem meets_sysCall_at
    {k : SysCall}
    (own' : List (Int × Nat))
    (hgoes : ∀ s, ∃ r s', Answers k s r s')
    (hanswer : ∀ s r s', At facts own R s → Answers k s r s' → At facts own' R' s')
    (hR : Steady R)
    (hR' : Steady R')
    (hs : At facts own R s) :
    Meets (fun _ => At facts own' R') E (sysCall k) s :=
  meets_sysCall (lasting_at hR) (fun _ => lasting_at hR') (fun s _ => hgoes s) hanswer hs

theorem meets_syscallError
    {α : Type}
    {Q : α → ProcessState → Prop}
    {operation : Bytes}
    (hR : Steady R)
    (hs : Called facts own R operation false s) :
    Meets Q (Blamed strerror facts own R) (syscallError strerror operation) s := by
  have hQ : ∀ errno : ErrorNumber,
      Lasting (At (facts.mark (.failed operation errno)) own R) := fun errno => lasting_at hR
  refine wp_seq (meets_sysCall (lasting_called hR operation false) hQ ?_ ?_ hs) ?_
  · intro s _
    exact ⟨s.errno, s, rfl, rfl⟩
  · -- `errno` is still that of the call
    rintro s _ _ ⟨errno, hat, herrno⟩ ⟨rfl, rfl⟩
    exact herrno ▸ hat
  · intro errno s hat
    exact meets_throw (lasting_blamed hR _) ⟨_, hat, rfl⟩

theorem meets_orSyscallError
    {done : Bool}
    {operation : Bytes}
    (hR : Steady R)
    (hs : Called facts own R operation done s) :
    Meets (fun _ s => At facts own R s ∧ done = true) (Blamed strerror facts own R)
      (orSyscallError strerror done operation) s := by
  cases done with
  | true => exact meets_pure ((lasting_at hR).and (stable_const _)) ⟨hs, rfl⟩
  | false => exact meets_syscallError hR hs

/-- A call that changes nothing but `errno`, when it fails. -/
theorem meets_mayFail
    {k : SysCall}
    (done : k.Reply → Bool)
    {operation : Bytes}
    (hanswer : ∀ s r s', Answers k s r s' →
      (done r = true → s' = s) ∧ (done r = false → ∃ errno, s' = s.fail operation errno))
    (hgoes : ∀ s, ∃ r s', Answers k s r s')
    (hR : Steady R)
    (hs : At facts own R s) :
    Meets (fun r => Called facts own R operation (done r)) E (sysCall k) s := by
  refine meets_sysCall (lasting_at hR) (fun r => lasting_called hR operation (done r))
    (fun s _ => hgoes s) ?_ hs
  intro s r s' hat hreply
  obtain ⟨hdone, hfail⟩ := hanswer s r s' hreply
  cases hresult : done r with
  | true => exact hdone hresult ▸ hat
  | false =>
      obtain ⟨errno, rfl⟩ := hfail hresult
      exact hat.fail operation errno

theorem mayFail_cases
    {α : Type}
    {operation : Bytes}
    {r : Option α}
    (h : s.MayFail operation r s') :
    (r.isSome = true → s' = s) ∧
      (r.isSome = false → ∃ errno, s' = s.fail operation errno) := by
  cases r with
  | none => exact ⟨nofun, fun _ => h⟩
  | some a => exact ⟨fun _ => h, nofun⟩

/-- A call of the library, and what it throws. -/
theorem meets_mayThrow
    {k : SysCall}
    (result : k.Reply → Except Bytes Unit)
    (done : ProcessState → ProcessState)
    (hanswer : ∀ s r s', Answers k s r s' → s.MayThrow (done s) (result r) s')
    (hgoes : ∀ s, ∃ r s', Answers k s r s')
    (hdone : ∀ s, At facts own R s → At facts own R' (done s))
    (hR : Steady R)
    (hR' : Steady R')
    (hs : At facts own R s) :
    Meets (fun _ => At facts own R') (Blamed strerror facts own R)
      (sysCall k >>= fun r => orThrow (result r)) s := by
  let Q : k.Reply → ProcessState → Prop := fun r s =>
    match result r with
    | .ok _ => At facts own R' s
    | .error what => Blamed strerror facts own R what s
  have hQ : ∀ r, Lasting (Q r) := by
    intro r
    dsimp only [Q]
    cases result r with
    | ok u => exact lasting_at hR'
    | error what => exact lasting_blamed hR what
  refine wp_seq (meets_sysCall (lasting_at hR) hQ (fun s _ => hgoes s) ?_ hs) ?_
  · intro s r s' hat hreply
    have hresult := hanswer s r s' hreply
    dsimp only [Q]
    cases hr : result r with
    | ok u =>
        rw [hr] at hresult
        exact hresult ▸ hdone s hat
    | error what =>
        rw [hr] at hresult
        exact hresult ▸ hat.blamed rfl rfl
  · intro r s hs
    dsimp only [Q] at hs
    cases hr : result r with
    | ok u =>
        rw [hr] at hs
        exact meets_pure (lasting_at hR') hs
    | error what =>
        rw [hr] at hs
        exact meets_throw (lasting_blamed hR what) hs

/-- A loop: `round i` is known in front of round `i`. -/
theorem meets_forUpTo
    {n : Nat}
    {body : Nat → MainProg Unit}
    (round : Nat → Control → Prop)
    (hround : ∀ i, Steady (round i))
    (hs : At facts own (round 0) s)
    (hbody : ∀ i < n, ∀ s, At facts own (round i) s →
      Meets (fun _ => At facts own (round (i + 1))) E (body i) s) :
    Meets (fun _ => At facts own (round n)) E (Prog.forUpTo n body) s :=
  wp_forUpTo (J := fun i => At facts own (round i)) hs (lasting_at (hround 0)).stable
    (lasting_at (hround 0)).sound hbody

/-- A destructor runs while an exception passes, whose mark stays the last one. -/
theorem meets_unwind
    {α : Type}
    {Q : α → ProcessState → Prop}
    {cleanup : MainProg Unit}
    {own' : List (Int × Nat)}
    {what : Bytes}
    (hcleanup : ∀ facts s, At facts own R s →
      Meets (fun _ => At facts own' R') (fun _ _ => False) cleanup s)
    (hR' : Steady R')
    (h : Blamed strerror facts own R what s) :
    Meets (fun _ => Meets Q (Blamed strerror facts own' R') (.throw what))
      (Blamed strerror facts own' R') cleanup s := by
  obtain ⟨fault, hat, htext⟩ := h
  refine (hcleanup _ s hat).mono ?_ (fun _ _ hfalse => hfalse.elim)
  intro _ s hs
  exact meets_throw (lasting_blamed hR' what) ⟨fault, hs, htext⟩

end Rules

section Descriptors

variable {facts : Recorded} {own : List (Int × Nat)} {R R' : Control → Prop}
variable {s s' : ProcessState} {strerror : ErrorNumber → Bytes}
variable {E : Bytes → ProcessState → Prop}

theorem destroyFd_of_neg
    {f : Fd}
    (hfd : f.fd < 0)
    (s : ProcessState) :
    s.destroyFd f = s := by
  have hnot : ¬ (0 ≤ f.fd ∧ f.fd ≠ -1) := fun h => absurd h.1 (by omega)
  simp [destroyFd, Fd.destroy, Fd.reset, hnot]

theorem destroyFd_of_open
    {f : Fd}
    {serial : Nat}
    (hfd : 0 ≤ f.fd)
    (hopen : s.os.lookup f.fd = some serial) :
    s.destroyFd f =
      { s with os := (s.os.close f.fd).1, log := s.log ++ [.closed serial] } := by
  have hclose : 0 ≤ f.fd ∧ f.fd ≠ -1 := ⟨hfd, by omega⟩
  unfold destroyFd Fd.destroy Fd.reset
  rw [if_pos hclose, Descriptors.close_of_open hopen]
  rfl

/-- The last descriptor that was opened is closed, when no handler can have its number, or
no other thread is left. -/
theorem At.destroyFd
    {f : Fd}
    {serial : Nat}
    (h : At facts ((f.fd, serial) :: own) R s)
    (hfd : 0 ≤ f.fd)
    (hR : ∀ c, R c → c.Uninstalled ∨ c.AllJoined) :
    At facts own R (s.destroyFd f) := by
  have hopen := h.sound.lookup_of_own (h.own ▸ List.mem_cons_self)
  rw [destroyFd_of_open hfd hopen]
  have hfine : ∀ e ∈ [ProcessEvent.closed serial], e.Fine (s.log ++ [.closed serial]) := by
    simp [ProcessEvent.Fine]
  have hlogged := h.sound.extend hfine (by simp) s.errno
  have hlog : Quietly s.log (s.log ++ [.closed serial]) :=
    ⟨_, by simp [ProcessEvent.isMark], rfl⟩
  refine ⟨hlogged.close hopen ?_, List.Subset.trans h.known hlog.subset,
    hlog.marksOf.trans h.marks, hlogged.own_close h.own, h.control⟩
  intro _
  rcases hR _ h.control with hquiet | hjoined
  · refine Or.inl ⟨?_, hquiet.handling f.fd⟩
    rw [hquiet.notificationFd]
    omega
  · exact Or.inr ⟨hjoined, by simp⟩

theorem meets_destroyFd
    {f : Fd}
    {serial : Nat}
    (hfd : 0 ≤ f.fd)
    (hcalm : ∀ c, R c → c.Uninstalled ∨ c.AllJoined)
    (hR : Steady R)
    (hs : At facts ((f.fd, serial) :: own) R s) :
    Meets (fun _ => At facts own R) E (sysCall (.destroyFd f)) s := by
  refine meets_sysCall_at own ?_ ?_ hR hR hs
  · intro s
    exact ⟨(), s.destroyFd f, rfl⟩
  · rintro s _ _ hat rfl
    exact hat.destroyFd hfd hcalm

/-- The destructor of an object that has been moved from. -/
theorem meets_destroyFd_of_neg
    {f : Fd}
    (hfd : f.fd < 0)
    (hR : Steady R)
    (hs : At facts own R s) :
    Meets (fun _ => At facts own R) E (sysCall (.destroyFd f)) s := by
  refine meets_sysCall_at own ?_ ?_ hR hR hs
  · intro s
    exact ⟨(), s.destroyFd f, rfl⟩
  · rintro s _ _ hat rfl
    rw [destroyFd_of_neg hfd]
    exact hat

/-- The main thread opens a descriptor before any signal is handled. -/
theorem At.opens
    (h : At facts own R s)
    (hquiet : s.control.Uninstalled)
    {number : Int}
    (hfree : s.os.lookup number = none) :
    At facts ((number, s.os.next) :: own) R (s.opens number) := by
  refine ⟨h.sound.opens hfree (fun _ hin => Or.inl hin) ?_, h.known, h.marks, ?_, h.control⟩
  · rw [hquiet.notificationFd]
    intro hneg
    omega
  · rw [h.sound.own_opens, h.own]

end Descriptors

end HttpServer
