import HttpServer.ServerConstruction

/-!
# Exception safety of the process

Whatever fails and whenever a signal comes, `main` closes what it has opened, joins
the threads it has started, and reports what went wrong; and the notification of a
signal goes to the pipe of the server and to nothing else.

* `parses_parsePort`, `parses_parsePositiveSize`: the arguments that are accepted;
* `meets_installShutdownHandler`, `meets_serveUntilShutdown`: the handlers are
  installed while the server is alive;
* `meets_main`: the whole program;
* `main_releases`, `notifications_reach_pipe`, `main_reports_cause`: its runs.
-/

namespace HttpServer

open Unwinding Relation ProcessState

section Arguments

/-- A decimal numeral with a value from one to `max`. -/
structure NumeralUpTo (max : Nat) (input : Bytes) : Prop where
  nonempty : input ≠ []
  digits : ∀ byte ∈ input, isdigit byte = true
  positive : 0 < decimalValue input
  bounded : decimalValue input ≤ max

/-- What the tests behind `std::from_chars` let pass. -/
theorem numeralUpTo_iff_fromCharsBelow
    (bound max : Nat)
    (hmax : max < bound)
    (input : Bytes) :
    NumeralUpTo max input ↔
      ¬ ((fromCharsBelow bound input).ec ≠ .none ∨
        (fromCharsBelow bound input).ptr ≠ input.length ∨
        (fromCharsBelow bound input).value = 0 ∨ max < (fromCharsBelow bound input).value) := by
  have hfull := fromCharsBelow_full_iff bound input
  rw [not_or, not_or, not_or, not_not, not_not]
  constructor
  · rintro ⟨hne, hdigits, hpositive, hle⟩
    obtain ⟨hec, hptr, hvalue⟩ := (hfull _).2 ⟨hne, hdigits, rfl, by omega⟩
    exact ⟨hec, hptr, by omega, by omega⟩
  · rintro ⟨hec, hptr, hzero, hle⟩
    obtain ⟨hne, hdigits, hvalue, _⟩ := (hfull _).1 ⟨hec, hptr, rfl⟩
    exact ⟨hne, hdigits, by omega, by omega⟩

theorem value_fromCharsBelow_lt
    {bound : Nat}
    (hbound : 0 < bound)
    (input : Bytes) :
    (fromCharsBelow bound input).value < bound := by
  unfold fromCharsBelow
  dsimp only
  split_ifs with hempty hfits
  · exact hbound
  · exact hfits
  · exact hbound

/-- A parser of arguments accepts the numerals up to `max`. -/
structure Parses (max : Nat) (refusal : Bytes) (parse : Bytes → Except Bytes Nat) : Prop where
  ok : ∀ input value, parse input = .ok value → NumeralUpTo max input ∧ 0 < value
  error : ∀ input what, parse input = .error what → ¬ NumeralUpTo max input ∧ what = refusal

theorem parses_parsePort :
    Parses 65535 (ascii "port must be an integer from 1 to 65535") parsePort := by
  have hiff := numeralUpTo_iff_fromCharsBelow (2 ^ 32) 65535 (by decide)
  constructor
  · intro input value h
    unfold parsePort at h
    dsimp only at h
    split_ifs at h with hrefused
    cases h
    have hvalue := not_or.1 (not_or.1 (not_or.1 hrefused).2).2
    exact ⟨(hiff input).2 hrefused, by omega⟩
  · intro input what h
    unfold parsePort at h
    dsimp only at h
    split_ifs at h with hrefused
    cases h
    exact ⟨fun hnumeral => (hiff input).1 hnumeral hrefused, rfl⟩

theorem parses_parsePositiveSize
    (name : Bytes) :
    Parses (sizeBound - 1) (name ++ ascii " must be a positive integer")
      (parsePositiveSize · name) := by
  have hbound : 0 < sizeBound := by decide
  have hiff := numeralUpTo_iff_fromCharsBelow sizeBound (sizeBound - 1) (by omega)
  -- the type itself has no larger value
  have hfits : ∀ input, ¬ sizeBound - 1 < (fromCharsBelow sizeBound input).value := by
    intro input
    have := value_fromCharsBelow_lt hbound input
    omega
  simp only [hfits, or_false] at hiff
  constructor
  · intro input value h
    unfold parsePositiveSize fromChars at h
    dsimp only at h
    split_ifs at h with hrefused
    cases h
    have hvalue := (not_or.1 (not_or.1 hrefused).2).2
    exact ⟨(hiff input).2 hrefused, by omega⟩
  · intro input what h
    unfold parsePositiveSize fromChars at h
    dsimp only at h
    split_ifs at h with hrefused
    cases h
    exact ⟨fun hnumeral => (hiff input).1 hnumeral hrefused, rfl⟩

/-- No argument is refused. -/
structure Accepted (args : List Bytes) : Prop where
  port : ∀ input ∈ args[0]?, NumeralUpTo 65535 input
  workers : ∀ input ∈ args[3]?, NumeralUpTo (sizeBound - 1) input
  capacity : ∀ input ∈ args[4]?, NumeralUpTo (sizeBound - 1) input

/-- The first argument that is refused, and how. -/
inductive Refused (args : List Bytes) : Bytes → Prop
  | port {input : Bytes}
      (hinput : input ∈ args[0]?)
      (hrefused : ¬ NumeralUpTo 65535 input) :
      Refused args (ascii "port must be an integer from 1 to 65535")
  | workers {input : Bytes}
      (hport : ∀ input ∈ args[0]?, NumeralUpTo 65535 input)
      (hinput : input ∈ args[3]?)
      (hrefused : ¬ NumeralUpTo (sizeBound - 1) input) :
      Refused args (ascii "worker count must be a positive integer")
  | capacity {input : Bytes}
      (hport : ∀ input ∈ args[0]?, NumeralUpTo 65535 input)
      (hworkers : ∀ input ∈ args[3]?, NumeralUpTo (sizeBound - 1) input)
      (hinput : input ∈ args[4]?)
      (hrefused : ¬ NumeralUpTo (sizeBound - 1) input) :
      Refused args (ascii "queue capacity must be a positive integer")

end Arguments

section Main

variable {facts : Recorded} {own : List (Int × Nat)} {R R' : Control → Prop}
variable {s : ProcessState} {strerror : ErrorNumber → Bytes}
variable {E : Bytes → ProcessState → Prop}

/-- The queue is open: `serve_forever` may begin. -/
def QueueOpen (c : Control) : Prop :=
  c.queueClosed = false

theorem steady_queueOpen : Steady QueueOpen :=
  steady_queueClosed false

theorem meets_setNotificationFd
    {fd : Int}
    (hfd : ∀ s, At facts own R s → 0 ≤ fd → s.NotifiesPipe fd)
    (himp : ∀ c, R c → R' { c with shutdownNotificationFd := fd })
    (hR : Steady R)
    (hR' : Steady R')
    (hs : At facts own R s) :
    Meets (fun _ => At facts own R') E (sysCall (.setNotificationFd fd)) s := by
  refine meets_sysCall_at own (fun s => ⟨(), _, rfl⟩) ?_ hR hR' hs
  rintro s _ _ hat rfl
  exact ⟨hat.sound.setControl (fun hvalid => Or.inl (hfd s hat hvalid)) hat.sound.handling,
    hat.known, hat.marks, hat.own, himp _ hat.control⟩

/-- The handlers are installed, or it is recorded which one is not. -/
def Installed (facts : Recorded) (own : List (Int × Nat)) (done : Bool) (s : ProcessState) :
    Prop :=
  if done then
    At facts own QueueOpen s
  else
    ∃ signal, At (facts.mark (.unhandled signal)) own QueueOpen s

theorem lasting_installed
    (done : Bool) :
    Lasting (Installed facts own done) := by
  cases done with
  | true => exact lasting_at steady_queueOpen
  | false => exact Lasting.exists fun _ => lasting_at steady_queueOpen

theorem meets_sigaction
    (signal : ShutdownSignal)
    (hs : At facts own QueueOpen s) :
    Meets (Installed facts own) E (sysCall (.sigaction signal)) s := by
  refine meets_sysCall (k := .sigaction signal) (lasting_at steady_queueOpen) lasting_installed
    (fun s _ => ⟨true, _, rfl⟩) ?_ hs
  rintro s done _ hat rfl
  cases done with
  | true => exact hat.setControl rfl (fun _ hall => hall) (fun _ hfd => hfd) hat.control
  | false => exact ⟨signal, hat.marked rfl s.errno⟩

/-- The global variable has the number of the pipe before any signal is handled. -/
theorem meets_installShutdownHandler
    (strerror : ErrorNumber → Bytes)
    {fd : Int}
    {readEnd writeEnd : Nat}
    (hpiped : .piped readEnd writeEnd ∈ facts.known)
    (hopen : (fd, writeEnd) ∈ own)
    (hs : At facts own WorkerPool.Opening s) :
    Meets (fun _ => At facts own QueueOpen) (Blamed strerror facts own (fun _ => True))
      (installShutdownHandler fd) s := by
  have hrest : ∀ (done : Bool) (s : ProcessState), Installed facts own done s →
      Meets (fun _ => At facts own QueueOpen) (Blamed strerror facts own (fun _ => True))
        (if done then pure () else do
          sysCall (.setNotificationFd (-1))
          .throw (ascii "failed to install shutdown signal handlers")) s := by
    intro done s hs
    cases done with
    | true => exact meets_pure (lasting_at steady_queueOpen) hs
    | false =>
        obtain ⟨signal, hs⟩ := hs
        refine wp_seq (meets_setNotificationFd (fun _ _ hneg => absurd hneg (by decide))
          (fun _ _ => trivial) steady_queueOpen steady_true hs) ?_
        intro _ s hs
        exact meets_throw (lasting_blamed steady_true _) ⟨_, hs, rfl⟩
  refine wp_seq (meets_setNotificationFd ?_ (fun _ hc => hc.2) WorkerPool.steady_opening
    steady_queueOpen hs) ?_
  · intro s hat _
    exact ⟨readEnd, writeEnd, hat.known hpiped, hat.sound.lookup_of_own (hat.own ▸ hopen)⟩
  · intro _ s hs
    refine wp_seq (meets_sigaction .sigint hs) ?_
    intro first s hs
    cases first with
    | true => exact wp_seq (meets_sigaction .sigterm hs) hrest
    | false => exact wp_seq (meets_pure (lasting_installed false) hs) hrest

theorem meets_serveUntilShutdown
    (strerror : ErrorNumber → Bytes)
    (server : ServerMembers)
    {serial readEnd writeEnd : Nat}
    (hs : At (facts.learn (.piped readEnd writeEnd))
      ((server.shutdownPipe.2.fd, writeEnd) :: (server.shutdownPipe.1.fd, readEnd) ::
        (server.listener.fd.fd, serial) :: own) WorkerPool.Opening s) :
    Meets
      (fun _ => At (facts.learn (.piped readEnd writeEnd))
        ((server.shutdownPipe.2.fd, writeEnd) :: (server.shutdownPipe.1.fd, readEnd) ::
          (server.listener.fd.fd, serial) :: own) (fun _ => True))
      (Blamed strerror (facts.learn (.piped readEnd writeEnd))
        ((server.shutdownPipe.2.fd, writeEnd) :: (server.shutdownPipe.1.fd, readEnd) ::
          (server.listener.fd.fd, serial) :: own) (fun _ => True))
      (serveUntilShutdown strerror server) s := by
  refine wp_seq (meets_installShutdownHandler strerror List.mem_cons_self List.mem_cons_self hs) ?_
  intro _ s hs
  refine wp_seq_two ((meets_mayThrow (k := .printListening) (fun r => r) id (fun _ _ _ h => h)
    (fun s => ⟨.ok (), s, rfl⟩) (fun _ h => h) steady_queueOpen steady_queueOpen hs).mono
      (fun _ _ h => h) (fun _ _ h => h.mono (fun _ _ => trivial))) ?_
  intro _ s hs
  refine wp_seq (server.meets_serveForever List.mem_cons_self List.mem_cons_self hs) ?_
  intro _ s hs
  refine wp_seq (meets_setNotificationFd (fun _ _ hneg => absurd hneg (by decide))
    (fun _ _ => trivial) steady_allJoined steady_true hs) ?_
  intro _ s hs
  exact meets_mayThrow (k := .printMetrics) (fun r => r) id (fun _ _ _ h => h)
    (fun s => ⟨.ok (), s, rfl⟩) (fun _ h => h) steady_true steady_true hs

/-- The server is constructed, serves and is destroyed on every way out. -/
theorem meets_lifetime
    (strerror : ErrorNumber → Bytes)
    (server : ServerMembers)
    (hs : server.Owns facts own WorkerPool.Opening s) :
    Meets (fun _ => At facts own Control.AllJoined) (Blamed strerror facts own Control.AllJoined)
      ((serveUntilShutdown strerror server).guarded server.destruct server.destruct) s := by
  obtain ⟨⟨serial, readEnd, writeEnd, hat⟩, hlistener, hread, hwrite⟩ := hs
  refine wp_guarded ((meets_serveUntilShutdown strerror server hat).mono ?_ ?_)
  · intro _ s hat
    refine (server.meets_destruct steady_true
      ⟨⟨serial, readEnd, writeEnd, hat⟩, hlistener, hread, hwrite⟩).mono ?_ (fun _ _ h => h)
    intro _ s hs
    exact meets_pure (lasting_at steady_allJoined) hs
  · rintro what s ⟨fault, hat, htext⟩
    -- the destructor makes no mark of its own
    have howns : server.Owns (facts.mark fault) own (fun _ => True) s :=
      ⟨⟨serial, readEnd, writeEnd, hat⟩, hlistener, hread, hwrite⟩
    refine (server.meets_destruct steady_true howns).mono ?_ (fun _ _ h => h)
    intro _ s hs
    exact meets_throw (lasting_blamed steady_allJoined what) ⟨fault, hs, htext⟩

/-- An argument is accepted, or refused with the text of its parser. -/
theorem meets_argument
    {max : Nat}
    {refusal : Bytes}
    {parse : Bytes → Except Bytes Nat}
    (hparse : Parses max refusal parse)
    {argument : Option Bytes}
    {missing : Nat}
    (hmissing : 0 < missing)
    (hE : Lasting (E refusal))
    (hrefused : ∀ input ∈ argument, ¬ NumeralUpTo max input → E refusal s)
    (hs : At facts own WorkerPool.Fresh s) :
    Meets (fun value s => At facts own WorkerPool.Fresh s ∧
        (0 < value ∧ ∀ input ∈ argument, NumeralUpTo max input)) E
      (orThrow ((argument.map parse).getD (.ok missing))) s := by
  have hQ : ∀ value, Lasting (fun s => At facts own WorkerPool.Fresh s ∧
      (0 < value ∧ ∀ input ∈ argument, NumeralUpTo max input)) := fun value =>
    (lasting_at WorkerPool.steady_fresh).and (stable_const _)
  cases argument with
  | none => exact meets_pure (hQ missing) ⟨hs, hmissing, nofun⟩
  | some input =>
      change Meets _ E (orThrow (parse input)) s
      cases hresult : parse input with
      | ok value =>
          obtain ⟨hnumeral, hpositive⟩ := hparse.ok input value hresult
          refine meets_pure (hQ value) ⟨hs, hpositive, ?_⟩
          rintro _ ⟨rfl⟩
          exact hnumeral
      | error what =>
          obtain ⟨hnot, rfl⟩ := hparse.error input what hresult
          exact meets_throw hE (hrefused input rfl hnot)

/-- What has been thrown in `main`: an argument was refused, or a call has left its mark. -/
def Excused (strerror : ErrorNumber → Bytes) (args : List Bytes) (facts : Recorded)
    (own : List (Int × Nat)) (what : Bytes) (s : ProcessState) : Prop :=
  (At facts own Control.AllJoined s ∧ Refused args what) ∨
    (Blamed strerror facts own Control.AllJoined what s ∧ Accepted args)

theorem lasting_excused
    (args : List Bytes)
    (what : Bytes) :
    Lasting (Excused strerror args facts own what) :=
  ((lasting_at steady_allJoined).and (stable_const _)).or
    ((lasting_blamed steady_allJoined what).and (stable_const _))

theorem meets_mainBody
    (strerror : ErrorNumber → Bytes)
    (args : List Bytes)
    (hs : At facts own WorkerPool.Fresh s) :
    Meets (fun code s => At facts own Control.AllJoined s ∧ code = 0 ∧ Accepted args)
      (Excused strerror args facts own) (mainBody strerror args) s := by
  have hjoined : ∀ s, At facts own WorkerPool.Fresh s → At facts own Control.AllJoined s :=
    fun s hs => hs.mono (fun _ hc => hc.allJoined)
  refine wp_seq (meets_argument parses_parsePort (by decide) (lasting_excused args _) ?_ hs) ?_
  · intro input hinput hnot
    exact Or.inl ⟨hjoined s hs, .port hinput hnot⟩
  rintro port s ⟨hs, _, hport⟩
  refine wp_seq (meets_argument (parses_parsePositiveSize _) (by decide) (lasting_excused args _)
    ?_ hs) ?_
  · intro input hinput hnot
    exact Or.inl ⟨hjoined s hs, .workers hport hinput hnot⟩
  rintro workerCount s ⟨hs, hcount, hworkers⟩
  refine wp_seq (meets_argument (parses_parsePositiveSize _) (by decide) (lasting_excused args _)
    ?_ hs) ?_
  · intro input hinput hnot
    exact Or.inl ⟨hjoined s hs, .capacity hport hworkers hinput hnot⟩
  rintro queueCapacity s ⟨hs, hcapacity, hqueue⟩
  have haccepted : Accepted args := ⟨hport, hworkers, hqueue⟩
  have hblame : ∀ what s, Blamed strerror facts own Control.AllJoined what s →
      Excused strerror args facts own what s := fun what s h => Or.inr ⟨h, haccepted⟩
  refine wp_seq ((ServerMembers.meets_construct _ port 128 _ hcount hcapacity hs).mono
    (fun _ _ h => h) hblame) ?_
  intro server s howns
  refine wp_seq ((meets_lifetime strerror server howns).mono (fun _ _ h => h) hblame) ?_
  intro _ s hs
  exact meets_pure ((lasting_at steady_allJoined).and (stable_const _)) ⟨hs, rfl, haccepted⟩

/--
How `main` ends, and the marks that it leaves: at most one thing has gone wrong, and what is
reported is its text.
-/
inductive Ending (strerror : ErrorNumber → Bytes) (args : List Bytes) :
    List ProcessEvent → Nat → Prop
  | served
      (hargs : args.length < 6)
      (haccepted : Accepted args) :
      Ending strerror args [] 0
  | failed {fault : ProcessEvent} {what : Bytes}
      (hargs : args.length < 6)
      (haccepted : Accepted args)
      (htext : fault.text strerror = some what) :
      Ending strerror args [fault, .reported what] 1
  | refused {what : Bytes}
      (hargs : args.length < 6)
      (hrefused : Refused args what) :
      Ending strerror args [.reported what] 1
  | usage
      (hargs : 6 ≤ args.length) :
      Ending strerror args [] 2

/-- `main` lets no exception pass, and leaves nothing open and no thread behind. -/
theorem meets_main
    (strerror : ErrorNumber → Bytes)
    (args : List Bytes)
    (hs : At {} own WorkerPool.Fresh s) :
    Meets (fun code s => ∃ marks, At ⟨[], marks⟩ own Control.AllJoined s ∧
        Ending strerror args marks code)
      (fun _ _ => False) (main strerror args) s := by
  have hending : ∀ code, Lasting (fun s => ∃ marks, At ⟨[], marks⟩ own Control.AllJoined s ∧
      Ending strerror args marks code) := fun code =>
    Lasting.exists fun _ => (lasting_at steady_allJoined).and (stable_const _)
  unfold main
  split_ifs with hargs
  · refine wp_seq (meets_sysCall_at own (fun s => ⟨(), s, rfl⟩) ?_ steady_allJoined
      steady_allJoined (hs.mono (fun _ hc => hc.allJoined))) ?_
    · rintro s _ _ hat rfl
      exact hat
    · intro _ s hat
      exact meets_pure (hending 2) ⟨_, hat, .usage (by omega)⟩
  · refine wp_tryCatch ((meets_mainBody strerror args hs).mono ?_ ?_)
    · rintro code s ⟨hat, rfl, haccepted⟩
      exact ⟨_, hat, .served (by omega) haccepted⟩
    · intro what s hexcused
      refine wp_seq (meets_sysCall (k := .printError what) (lasting_excused args what)
        (fun _ => hending 1) (fun s _ => ⟨(), _, rfl⟩) ?_ hexcused) ?_
      · rintro s _ _ hexcused rfl
        rcases hexcused with ⟨hat, hrefused⟩ | ⟨⟨fault, hat, htext⟩, haccepted⟩
        · exact ⟨_, hat.marked rfl s.errno, .refused (by omega) hrefused⟩
        · exact ⟨_, hat.marked rfl s.errno, .failed (by omega) haccepted htext⟩
      · intro _ s hs
        exact meets_pure (hending 1) hs

end Main

section Runs

variable {os : Descriptors} {strerror : ErrorNumber → Bytes} {args : List Bytes}
variable {s : ProcessState} {p : MainProg Nat}

theorem at_start
    (hos : FdWorld.TableInv os)
    (hnodup : os.table.Nodup) :
    At {} os.table WorkerPool.Fresh (start os) where
  sound := ⟨hos, hnodup, nofun, nofun, nofun,
    fun hneg => absurd hneg (by change ¬ (0 : Int) ≤ -1; decide), nofun⟩
  known := List.nil_subset _
  marks := rfl
  own := List.filter_eq_self.2 (by simp [start])
  control := ⟨⟨⟨fun _ => rfl, rfl, nofun⟩, rfl⟩, rfl⟩

/-- What every state on the way of `main` promises. -/
theorem meets_of_run
    (hos : FdWorld.TableInv os)
    (hnodup : os.table.Nodup)
    (hrun : ReflTransGen (Step processSystem) (start os, main strerror args) (s, p)) :
    Meets (fun code s => ∃ marks, At ⟨[], marks⟩ os.table Control.AllJoined s ∧
        Ending strerror args marks code)
      (fun _ _ => False) p s :=
  (meets_main strerror args (at_start hos hnodup)).reached hrun

/--
Whatever fails and whenever a signal comes, no descriptor is closed twice, no thread is
destroyed before it has been joined, and no exception leaves `main`.  When `main` returns,
the descriptors that it has opened are closed and its threads joined; and it can always get
there.
-/
theorem main_releases
    (hos : FdWorld.TableInv os)
    (hnodup : os.table.Nodup)
    (hrun : ReflTransGen (Step processSystem) (start os, main strerror args) (s, p)) :
    (∀ number, .badClose number ∉ s.log) ∧ .terminated ∉ s.log ∧ (∀ what, p ≠ .throw what) ∧
    (∀ code, p = .pure code →
      s.own = os.table ∧ ∀ phase ∈ s.control.threads, phase = .joined) ∧
    ∃ s' code, ReflTransGen (Step processSystem) (s, p) (s', .pure code) := by
  have hmeets := meets_of_run hos hnodup hrun
  have hlog := hmeets.invariant.log
  refine ⟨fun number hbad => hlog _ hbad, fun hbad => hlog _ hbad, ?_, ?_, ?_⟩
  · rintro what rfl
    exact hmeets.threw
  · rintro code rfl
    obtain ⟨_, hat, _⟩ := hmeets.returned
    exact ⟨hat.own, hat.control⟩
  · obtain ⟨s', ⟨code, hend⟩ | ⟨what, hend⟩⟩ := hmeets.finishes
    · exact ⟨s', code, hend⟩
    · exact (hmeets.reached hend).threw.elim

/--
What a signal handler or `request_shutdown` writes goes to the write end of the shutdown
pipe, on whichever thread it is written, and nowhere else; it can fail to arrive only after
the pipe has been closed.
-/
theorem notifications_reach_pipe
    (hos : FdWorld.TableInv os)
    (hnodup : os.table.Nodup)
    (hrun : ReflTransGen (Step processSystem) (start os, main strerror args) (s, p)) :
    (∀ serial, .notified serial ∈ s.log → ∃ readEnd, .piped readEnd serial ∈ s.log) ∧
    ∀ number, .missed number ∈ s.log →
      ∃ readEnd writeEnd, .piped readEnd writeEnd ∈ s.log ∧ .closed writeEnd ∈ s.log := by
  have hlog := (meets_of_run hos hnodup hrun).invariant.log
  exact ⟨fun serial hnotified => hlog _ hnotified, fun number hmissed => hlog _ hmissed⟩

/--
The exit status tells how `main` ended.  It is 2 exactly for too many arguments; 0 only if
every argument was accepted and nothing has gone wrong; and otherwise one text has been
reported, that of the first refused argument or of the one thing that has gone wrong.
-/
theorem main_reports_cause
    (hos : FdWorld.TableInv os)
    (hnodup : os.table.Nodup)
    {code : Nat}
    (hrun : ReflTransGen (Step processSystem) (start os, main strerror args) (s, .pure code)) :
    Ending strerror args (marksOf s.log) code := by
  obtain ⟨marks, hat, hending⟩ := (meets_of_run hos hnodup hrun).returned
  rw [hat.marks]
  exact hending

section Sample

theorem run_answered
    {c : ProcessState × MainProg Nat}
    {s s' : ProcessState}
    (k : SysCall)
    {next : k.Reply → MainProg Nat}
    (r : k.Reply)
    (hrun : ReflTransGen (Step processSystem) c (s, .call k next))
    (h : Answers k s r s') :
    ReflTransGen (Step processSystem) c (s', next r) :=
  hrun.tail (.answered h)

theorem run_interrupted
    {c : ProcessState × MainProg Nat}
    {s s' : ProcessState}
    {p : MainProg Nat}
    (hrun : ReflTransGen (Step processSystem) c (s, p))
    (h : Interrupt s s') :
    ReflTransGen (Step processSystem) c (s', p) :=
  hrun.tail (.interrupted h)

/-- The text that the samples give to every error. -/
def sampleStrerror (_ : ErrorNumber) : Bytes :=
  ascii "Too many open files"

/--
Two runs that have their beginning in common: in the first the workers have been started and
there is no pipe to be had; in the second the handlers are installed and a signal comes.
-/
theorem exists_runs :
    (∃ s, ReflTransGen (Step processSystem) (start {}, main sampleStrerror []) (s, .pure 1) ∧
      s.control.threads.length = 4 ∧
      s.log = [.failed (ascii "pipe") 24, .closed 0,
        .reported (ascii "pipe: Too many open files")]) ∧
    ∃ s p, ReflTransGen (Step processSystem) (start {}, main sampleStrerror []) (s, p) ∧
      .notified 2 ∈ s.log := by
  have hstart : ReflTransGen (Step processSystem) (start {}, main sampleStrerror [])
      (start {}, main sampleStrerror []) := .refl
  have hroot := run_answered (.canonical (ascii "www")) (.ok ()) hstart rfl
  have hsocket := run_answered .socket (3 : Int) hroot (Or.inl ⟨by decide, rfl, rfl⟩)
  have hreuse := run_answered (.setReuseAddr 3) (some ()) hsocket rfl
  have haddress := run_answered (.inetPton (ascii "127.0.0.1")) true hreuse rfl
  have hbound := run_answered (.bind 3 (ascii "127.0.0.1") 8080) (some ()) haddress rfl
  have hlistens := run_answered (.listen 3 128) (some ()) hbound rfl
  have hport := run_answered (.getsockname 3) (some 8080) hlistens rfl
  have hmoved := run_answered (.destroyFd ⟨-1⟩) () hport rfl
  have hreserved := run_answered (.reserve 4) (.ok ()) hmoved rfl
  have hfirst := run_answered .startWorker (.ok ()) hreserved rfl
  have hsecond := run_answered .startWorker (.ok ()) hfirst rfl
  have hthird := run_answered .startWorker (.ok ()) hsecond rfl
  have hfourth := run_answered .startWorker (.ok ()) hthird rfl
  constructor
  · have hpipe := run_answered .pipe none hfourth ⟨24, rfl⟩
    have herrno := run_answered .errno 24 hpipe ⟨rfl, rfl⟩
    -- the destructor of the pool closes the queue, and the workers come to their end
    have hclosed := run_answered .closeQueue () herrno rfl
    have hsize := run_answered .workersSize 4 hclosed ⟨rfl, rfl⟩
    have hended := run_interrupted (run_interrupted (run_interrupted (run_interrupted hsize
      (.workerEnds (i := 0) rfl rfl)) (.workerEnds (i := 1) rfl rfl))
      (.workerEnds (i := 2) rfl rfl)) (.workerEnds (i := 3) rfl rfl)
    have hjoined := run_answered (.join 0) () (run_answered (.joinable 0) true hended
      ⟨rfl, rfl⟩) ⟨rfl, rfl⟩
    have hjoined := run_answered (.join 1) () (run_answered (.joinable 1) true hjoined
      ⟨rfl, rfl⟩) ⟨rfl, rfl⟩
    have hjoined := run_answered (.join 2) () (run_answered (.joinable 2) true hjoined
      ⟨rfl, rfl⟩) ⟨rfl, rfl⟩
    have hjoined := run_answered (.join 3) () (run_answered (.joinable 3) true hjoined
      ⟨rfl, rfl⟩) ⟨rfl, rfl⟩
    have hworkers := run_answered .destroyWorkers () hjoined rfl
    have hlistener := run_answered (.destroyFd ⟨3⟩) () hworkers rfl
    have hreported := run_answered (.printError (ascii "pipe: Too many open files")) ()
      hlistener rfl
    exact ⟨_, hreported, by decide, by decide⟩
  · have hpipe := run_answered .pipe (some (4, 5)) hfourth
      ⟨by decide, by decide, by decide, rfl, rfl, rfl⟩
    have hread := run_answered (.setCloexec 4) (some ()) hpipe rfl
    have hwrite := run_answered (.setCloexec 5) (some ()) hread rfl
    have hflags := run_answered (.getFlags 5) (some 0) hwrite rfl
    have hnonblock := run_answered (.setNonblock 5 0) (some ()) hflags rfl
    have hmovedWrite := run_answered (.destroyFd ⟨-1⟩) () hnonblock rfl
    have hmovedRead := run_answered (.destroyFd ⟨-1⟩) () hmovedWrite rfl
    have hglobal := run_answered (.setNotificationFd 5) () hmovedRead rfl
    have hsigint := run_answered (.sigaction .sigint) true hglobal rfl
    have hsigterm := run_answered (.sigaction .sigterm) true hsigint rfl
    have hsignal := run_interrupted hsigterm (.handled .sigterm 0 rfl)
    refine ⟨_, _, hsignal, ?_⟩
    decide

/-- When there is no pipe to be had, the listener is closed and the workers are joined. -/
theorem main_releases_pipeFails :
    ∃ s, ReflTransGen (Step processSystem) (start {}, main sampleStrerror []) (s, .pure 1) ∧
      .closed 0 ∈ s.log ∧ s.own = [] ∧
      s.control.threads.length = 4 ∧ ∀ phase ∈ s.control.threads, phase = .joined := by
  obtain ⟨s, hrun, hlength, hlog⟩ := exists_runs.1
  have hos : FdWorld.TableInv {} := ⟨nofun, nofun, nofun⟩
  obtain ⟨hown, hjoined⟩ := (main_releases hos List.nodup_nil hrun).2.2.2.1 1 rfl
  exact ⟨s, hrun, by simp [hlog], hown, hlength, hjoined⟩

/-- The report of that run. -/
theorem main_reports_cause_pipeFails :
    ∃ s : ProcessState,
      marksOf s.log = [.failed (ascii "pipe") 24, .reported (ascii "pipe: Too many open files")] ∧
      Ending sampleStrerror [] (marksOf s.log) 1 := by
  obtain ⟨s, hrun, _, hlog⟩ := exists_runs.1
  have hos : FdWorld.TableInv {} := ⟨nofun, nofun, nofun⟩
  exact ⟨s, by rw [hlog]; rfl, main_reports_cause hos List.nodup_nil hrun⟩

/-- The notification gets into the pipe that the server polls. -/
theorem notifications_reach_pipe_signal :
    ∃ s p, ReflTransGen (Step processSystem) (start {}, main sampleStrerror []) (s, p) ∧
      .notified 2 ∈ s.log ∧ ∃ readEnd, .piped readEnd 2 ∈ s.log := by
  obtain ⟨s, p, hrun, hnotified⟩ := exists_runs.2
  have hos : FdWorld.TableInv {} := ⟨nofun, nofun, nofun⟩
  exact ⟨s, p, hrun, hnotified,
    (notifications_reach_pipe hos List.nodup_nil hrun).1 2 hnotified⟩

end Sample

end Runs

end HttpServer
