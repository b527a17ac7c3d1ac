import Mathlib.Data.Bool.Count
import HttpServer.Shutdown

/-!
# The counters balance

The counters are updated outside the queue's mutex, by different threads and after
the events that they count.  A `Tally` says for one counter what a thread at a
program point is still to add to it, and what an event adds in the end.  What has
been counted and what is still to be counted is what has happened, modulo the range
of `std::size_t`.

* `Tally.Kept`: the steps of the threads keep a tally balanced;
* `Tally.balanced_of_run`: so it is balanced in every state that a run reaches;
* `acceptedTally`, `dispatchTally`, `ResultCounter.tally`, `errorTally` and
  `activeTally`: the counters of the server.
-/

namespace HttpServer

open Transition Threads

universe u v

section Arithmetic

theorem fetchAdd_lt
    (counter k : ℕ) :
    fetchAdd counter k < sizeBound :=
  Nat.mod_lt _ (by norm_num [sizeBound])

theorem fetchAdd_modEq
    (counter k : ℕ) :
    fetchAdd counter k ≡ counter + k [MOD sizeBound] :=
  Nat.mod_modEq _ _

theorem fetchSub_lt
    (counter k : ℕ) :
    fetchSub counter k < sizeBound :=
  Nat.mod_lt _ (by norm_num [sizeBound])

theorem fetchSub_add_modEq
    (counter : ℕ) :
    fetchSub counter 1 + 1 ≡ counter [MOD sizeBound] := by
  have hone : 1 ≤ sizeBound := by norm_num [sizeBound]
  calc
    fetchSub counter 1 + 1
      ≡ counter + (sizeBound - 1) + 1 [MOD sizeBound] := (Nat.mod_modEq _ _).add_right 1
    _ = counter + sizeBound := by omega
    _ ≡ counter [MOD sizeBound] := Nat.add_mod_right _ _

end Arithmetic

section Tallies

/-- A counter, what is still to be added to it, and what events add to it in the end. -/
structure Tally (ω : Type u) (ρ : Type v) where
  value : ServerStats → ℕ
  acceptor : AcceptorPc → ℕ := fun _ => 0
  worker : WorkerPc → ℕ := fun _ => 0
  event : ServerEvent ω ρ → ℕ := fun _ => 0

/-- The program points at which the acceptor has something to count. -/
def AcceptorPc.counts : AcceptorPc → Bool
  | .accepted _ => true
  | .pushReturned _ _ _ _ => true
  | .dispatching _ _ _ => true
  | _ => false

/-- The program points between the two updates of `active_connections_`. -/
def WorkerPc.isActive : WorkerPc → Bool
  | .looping => false
  | .popping => false
  | .popped _ => false
  | .exited => false
  | _ => true

variable {ω : Type u} {ρ : Type v}

theorem RequestStep.stats_eq
    {g g' : ServerShared}
    {pc pc' : RequestPc}
    (h : RequestStep g pc g' pc') :
    g'.stats = g.stats := by
  cases h <;> rfl

namespace Tally

variable (k : Tally ω ρ)

/-- What the events of a word add up to. -/
def sum (word : List (ServerEvent ω ρ)) : ℕ :=
  (word.map k.event).sum

@[simp] theorem sum_nil : k.sum [] = 0 := rfl

@[simp] theorem sum_append (front back : List (ServerEvent ω ρ)) :
    k.sum (front ++ back) = k.sum front + k.sum back := by
  simp [sum]

/-- A step of one thread, which has `before` to add and then `after`. -/
structure Moves (g g' : ServerShared) (before after added : ℕ) : Prop where
  lt : k.value g.stats < sizeBound → k.value g'.stats < sizeBound
  modEq : k.value g'.stats + after ≡ k.value g.stats + before + added [MOD sizeBound]

variable {k} {g g' : ServerShared} {before after added : ℕ}

theorem Moves.of_eq
    (hvalue : k.value g'.stats = k.value g.stats)
    (hsum : after = before + added) :
    k.Moves g g' before after added := by
  refine ⟨fun hlt => hvalue ▸ hlt, ?_⟩
  rw [hvalue, hsum, add_assoc]

theorem Moves.of_silent
    (hvalue : k.value g'.stats = k.value g.stats)
    (hsame : after = before)
    (hadded : added = 0) :
    k.Moves g g' before after added :=
  .of_eq hvalue (by rw [hsame, hadded, add_zero])

theorem Moves.of_add
    {n : ℕ}
    (hvalue : k.value g'.stats = fetchAdd (k.value g.stats) n)
    (hsum : n + after = before + added) :
    k.Moves g g' before after added := by
  refine ⟨fun _ => hvalue ▸ fetchAdd_lt _ _, ?_⟩
  rw [hvalue, add_assoc, ← hsum, ← add_assoc]
  exact (fetchAdd_modEq _ _).add_right after

theorem Moves.of_sub
    (hvalue : k.value g'.stats = fetchSub (k.value g.stats) 1)
    (hsum : after = before + added + 1) :
    k.Moves g g' before after added := by
  refine ⟨fun _ => hvalue ▸ fetchSub_lt _ _, ?_⟩
  rw [hvalue, hsum, ← add_assoc, add_right_comm, ← add_assoc]
  exact ((fetchSub_add_modEq _).add_right before).add_right added

variable (k)

/-- The threads count what they report. -/
structure Kept : Prop where
  acceptor : ∀ {g g' : ServerShared} {pc pc' : AcceptorPc} {word : List (ServerEvent ω ρ)},
    AcceptorStep g pc word g' pc' → k.Moves g g' (k.acceptor pc) (k.acceptor pc') (k.sum word)
  worker : ∀ {w : ω} {g g' : ServerShared} {pc pc' : WorkerPc} {word : List (ServerEvent ω ρ)},
    WorkerStep w g pc word g' pc' → k.Moves g g' (k.worker pc) (k.worker pc') (k.sum word)
  acceptorRest : ∀ pc : AcceptorPc, pc.counts = false → k.acceptor pc = 0
  workerRest : ∀ pc : WorkerPc, pc.isActive = false → k.worker pc = k.worker .looping
  pushed : ∀ client arg item item' inserted,
    k.acceptor (.pushReturned client arg item' inserted) =
      k.event (.queue (.pushReturned .acceptor item inserted))
  quiet : ∀ e : QueueEvent (ServerThread ω ρ) Fd, e.pushResult = none → k.event (.queue e) = 0
  rejected : ∀ serial, k.event (.rejected serial) = 0

variable {k} {s : ServerState ω ρ}

theorem Kept.sum_queue
    (hkept : k.Kept)
    {events : List (QueueEvent (ServerThread ω ρ) Fd)}
    (hevents : ∀ e ∈ events, e.pushResult = none) :
    k.sum (events.map .queue) = 0 := by
  rw [sum, List.sum_eq_zero]
  intro n hn
  obtain ⟨e, he, rfl⟩ := List.mem_map.1 hn
  obtain ⟨e', he', rfl⟩ := List.mem_map.1 he
  exact hkept.quiet e' (hevents e' he')

theorem Kept.sum_reports
    (hkept : k.Kept)
    {e : QueueEvent (ServerThread ω ρ) Fd}
    (he : e.pushResult = none) :
    k.sum ([e].flatMap s.reports) = 0 := by
  have hreports : [e].flatMap s.reports = [e].map .queue := by
    cases e with
    | pushReturned => cases he
    | _ => rfl
  rw [hreports]
  exact hkept.sum_queue (by simpa using he)

variable (k) [Fintype ω]

/-- What has been counted and is still to be counted is what has happened. -/
structure Balanced (base : ℕ) (trace : List (ServerEvent ω ρ)) (s : ServerState ω ρ) : Prop where
  lt : k.value s.shared.stats < sizeBound
  modEq : k.value s.shared.stats + k.acceptor s.acceptor + total k.worker s.worker ≡
    base + k.sum trace [MOD sizeBound]

variable {k} {base : ℕ} {trace word : List (ServerEvent ω ρ)} {s' : ServerState ω ρ}

/-- A step that counts nothing and reports nothing. -/
theorem Balanced.of_eq
    (h : k.Balanced base trace s)
    (hstats : s'.shared.stats = s.shared.stats)
    (hacceptor : k.acceptor s'.acceptor = k.acceptor s.acceptor)
    (hworker : ∀ w, k.worker (s'.worker w) = k.worker (s.worker w))
    (hsum : k.sum word = 0) :
    k.Balanced base (trace ++ word) s' := by
  refine ⟨hstats ▸ h.lt, ?_⟩
  rw [hstats, hacceptor, total_congr hworker, sum_append, hsum, add_zero]
  exact h.modEq

/-- A step of the acceptor. -/
theorem Balanced.of_acceptor
    (h : k.Balanced base trace s)
    (hmoves : k.Moves s.shared s'.shared (k.acceptor s.acceptor) (k.acceptor s'.acceptor)
      (k.sum word))
    (hworker : s'.worker = s.worker) :
    k.Balanced base (trace ++ word) s' := by
  refine ⟨hmoves.lt h.lt, ?_⟩
  rw [hworker, sum_append, ← add_assoc]
  calc
    k.value s'.shared.stats + k.acceptor s'.acceptor + total k.worker s.worker
      ≡ k.value s.shared.stats + k.acceptor s.acceptor + k.sum word + total k.worker s.worker
          [MOD sizeBound] := hmoves.modEq.add_right _
    _ = k.value s.shared.stats + k.acceptor s.acceptor + total k.worker s.worker + k.sum word := by
        omega
    _ ≡ base + k.sum trace + k.sum word [MOD sizeBound] := h.modEq.add_right _

/-- A step of a worker. -/
theorem Balanced.of_worker
    [DecidableEq ω]
    (h : k.Balanced base trace s)
    {w : ω}
    {pc : WorkerPc}
    (hmoves : k.Moves s.shared s'.shared (k.worker (s.worker w)) (k.worker pc) (k.sum word))
    (hacceptor : s'.acceptor = s.acceptor)
    (hworker : s'.worker = Function.update s.worker w pc) :
    k.Balanced base (trace ++ word) s' := by
  obtain ⟨rest, hbefore, hafter⟩ := exists_total_rest k.worker s.worker w
  have hmodEq := h.modEq
  refine ⟨hmoves.lt h.lt, ?_⟩
  rw [hbefore] at hmodEq
  rw [hacceptor, hworker, hafter, sum_append, ← add_assoc base]
  calc
    k.value s'.shared.stats + k.acceptor s.acceptor + (k.worker pc + rest)
      = k.value s'.shared.stats + k.worker pc + (k.acceptor s.acceptor + rest) := by omega
    _ ≡ k.value s.shared.stats + k.worker (s.worker w) + k.sum word +
          (k.acceptor s.acceptor + rest) [MOD sizeBound] := hmoves.modEq.add_right _
    _ = k.value s.shared.stats + k.acceptor s.acceptor + (k.worker (s.worker w) + rest) +
          k.sum word := by omega
    _ ≡ base + k.sum trace + k.sum word [MOD sizeBound] := hmodEq.add_right _

variable [Fintype ρ] [DecidableEq ω] [DecidableEq ρ]

omit [Fintype ω] [Fintype ρ] [DecidableEq ρ] in
/-- One worker moves between program points at which it is not active. -/
theorem Kept.worker_update
    (hkept : k.Kept)
    {w : ω}
    {pc : WorkerPc}
    (hpc : (s.worker w).isActive = false)
    (hpc' : pc.isActive = false)
    (w' : ω) :
    k.worker (Function.update s.worker w pc w') = k.worker (s.worker w') :=
  apply_update_eq ((hkept.workerRest pc hpc').trans (hkept.workerRest _ hpc).symm) w'

theorem Balanced.of_delivery
    (h : k.Balanced base trace s)
    (hkept : k.Kept)
    (hcalls : CallsInv s)
    {events : List (QueueEvent (ServerThread ω ρ) Fd)}
    {q : QueueState (ServerThread ω ρ) Fd}
    (hmove : QueueMove s.queue events q)
    (hdelivery : Delivery s q events s') :
    k.Balanced base (trace ++ events.flatMap s.reports) s' := by
  cases hdelivery with
  | quiet hreports hmethod _ =>
      refine h.of_eq rfl rfl (fun _ => rfl) ?_
      rw [hreports]
      refine hkept.sum_queue (hmove.change.quiet_events (fun t => ?_))
      rw [hmethod, hcalls.method]
  | @accepted client arg item hpc _ _ =>
      refine h.of_acceptor (.of_eq rfl ?_) rfl
      rw [hpc, hkept.acceptorRest (.pushing client arg) rfl, zero_add]
      simpa [sum, ServerState.reports] using hkept.pushed client arg item item.movedFrom true
  | @rejected client arg item hpc _ _ =>
      refine h.of_acceptor (.of_eq rfl ?_) rfl
      rw [hpc, hkept.acceptorRest (.pushing client arg) rfl, zero_add]
      simpa [sum, ServerState.reports, hkept.rejected] using hkept.pushed client arg item item false
  | popped hpc _ _ =>
      exact h.of_eq rfl rfl (hkept.worker_update (by rw [hpc]; rfl) rfl)
        (hkept.sum_reports rfl)
  | drained hpc _ _ =>
      exact h.of_eq rfl rfl (hkept.worker_update (by rw [hpc]; rfl) rfl)
        (hkept.sum_reports rfl)
  | requestClosed =>
      exact h.of_eq rfl rfl (fun _ => rfl) (hkept.sum_reports rfl)
  | poolClosed hpc _ _ =>
      refine h.of_eq rfl ?_ (fun _ => rfl) (hkept.sum_reports rfl)
      rw [hpc, hkept.acceptorRest _ rfl, hkept.acceptorRest _ rfl]

theorem Balanced.step
    (h : k.Balanced base trace s)
    (hkept : k.Kept)
    (hcalls : CallsInv s)
    (hstep : ServerStep s word s') :
    k.Balanced base (trace ++ word) s' := by
  have hrest : ∀ {pc pc' : AcceptorPc}, s.acceptor = pc → pc.counts = false → pc'.counts = false →
      k.acceptor pc' = k.acceptor s.acceptor := by
    rintro pc pc' rfl hpc hpc'
    rw [hkept.acceptorRest _ hpc, hkept.acceptorRest _ hpc']
  cases hstep with
  | environment henv =>
      refine h.of_eq ?_ rfl (fun _ => rfl) rfl
      cases henv <;> rfl
  | queueMoves hmove => exact h.of_delivery hkept hcalls hmove (hcalls.delivery hmove)
  | acceptor hstep => exact h.of_acceptor (hkept.acceptor hstep) rfl
  | worker hstep => exact h.of_worker (hkept.worker hstep) rfl rfl
  | request hstep => exact h.of_eq hstep.stats_eq rfl (fun _ => rfl) rfl
  | callsPush hpc => exact h.of_eq rfl (hrest hpc rfl rfl) (fun _ => rfl) rfl
  | callsPop hpc =>
      exact h.of_eq rfl rfl (hkept.worker_update (by rw [hpc]; rfl) rfl) rfl
  | requestStarts => exact h.of_eq rfl rfl (fun _ => rfl) rfl
  | pipeReady hpc => exact h.of_eq rfl (hrest hpc rfl rfl) (fun _ => rfl) rfl
  | destructs hpc => exact h.of_eq rfl (hrest hpc rfl rfl) (fun _ => rfl) rfl
  | exchangesFirst => exact h.of_eq rfl rfl (fun _ => rfl) rfl
  | requestReturns hpc => exact h.of_eq rfl (hrest hpc rfl rfl) (fun _ => rfl) rfl
  | closesPool hpc => exact h.of_eq rfl (hrest hpc rfl rfl) (fun _ => rfl) rfl
  | joins hpc => exact h.of_eq rfl (hrest hpc rfl rfl) (fun _ => rfl) rfl

/-- A counter that starts at zero is balanced in every state that a run reaches. -/
theorem balanced_of_run
    (hkept : k.Kept)
    (hzero : k.value {} = 0)
    {q : BoundedQueue Fd}
    (hrun : Run ServerStep (ServerState.start ω ρ q) trace s) :
    k.Balanced (Fintype.card ω * k.worker .looping) trace s := by
  have hmain := hrun.invariant (fun trace s => CallsInv s ∧
    k.Balanced (Fintype.card ω * k.worker .looping) trace s) ?_ ?_
  · exact hmain.2
  · refine ⟨callsInv_start q, ?_, ?_⟩
    · rw [show (ServerState.start ω ρ q).shared.stats = {} from rfl, hzero]
      norm_num [sizeBound]
    · rw [show (ServerState.start ω ρ q).shared.stats = {} from rfl, hzero,
        show (ServerState.start ω ρ q).acceptor = .checking from rfl,
        hkept.acceptorRest .checking rfl]
      simp only [total, ServerState.start, Finset.sum_const, Finset.card_univ, smul_eq_mul,
        zero_add, sum_nil, add_zero]
      exact Nat.ModEq.refl _
  · rintro trace s word s' ⟨hcalls, hbalanced⟩ hstep
    exact ⟨hcalls.step hstep, hbalanced.step hkept hcalls hstep⟩

end Tally

end Tallies

section Counters

variable {ω : Type u} {ρ : Type v}

/-- Closing descriptors counts for nothing. -/
theorem sum_destroyEvents
    {k : Tally ω ρ}
    (hclosed : ∀ c, k.event (.descriptor (.closed c)) = 0)
    (hbad : ∀ n, k.event (.descriptor (.badClose n)) = 0)
    (g : ServerShared)
    (f : Fd) :
    k.sum (g.destroyEvents f) = 0 := by
  simp only [ServerShared.destroyEvents, Fd.destroy, Fd.reset, Descriptors.close]
  split_ifs
  · split
    · simp [Tally.sum, hclosed]
    · simp [Tally.sum, hbad]
  · rfl

/-- A counter that the workers have nothing to do with. -/
structure Tally.IgnoresWorkers (k : Tally ω ρ) : Prop where
  record : ∀ stats result, k.value (stats.recordResult result) = k.value stats
  frame : ∀ (stats : ServerStats) active errors,
    k.value { stats with activeConnections := active, workerErrors := errors } = k.value stats
  worker : ∀ pc, k.worker pc = 0
  closed : ∀ c, k.event (.descriptor (.closed c)) = 0
  badClose : ∀ n, k.event (.descriptor (.badClose n)) = 0
  constructed : ∀ w serial, k.event (.constructed w serial) = 0
  constructorThrew : ∀ w serial, k.event (.constructorThrew w serial) = 0
  serveReturned : ∀ w serial result, k.event (.serveReturned w serial result) = 0
  serveThrew : ∀ w serial, k.event (.serveThrew w serial) = 0

theorem Tally.IgnoresWorkers.moves
    {k : Tally ω ρ}
    (hk : k.IgnoresWorkers)
    {w : ω}
    {g g' : ServerShared}
    {pc pc' : WorkerPc}
    {word : List (ServerEvent ω ρ)}
    (h : WorkerStep w g pc word g' pc') :
    k.Moves g g' (k.worker pc) (k.worker pc') (k.sum word) := by
  have hdestroyed := sum_destroyEvents hk.closed hk.badClose g
  rw [hk.worker, hk.worker]
  cases h with
  | countsActive => exact .of_eq (hk.frame g.stats _ _) rfl
  | constructs => exact .of_silent rfl rfl (by simp [Tally.sum, hk.constructed])
  | constructorThrows => exact .of_silent rfl rfl (by simp [Tally.sum, hk.constructorThrew])
  | serveReturns => exact .of_silent rfl rfl (by simp [Tally.sum, hk.serveReturned])
  | serveThrows => exact .of_silent rfl rfl (by simp [Tally.sum, hk.serveThrew])
  | recordsResult => exact .of_eq (hk.record g.stats _) rfl
  | destroysConnection => exact .of_silent rfl rfl (hdestroyed _)
  | unwinds => exact .of_silent rfl rfl (hdestroyed _)
  | countsError => exact .of_eq (hk.frame g.stats _ _) rfl
  | finishes => exact .of_silent (hk.frame g.stats _ _) rfl (hdestroyed _)

/-- A counter that the acceptor has nothing to do with. -/
structure Tally.IgnoresAcceptor (k : Tally ω ρ) : Prop where
  frame : ∀ (stats : ServerStats) accepted dispatched rejected,
    k.value { stats with
      acceptedConnections := accepted
      dispatchedConnections := dispatched
      rejectedDispatches := rejected } = k.value stats
  acceptor : ∀ pc, k.acceptor pc = 0
  descriptor : ∀ e, k.event (.descriptor e) = 0

theorem Tally.IgnoresAcceptor.moves
    {k : Tally ω ρ}
    (hk : k.IgnoresAcceptor)
    {g g' : ServerShared}
    {pc pc' : AcceptorPc}
    {word : List (ServerEvent ω ρ)}
    (h : AcceptorStep g pc word g' pc') :
    k.Moves g g' (k.acceptor pc) (k.acceptor pc') (k.sum word) := by
  have hdestroyed := sum_destroyEvents (fun c => hk.descriptor (.closed c))
    (fun n => hk.descriptor (.badClose n)) g
  rw [hk.acceptor, hk.acceptor]
  cases h with
  | accepts => exact .of_silent rfl rfl (by simp [Tally.sum, hk.descriptor])
  | countsAccepted => exact .of_eq (hk.frame g.stats _ _ _) rfl
  | destroysItem => exact .of_silent rfl rfl (hdestroyed _)
  | @countsDispatch _ _ inserted =>
      refine .of_silent ?_ rfl (hdestroyed _)
      cases inserted with
      | true => exact hk.frame g.stats _ _ _
      | false => exact hk.frame g.stats _ _ _
  | serveOneReturns => exact .of_silent rfl rfl (hdestroyed _)
  | _ => exact .of_eq rfl rfl

/-- The clients that `accept` has returned. -/
def acceptedTally : Tally ω ρ where
  value stats := stats.acceptedConnections
  acceptor
    | .accepted _ => 1
    | _ => 0
  event
    | .descriptor (.accepted _ _) => 1
    | _ => 0

/-- The clients whose dispatch had a result. -/
def dispatchTally (inserted : Bool) : Tally ω ρ where
  value stats := if inserted then stats.dispatchedConnections else stats.rejectedDispatches
  acceptor
    | .pushReturned _ _ _ result => (result == inserted).toNat
    | .dispatching _ _ result => (result == inserted).toNat
    | _ => 0
  event
    | .queue (.pushReturned _ _ result) => (result == inserted).toNat
    | _ => 0

/-- A counter that only `record_result` adds to, and what it adds for a result. -/
structure ResultCounter where
  value : ServerStats → ℕ
  weight : ConnectionResult → ℕ
  record : ∀ stats result,
    value (stats.recordResult result) = fetchAdd (value stats) (weight result) ∨
      value (stats.recordResult result) = value stats ∧ weight result = 0
  frame : ∀ (stats : ServerStats) accepted dispatched rejected active errors,
    value { stats with
      acceptedConnections := accepted
      dispatchedConnections := dispatched
      rejectedDispatches := rejected
      activeConnections := active
      workerErrors := errors } = value stats

def ResultCounter.tally (counter : ResultCounter) : Tally ω ρ where
  value := counter.value
  worker
    | .recording _ _ result => counter.weight result
    | _ => 0
  event
    | .serveReturned _ _ result => counter.weight result
    | _ => 0

/-- The exceptions that workers have caught. -/
def errorTally : Tally ω ρ where
  value stats := stats.workerErrors
  worker
    | .unwinding _ _ => 1
    | .caught _ => 1
    | _ => 0
  event
    | .constructorThrew _ _ => 1
    | .serveThrew _ _ => 1
    | _ => 0

/-- The active workers and the others are all workers. -/
def activeTally : Tally ω ρ where
  value stats := stats.activeConnections
  worker pc := (!pc.isActive).toNat

theorem acceptedTally_kept :
    (acceptedTally : Tally ω ρ).Kept where
  acceptor := by
    intro g g' pc pc' word h
    have hdestroyed := sum_destroyEvents (k := (acceptedTally : Tally ω ρ)) (fun _ => rfl)
      (fun _ => rfl) g
    cases h with
    | countsAccepted => exact .of_add rfl rfl
    | destroysItem => exact .of_silent rfl rfl (hdestroyed _)
    | @countsDispatch _ _ inserted =>
        refine .of_silent ?_ rfl (hdestroyed _)
        cases inserted <;> rfl
    | serveOneReturns =>
        refine .of_eq rfl ?_
        rw [hdestroyed]
        split_ifs <;> rfl
    | _ => exact .of_eq rfl rfl
  worker := Tally.IgnoresWorkers.moves
    ⟨fun _ _ => rfl, fun _ _ _ => rfl, fun _ => rfl, fun _ => rfl, fun _ => rfl, fun _ _ => rfl,
      fun _ _ => rfl, fun _ _ _ => rfl, fun _ _ => rfl⟩
  acceptorRest := by
    intro pc hpc
    cases pc with
    | accepted => cases hpc
    | _ => rfl
  workerRest := fun _ _ => rfl
  pushed := fun _ _ _ _ _ => rfl
  quiet := fun _ _ => rfl
  rejected := fun _ => rfl

theorem dispatchTally_kept
    (inserted : Bool) :
    (dispatchTally inserted : Tally ω ρ).Kept where
  acceptor := by
    intro g g' pc pc' word h
    have hdestroyed := sum_destroyEvents (k := (dispatchTally inserted : Tally ω ρ)) (fun _ => rfl)
      (fun _ => rfl) g
    cases h with
    | destroysItem => exact .of_silent rfl rfl (hdestroyed _)
    | @countsDispatch _ _ result =>
        by_cases hresult : result = inserted
        · subst hresult
          refine .of_add (n := 1) ?_ ?_
          · cases result <;> simp [dispatchTally, ServerStats.countDispatch]
          · rw [hdestroyed]
            simp [dispatchTally]
        · refine .of_eq ?_ ?_
          · cases inserted with
            | true =>
                rw [Bool.eq_false_of_not_eq_true hresult]
                rfl
            | false =>
                rw [Bool.eq_true_of_not_eq_false hresult]
                rfl
          · rw [hdestroyed]
            simp [dispatchTally, beq_eq_false_iff_ne.2 hresult]
    | serveOneReturns =>
        refine .of_eq rfl ?_
        rw [hdestroyed]
        split_ifs <;> rfl
    | _ => exact .of_eq rfl rfl
  worker := Tally.IgnoresWorkers.moves
    ⟨fun _ _ => rfl, fun _ _ _ => rfl, fun _ => rfl, fun _ => rfl, fun _ => rfl, fun _ _ => rfl,
      fun _ _ => rfl, fun _ _ _ => rfl, fun _ _ => rfl⟩
  acceptorRest := by
    intro pc hpc
    cases pc with
    | pushReturned => cases hpc
    | dispatching => cases hpc
    | _ => rfl
  workerRest := fun _ _ => rfl
  pushed := fun _ _ _ _ _ => rfl
  quiet := by
    intro e he
    cases e with
    | pushReturned => cases he
    | _ => rfl
  rejected := fun _ => rfl

theorem ResultCounter.tally_kept
    (counter : ResultCounter) :
    (counter.tally : Tally ω ρ).Kept where
  acceptor := Tally.IgnoresAcceptor.moves
    ⟨fun stats _ _ _ => counter.frame stats _ _ _ _ _, fun _ => rfl, fun _ => rfl⟩
  worker := by
    intro w g g' pc pc' word h
    have hdestroyed := sum_destroyEvents (k := (counter.tally : Tally ω ρ)) (fun _ => rfl)
      (fun _ => rfl) g
    cases h with
    | countsActive => exact .of_eq (counter.frame g.stats _ _ _ _ _) rfl
    | serveReturns => exact .of_eq rfl (by simp [Tally.sum, ResultCounter.tally])
    | @recordsResult _ _ result =>
        rcases counter.record g.stats result with hadds | ⟨hsame, hzero⟩
        · exact .of_add hadds rfl
        · exact .of_eq hsame hzero.symm
    | destroysConnection => exact .of_silent rfl rfl (hdestroyed _)
    | unwinds => exact .of_silent rfl rfl (hdestroyed _)
    | countsError => exact .of_eq (counter.frame g.stats _ _ _ _ _) rfl
    | finishes => exact .of_silent (counter.frame g.stats _ _ _ _ _) rfl (hdestroyed _)
    | _ => exact .of_eq rfl rfl
  acceptorRest := fun _ _ => rfl
  workerRest := by
    intro pc hpc
    cases pc with
    | recording => cases hpc
    | _ => rfl
  pushed := fun _ _ _ _ _ => rfl
  quiet := fun _ _ => rfl
  rejected := fun _ => rfl

theorem errorTally_kept :
    (errorTally : Tally ω ρ).Kept where
  acceptor := Tally.IgnoresAcceptor.moves ⟨fun _ _ _ _ => rfl, fun _ => rfl, fun _ => rfl⟩
  worker := by
    intro w g g' pc pc' word h
    have hdestroyed := sum_destroyEvents (k := (errorTally : Tally ω ρ)) (fun _ => rfl)
      (fun _ => rfl) g
    have hframe : ∀ (stats : ServerStats) active, (errorTally : Tally ω ρ).value
        { stats with activeConnections := active } = stats.workerErrors := fun _ _ => rfl
    cases h with
    | countsActive => exact .of_eq (hframe g.stats _) rfl
    | destroysConnection => exact .of_silent rfl rfl (hdestroyed _)
    | unwinds => exact .of_silent rfl rfl (hdestroyed _)
    | countsError => exact .of_add rfl rfl
    | finishes => exact .of_silent (hframe g.stats _) rfl (hdestroyed _)
    | _ => exact .of_eq rfl rfl
  acceptorRest := fun _ _ => rfl
  workerRest := by
    intro pc hpc
    cases pc with
    | unwinding => cases hpc
    | caught => cases hpc
    | _ => rfl
  pushed := fun _ _ _ _ _ => rfl
  quiet := fun _ _ => rfl
  rejected := fun _ => rfl

theorem activeTally_kept :
    (activeTally : Tally ω ρ).Kept where
  acceptor := Tally.IgnoresAcceptor.moves ⟨fun _ _ _ _ => rfl, fun _ => rfl, fun _ => rfl⟩
  worker := by
    intro w g g' pc pc' word h
    have hdestroyed := sum_destroyEvents (k := (activeTally : Tally ω ρ)) (fun _ => rfl)
      (fun _ => rfl) g
    cases h with
    | countsActive => exact .of_add rfl rfl
    | destroysConnection => exact .of_silent rfl rfl (hdestroyed _)
    | unwinds => exact .of_silent rfl rfl (hdestroyed _)
    | finishes =>
        refine .of_sub ?_ ?_
        · simp only [activeTally]
        · rw [hdestroyed]
          rfl
    | _ => exact .of_eq rfl rfl
  acceptorRest := fun _ _ => rfl
  workerRest := by
    intro pc hpc
    simp only [activeTally, hpc]
    rfl
  pushed := fun _ _ _ _ _ => rfl
  quiet := fun _ _ => rfl
  rejected := fun _ => rfl

end Counters

section Histories

variable {ω : Type u} {ρ : Type v}

def ServerEvent.returnedResult : ServerEvent ω ρ → Option ConnectionResult
  | .serveReturned _ _ result => some result
  | _ => none

/-- The results of the connections that have been served to the end. -/
def returnedResults (trace : List (ServerEvent ω ρ)) : List ConnectionResult :=
  trace.filterMap ServerEvent.returnedResult

/-- The nine reasons for which a connection ends. -/
def endReasons : List ConnectionEndReason :=
  [.peerClosed, .connectionClose, .requestLimit, .parseError, .readTimeout, .keepAliveTimeout,
    .writeTimeout, .readError, .writeError]

def completedCounter : ResultCounter where
  value stats := stats.completedConnections
  weight _ := 1
  record _ _ := Or.inl rfl
  frame _ _ _ _ _ _ := rfl

def requestsCounter : ResultCounter where
  value stats := stats.requestsServed
  weight result := result.requestsServed
  record _ _ := Or.inl rfl
  frame _ _ _ _ _ _ := rfl

def bytesReadCounter : ResultCounter where
  value stats := stats.bytesRead
  weight result := result.bytesRead
  record _ _ := Or.inl rfl
  frame _ _ _ _ _ _ := rfl

def bytesWrittenCounter : ResultCounter where
  value stats := stats.bytesWritten
  weight result := result.bytesWritten
  record _ _ := Or.inl rfl
  frame _ _ _ _ _ _ := rfl

/-- One of the nine counters of end reasons. -/
def endCounter (reason : ConnectionEndReason) : ResultCounter where
  value stats := stats.ends reason
  weight result := if result.reason = reason then 1 else 0
  record stats result := by
    by_cases hreason : result.reason = reason
    · subst hreason
      exact Or.inl (by simp [ServerStats.recordResult])
    · exact Or.inr ⟨Function.update_of_ne (Ne.symm hreason) _ _, if_neg hreason⟩
  frame _ _ _ _ _ _ := rfl

/-- A tally that weighs the events of a kind. -/
theorem Tally.sum_eq
    {k : Tally ω ρ}
    {γ : Type*}
    (kind : ServerEvent ω ρ → Option γ)
    (weight : γ → ℕ)
    (hevent : ∀ e, k.event e = ((kind e).map weight).getD 0)
    (trace : List (ServerEvent ω ρ)) :
    k.sum trace = ((trace.filterMap kind).map weight).sum := by
  induction trace with
  | nil => rfl
  | cons e trace ih =>
      have hcons : k.sum (e :: trace) = k.event e + k.sum trace := rfl
      rw [hcons, ih, hevent]
      cases hkind : kind e with
      | none => simp [hkind]
      | some x => simp [hkind]

theorem sum_acceptedTally
    (trace : List (ServerEvent ω ρ)) :
    (acceptedTally : Tally ω ρ).sum trace =
      (Lifecycle.serials Lifecycle.Event.admittedSerial
        (trace.filterMap ServerEvent.life)).card := by
  rw [Tally.sum_eq (fun e => e.life.bind Lifecycle.Event.admittedSerial) (fun _ => 1),
    Lifecycle.serials, List.filterMap_filterMap, Multiset.coe_card]
  · simp
  · intro e
    rcases e with
      _ | ⟨_ | _ | _⟩ | ⟨_ | _⟩ | ⟨_, _ | _⟩ | ⟨_, _ | _⟩ | ⟨_, _ | _, _⟩ | ⟨_, _ | _⟩ <;> rfl

theorem sum_dispatchTally
    (inserted : Bool)
    (trace : List (ServerEvent ω ρ)) :
    (dispatchTally inserted : Tally ω ρ).sum trace = (dispatchResults trace).count inserted := by
  rw [Tally.sum_eq ServerEvent.dispatchResult (fun result => (result == inserted).toNat)]
  · change ((dispatchResults trace).map _).sum = _
    induction dispatchResults trace with
    | nil => rfl
    | cons result rest ih =>
        rw [List.map_cons, List.sum_cons, ih, List.count_cons, add_comm]
        cases result == inserted <;> rfl
  · intro e
    rcases e with (_ | _ | _ | _ | _ | _ | _) | _ | _ | _ | _ | _ | _ <;> rfl

theorem ResultCounter.sum_tally
    (counter : ResultCounter)
    (trace : List (ServerEvent ω ρ)) :
    (counter.tally : Tally ω ρ).sum trace = ((returnedResults trace).map counter.weight).sum := by
  refine Tally.sum_eq ServerEvent.returnedResult counter.weight ?_ trace
  intro e
  cases e <;> rfl

theorem length_filterMap_cons
    {β γ : Type*}
    (f : β → Option γ)
    (e : β)
    (rest : List β) :
    ((e :: rest).filterMap f).length = (f e).toList.length + (rest.filterMap f).length := by
  cases h : f e with
  | none => simp [h]
  | some x => simp [h, add_comm]

/-- A connection that has ended has returned a result or thrown. -/
theorem length_endedSerials
    {trace : List (ServerEvent ω ρ)}
    (hregular : ∀ e ∈ trace, e.Regular) :
    (endedSerials trace).length =
      (returnedResults trace).length + (errorTally : Tally ω ρ).sum trace := by
  have hone : ∀ e : ServerEvent ω ρ, e.Regular → e.endedSerial.toList.length =
      e.returnedResult.toList.length + errorTally.event e := by
    intro e he
    rcases e with _ | _ | _ | _ | ⟨_, _ | _⟩ | ⟨_, _ | _, _⟩ | ⟨_, _ | _⟩ <;>
      first | rfl | exact he.elim
  unfold endedSerials returnedResults
  induction trace with
  | nil => rfl
  | cons e trace ih =>
      have hhead := hone e (hregular e List.mem_cons_self)
      have hrest := ih (fun e' he' => hregular e' (List.mem_cons_of_mem e he'))
      have hcons : (errorTally : Tally ω ρ).sum (e :: trace) =
          errorTally.event e + (errorTally : Tally ω ρ).sum trace := rfl
      rw [length_filterMap_cons, length_filterMap_cons, hcons]
      omega

/-- Every result has one of the nine reasons. -/
theorem sum_endCounters
    (results : List ConnectionResult) :
    (endReasons.map (fun reason => (results.map (endCounter reason).weight).sum)).sum =
      results.length := by
  induction results with
  | nil => rfl
  | cons result results ih =>
      have hone : (endReasons.map (fun reason => (endCounter reason).weight result)).sum = 1 := by
        change (endReasons.map (fun reason => if result.reason = reason then 1 else 0)).sum = 1
        cases result.reason <;> rfl
      simp only [List.map_cons, List.sum_cons, List.sum_map_add, ih, hone, List.length_cons]
      omega

end Histories

section Results

variable {ω : Type u} {ρ : Type v} [Fintype ω] [Fintype ρ] [DecidableEq ω] [DecidableEq ρ]
  {trace : List (ServerEvent ω ρ)} {s : ServerState ω ρ} {q : BoundedQueue Fd}

/-- Once the workers have been joined a counter has counted everything. -/
theorem Tally.value_of_returned
    {k : Tally ω ρ}
    (hkept : k.Kept)
    (hzero : k.value {} = 0)
    (hrun : Run ServerStep (ServerState.start ω ρ q) trace s)
    (hreturned : s.acceptor = .returned)
    (hexited : ∀ w, s.worker w = .exited) :
    k.value s.shared.stats = k.sum trace % sizeBound := by
  have hbalanced := balanced_of_run hkept hzero hrun
  have hworkers : total k.worker s.worker = Fintype.card ω * k.worker .looping := by
    rw [total, Finset.sum_congr rfl (fun w _ => by rw [hexited w, hkept.workerRest .exited rfl])]
    simp
  have hmodEq := hbalanced.modEq
  rw [hreturned, hkept.acceptorRest .returned rfl, add_zero, hworkers, add_comm] at hmodEq
  have hvalue := Nat.ModEq.add_left_cancel' _ hmodEq
  rwa [Nat.ModEq, Nat.mod_eq_of_lt hbalanced.lt] at hvalue

/-- The counter of active connections is the number of active workers. -/
theorem activeConnections_eq
    (hcard : Fintype.card ω < sizeBound)
    (hrun : Run ServerStep (ServerState.start ω ρ q) trace s) :
    s.shared.stats.activeConnections = count WorkerPc.isActive s.worker := by
  have hbalanced := Tally.balanced_of_run (activeTally_kept (ω := ω) (ρ := ρ)) rfl hrun
  have hall : count WorkerPc.isActive s.worker +
      total (fun pc => (!pc.isActive).toNat) s.worker = Fintype.card ω := by
    have hone : ∀ w, (s.worker w).isActive.toNat + (!(s.worker w).isActive).toNat = 1 := by
      intro w
      cases (s.worker w).isActive <;> rfl
    rw [count, total, total, ← Finset.sum_add_distrib, Finset.sum_congr rfl (fun w _ => hone w)]
    simp
  have hsum : (activeTally : Tally ω ρ).sum trace = 0 := by
    simp [Tally.sum, activeTally]
  have hmodEq : s.shared.stats.activeConnections +
      total (fun pc => (!pc.isActive).toNat) s.worker ≡ Fintype.card ω [MOD sizeBound] := by
    have hbalance := hbalanced.modEq
    rw [hsum] at hbalance
    simpa [activeTally, WorkerPc.isActive] using hbalance
  rw [← hall] at hmodEq
  refine Nat.ModEq.eq_of_lt_of_lt (Nat.ModEq.add_right_cancel' _ hmodEq) hbalanced.lt ?_
  omega

omit [Fintype ω] [Fintype ρ] [DecidableEq ω] [DecidableEq ρ] in
theorem mem_rejectedSerials
    (c : ℕ) :
    c ∈ rejectedSerials trace ↔ .rejected (some c) ∈ trace := by
  rw [rejectedSerials, List.mem_filterMap]
  constructor
  · rintro ⟨e, he, hserial⟩
    cases e with
    | rejected serial =>
        rw [show serial = some c from hserial] at he
        exact he
    | _ => cases hserial
  · intro he
    exact ⟨_, he, rfl⟩

omit [Fintype ω] [Fintype ρ] [DecidableEq ω] [DecidableEq ρ] in
/-- The accepted clients are those below the next serial number. -/
theorem accepted_iff_lt
    {a : Lifecycle.State Int}
    (hsound : Lifecycle.Sound (trace.filterMap ServerEvent.life) a)
    (c : ℕ) :
    (∃ number, .descriptor (.accepted c number) ∈ trace) ↔ c < a.next := by
  rw [← Multiset.mem_range, ← hsound.admitted, Lifecycle.serials, List.filterMap_filterMap,
    Multiset.mem_coe, List.mem_filterMap]
  constructor
  · rintro ⟨number, he⟩
    exact ⟨_, he, rfl⟩
  · rintro ⟨e, he, hserial⟩
    rcases e with
      _ | ⟨c' | _ | _⟩ | ⟨_ | _⟩ | ⟨_, _ | _⟩ | ⟨_, _ | _⟩ | ⟨_, _ | _, _⟩ | ⟨_, _ | _⟩
    all_goals cases hserial
    exact ⟨_, he⟩

/-- What the counters say once the server has stopped. -/
structure ServerStats.Settled (stats : ServerStats) (results : List ConnectionResult) : Prop where
  accepted : stats.acceptedConnections =
    (stats.dispatchedConnections + stats.rejectedDispatches) % sizeBound
  dispatched : stats.dispatchedConnections =
    (stats.completedConnections + stats.workerErrors) % sizeBound
  active : stats.activeConnections = 0
  completed : stats.completedConnections = (endReasons.map stats.ends).sum % sizeBound
  requestsServed : stats.requestsServed =
    (results.map ConnectionResult.requestsServed).sum % sizeBound
  bytesRead : stats.bytesRead = (results.map ConnectionResult.bytesRead).sum % sizeBound
  bytesWritten : stats.bytesWritten = (results.map ConnectionResult.bytesWritten).sum % sizeBound

theorem sum_mod_eq
    (values : List ℕ) :
    (values.map (· % sizeBound)).sum % sizeBound = values.sum % sizeBound := by
  induction values with
  | nil => rfl
  | cons n values ih =>
      rw [List.map_cons, List.sum_cons, List.sum_cons, Nat.mod_add_mod, Nat.add_mod, ih,
        ← Nat.add_mod]

theorem settled_of_returned
    (hcard : Fintype.card ω < sizeBound)
    (hrun : Run ServerStep (ServerState.start ω ρ q) trace s)
    (hreturned : s.acceptor = .returned)
    (hexited : ∀ w, s.worker w = .exited)
    (haccepted : (acceptedTally : Tally ω ρ).sum trace = (dispatchResults trace).length)
    (hended : (dispatchResults trace).count true =
      (returnedResults trace).length + (errorTally : Tally ω ρ).sum trace) :
    s.shared.stats.Settled (returnedResults trace) := by
  have hresult : ∀ counter : ResultCounter, counter.value {} = 0 → counter.value s.shared.stats =
      ((returnedResults trace).map counter.weight).sum % sizeBound := by
    intro counter hzero
    rw [← counter.sum_tally]
    exact Tally.value_of_returned counter.tally_kept hzero hrun hreturned hexited
  have hcompleted : s.shared.stats.completedConnections =
      (returnedResults trace).length % sizeBound := by
    have hvalue := hresult completedCounter rfl
    simpa [completedCounter] using hvalue
  have herrors : s.shared.stats.workerErrors = (errorTally : Tally ω ρ).sum trace % sizeBound :=
    Tally.value_of_returned errorTally_kept rfl hrun hreturned hexited
  have hdispatched : s.shared.stats.dispatchedConnections =
      (dispatchResults trace).count true % sizeBound := by
    rw [← sum_dispatchTally]
    exact Tally.value_of_returned (dispatchTally_kept true) rfl hrun hreturned hexited
  have hrejected : s.shared.stats.rejectedDispatches =
      (dispatchResults trace).count false % sizeBound := by
    rw [← sum_dispatchTally]
    exact Tally.value_of_returned (dispatchTally_kept false) rfl hrun hreturned hexited
  refine ⟨?_, ?_, ?_, ?_, hresult requestsCounter rfl, hresult bytesReadCounter rfl,
    hresult bytesWrittenCounter rfl⟩
  · have hvalue : s.shared.stats.acceptedConnections = _ :=
      Tally.value_of_returned acceptedTally_kept rfl hrun hreturned hexited
    rw [hvalue, haccepted, hdispatched, hrejected, ← Nat.add_mod, List.count_true_add_count_false]
  · rw [hdispatched, hended, hcompleted, herrors, ← Nat.add_mod]
  · rw [activeConnections_eq hcard hrun, count_eq_zero_iff]
    intro w
    rw [hexited w]
    rfl
  · have hends : s.shared.stats.ends = fun reason =>
        ((returnedResults trace).map (endCounter reason).weight).sum % sizeBound := by
      funext reason
      exact hresult (endCounter reason) rfl
    rw [hcompleted, ← sum_endCounters, ← sum_mod_eq, List.map_map, hends]
    rfl

/--
In every state that a run of the server reaches: the queue is closed only after
shutdown has been requested, so no `serve_one` throws because of it; the counter
of active connections is the number of active workers and is positive whenever a
worker subtracts from it; and a client whose dispatch was refused is not served.
Once the acceptor has joined the workers: the queue is empty, every client that
was dispatched has come to its end with one worker, and the counters balance.
-/
theorem graceful_shutdown
    [Nonempty ω]
    {capacity : ℕ}
    (hmake : BoundedQueue.make capacity = .ok q)
    (hcard : Fintype.card ω < sizeBound)
    (hrun : Run ServerStep (ServerState.start ω ρ q) trace s) :
    (s.queue.shared.closed = true → s.shared.shutdownRequested = true) ∧
    (∀ word s', ServerStep s word s' → ∀ client inserted,
      s.acceptor = .dispatched client inserted → s'.acceptor ≠ .threw) ∧
    s.shared.stats.activeConnections = count WorkerPc.isActive s.worker ∧
    s.shared.stats.activeConnections ≤ Fintype.card ω ∧
    (∀ w client, s.worker w = .finishing client → 0 < s.shared.stats.activeConnections) ∧
    (∀ c, (dispatchResults trace)[c]? = some false ↔ .rejected (some c) ∈ trace) ∧
    (∀ c, (dispatchResults trace)[c]? = some false → (endedSerials trace).count c = 0) ∧
    (s.acceptor = .returned →
      s.queue.shared.queue = [] ∧
      (∀ c, (∃ number, .descriptor (.accepted c number) ∈ trace) ↔
        c < (dispatchResults trace).length) ∧
      (∀ c, (dispatchResults trace)[c]? = some true → (endedSerials trace).count c = 1) ∧
      s.shared.stats.Settled (returnedResults trace)) := by
  have hempty : q.queue = [] := by
    obtain ⟨_, rfl⟩ := (BoundedQueue.make_eq_ok_iff _ _).1 hmake
    rfl
  have hopen : q.closed = false := by
    obtain ⟨_, rfl⟩ := (BoundedQueue.make_eq_ok_iff _ _).1 hmake
    rfl
  obtain ⟨⟨hcalls, hlocal⟩, hregular, a, ha, htracks⟩ := refines_of_run hrun hempty
  obtain ⟨hrunning, hexit⟩ := running_of_run hopen hrun
  have hsound := Lifecycle.Sound.of_run ha
  have hserial := serialInv_of_run hrun hempty
  have hactive := activeConnections_eq hcard hrun
  have hrejected : ∀ c, (dispatchResults trace)[c]? = some false ↔ .rejected (some c) ∈ trace := by
    intro c
    rw [← hserial.rejected, mem_rejectedSerials]
  refine ⟨?_, ?_, hactive, ?_, ?_, hrejected, ?_, ?_⟩
  · intro hclosed
    rw [← Bool.not_eq_false]
    intro hflag
    simp [(hrunning hflag).opened] at hclosed
  · intro word s' hstep client inserted hpc hthrew
    rcases hstep.threw hcalls hrunning hthrew with h | h | h <;> simp [hpc] at h
  · rw [hactive]
    exact count_le_card _ _
  · intro w client hfinishing
    rw [hactive, count_pos_iff]
    exact ⟨w, by rw [hfinishing]; rfl⟩
  · intro c hfalse
    have honce := count_left_le hsound c
    have hpos : 0 < (rejectedSerials trace).count c :=
      List.count_pos_iff.2 ((hserial.rejected c).2 hfalse)
    omega
  · intro hreturned
    have hexited := hexit.joined hreturned
    have hqueue := (hexit.drained (Classical.arbitrary ω) (hexited _)).2
    have hleft := leftSerials_of_inUse hsound (inUse_eq_zero hcalls hexit htracks hreturned hqueue)
    have hlength : (dispatchResults trace).length = a.next := by
      rw [← htracks.next, ← hserial.length, hreturned]
      rfl
    refine ⟨hqueue, ?_, ?_, ?_⟩
    · intro c
      rw [accepted_iff_lt hsound, hlength]
    · intro c htrue
      have hlt : c < a.next := by
        rw [← hlength]
        exact (List.getElem?_eq_some_iff.1 htrue).1
      have hnone : (rejectedSerials trace).count c = 0 := by
        rw [List.count_eq_zero, hserial.rejected, htrue]
        simp
      have hone := congrArg (Multiset.count c) hleft
      rw [Multiset.count_add, Multiset.coe_count, Multiset.coe_count, hnone, zero_add,
        Multiset.count_eq_one_of_mem (Multiset.nodup_range _) (Multiset.mem_range.2 hlt)] at hone
      exact hone
    · refine settled_of_returned hcard hrun hreturned hexited ?_ ?_
      · rw [sum_acceptedTally, hsound.admitted, Multiset.card_range, hlength]
      · have hcards := congrArg Multiset.card hleft
        have hcount := List.count_true_add_count_false (dispatchResults trace)
        rw [Multiset.card_add, Multiset.coe_card, Multiset.coe_card, Multiset.card_range,
          hserial.rejections, length_endedSerials hregular] at hcards
        omega

/-- One client is served, a signal arrives and the server stops. -/
theorem exists_stopped_run :
    ∃ (trace : List (ServerEvent Unit Unit)) (s : ServerState Unit Unit),
      Run ServerStep (ServerState.start Unit Unit { capacity := 1 }) trace s ∧
      s.acceptor = .returned ∧ (dispatchResults trace)[0]? = some true := by
  have hstart : Run ServerStep (ServerState.start Unit Unit { capacity := 1 }) [] _ := .refl
  have haccepted := ((((hstart.tail (.environment .connects)).tail
    (.acceptor (.loopPolls rfl))).tail (.acceptor (.pollReturns (Or.inl Nat.one_pos)))).tail
    (.acceptor .listenerReady)).tail
    (.acceptor (.accepts 5 Nat.one_pos (by decide) (by simp [ServerState.start])))
  have hpushed := (((haccepted.tail (.acceptor .countsAccepted)).tail (.callsPush rfl)).tail
    (.queueMoves (.pushInserts (t := .acceptor) rfl rfl))).tail
    (.queueMoves (.pushNotifies (t := .acceptor) rfl
      (notifyOne_of_none rfl (fun _ => rfl) (fun _ => rfl))))
  have hdispatched := ((hpushed.tail (.acceptor .destroysItem)).tail
    (.acceptor .countsDispatch)).tail (.acceptor .serveOneReturns)
  have hpopped := ((hdispatched.tail (.callsPop (w := ()) rfl)).tail
    (.queueMoves (.popRemoves (t := .worker ()) rfl rfl))).tail
    (.queueMoves (.popNotifies (t := .worker ()) rfl
      (notifyOne_of_none rfl (fun _ => rfl) (fun _ => rfl))))
  have hserved := (((hpopped.tail (.worker (w := ()) .countsActive)).tail
    (.worker (w := ()) .constructs)).tail
    (.worker (w := ()) (@WorkerStep.serveReturns _ _ _ _ _ _ {}))).tail
    (.worker (w := ()) .recordsResult)
  have hfinished := (hserved.tail (.worker (w := ()) .destroysConnection)).tail
    (.worker (w := ()) .finishes)
  have hrequested := ((((hfinished.tail (.environment .signals)).tail
    (.acceptor (.loopPolls rfl))).tail (.acceptor (.pollReturns (Or.inr Nat.one_pos)))).tail
    (.pipeReady rfl)).tail (.exchangesFirst (t := .acceptor) rfl rfl)
  have hclosed := ((hrequested.tail (.queueMoves (.closes (t := .acceptor) rfl))).tail
    (.queueMoves (.closeNotifiesEmpty (t := .acceptor) rfl))).tail
    (.queueMoves (.closeNotifiesFull (t := .acceptor) rfl))
  have hstopping := (hclosed.tail (.request (t := .acceptor) .writesPipe)).tail
    (.requestReturns rfl rfl)
  have hjoining := (((hstopping.tail (.closesPool rfl)).tail
    (.queueMoves (.closes (t := .acceptor) rfl))).tail
    (.queueMoves (.closeNotifiesEmpty (t := .acceptor) rfl))).tail
    (.queueMoves (.closeNotifiesFull (t := .acceptor) rfl))
  have hreturned := ((hjoining.tail (.callsPop (w := ()) rfl)).tail
    (.queueMoves (.popDrained (t := .worker ()) rfl rfl))).tail (.joins rfl (fun _ => rfl))
  exact ⟨_, _, hreturned, rfl, rfl⟩

theorem graceful_shutdown_stopped :
    ∃ (trace : List (ServerEvent Unit Unit)) (s : ServerState Unit Unit),
      Run ServerStep (ServerState.start Unit Unit { capacity := 1 }) trace s ∧
      s.acceptor = .returned ∧ s.queue.shared.queue = [] ∧ (endedSerials trace).count 0 = 1 ∧
      s.shared.stats.Settled (returnedResults trace) := by
  have hmake : BoundedQueue.make 1 = .ok ({ capacity := 1 } : BoundedQueue Fd) := rfl
  obtain ⟨trace, s, hrun, hreturned, htrue⟩ := exists_stopped_run
  obtain ⟨_, _, _, _, _, _, _, hstopped⟩ :=
    graceful_shutdown hmake (by norm_num [sizeBound]) hrun
  obtain ⟨hqueue, _, hended, hsettled⟩ := hstopped hreturned
  exact ⟨trace, s, hrun, hreturned, hqueue, hended 0 htrue, hsettled⟩

end Results

end HttpServer
