import HttpServer.Lib.Lifecycle
import HttpServer.ServerCalls

/-!
# Who owns a client's descriptor

A descriptor is accepted, waits with the acceptor, in the queue or with a worker,
is served and is closed; on the way it can also be rejected, or be left behind by
an exception.  This is the life cycle of `Lifecycle`, and the server refines it:

* `LocalInv`: an `Fd` object that has been moved from owns nothing, and the others
  own a descriptor;
* `holdings`: the descriptors that are owned, by stage;
* `Handover`: what a step does to them, and what it reports;
* `Tracks`: the descriptors owned are those of the abstract life cycle, and they
  are the open ones.
-/

namespace HttpServer

open Transition Threads

universe u v

section Objects

theorem Fd.valid_iff
    (f : Fd) :
    f.valid = true ↔ 0 ≤ f.fd := by
  simp [Fd.valid]

theorem Fd.destroy_none
    (os : Descriptors) :
    Fd.none.destroy os = (os, []) := by
  simp [Fd.destroy, Fd.reset, Fd.none]

theorem Fd.destroy_of_valid
    {f : Fd}
    (hvalid : f.valid = true)
    (os : Descriptors) :
    f.destroy os = os.close f.fd := by
  rw [Fd.valid_iff] at hvalid
  have hne : f.fd ≠ -1 := by omega
  simp [Fd.destroy, Fd.reset, hvalid, hne]

/-- The objects that are alive in `serve_one` and in the calls it makes. -/
def AcceptorPc.objects : AcceptorPc → List Fd
  | .accepted client => [client]
  | .counted client => [client]
  | .pushing client arg => [client, arg]
  | .pushReturned client arg item _ => [client, arg, item]
  | .dispatching client arg _ => [client, arg]
  | .dispatched client _ => [client]
  | _ => []

/-- The objects that are alive in `worker_loop`. -/
def WorkerPc.objects : WorkerPc → List Fd
  | .popped client => [client]
  | .active client => [client]
  | .serving client connection => [client, connection]
  | .recording client connection _ => [client, connection]
  | .leaving client connection => [client, connection]
  | .unwinding client connection => [client, connection]
  | .caught client => [client]
  | .finishing client => [client]
  | _ => []

/-- The object that the acceptor destroys because `push` has rejected it. -/
def AcceptorPc.leavingObjects : AcceptorPc → List Fd
  | .pushReturned _ _ item _ => [item]
  | _ => []

/-- The object that a worker destroys because its connection has come to an end. -/
def WorkerPc.leavingObjects : WorkerPc → List Fd
  | .recording _ connection _ => [connection]
  | .leaving _ connection => [connection]
  | .unwinding _ connection => [connection]
  | _ => []

/-- Which objects own a descriptor. -/
def AcceptorPc.Ok : AcceptorPc → Prop
  | .accepted client => client.valid = true
  | .counted client => client.valid = true
  | .pushing client arg => client = .none ∧ arg = .none
  | .pushReturned client arg item inserted =>
      client = .none ∧ arg = .none ∧ if inserted then item = .none else item.valid = true
  | .dispatching client arg _ => client = .none ∧ arg = .none
  | .dispatched client _ => client = .none
  | _ => True

def WorkerPc.Ok : WorkerPc → Prop
  | .popped client => client.valid = true
  | .active client => client.valid = true
  | .serving client connection => client = .none ∧ connection.valid = true
  | .recording client connection _ => client = .none ∧ connection.valid = true
  | .leaving client connection => client = .none ∧ connection.valid = true
  | .unwinding client connection => client = .none ∧ connection.valid = true
  | .caught client => client = .none
  | .finishing client => client = .none
  | _ => True

variable {ω : Type u} {ρ : Type v}

theorem AcceptorStep.ok
    {g g' : ServerShared}
    {pc pc' : AcceptorPc}
    {word : List (ServerEvent ω ρ)}
    (h : AcceptorStep g pc word g' pc')
    (hok : pc.Ok) :
    pc'.Ok := by
  cases h with
  | accepts _ _ hnumber => exact (Fd.valid_iff _).2 hnumber
  | countsAccepted => exact hok
  | destroysItem => exact ⟨hok.1, hok.2.1⟩
  | countsDispatch => exact hok.1
  | serveOneReturns => split_ifs <;> trivial
  | _ => trivial

theorem WorkerStep.ok
    {w : ω}
    {g g' : ServerShared}
    {pc pc' : WorkerPc}
    {word : List (ServerEvent ω ρ)}
    (h : WorkerStep w g pc word g' pc')
    (hok : pc.Ok) :
    pc'.Ok := by
  cases h with
  | countsActive => exact hok
  | constructs => exact ⟨rfl, hok⟩
  | constructorThrows => exact ⟨rfl, hok⟩
  | serveReturns => exact hok
  | serveThrows => exact hok
  | recordsResult => exact hok
  | destroysConnection => exact hok.1
  | unwinds => exact hok.1
  | countsError => exact hok
  | finishes => trivial

variable [Fintype ω] [Fintype ρ]

/-- An object owns a descriptor unless it has been moved from. -/
structure LocalInv (s : ServerState ω ρ) : Prop where
  acceptor : s.acceptor.Ok
  worker : ∀ w, (s.worker w).Ok
  items : ∀ f ∈ s.queue.inTransit, f.valid = true

variable [DecidableEq ω] [DecidableEq ρ] {s s' : ServerState ω ρ}

/-- A call hands its argument over. -/
theorem inTransit_call
    {t : ServerThread ω ρ}
    {pc : QueuePc Fd}
    (hidle : s.queue.pc t = .idle) :
    (s.queue.move t pc).inTransit = pc.items + s.queue.inTransit := by
  obtain ⟨rest, hpc, hupdate⟩ :=
    exists_total_rest (fun a => (a.items : Multiset Fd)) s.queue.pc t
  simp only [QueueState.inTransit, QueueState.move, hpc, hupdate, hidle]
  simp [QueuePc.items, add_assoc]

namespace LocalInv

omit [DecidableEq ρ] in
theorem of_worker
    (h : LocalInv s)
    {w : ω}
    {pc : WorkerPc}
    (hok : pc.Ok)
    (w' : ω) :
    (Function.update s.worker w pc w').Ok := by
  by_cases hw : w' = w
  · subst hw
    rw [Function.update_self]
    exact hok
  · rw [Function.update_of_ne hw]
    exact h.worker w'

theorem of_delivery
    (h : LocalInv s)
    {q : QueueState (ServerThread ω ρ) Fd}
    {word : List (QueueEvent (ServerThread ω ρ) Fd)}
    (hdelivery : Delivery s q word s') :
    LocalInv s' := by
  have hitems := h.items
  cases hdelivery with
  | quiet _ _ htransit => exact ⟨h.acceptor, h.worker, htransit ▸ hitems⟩
  | accepted hpc _ htransit =>
      have hok := h.acceptor
      rw [hpc] at hok
      exact ⟨⟨hok.1, hok.2, rfl⟩, h.worker, htransit ▸ hitems⟩
  | rejected hpc _ htransit =>
      have hok := h.acceptor
      rw [hpc] at hok
      rw [htransit] at hitems
      refine ⟨⟨hok.1, hok.2, ?_⟩, h.worker, fun f hf => hitems f (Multiset.mem_add.2 (Or.inr hf))⟩
      exact hitems _ (by simp)
  | popped hpc _ htransit =>
      rw [htransit] at hitems
      refine ⟨h.acceptor, h.of_worker ?_, fun f hf => hitems f (Multiset.mem_add.2 (Or.inr hf))⟩
      exact hitems _ (by simp)
  | drained hpc _ htransit => exact ⟨h.acceptor, h.of_worker trivial, htransit ▸ hitems⟩
  | requestClosed hpc _ htransit => exact ⟨h.acceptor, h.worker, htransit ▸ hitems⟩
  | poolClosed hpc _ htransit => exact ⟨trivial, h.worker, htransit ▸ hitems⟩

theorem step
    (h : LocalInv s)
    (hcalls : CallsInv s)
    {word : List (ServerEvent ω ρ)}
    (hstep : ServerStep s word s') :
    LocalInv s' := by
  have hcall : ∀ {t pc}, s.queue.pc t = .idle → (∀ f ∈ pc.items, f.valid = true) →
      ∀ f ∈ (s.queue.move t pc).inTransit, f.valid = true := by
    intro t pc hidle hitems f hf
    rw [inTransit_call hidle] at hf
    rcases Multiset.mem_add.1 hf with hf | hf
    · exact hitems f (Multiset.mem_coe.1 hf)
    · exact h.items f hf
  cases hstep with
  | environment => exact ⟨h.acceptor, h.worker, h.items⟩
  | queueMoves hmove => exact h.of_delivery (hcalls.delivery hmove)
  | acceptor hstep => exact ⟨hstep.ok h.acceptor, h.worker, h.items⟩
  | worker hstep => exact ⟨h.acceptor, h.of_worker (hstep.ok (h.worker _)), h.items⟩
  | request => exact ⟨h.acceptor, h.worker, h.items⟩
  | @callsPush client hpc =>
      have hclient := h.acceptor
      rw [hpc] at hclient
      refine ⟨⟨rfl, rfl⟩, h.worker, hcall (hcalls.acceptor_idle (by simp [hpc]) ?_) ?_⟩
      · rw [hpc]
        rfl
      · intro f hf
        rw [List.mem_singleton.1 hf]
        exact hclient
  | callsPop hpc =>
      exact ⟨h.acceptor, h.of_worker trivial,
        hcall (hcalls.worker_idle (by rw [hpc]; rfl)) (by simp [QueuePc.items])⟩
  | requestStarts => exact ⟨h.acceptor, h.worker, h.items⟩
  | pipeReady => exact ⟨trivial, h.worker, h.items⟩
  | destructs => exact ⟨trivial, h.worker, h.items⟩
  | exchangesFirst hpc =>
      exact ⟨h.acceptor, h.worker,
        hcall (hcalls.request_idle (by simp [hpc]) (by rw [hpc]; rfl)) (by simp [QueuePc.items])⟩
  | requestReturns => exact ⟨trivial, h.worker, h.items⟩
  | closesPool hpc =>
      refine ⟨trivial, h.worker,
        hcall (hcalls.acceptor_idle (by simp [hpc]) ?_) (by simp [QueuePc.items])⟩
      rw [hpc]
      rfl
  | joins => exact ⟨trivial, h.worker, h.items⟩

end LocalInv

end Objects

section Reports

variable {ω : Type u} {ρ : Type v}

/-- What an event says about the life cycle of a descriptor. -/
def ServerEvent.life : ServerEvent ω ρ → Option Lifecycle.Event
  | .descriptor (.accepted c _) => some (.admitted c)
  | .descriptor (.closed c) => some (.released c)
  | .constructed _ (some c) => some (.begun c)
  | .rejected (some c) => some (.left c)
  | .constructorThrew _ (some c) => some (.left c)
  | .serveReturned _ (some c) _ => some (.left c)
  | .serveThrew _ (some c) => some (.left c)
  | _ => none

/-- The event does not concern a number that is not open. -/
def ServerEvent.Regular : ServerEvent ω ρ → Prop
  | .descriptor (.badClose _) => False
  | .constructed _ none => False
  | .rejected none => False
  | .constructorThrew _ none => False
  | .serveReturned _ none _ => False
  | .serveThrew _ none => False
  | _ => True

/-- The events of a step are regular and say this about descriptors. -/
def Reports (word : List (ServerEvent ω ρ)) (events : List Lifecycle.Event) : Prop :=
  word.filterMap ServerEvent.life = events ∧ ∀ e ∈ word, e.Regular

theorem reports_nil :
    Reports ([] : List (ServerEvent ω ρ)) [] :=
  ⟨rfl, by simp⟩

theorem reports_singleton
    {e : ServerEvent ω ρ}
    {event : Lifecycle.Event}
    (hlife : e.life = some event)
    (hregular : e.Regular) :
    Reports [e] [event] := by
  refine ⟨by simp [hlife], ?_⟩
  intro e' he'
  rw [List.mem_singleton.1 he']
  exact hregular

end Reports

section Handovers

/-- The numbers of the descriptors that are owned: those that wait, those that are served and
those whose object is about to be destroyed. -/
abbrev Holdings := Multiset Int × Multiset Int × Multiset Int

namespace Holdings

def waits (number : Int) : Holdings := ({number}, 0, 0)

def serves (number : Int) : Holdings := (0, {number}, 0)

def leaves (number : Int) : Holdings := (0, 0, {number})

end Holdings

open Holdings

def AcceptorPc.holdings : AcceptorPc → Holdings
  | .accepted client => waits client.fd
  | .counted client => waits client.fd
  | .pushReturned _ _ item false => leaves item.fd
  | _ => 0

def WorkerPc.holdings : WorkerPc → Holdings
  | .popped client => waits client.fd
  | .active client => waits client.fd
  | .serving _ connection => serves connection.fd
  | .recording _ connection _ => leaves connection.fd
  | .leaving _ connection => leaves connection.fd
  | .unwinding _ connection => leaves connection.fd
  | _ => 0

variable {ω : Type u} {ρ : Type v}

/-- What a step does to the descriptors, and what it reports. -/
inductive Handover (os : Descriptors) (word : List (ServerEvent ω ρ)) :
    Holdings → Holdings → Descriptors → Prop
  | keep {h : Holdings}
      (hword : Reports word []) :
      Handover os word h h os
  | accept {h : Holdings} {number : Int}
      (hnumber : 0 ≤ number)
      (hfresh : number ∉ os.table.map Prod.fst)
      (hword : Reports word [.admitted os.next]) :
      Handover os word h (waits number + h) (os.accept number)
  | construct {h : Holdings} {number : Int}
      (hword : ∀ c, os.lookup number = some c → Reports word [.begun c]) :
      Handover os word (waits number + h) (serves number + h) os
  | abandon {h : Holdings} {number : Int}
      (hword : ∀ c, os.lookup number = some c → Reports word [.left c]) :
      Handover os word (waits number + h) (leaves number + h) os
  | finish {h : Holdings} {number : Int}
      (hword : ∀ c, os.lookup number = some c → Reports word [.left c]) :
      Handover os word (serves number + h) (leaves number + h) os
  | release {h : Holdings} {number : Int} {os' : Descriptors}
      (hword : ∀ c, os.lookup number = some c →
        os' = { os with table := os.table.filter (fun e => e.1 ≠ number) } ∧
        Reports word [.released c]) :
      Handover os word (leaves number + h) h os'

/-- What the other threads own does not matter. -/
theorem Handover.frame
    {os os' : Descriptors}
    {word : List (ServerEvent ω ρ)}
    {h h' : Holdings}
    (hhandover : Handover os word h h' os')
    (rest : Holdings) :
    Handover os word (h + rest) (h' + rest) os' := by
  cases hhandover with
  | keep hword => exact .keep hword
  | accept hnumber hfresh hword =>
      rw [add_assoc]
      exact .accept hnumber hfresh hword
  | construct hword =>
      rw [add_assoc, add_assoc]
      exact .construct hword
  | abandon hword =>
      rw [add_assoc, add_assoc]
      exact .abandon hword
  | finish hword =>
      rw [add_assoc, add_assoc]
      exact .finish hword
  | release hword =>
      rw [add_assoc]
      exact .release hword

theorem handover_destroy_none
    (g : ServerShared)
    (h : Holdings) :
    Handover g.os (g.destroyEvents (ω := ω) (ρ := ρ) .none) h h (g.destroy .none).os := by
  simp only [ServerShared.destroyEvents, ServerShared.destroy, Fd.destroy_none]
  exact .keep reports_nil

theorem handover_destroy
    (g : ServerShared)
    {f : Fd}
    (hvalid : f.valid = true) :
    Handover g.os (g.destroyEvents (ω := ω) (ρ := ρ) f) (leaves f.fd) 0 (g.destroy f).os := by
  simp only [ServerShared.destroyEvents, ServerShared.destroy, Fd.destroy_of_valid hvalid]
  rw [← add_zero (leaves f.fd)]
  refine .release (fun c hc => ?_)
  have hclose : g.os.close f.fd =
      ({ g.os with table := g.os.table.filter (fun e => e.1 ≠ f.fd) }, [.closed c]) := by
    simp [Descriptors.close, hc]
  rw [hclose]
  exact ⟨rfl, reports_singleton rfl trivial⟩

theorem AcceptorStep.handover
    {g g' : ServerShared}
    {pc pc' : AcceptorPc}
    {word : List (ServerEvent ω ρ)}
    (h : AcceptorStep g pc word g' pc')
    (hok : pc.Ok) :
    Handover g.os word pc.holdings pc'.holdings g'.os := by
  cases h with
  | accepts number _ hnumber hfresh =>
      change Handover _ _ 0 (waits number) _
      rw [← add_zero (waits number)]
      exact .accept hnumber hfresh (reports_singleton rfl trivial)
  | @destroysItem _ _ item accepted =>
      obtain ⟨_, _, hitem⟩ := hok
      cases accepted with
      | true =>
          rw [show item = .none from hitem]
          exact handover_destroy_none g 0
      | false => exact handover_destroy g hitem
  | countsDispatch =>
      rw [hok.2]
      exact handover_destroy_none g 0
  | serveOneReturns =>
      rw [show _ = Fd.none from hok]
      split_ifs
      · exact handover_destroy_none g 0
      · exact handover_destroy_none g 0
  | _ => exact .keep reports_nil

theorem RequestStep.os_eq
    {g g' : ServerShared}
    {pc pc' : RequestPc}
    (h : RequestStep g pc g' pc') :
    g'.os = g.os := by
  cases h <;> rfl

theorem WorkerStep.handover
    {w : ω}
    {g g' : ServerShared}
    {pc pc' : WorkerPc}
    {word : List (ServerEvent ω ρ)}
    (h : WorkerStep w g pc word g' pc')
    (hok : pc.Ok) :
    Handover g.os word pc.holdings pc'.holdings g'.os := by
  cases h with
  | countsActive => exact .keep reports_nil
  | @constructs client =>
      change Handover _ _ (waits client.fd) (serves client.fd) _
      rw [← add_zero (waits client.fd), ← add_zero (serves client.fd)]
      refine .construct (fun c hc => ?_)
      rw [show g.os.lookup client.moved.moved.fd = some c from hc]
      exact reports_singleton rfl trivial
  | @constructorThrows client =>
      change Handover _ _ (waits client.fd) (leaves client.fd) _
      rw [← add_zero (waits client.fd), ← add_zero (leaves client.fd)]
      refine .abandon (fun c hc => ?_)
      rw [show g.os.lookup client.moved.moved.fd = some c from hc]
      exact reports_singleton rfl trivial
  | @serveReturns _ connection =>
      change Handover _ _ (serves connection.fd) (leaves connection.fd) _
      rw [← add_zero (serves connection.fd), ← add_zero (leaves connection.fd)]
      refine .finish (fun c hc => ?_)
      rw [hc]
      exact reports_singleton rfl trivial
  | @serveThrows _ connection =>
      change Handover _ _ (serves connection.fd) (leaves connection.fd) _
      rw [← add_zero (serves connection.fd), ← add_zero (leaves connection.fd)]
      refine .finish (fun c hc => ?_)
      rw [hc]
      exact reports_singleton rfl trivial
  | recordsResult => exact .keep reports_nil
  | destroysConnection => exact handover_destroy g hok.2
  | unwinds => exact handover_destroy g hok.2
  | countsError => exact .keep reports_nil
  | finishes =>
      rw [show _ = Fd.none from hok]
      exact handover_destroy_none g 0

variable [Fintype ω] [Fintype ρ]

/-- What the server owns. -/
def ServerState.holdings (s : ServerState ω ρ) : Holdings :=
  s.acceptor.holdings + (s.queue.inTransit.map Fd.fd, 0, 0) + total WorkerPc.holdings s.worker

omit [Fintype ω] [Fintype ρ] in
theorem reports_queue
    (word : List (QueueEvent (ServerThread ω ρ) Fd)) :
    Reports (word.map ServerEvent.queue) [] := by
  constructor
  · simp [List.filterMap_map, Function.comp_def, ServerEvent.life]
  · intro e he
    obtain ⟨e', _, rfl⟩ := List.mem_map.1 he
    trivial

theorem inTransit_holdings
    (item : Fd)
    (items : Multiset Fd) :
    ((({item} + items).map Fd.fd, 0, 0) : Holdings) =
      waits item.fd + (items.map Fd.fd, 0, 0) := by
  simp [waits]

variable {s s' : ServerState ω ρ}

theorem handover_keep
    {word : List (ServerEvent ω ρ)}
    (hacceptor : s'.acceptor.holdings = s.acceptor.holdings)
    (htransit : s'.queue.inTransit = s.queue.inTransit)
    (hworker : ∀ w, (s'.worker w).holdings = (s.worker w).holdings)
    (hos : s'.shared.os = s.shared.os)
    (hword : Reports word []) :
    Handover s.shared.os word s.holdings s'.holdings s'.shared.os := by
  have hholdings : s'.holdings = s.holdings := by
    unfold ServerState.holdings
    rw [hacceptor, htransit, total_congr hworker]
  rw [hholdings, hos]
  exact .keep hword

variable [DecidableEq ω] [DecidableEq ρ]

theorem Delivery.handover
    {q : QueueState (ServerThread ω ρ) Fd}
    {word : List (QueueEvent (ServerThread ω ρ) Fd)}
    (h : Delivery s q word s') :
    Handover s.shared.os (word.flatMap s.reports) s.holdings s'.holdings s'.shared.os := by
  cases h with
  | quiet hreports _ htransit =>
      rw [hreports]
      exact handover_keep rfl htransit (fun _ => rfl) rfl (reports_queue word)
  | accepted hpc _ htransit =>
      exact handover_keep (by rw [hpc]; rfl) htransit (fun _ => rfl) rfl (reports_queue [_])
  | @rejected client arg item hpc _ htransit =>
      have hacceptor : s.acceptor.holdings = 0 := by
        rw [hpc]
        rfl
      have hbefore : s.holdings = waits item.fd +
          ((q.inTransit.map Fd.fd, 0, 0) + total WorkerPc.holdings s.worker) := by
        rw [ServerState.holdings, htransit, inTransit_holdings, hacceptor, zero_add, add_assoc]
      rw [hbefore, ServerState.holdings, add_assoc]
      refine .abandon (fun c hc => ?_)
      have hreports : [QueueEvent.pushReturned .acceptor item false].flatMap s.reports =
          [.queue (.pushReturned .acceptor item false), .rejected (some c)] := by
        simp [ServerState.reports, hc]
      rw [hreports]
      exact ⟨rfl, by simp [ServerEvent.Regular]⟩
  | @popped w item hpc _ htransit =>
      obtain ⟨rest, hbefore, hafter⟩ := exists_total_rest WorkerPc.holdings s.worker w
      have hholdings : ServerState.holdings { s.setWorker w (.popped item) with queue := q } =
          s.holdings := by
        simp only [ServerState.holdings, ServerState.setWorker, htransit, inTransit_holdings,
          hbefore, hafter, hpc, WorkerPc.holdings]
        abel
      rw [hholdings]
      exact .keep (reports_queue [_])
  | drained hpc _ htransit =>
      exact handover_keep rfl htransit (apply_update_eq (by rw [hpc]; rfl)) rfl (reports_queue [_])
  | requestClosed hpc _ htransit =>
      exact handover_keep rfl htransit (fun _ => rfl) rfl (reports_queue [_])
  | poolClosed hpc _ htransit =>
      exact handover_keep (by rw [hpc]; rfl) htransit (fun _ => rfl) rfl (reports_queue [_])

theorem ServerStep.handover
    (hcalls : CallsInv s)
    (hlocal : LocalInv s)
    {word : List (ServerEvent ω ρ)}
    (hstep : ServerStep s word s') :
    Handover s.shared.os word s.holdings s'.holdings s'.shared.os := by
  have hquiet : ∀ {t pc}, s.queue.pc t = .idle → pc.items = [] →
      (s.queue.move t pc).inTransit = s.queue.inTransit := by
    intro t pc hidle hitems
    rw [inTransit_call hidle, hitems]
    exact zero_add _
  cases hstep with
  | environment henv =>
      refine handover_keep rfl rfl (fun _ => rfl) ?_ reports_nil
      cases henv <;> rfl
  | queueMoves hmove =>
      exact (hcalls.delivery hmove).handover
  | acceptor hstep =>
      unfold ServerState.holdings
      rw [add_assoc, add_assoc]
      exact (hstep.handover hlocal.acceptor).frame _
  | @worker w _ _ pc hstep =>
      obtain ⟨rest, hbefore, hafter⟩ := exists_total_rest WorkerPc.holdings s.worker w
      have hframe := (hstep.handover (hlocal.worker w)).frame
        (rest + (s.acceptor.holdings + (s.queue.inTransit.map Fd.fd, 0, 0)))
      simp only [ServerState.holdings, ServerState.setWorker, hbefore, hafter]
      convert hframe using 1 <;> abel
  | request hstep => exact handover_keep rfl rfl (fun _ => rfl) hstep.os_eq reports_nil
  | @callsPush client hpc =>
      have hidle := hcalls.acceptor_idle (by simp [hpc]) (by rw [hpc]; rfl)
      have hacceptor : s.acceptor.holdings = waits client.fd := by
        rw [hpc]
        rfl
      have hholdings : ServerState.holdings
          { s.call .acceptor (.pushReady client.moved.moved) with
            acceptor := .pushing client.movedFrom client.moved.movedFrom } = s.holdings := by
        change 0 + ((s.queue.move .acceptor (.pushReady client)).inTransit.map Fd.fd, 0, 0) +
          total WorkerPc.holdings s.worker = s.holdings
        rw [inTransit_call hidle, ServerState.holdings, hacceptor]
        change 0 + (({client} + s.queue.inTransit).map Fd.fd, 0, 0) + _ = _
        rw [inTransit_holdings, zero_add]
      rw [hholdings]
      exact .keep reports_nil
  | callsPop hpc =>
      exact handover_keep rfl (hquiet (hcalls.worker_idle (by rw [hpc]; rfl)) rfl)
        (apply_update_eq (by rw [hpc]; rfl)) rfl reports_nil
  | requestStarts => exact handover_keep rfl rfl (fun _ => rfl) rfl reports_nil
  | pipeReady hpc => exact handover_keep (by rw [hpc]; rfl) rfl (fun _ => rfl) rfl reports_nil
  | destructs hpc => exact handover_keep (by rw [hpc]; rfl) rfl (fun _ => rfl) rfl reports_nil
  | exchangesFirst hpc =>
      exact handover_keep rfl (hquiet (hcalls.request_idle (by simp [hpc]) (by rw [hpc]; rfl)) rfl)
        (fun _ => rfl) rfl reports_nil
  | requestReturns hpc => exact handover_keep (by rw [hpc]; rfl) rfl (fun _ => rfl) rfl reports_nil
  | closesPool hpc =>
      exact handover_keep (by rw [hpc]; rfl)
        (hquiet (hcalls.acceptor_idle (by simp [hpc]) (by rw [hpc]; rfl)) rfl)
        (fun _ => rfl) rfl reports_nil
  | joins hpc => exact handover_keep (by rw [hpc]; rfl) rfl (fun _ => rfl) rfl reports_nil

end Handovers

section Refinement

open Holdings Lifecycle

/-- The descriptors owned at each stage are those of the life cycle, which are the open ones. -/
structure Tracks (os : Descriptors) (h : Holdings) (a : Lifecycle.State Int) : Prop where
  waiting : h.1 = a.waiting.map Prod.fst
  begun : h.2.1 = a.begun.map Prod.fst
  leaving : h.2.2 = a.leaving.map Prod.fst
  table : (os.table : Multiset (Int × ℕ)) = a.inUse
  next : os.next = a.next
  nonneg : ∀ e ∈ os.table, 0 ≤ e.1

/-- A number that is owned stands for one descriptor. -/
theorem exists_entry
    {number : Int}
    {rest : Multiset Int}
    {part : Multiset (Int × ℕ)}
    (h : {number} + rest = part.map Prod.fst) :
    ∃ c others, part = {(number, c)} + others ∧ rest = others.map Prod.fst := by
  have hmem : number ∈ part.map Prod.fst := by
    rw [← h]
    simp
  obtain ⟨⟨_, c⟩, he, rfl⟩ := Multiset.mem_map.1 hmem
  obtain ⟨others, rfl⟩ := Multiset.exists_cons_of_mem he
  refine ⟨c, others, (Multiset.singleton_add _ _).symm, ?_⟩
  rw [Multiset.map_cons, ← Multiset.singleton_add] at h
  exact add_left_cancel h

theorem lookup_of_mem
    {os : Descriptors}
    (hkeys : (os.table.map Prod.fst).Nodup)
    {number : Int}
    {c : ℕ}
    (hmem : (number, c) ∈ os.table) :
    os.lookup number = some c := by
  obtain ⟨front, back, htable⟩ := List.append_of_mem hmem
  refine List.lookup_eq_some_iff.2 ⟨front, back, htable, ?_⟩
  intro e he
  rw [htable, List.map_append, List.map_cons, List.nodup_append] at hkeys
  have hne := hkeys.2.2 e.1 (List.mem_map_of_mem he) number List.mem_cons_self
  simpa using hne.symm

/-- Closing a number removes the descriptor that it stands for. -/
theorem table_filter
    {table : List (Int × ℕ)}
    (hkeys : (table.map Prod.fst).Nodup)
    {number : Int}
    {c : ℕ}
    {others : Multiset (Int × ℕ)}
    (htable : (table : Multiset (Int × ℕ)) = {(number, c)} + others) :
    ((table.filter (fun e => e.1 ≠ number) : List (Int × ℕ)) : Multiset (Int × ℕ)) = others := by
  have hnodup : ((({(number, c)} + others : Multiset (Int × ℕ))).map Prod.fst).Nodup := by
    rw [← htable, Multiset.map_coe]
    exact hkeys
  rw [Multiset.map_add, Multiset.map_singleton, Multiset.singleton_add] at hnodup
  rw [← Multiset.filter_coe, htable, Multiset.filter_add, Multiset.filter_singleton,
    if_neg (by simp), Multiset.empty_eq_zero, zero_add]
  refine Multiset.filter_eq_self.2 (fun e he hnumber => ?_)
  exact (Multiset.nodup_cons.1 hnodup).1 (Multiset.mem_map.2 ⟨e, he, hnumber⟩)

variable {ω : Type u} {ρ : Type v}

theorem Tracks.step
    {os os' : Descriptors}
    {h h' : Holdings}
    {a : Lifecycle.State Int}
    (htracks : Tracks os h a)
    (hkeys : (a.inUse.map Prod.fst).Nodup)
    {word : List (ServerEvent ω ρ)}
    (hhandover : Handover os word h h' os') :
    (∃ a', Lifecycle.Step a (word.filterMap ServerEvent.life) a' ∧ Tracks os' h' a') ∧
      ∀ e ∈ word, e.Regular := by
  obtain ⟨hwaiting, hbegun, hleaving, htable, hnext, hnonneg⟩ := htracks
  have hnodup : (os.table.map Prod.fst).Nodup := by
    rw [← htable, Multiset.map_coe] at hkeys
    exact hkeys
  have hlookup : ∀ {number c}, (number, c) ∈ a.inUse → os.lookup number = some c := by
    intro number c hmem
    rw [← htable] at hmem
    exact lookup_of_mem hnodup hmem
  cases hhandover with
  | keep hword =>
      rw [hword.1]
      exact ⟨⟨a, .rest, hwaiting, hbegun, hleaving, htable, hnext, hnonneg⟩, hword.2⟩
  | @accept _ number hnumber hfresh hword =>
      rw [hword.1, hnext]
      refine ⟨⟨_, .arrive (k := number) ?_, ?_, ?_, ?_, ?_, ?_, ?_⟩, hword.2⟩
      · rw [← htable, Multiset.map_coe]
        exact hfresh
      · simp [waits, hwaiting]
      · simpa [waits] using hbegun
      · simpa [waits] using hleaving
      · simp only [Descriptors.accept, State.inUse, ← Multiset.cons_coe, htable, hnext]
        simp
      · exact congrArg (· + 1) hnext
      · intro e he
        rcases List.mem_cons.1 he with rfl | he
        · exact hnumber
        · exact hnonneg e he
  | @construct _ number hword =>
      obtain ⟨c, others, hentry, hothers⟩ := exists_entry hwaiting
      have hreports := hword c (hlookup (by simp [State.inUse, hentry]))
      rw [hreports.1]
      refine ⟨⟨_, .start hentry, ?_, ?_, ?_, ?_, hnext, hnonneg⟩, hreports.2⟩
      · simpa [serves] using hothers
      · simpa [serves, waits] using hbegun
      · simpa [serves, waits] using hleaving
      · rw [htable]
        simp only [State.inUse, hentry]
        abel
  | @abandon _ number hword =>
      obtain ⟨c, others, hentry, hothers⟩ := exists_entry hwaiting
      have hreports := hword c (hlookup (by simp [State.inUse, hentry]))
      rw [hreports.1]
      refine ⟨⟨_, .abandon hentry, ?_, ?_, ?_, ?_, hnext, hnonneg⟩, hreports.2⟩
      · simpa [leaves] using hothers
      · simpa [leaves, waits] using hbegun
      · simpa [leaves, waits] using hleaving
      · rw [htable]
        simp only [State.inUse, hentry]
        abel
  | @finish _ number hword =>
      obtain ⟨c, others, hentry, hothers⟩ := exists_entry hbegun
      have hreports := hword c (hlookup (by simp [State.inUse, hentry]))
      rw [hreports.1]
      refine ⟨⟨_, .finish hentry, ?_, ?_, ?_, ?_, hnext, hnonneg⟩, hreports.2⟩
      · simpa [leaves, serves] using hwaiting
      · simpa [leaves] using hothers
      · simpa [leaves, serves] using hleaving
      · rw [htable]
        simp only [State.inUse, hentry]
        abel
  | @release _ number _ hword =>
      obtain ⟨c, others, hentry, hothers⟩ := exists_entry hleaving
      obtain ⟨rfl, hreports⟩ := hword c (hlookup (by simp [State.inUse, hentry]))
      rw [hreports.1]
      refine ⟨⟨_, .release hentry, ?_, ?_, hothers, ?_, hnext, ?_⟩, hreports.2⟩
      · simpa [leaves] using hwaiting
      · simpa [leaves] using hbegun
      · refine table_filter (c := c) hnodup ?_
        rw [htable]
        simp only [State.inUse, hentry]
        abel
      · intro e he
        exact hnonneg e (List.mem_filter.1 he).1

variable [Fintype ω] [Fintype ρ] [DecidableEq ω] [DecidableEq ρ]

omit [DecidableEq ω] [DecidableEq ρ] in
theorem inTransit_start
    {q : BoundedQueue Fd}
    (hempty : q.queue = []) :
    (ServerState.start ω ρ q).queue.inTransit = 0 := by
  simp [QueueState.inTransit, ServerState.start, QueueState.start, total, QueuePc.items, hempty]

omit [DecidableEq ω] [DecidableEq ρ] in
theorem tracks_start
    {q : BoundedQueue Fd}
    (hempty : q.queue = []) :
    Tracks (ServerState.start ω ρ q).shared.os (ServerState.start ω ρ q).holdings {} := by
  have hholdings : (ServerState.start ω ρ q).holdings = 0 := by
    rw [ServerState.holdings, inTransit_start hempty]
    simp [ServerState.start, AcceptorPc.holdings, WorkerPc.holdings, total]
  rw [hholdings]
  exact ⟨rfl, rfl, rfl, rfl, rfl, by simp [ServerState.start]⟩

/-- A run of the server refines a run of the life cycle. -/
theorem refines_of_run
    {q : BoundedQueue Fd}
    {trace : List (ServerEvent ω ρ)}
    {s : ServerState ω ρ}
    (hrun : Run ServerStep (ServerState.start ω ρ q) trace s)
    (hempty : q.queue = []) :
    (CallsInv s ∧ LocalInv s) ∧ (∀ e ∈ trace, e.Regular) ∧
      ∃ a, Run Lifecycle.Step {} (trace.filterMap ServerEvent.life) a ∧
        Tracks s.shared.os s.holdings a := by
  refine hrun.invariant (fun trace s => (CallsInv s ∧ LocalInv s) ∧ (∀ e ∈ trace, e.Regular) ∧
    ∃ a, Run Lifecycle.Step {} (trace.filterMap ServerEvent.life) a ∧
      Tracks s.shared.os s.holdings a) ?_ ?_
  · refine ⟨⟨callsInv_start q, trivial, fun _ => trivial, ?_⟩, by simp, {}, .refl,
      tracks_start hempty⟩
    rw [inTransit_start hempty]
    simp
  · rintro trace s word s' ⟨⟨hcalls, hlocal⟩, hregular, a, ha, htracks⟩ hstep
    obtain ⟨⟨a', hstep', htracks'⟩, hword⟩ :=
      htracks.step (Sound.of_run ha).keys (hstep.handover hcalls hlocal)
    refine ⟨⟨hcalls.step hstep, hlocal.step hcalls hstep⟩, ?_, a', ?_, htracks'⟩
    · intro e he
      rcases List.mem_append.1 he with he | he
      · exact hregular e he
      · exact hword e he
    · rw [List.filterMap_append]
      exact ha.tail hstep'

end Refinement

end HttpServer
