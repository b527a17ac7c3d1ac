import HttpServer.DescriptorOwnership
import HttpServer.EndReasons
import HttpServer.Lib.Sessions
import HttpServer.ServerCounters

/-!
# The connections that the workers serve

`Server` lets `Connection::serve` return anything.  Here the workers run it: a
worker that has popped a client constructs a `Connection` on its descriptor and
takes the rounds of the loop in `serve` one at a time, between the steps of all
other threads; when the connection is closed its result is recorded.

The events of a round carry the client that its descriptor stands for when the
round is made, as the operating system sees it.  Numbers are reused, so that this
is always the client the connection was constructed for is a theorem: the program
refines the sessions of `Lib.Sessions`, whose identifiers are serial numbers.

Allocation may fail, so `serve` may also throw at any point between two rounds.
-/

namespace HttpServer

open Transition Threads Connection

universe u v

section Model

variable (ω : Type u) (ρ : Type v)

/-- The threads, and the connection that each worker serves. -/
structure ProgramState where
  server : ServerState ω ρ
  served : ω → Option Connection := fun _ => none

inductive ProgramEvent
  | server (e : ServerEvent ω ρ)
  | session (e : Sessions.Event (Option ℕ) Connection Round)

variable {ω ρ}

def ProgramState.start (ω : Type u) (ρ : Type v) (q : BoundedQueue Fd) : ProgramState ω ρ where
  server := ServerState.start ω ρ q

/-- The events of constructing and serving a connection. -/
def ServerEvent.connects : ServerEvent ω ρ → Bool
  | .constructed _ _ => true
  | .constructorThrew _ _ => true
  | .serveReturned _ _ _ => true
  | .serveThrew _ _ => true
  | _ => false

/-- The client whose descriptor has a number, as the operating system sees it. -/
def ProgramState.client (s : ProgramState ω ρ) (number : Int) : Option ℕ :=
  s.server.shared.os.lookup number

variable [DecidableEq ω] [DecidableEq ρ] {fs : FileSystem}

/-- A worker moves on, and its connection with it. -/
def ProgramState.setWorker (s : ProgramState ω ρ) (w : ω) (pc : WorkerPc)
    (connection : Option Connection) : ProgramState ω ρ where
  server := s.server.setWorker w pc
  served := Function.update s.served w connection

/-- The steps of the program. -/
inductive ProgramStep (handler : StaticFileHandler fs) (order : IterationOrder)
    (config : ConnectionConfig) (maxHeaderBytes maxBodyBytes : Nat) :
    ProgramState ω ρ → List (ProgramEvent ω ρ) → ProgramState ω ρ → Prop
  | server {s : ProgramState ω ρ} {word : List (ServerEvent ω ρ)} {server : ServerState ω ρ}
      (hstep : ServerStep s.server word server)
      (hword : ∀ e ∈ word, e.connects = false) :
      ProgramStep handler order config maxHeaderBytes maxBodyBytes s (word.map .server)
        { s with server := server }
  | constructs {s : ProgramState ω ρ} {w : ω} {client : Fd} {now later : Int} {c : Connection}
      (hpc : s.server.worker w = .active client)
      (hmake : Connection.make client.moved.moved.fd config maxHeaderBytes maxBodyBytes now later =
        .ok c) :
      ProgramStep handler order config maxHeaderBytes maxBodyBytes s
        [.server (.constructed w (s.client client.moved.moved.fd)),
          .session (.opened (s.client client.moved.moved.fd) c)]
        (s.setWorker w (.serving client.movedFrom client.moved.moved) (some c))
  | constructorThrows {s : ProgramState ω ρ} {w : ω} {client : Fd} {now later : Int}
      {error : String}
      (hpc : s.server.worker w = .active client)
      (hmake : Connection.make client.moved.moved.fd config maxHeaderBytes maxBodyBytes now later =
        .error error) :
      ProgramStep handler order config maxHeaderBytes maxBodyBytes s
        [.server (.constructorThrew w (s.client client.moved.moved.fd))]
        (s.setWorker w (.unwinding client.movedFrom client.moved.moved) none)
  | round {s : ProgramState ω ρ} {w : ω} {c c' : Connection} {rounds : List Round}
      (hserved : s.served w = some c)
      (hround : RoundStep handler order c rounds c') :
      ProgramStep handler order config maxHeaderBytes maxBodyBytes s
        [.session (.stepped (s.client c.fd) rounds)]
        { s with served := Function.update s.served w (some c') }
  | serveReturns {s : ProgramState ω ρ} {w : ω} {client connection : Fd} {c : Connection}
      (hpc : s.server.worker w = .serving client connection)
      (hserved : s.served w = some c)
      (hclosed : c.state = .closed) :
      ProgramStep handler order config maxHeaderBytes maxBodyBytes s
        [.server (.serveReturned w (s.client connection.fd) c.result),
          .session (.ended (s.client connection.fd) c)]
        (s.setWorker w (.recording client connection c.result) none)
  | serveThrows {s : ProgramState ω ρ} {w : ω} {client connection : Fd} {c : Connection}
      (hpc : s.server.worker w = .serving client connection)
      (hserved : s.served w = some c) :
      ProgramStep handler order config maxHeaderBytes maxBodyBytes s
        [.server (.serveThrew w (s.client connection.fd)),
          .session (.ended (s.client connection.fd) c)]
        (s.setWorker w (.unwinding client connection) none)

end Model

section Projections

variable {ω : Type u} {ρ : Type v}

def ProgramEvent.serverEvent : ProgramEvent ω ρ → Option (ServerEvent ω ρ)
  | .server e => some e
  | .session _ => none

def ProgramEvent.sessionEvent :
    ProgramEvent ω ρ → Option (Sessions.Event (Option ℕ) Connection Round)
  | .server _ => none
  | .session e => some e

/-- What the threads of the server did. -/
def serverEvents (trace : List (ProgramEvent ω ρ)) : List (ServerEvent ω ρ) :=
  trace.filterMap ProgramEvent.serverEvent

/-- What the connections did. -/
def sessionEvents (trace : List (ProgramEvent ω ρ)) :
    List (Sessions.Event (Option ℕ) Connection Round) :=
  trace.filterMap ProgramEvent.sessionEvent

/-- The rounds that were made on the descriptor of a client. -/
def roundsOf (n : ℕ) (trace : List (ProgramEvent ω ρ)) : List Round :=
  Sessions.history (some n) (sessionEvents trace)

@[simp] theorem serverEvents_append (front back : List (ProgramEvent ω ρ)) :
    serverEvents (front ++ back) = serverEvents front ++ serverEvents back :=
  List.filterMap_append

@[simp] theorem sessionEvents_append (front back : List (ProgramEvent ω ρ)) :
    sessionEvents (front ++ back) = sessionEvents front ++ sessionEvents back :=
  List.filterMap_append

@[simp] theorem serverEvents_cons_server (e : ServerEvent ω ρ) (trace : List (ProgramEvent ω ρ)) :
    serverEvents (.server e :: trace) = e :: serverEvents trace := rfl

@[simp] theorem serverEvents_cons_session (e : Sessions.Event (Option ℕ) Connection Round)
    (trace : List (ProgramEvent ω ρ)) :
    serverEvents (.session e :: trace) = serverEvents trace := rfl

@[simp] theorem sessionEvents_cons_server (e : ServerEvent ω ρ) (trace : List (ProgramEvent ω ρ)) :
    sessionEvents (.server e :: trace) = sessionEvents trace := rfl

@[simp] theorem sessionEvents_cons_session (e : Sessions.Event (Option ℕ) Connection Round)
    (trace : List (ProgramEvent ω ρ)) :
    sessionEvents (.session e :: trace) = e :: sessionEvents trace := rfl

@[simp] theorem serverEvents_nil : serverEvents ([] : List (ProgramEvent ω ρ)) = [] := rfl

@[simp] theorem sessionEvents_nil : sessionEvents ([] : List (ProgramEvent ω ρ)) = [] := rfl

@[simp] theorem serverEvents_map_server (word : List (ServerEvent ω ρ)) :
    serverEvents (word.map ProgramEvent.server) = word := by
  induction word with
  | nil => rfl
  | cons e word ih => rw [List.map_cons, serverEvents_cons_server, ih]

@[simp] theorem sessionEvents_map_server (word : List (ServerEvent ω ρ)) :
    sessionEvents (word.map ProgramEvent.server) = [] := by
  induction word with
  | nil => rfl
  | cons e word ih => rw [List.map_cons, sessionEvents_cons_server, ih]

end Projections

section ServerRuns

variable {ω : Type u} {ρ : Type v} [DecidableEq ω] [DecidableEq ρ] {fs : FileSystem}
  {handler : StaticFileHandler fs} {order : IterationOrder} {config : ConnectionConfig}
  {maxHeaderBytes maxBodyBytes : Nat} {s s' : ProgramState ω ρ}
  {trace word : List (ProgramEvent ω ρ)} {q : BoundedQueue Fd}

/-- A step of the program is a step of the server, or a round that the server does not see. -/
theorem ProgramStep.server_step
    (h : ProgramStep handler order config maxHeaderBytes maxBodyBytes s word s') :
    ServerStep s.server (serverEvents word) s'.server ∨
      serverEvents word = [] ∧ s'.server = s.server := by
  cases h with
  | server hstep =>
      rw [serverEvents_map_server]
      exact Or.inl hstep
  | round => exact Or.inr ⟨rfl, rfl⟩
  | constructs hpc =>
      exact Or.inl (.worker (hpc ▸ .constructs))
  | constructorThrows hpc =>
      exact Or.inl (.worker (hpc ▸ .constructorThrows))
  | serveReturns hpc =>
      exact Or.inl (.worker (hpc ▸ .serveReturns))
  | serveThrows hpc =>
      exact Or.inl (.worker (hpc ▸ .serveThrows))

/-- The threads of the program run as a server. -/
theorem serverRun_of_run
    (hrun : Run (ProgramStep handler order config maxHeaderBytes maxBodyBytes)
      (ProgramState.start ω ρ q) trace s) :
    Run ServerStep (ServerState.start ω ρ q) (serverEvents trace) s.server := by
  induction hrun with
  | refl => exact .refl
  | tail _ last ih =>
      rw [serverEvents_append]
      rcases last.server_step with hstep | ⟨hword, hserver⟩
      · exact ih.tail hstep
      · rw [hword, List.append_nil, hserver]
        exact ih

end ServerRuns

section Descriptors

/-- A round is made on the descriptor that the connection was constructed with. -/
theorem fd_of_round
    {fs : FileSystem}
    {handler : StaticFileHandler fs}
    {order : IterationOrder}
    {c c' : Connection}
    {rounds : List Round}
    (h : RoundStep handler order c rounds c') :
    c'.fd = c.fd := by
  obtain ⟨hopen, env, _, events, hstep, _⟩ := h
  have hdoes := c.does_step handler order env hopen
  rw [hstep] at hdoes
  obtain ⟨_, _, hnotice⟩ := c.noticeBuffered_eq env.now
  cases hdoes with
  | @received chunk armed _ _ _ =>
      obtain ⟨_, _, heq⟩ := c.receive_eq chunk.bytes env.later
      rw [heq]
  | needsMore => rw [hnotice]
  | refused _ _ hqueued => rw [hqueued, hnotice]; rfl
  | answered _ _ hqueued => rw [hqueued, hnotice]; rfl
  | sentAll =>
      unfold completeWrite
      dsimp only
      split <;> rfl
  | readInterrupted | timedOut | sendInterrupted | sentPart | ended => rfl

/-- The descriptor of the connection that a worker serves. -/
def WorkerPc.connection : WorkerPc → Option Fd
  | .serving _ connection => some connection
  | _ => none

variable {ω : Type u} {ρ : Type v}

theorem WorkerStep.connection_eq
    {w : ω}
    {g g' : ServerShared}
    {pc pc' : WorkerPc}
    {word : List (ServerEvent ω ρ)}
    (h : WorkerStep w g pc word g' pc')
    (hword : ∀ e ∈ word, e.connects = false) :
    pc'.connection = pc.connection := by
  cases h with
  | constructs | constructorThrows | serveReturns | serveThrows =>
      exact absurd (hword _ (List.mem_singleton_self _)) (by simp [ServerEvent.connects])
  | countsActive | recordsResult | destroysConnection | unwinds | countsError | finishes => rfl

/-- A descriptor that is being served is not closed by a step of another thread. -/
theorem Tracks.mem_table_of_begun
    {a : Lifecycle.State Int}
    {os os' : Descriptors}
    {h h' : Holdings}
    (htracks : Tracks os h a)
    (hkeys : (a.inUse.map Prod.fst).Nodup)
    {word : List (ServerEvent ω ρ)}
    (hhandover : Handover os word h h' os')
    {n : Int}
    {c : ℕ}
    (hn : n ∈ h.2.1)
    (hmem : (n, c) ∈ os.table) :
    (n, c) ∈ os'.table := by
  cases hhandover with
  | accept => exact List.mem_cons_of_mem _ hmem
  | @release _ number _ hword =>
      obtain ⟨k, others, hentry, _⟩ := exists_entry htracks.leaving
      have hnodup : (os.table.map Prod.fst).Nodup := by
        rw [← htracks.table, Multiset.map_coe] at hkeys
        exact hkeys
      have hinUse : (number, k) ∈ a.inUse := by simp [Lifecycle.State.inUse, hentry]
      rw [← htracks.table] at hinUse
      obtain ⟨rfl, _⟩ := hword k (lookup_of_mem hnodup hinUse)
      refine List.mem_filter.2 ⟨hmem, ?_⟩
      have hbegun : n ∈ a.begun.map Prod.fst := htracks.begun ▸ hn
      have hleaving : number ∈ a.leaving.map Prod.fst := by simp [hentry]
      rw [Lifecycle.State.inUse, Multiset.map_add, Multiset.map_add] at hkeys
      have hdisjoint := (Multiset.nodup_add.1 hkeys).2.2
      simp only [decide_eq_true_eq]
      rintro rfl
      exact Multiset.disjoint_left.1 hdisjoint (Multiset.mem_add.2 (Or.inr hbegun)) hleaving
  | _ => exact hmem

variable [Fintype ω] [Fintype ρ] [DecidableEq ω]

/-- The descriptor of a connection that is served is open, and stands for one client. -/
theorem exists_client
    {s : ServerState ω ρ}
    {a : Lifecycle.State Int}
    (htracks : Tracks s.shared.os s.holdings a)
    {w : ω}
    {connection : Fd}
    (hpc : (s.worker w).connection = some connection) :
    connection.fd ∈ s.holdings.2.1 ∧ ∃ n, (connection.fd, n) ∈ s.shared.os.table := by
  have hmem : connection.fd ∈ s.holdings.2.1 := by
    have hworker : connection.fd ∈ (s.worker w).holdings.2.1 := by
      cases hw : s.worker w <;> simp [hw, WorkerPc.connection] at hpc
      subst hpc
      simp [WorkerPc.holdings, Holdings.serves]
    obtain ⟨rest, htotal, _⟩ := exists_total_rest WorkerPc.holdings s.worker w
    simp only [ServerState.holdings, htotal, Prod.snd_add, Prod.fst_add, Multiset.mem_add]
    exact Or.inr (Or.inl hworker)
  refine ⟨hmem, ?_⟩
  rw [htracks.begun] at hmem
  obtain ⟨⟨number, n⟩, hentry, rfl⟩ := Multiset.mem_map.1 hmem
  refine ⟨n, ?_⟩
  have hinUse : (connection.fd, n) ∈ a.inUse := by
    simp only [Lifecycle.State.inUse, Multiset.mem_add]
    exact Or.inl (Or.inr hentry)
  rw [← htracks.table] at hinUse
  exact hinUse

variable [DecidableEq ρ]

theorem Delivery.connection_eq
    {s s' : ServerState ω ρ}
    {q : QueueState (ServerThread ω ρ) Fd}
    {word : List (QueueEvent (ServerThread ω ρ) Fd)}
    (h : Delivery s q word s')
    (w : ω) :
    (s'.worker w).connection = (s.worker w).connection := by
  cases h with
  | popped hpc | drained hpc => exact apply_update_eq (by rw [hpc]; rfl) w
  | quiet | accepted | rejected | requestClosed | poolClosed => rfl

/-- No step but those of serving changes which descriptor a worker serves. -/
theorem ServerStep.connection_eq
    {s s' : ServerState ω ρ}
    {word : List (ServerEvent ω ρ)}
    (hcalls : CallsInv s)
    (h : ServerStep s word s')
    (hword : ∀ e ∈ word, e.connects = false)
    (w : ω) :
    (s'.worker w).connection = (s.worker w).connection := by
  cases h with
  | queueMoves hmove => exact (hcalls.delivery hmove).connection_eq w
  | worker hstep => exact apply_update_eq (hstep.connection_eq hword) w
  | callsPop hpc => exact apply_update_eq (by rw [hpc]; rfl) w
  | environment | acceptor | request | callsPush | requestStarts | pipeReady | destructs
  | exchangesFirst | requestReturns | closesPool | joins => rfl

end Descriptors

section SessionRuns

variable {ω : Type u} {ρ : Type v}

/-- Each worker serves a connection on the descriptor that it has. -/
def ServedInv (s : ProgramState ω ρ) : Prop :=
  ∀ w, (s.served w).map Connection.fd = (s.server.worker w).connection.map Fd.fd

/-- The connections that are served, with the clients they are served for. -/
def ProgramState.sessions (s : ProgramState ω ρ) : Sessions.Slots ω (Option ℕ) Connection :=
  fun w => (s.served w).map (fun c => (s.client c.fd, c))

/-- A connection as a worker constructs it, on a valid descriptor. -/
def FreshConnection (config : ConnectionConfig) (maxHeaderBytes maxBodyBytes : Nat)
    (c : Connection) : Prop :=
  ∃ fd now later, 0 ≤ fd ∧ Connection.make fd config maxHeaderBytes maxBodyBytes now later = .ok c

theorem fd_of_make
    {fd : Int}
    {config : ConnectionConfig}
    {maxHeaderBytes maxBodyBytes : Nat}
    {now later : Int}
    {c : Connection}
    (h : Connection.make fd config maxHeaderBytes maxBodyBytes now later = .ok c) :
    c.fd = fd := by
  unfold Connection.make at h
  split_ifs at h
  all_goals
    cases h
    rfl

theorem ServedInv.connection
    {s : ProgramState ω ρ}
    (h : ServedInv s)
    {w : ω}
    {c : Connection}
    (hserved : s.served w = some c) :
    ∃ connection, (s.server.worker w).connection = some connection ∧ connection.fd = c.fd := by
  have hw := h w
  rw [hserved] at hw
  cases hpc : (s.server.worker w).connection with
  | none => simp [hpc] at hw
  | some connection => exact ⟨connection, rfl, by simpa [hpc, eq_comm] using hw⟩

theorem ServedInv.none_of_connection
    {s : ProgramState ω ρ}
    (h : ServedInv s)
    {w : ω}
    (hpc : (s.server.worker w).connection = none) :
    s.served w = none := by
  have hw := h w
  rw [hpc] at hw
  simpa using hw

variable [DecidableEq ω] {s s' : ProgramState ω ρ}

/-- A worker moves on together with its connection. -/
theorem ServedInv.setWorker
    (h : ServedInv s)
    (w : ω)
    {pc : WorkerPc}
    {connection : Option Connection}
    (hpc : connection.map Connection.fd = pc.connection.map Fd.fd) :
    ServedInv (s.setWorker w pc connection) := by
  intro w'
  by_cases hw : w' = w
  · subst hw
    simpa [ProgramState.setWorker, ServerState.setWorker] using hpc
  · simpa [ProgramState.setWorker, ServerState.setWorker, Function.update_of_ne hw] using h w'

/-- The session of one worker changes. -/
theorem sessions_setWorker
    (s : ProgramState ω ρ)
    (w : ω)
    (pc : WorkerPc)
    (connection : Option Connection) :
    (s.setWorker w pc connection).sessions =
      Function.update s.sessions w (connection.map (fun c => (s.client c.fd, c))) := by
  funext w'
  by_cases hw : w' = w
  · subst hw
    simp [ProgramState.sessions, ProgramState.setWorker, ProgramState.client,
      ServerState.setWorker]
  · simp [ProgramState.sessions, ProgramState.setWorker, ProgramState.client,
      ServerState.setWorker, Function.update_of_ne hw]

variable [DecidableEq ρ] [Fintype ω] [Fintype ρ] {fs : FileSystem}
  {handler : StaticFileHandler fs} {order : IterationOrder} {config : ConnectionConfig}
  {maxHeaderBytes maxBodyBytes : Nat} {trace word : List (ProgramEvent ω ρ)}
  {q : BoundedQueue Fd}

theorem ServedInv.step
    (h : ServedInv s)
    (hcalls : CallsInv s.server)
    (hstep : ProgramStep handler order config maxHeaderBytes maxBodyBytes s word s') :
    ServedInv s' := by
  cases hstep with
  | server hserver hword =>
      intro w
      rw [hserver.connection_eq hcalls hword w]
      exact h w
  | constructs hpc hmake =>
      exact h.setWorker _ (by simp [WorkerPc.connection, fd_of_make hmake])
  | constructorThrows => exact h.setWorker _ rfl
  | serveReturns => exact h.setWorker _ rfl
  | serveThrows => exact h.setWorker _ rfl
  | @round w c c' rounds hserved hround =>
      intro w'
      by_cases hw : w' = w
      · subst hw
        have hfd := h w'
        rw [hserved] at hfd
        simpa [fd_of_round hround] using hfd
      · simpa [Function.update_of_ne hw] using h w'

omit [DecidableEq ρ] in
/-- A step of the other threads leaves the clients of all connections as they are. -/
theorem sessions_server
    {a : Lifecycle.State Int}
    (h : ServedInv s)
    (htracks : Tracks s.server.shared.os s.server.holdings a)
    (hkeys : (a.inUse.map Prod.fst).Nodup)
    {server : ServerState ω ρ}
    {word : List (ServerEvent ω ρ)}
    (hhandover : Handover s.server.shared.os word s.server.holdings server.holdings
      server.shared.os)
    (hkeys' : (server.shared.os.table.map Prod.fst).Nodup) :
    ({ s with server := server } : ProgramState ω ρ).sessions = s.sessions := by
  have hnodup : (s.server.shared.os.table.map Prod.fst).Nodup := by
    rw [← htracks.table, Multiset.map_coe] at hkeys
    exact hkeys
  funext w
  simp only [ProgramState.sessions, ProgramState.client]
  cases hserved : s.served w with
  | none => rfl
  | some c =>
      obtain ⟨connection, hpc, hfd⟩ := h.connection hserved
      obtain ⟨hbegun, n, hentry⟩ := exists_client htracks hpc
      have hstays := htracks.mem_table_of_begun hkeys hhandover hbegun hentry
      rw [hfd] at hentry hstays
      simp [lookup_of_mem hnodup hentry, lookup_of_mem hkeys' hstays]

/-- The numbers of the open descriptors differ. -/
theorem keys_nodup_of_run
    {s : ServerState ω ρ}
    {trace : List (ServerEvent ω ρ)}
    (hrun : Run ServerStep (ServerState.start ω ρ q) trace s)
    (hempty : q.queue = []) :
    (s.shared.os.table.map Prod.fst).Nodup := by
  obtain ⟨_, _, a, hlife, htracks⟩ := refines_of_run hrun hempty
  have hkeys := (Lifecycle.Sound.of_run hlife).keys
  rw [← htracks.table, Multiset.map_coe] at hkeys
  exact hkeys

omit [Fintype ω] [Fintype ρ] [DecidableEq ω] [DecidableEq ρ] in
/-- The slot of a worker that serves a connection. -/
theorem ServedInv.slot
    (h : ServedInv s)
    {w : ω}
    {client connection : Fd}
    {c : Connection}
    (hpc : s.server.worker w = .serving client connection)
    (hserved : s.served w = some c) :
    s.sessions w = some (s.client connection.fd, c) := by
  obtain ⟨other, hother, hfd⟩ := h.connection hserved
  rw [hpc] at hother
  obtain rfl : connection = other := Option.some.inj hother
  simp [ProgramState.sessions, hserved, hfd]

/-- A step of the program is a step of the sessions. -/
theorem ProgramStep.session_step
    (h : ServedInv s)
    (hrun : Run ServerStep (ServerState.start ω ρ q) (serverEvents trace) s.server)
    (hempty : q.queue = [])
    (hstep : ProgramStep handler order config maxHeaderBytes maxBodyBytes s word s') :
    Sessions.Step (RoundStep handler order)
      (FreshConnection config maxHeaderBytes maxBodyBytes) s.sessions (sessionEvents word)
      s'.sessions := by
  obtain ⟨⟨hcalls, hlocal⟩, _, a, hlife, htracks⟩ := refines_of_run hrun hempty
  cases hstep with
  | server hserver hword =>
      rw [sessionEvents_map_server, sessions_server h htracks (Lifecycle.Sound.of_run hlife).keys
        (hserver.handover hcalls hlocal) (keys_nodup_of_run (hrun.tail hserver) hempty)]
      exact .rest
  | @constructs w client now later c hpc hmake =>
      have hfree : s.sessions w = none := by
        simp [ProgramState.sessions, h.none_of_connection (w := w) (by rw [hpc]; rfl)]
      have hvalid : client.valid = true := by
        have hok := hlocal.worker w
        rw [hpc] at hok
        exact hok
      rw [sessions_setWorker, Option.map_some, fd_of_make hmake]
      exact .opens hfree ⟨_, now, later, (Fd.valid_iff client).1 hvalid, hmake⟩
  | @constructorThrows w client now later error hpc hmake =>
      have hfree : s.sessions w = none := by
        simp [ProgramState.sessions, h.none_of_connection (w := w) (by rw [hpc]; rfl)]
      rw [sessions_setWorker, Option.map_none, ← hfree, Function.update_eq_self]
      exact .rest
  | @round w c c' rounds hserved hround =>
      have hslot : s.sessions w = some (s.client c.fd, c) := by
        simp [ProgramState.sessions, hserved]
      have hsessions :
          ({ s with served := Function.update s.served w (some c') } : ProgramState ω ρ).sessions =
            Function.update s.sessions w (some (s.client c.fd, c')) := by
        rw [← fd_of_round hround]
        exact sessions_setWorker s w (s.server.worker w) (some c')
      rw [hsessions]
      exact .steps hslot hround
  | serveReturns hpc hserved =>
      rw [sessions_setWorker, Option.map_none]
      exact .ends (h.slot hpc hserved)
  | serveThrows hpc hserved =>
      rw [sessions_setWorker, Option.map_none]
      exact .ends (h.slot hpc hserved)

/-- The connections of the program run as sessions of the workers. -/
theorem sessionRun_of_run
    (hempty : q.queue = [])
    (hrun : Run (ProgramStep handler order config maxHeaderBytes maxBodyBytes)
      (ProgramState.start ω ρ q) trace s) :
    ServedInv s ∧
      Run (Sessions.Step (RoundStep handler order)
        (FreshConnection config maxHeaderBytes maxBodyBytes)) (fun _ => none)
        (sessionEvents trace) s.sessions := by
  induction hrun with
  | refl => exact ⟨fun _ => rfl, .refl⟩
  | tail front last ih =>
      obtain ⟨hserved, hsessions⟩ := ih
      have hserver := serverRun_of_run front
      refine ⟨hserved.step (refines_of_run hserver hempty).1.1 last, ?_⟩
      rw [sessionEvents_append]
      exact hsessions.tail (last.session_step hserved hserver hempty)

end SessionRuns

section Clients

variable {ω : Type u} {ρ : Type v}

/-- The client that a connection was constructed for. -/
def ServerEvent.constructedFor : ServerEvent ω ρ → Option (Option ℕ)
  | .constructed _ serial => some serial
  | _ => none

theorem constructedFor_eq_nil
    {word : List (ServerEvent ω ρ)}
    (hword : ∀ e ∈ word, e.connects = false) :
    word.filterMap ServerEvent.constructedFor = [] := by
  refine List.filterMap_eq_nil_iff.2 (fun e he => ?_)
  have hquiet := hword e he
  cases e <;> first | rfl | simp [ServerEvent.connects] at hquiet

/-- Where no event concerns a closed number, connections are constructed for clients. -/
theorem constructedFor_eq
    {trace : List (ServerEvent ω ρ)}
    (hregular : ∀ e ∈ trace, e.Regular) :
    trace.filterMap ServerEvent.constructedFor =
      (trace.filterMap ServerEvent.constructedSerial).map some := by
  induction trace with
  | nil => rfl
  | cons e trace ih =>
      have hrest := ih (fun e' he' => hregular e' (List.mem_cons_of_mem _ he'))
      have he := hregular e List.mem_cons_self
      match e with
      | .constructed _ (some n) =>
          simpa [ServerEvent.constructedFor, ServerEvent.constructedSerial] using hrest
      | .constructed _ none => exact absurd he (by simp [ServerEvent.Regular])
      | .queue _ | .descriptor _ | .rejected _ | .constructorThrew _ _ | .serveReturned _ _ _
      | .serveThrew _ _ => exact hrest

variable [DecidableEq ω] [DecidableEq ρ] {fs : FileSystem}
  {handler : StaticFileHandler fs} {order : IterationOrder} {config : ConnectionConfig}
  {maxHeaderBytes maxBodyBytes : Nat} {s : ProgramState ω ρ} {trace : List (ProgramEvent ω ρ)}
  {q : BoundedQueue Fd}

/-- A session is opened for each connection that is constructed. -/
theorem openedIds_sessionEvents
    (hrun : Run (ProgramStep handler order config maxHeaderBytes maxBodyBytes)
      (ProgramState.start ω ρ q) trace s) :
    Sessions.openedIds (sessionEvents trace) =
      (serverEvents trace).filterMap ServerEvent.constructedFor := by
  induction hrun with
  | refl => rfl
  | tail _ last ih =>
      rw [sessionEvents_append, Sessions.openedIds_append, serverEvents_append,
        List.filterMap_append, ih]
      congr 1
      cases last with
      | server _ hword =>
          rw [sessionEvents_map_server, serverEvents_map_server, constructedFor_eq_nil hword]
          rfl
      | constructs | constructorThrows | round | serveReturns | serveThrows => rfl

/-- A session that has ended returned the result of a closed connection, or threw. -/
theorem ended_cases
    (hrun : Run (ProgramStep handler order config maxHeaderBytes maxBodyBytes)
      (ProgramState.start ω ρ q) trace s)
    {i : Option ℕ}
    {c : Connection}
    (hended : Sessions.Event.ended i c ∈ sessionEvents trace) :
    (c.state = .closed ∧ ∃ w, .serveReturned w i c.result ∈ serverEvents trace) ∨
      ∃ w, .serveThrew w i ∈ serverEvents trace := by
  induction hrun with
  | refl => simp at hended
  | @tail trace word s s' _ last ih =>
      rw [sessionEvents_append] at hended
      rw [serverEvents_append]
      rcases List.mem_append.1 hended with hfront | hlast
      · refine (ih hfront).imp (fun h => ⟨h.1, h.2.imp (fun w hw => ?_)⟩)
          (fun h => h.imp (fun w hw => ?_))
        · exact List.mem_append_left _ hw
        · exact List.mem_append_left _ hw
      · cases last with
        | server => simp at hlast
        | constructs | constructorThrows | round => simp at hlast
        | @serveReturns w client connection c' hpc hserved hclosed =>
            simp only [sessionEvents_cons_server, sessionEvents_cons_session, sessionEvents_nil,
              List.mem_singleton, Sessions.Event.ended.injEq] at hlast
            obtain ⟨rfl, rfl⟩ := hlast
            exact Or.inl ⟨hclosed, w, List.mem_append_right _ (by simp)⟩
        | @serveThrows w client connection c' hpc hserved =>
            simp only [sessionEvents_cons_server, sessionEvents_cons_session, sessionEvents_nil,
              List.mem_singleton, Sessions.Event.ended.injEq] at hlast
            obtain ⟨rfl, rfl⟩ := hlast
            exact Or.inr ⟨w, List.mem_append_right _ (by simp)⟩

variable [Fintype ω] [Fintype ρ]

/-- No client is served twice. -/
theorem openedIds_nodup
    (hempty : q.queue = [])
    (hrun : Run (ProgramStep handler order config maxHeaderBytes maxBodyBytes)
      (ProgramState.start ω ρ q) trace s) :
    (Sessions.openedIds (sessionEvents trace)).Nodup := by
  obtain ⟨_, hregular, a, hlife, _⟩ := refines_of_run (serverRun_of_run hrun) hempty
  rw [openedIds_sessionEvents hrun, constructedFor_eq hregular]
  refine List.Nodup.map (Option.some_injective ℕ) (List.nodup_iff_count_le_one.2 (fun n => ?_))
  have honce := (Lifecycle.Sound.of_run hlife).begun_once (c := n)
  rwa [begunSerials_life, Multiset.coe_count] at honce

/-- The rounds made for a client are one run of a connection constructed for it alone. -/
theorem allTraced_of_run
    (hempty : q.queue = [])
    (hrun : Run (ProgramStep handler order config maxHeaderBytes maxBodyBytes)
      (ProgramState.start ω ρ q) trace s) :
    Sessions.AllTraced (RoundStep handler order)
      (FreshConnection config maxHeaderBytes maxBodyBytes) (sessionEvents trace) s.sessions :=
  Sessions.traced_of_run (sessionRun_of_run hempty hrun).2 (openedIds_nodup hempty hrun)

/-- A connection that was constructed is being served, or serving it has returned or thrown. -/
theorem traced_of_constructed
    (hempty : q.queue = [])
    (hrun : Run (ProgramStep handler order config maxHeaderBytes maxBodyBytes)
      (ProgramState.start ω ρ q) trace s)
    {n : ℕ}
    {w : ω}
    (hn : .constructed w (some n) ∈ serverEvents trace) :
    ∃ c, Sessions.Traced (RoundStep handler order)
        (FreshConnection config maxHeaderBytes maxBodyBytes) (sessionEvents trace) (some n) c ∧
      ((∃ w, s.served w = some c ∧ s.client c.fd = some n) ∨
        Sessions.Event.ended (some n) c ∈ sessionEvents trace) := by
  have htraced := allTraced_of_run hempty hrun
  have hopened : some n ∈ Sessions.openedIds (sessionEvents trace) := by
    rw [openedIds_sessionEvents hrun]
    exact List.mem_filterMap.2 ⟨_, hn, rfl⟩
  rcases Sessions.slot_or_ended (sessionRun_of_run hempty hrun).2 hopened with
    ⟨w', c, hslot⟩ | ⟨c, hended⟩
  · refine ⟨c, htraced.slot w' _ c hslot, Or.inl ⟨w', ?_⟩⟩
    obtain ⟨c', hserved, hpair⟩ := Option.map_eq_some_iff.1 hslot
    obtain ⟨hclient, rfl⟩ := Prod.mk.inj hpair
    exact ⟨hserved, hclient⟩
  · exact ⟨c, htraced.ended _ c hended, Or.inr hended⟩

/-- Rounds are made only for clients that a connection was constructed for. -/
theorem constructed_of_stepped
    (hempty : q.queue = [])
    (hrun : Run (ProgramStep handler order config maxHeaderBytes maxBodyBytes)
      (ProgramState.start ω ρ q) trace s)
    {serial : Option ℕ}
    {rounds : List Round}
    (hstepped : .stepped serial rounds ∈ sessionEvents trace) :
    ∃ n w, serial = some n ∧ .constructed w (some n) ∈ serverEvents trace := by
  have hopened := Sessions.mem_openedIds_of_stepped (sessionRun_of_run hempty hrun).2 hstepped
  obtain ⟨_, hregular, _⟩ := refines_of_run (serverRun_of_run hrun) hempty
  rw [openedIds_sessionEvents hrun] at hopened
  obtain ⟨e, he, hfor⟩ := List.mem_filterMap.1 hopened
  cases e with
  | constructed w serial' =>
      obtain rfl : serial' = serial := Option.some.inj hfor
      cases serial' with
      | none => exact absurd (hregular _ he) (by simp [ServerEvent.Regular])
      | some n => exact ⟨n, w, rfl, he⟩
  | _ => simp [ServerEvent.constructedFor] at hfor

/--
In every state that the program reaches, whatever the clients, the system calls and
the scheduler do: its threads run as a server; every round is made on the descriptor
of a client that was constructed a connection; and all rounds made on the descriptor
of a client are one run of a connection that was constructed for this client alone.
That connection is still served, or it is closed and its result has been returned,
or serving it has thrown.
-/
theorem clients_isolated
    {capacity : ℕ}
    (hmake : BoundedQueue.make capacity = .ok q)
    (hrun : Run (ProgramStep handler order config maxHeaderBytes maxBodyBytes)
      (ProgramState.start ω ρ q) trace s) :
    Run ServerStep (ServerState.start ω ρ q) (serverEvents trace) s.server ∧
    (∀ serial rounds, .stepped serial rounds ∈ sessionEvents trace →
      ∃ n w, serial = some n ∧ .constructed w (some n) ∈ serverEvents trace) ∧
    ∀ n w, .constructed w (some n) ∈ serverEvents trace →
      ∃ fd now later c₀ c, 0 ≤ fd ∧
        Connection.make fd config maxHeaderBytes maxBodyBytes now later = .ok c₀ ∧
        Run (RoundStep handler order) c₀ (roundsOf n trace) c ∧
        ((∃ w, s.served w = some c ∧ s.client c.fd = some n) ∨
          (c.state = .closed ∧ ∃ w, .serveReturned w (some n) c.result ∈ serverEvents trace) ∨
          ∃ w, .serveThrew w (some n) ∈ serverEvents trace) := by
  have hempty : q.queue = [] := ((BoundedQueue.make_eq_ok_iff _ _).1 hmake).2 ▸ rfl
  refine ⟨serverRun_of_run hrun, fun _ _ => constructed_of_stepped hempty hrun, ?_⟩
  intro n w hn
  obtain ⟨c, ⟨c₀, _, ⟨fd, now, later, hfd, hfresh⟩, hrounds⟩, hwhere⟩ :=
    traced_of_constructed hempty hrun hn
  exact ⟨fd, now, later, c₀, c, hfd, hfresh, hrounds,
    hwhere.imp id (fun hended => ended_cases hrun hended)⟩

end Clients

section Sample

variable {ω : Type u} {ρ : Type v} [DecidableEq ω] [DecidableEq ρ] {fs : FileSystem}
  {handler : StaticFileHandler fs} {order : IterationOrder} {config : ConnectionConfig}
  {maxHeaderBytes maxBodyBytes : Nat} {s₀ s : ServerState ω ρ} {trace : List (ServerEvent ω ρ)}

/-- The threads run between the steps of serving. -/
theorem programRun_of_server
    (served : ω → Option Connection)
    (hrun : Run ServerStep s₀ trace s)
    (hquiet : trace.all (fun e => !e.connects) = true) :
    Run (ProgramStep handler order config maxHeaderBytes maxBodyBytes)
      { server := s₀, served := served } (trace.map .server) { server := s, served := served } := by
  induction hrun with
  | refl => exact .refl
  | tail _ last ih =>
      rw [List.all_append, Bool.and_eq_true] at hquiet
      rw [List.map_append]
      exact (ih hquiet.1).tail (.server last (by simpa using hquiet.2))

/-- One client asks once and is answered; a signal arrives and the program stops. -/
theorem exists_stopped_program :
    ∃ (trace : List (ProgramEvent Unit Unit)) (s : ProgramState Unit Unit),
      Run (ProgramStep bareHandler .insertion {} (16 * 1024) (1024 * 1024))
        (ProgramState.start Unit Unit { capacity := 1 }) trace s ∧
      s.server.acceptor = .returned ∧ .constructed () (some 0) ∈ serverEvents trace := by
  have hstart : Run ServerStep (ServerState.start Unit Unit { capacity := 1 }) [] _ := .refl
  have haccepted := ((((hstart.tail (.environment .connects)).tail
    (.acceptor (.loopPolls rfl))).tail (.acceptor (.pollReturns (Or.inl Nat.one_pos)))).tail
    (.acceptor .listenerReady)).tail
    (.acceptor (.accepts 3 Nat.one_pos (by decide) (by simp [ServerState.start])))
  have hpushed := (((haccepted.tail (.acceptor .countsAccepted)).tail (.callsPush rfl)).tail
    (.queueMoves (.pushInserts (t := .acceptor) rfl rfl))).tail
    (.queueMoves (.pushNotifies (t := .acceptor) rfl
      (notifyOne_of_none rfl (fun _ => rfl) (fun _ => rfl))))
  have hpopped := (((hpushed.tail (.callsPop (w := ()) rfl)).tail
    (.queueMoves (.popRemoves (t := .worker ()) rfl rfl))).tail
    (.queueMoves (.popNotifies (t := .worker ()) rfl
      (notifyOne_of_none rfl (fun _ => rfl) (fun _ => rfl))))).tail
    (.worker (w := ()) .countsActive)
  have hactive : Run (ProgramStep bareHandler .insertion {} (16 * 1024) (1024 * 1024)) _ _ _ :=
    programRun_of_server (fun _ => none) hpopped rfl
  have hserving := hactive.tail (.constructs (w := ()) rfl sampleConnection_make)
  have hread := hserving.tail
    (.round (w := ()) rfl (roundStep_promptRound (c := sampleConnection) (by decide)))
  have hparsed := hread.tail (.round (w := ()) rfl (roundStep_promptRound (by decide +kernel)))
  have hsent := hparsed.tail (.round (w := ()) rfl (roundStep_promptRound (by decide +kernel)))
  have hreturns := hsent.tail (.serveReturns (w := ()) rfl rfl (by decide +kernel))
  have hback : Run ServerStep hreturns.target.server [] _ := .refl
  dsimp only [Run.target] at hback
  have hfinished := ((hback.tail (.worker (w := ()) .recordsResult)).tail
    (.worker (w := ()) .destroysConnection)).tail (.worker (w := ()) .finishes)
  have hdispatched := ((hfinished.tail (.acceptor .destroysItem)).tail
    (.acceptor .countsDispatch)).tail (.acceptor .serveOneReturns)
  have hrequested := ((((hdispatched.tail (.environment .signals)).tail
    (.acceptor (.loopPolls rfl))).tail (.acceptor (.pollReturns (Or.inr Nat.one_pos)))).tail
    (.pipeReady rfl)).tail (.exchangesFirst (t := .acceptor) rfl rfl)
  have hclosed := ((hrequested.tail (.queueMoves (.closes (t := .acceptor) rfl))).tail
    (.queueMoves (.closeNotifiesEmpty (t := .acceptor) rfl))).tail
    (.queueMoves (.closeNotifiesFull (t := .acceptor) rfl))
  have hstopping := (hclosed.tail (.request (t := .acceptor) .writesPipe)).tail
    (.requestReturns rfl rfl)
  have hjoining := (((hstopping.tail (.closesPool rfl)).tail
    (.queueMoves (.closes (t := .acceptor) rfl))).tail
    (.queueMoves (.closeNotifiesEmpty (t := .acceptor) rfl))).tail
    (.queueMoves (.closeNotifiesFull (t := .acceptor) rfl))
  have hreturned := ((hjoining.tail (.callsPop (w := ()) rfl)).tail
    (.queueMoves (.popDrained (t := .worker ()) rfl rfl))).tail (.joins rfl (fun _ => rfl))
  refine ⟨_, _, hreturns.trans (programRun_of_server _ hreturned rfl), rfl,
    List.mem_filterMap.2 ⟨.server (.constructed () (some 0)), ?_, rfl⟩⟩
  iterate 5 apply List.mem_append_left
  exact List.mem_append_right _ List.mem_cons_self

/-- All rounds made for that client are one run of a connection that has closed. -/
theorem clients_isolated_stopped :
    ∃ (trace : List (ProgramEvent Unit Unit)) (s : ProgramState Unit Unit),
      Run (ProgramStep bareHandler .insertion {} (16 * 1024) (1024 * 1024))
        (ProgramState.start Unit Unit { capacity := 1 }) trace s ∧
      ∃ fd now later c₀ c, 0 ≤ fd ∧
        Connection.make fd {} (16 * 1024) (1024 * 1024) now later = .ok c₀ ∧
        Run (RoundStep bareHandler .insertion) c₀ (roundsOf 0 trace) c := by
  have hmake : BoundedQueue.make 1 = .ok ({ capacity := 1 } : BoundedQueue Fd) := rfl
  obtain ⟨trace, s, hrun, _, hconstructed⟩ := exists_stopped_program
  obtain ⟨fd, now, later, c₀, c, hfd, hfresh, hrounds, _⟩ :=
    (clients_isolated hmake hrun).2.2 0 () hconstructed
  exact ⟨trace, s, hrun, fd, now, later, c₀, c, hfd, hfresh, hrounds⟩

end Sample

end HttpServer
