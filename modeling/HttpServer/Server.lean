import HttpServer.Connection
import HttpServer.QueueCalls

/-!
# The acceptor, the worker pool and shutdown

One thread runs `serve_forever`: it polls the listener and the shutdown pipe,
accepts a client and dispatches its descriptor to a pool of workers through a
`BoundedQueue<Fd>`.  Each worker runs `worker_loop`: it pops a descriptor, builds
a `Connection` from it and serves it.  Any number of threads call
`request_shutdown`.

Descriptors are numbers that the operating system hands out, takes back on
`close` and hands out again.  The code keeps them in move-only `Fd` objects, and
the model keeps every such object: where a descriptor has been moved from, an
object that owns nothing is left behind, and it is destroyed like any other.  The
operating system's table also numbers the accepted descriptors, so that two
descriptors under one number can be told apart.

Threads interleave in any order.  The calls to the queue run as in `QueueMove`,
one critical section, wait or notification at a time.  `Connection::serve` may
return any result or throw, and so may the constructor.
-/

namespace HttpServer

open Transition Threads

universe u v

section Descriptors

/-- An `Fd` object, which owns a descriptor unless its number is negative. -/
structure Fd where
  fd : Int
deriving DecidableEq

/-- The descriptors of accepted clients that are open, with their serial numbers. -/
structure Descriptors where
  table : List (Int × Nat) := []
  next : Nat := 0

inductive DescriptorEvent
  | accepted (serial : Nat) (number : Int)
  | closed (serial : Nat)
  | badClose (number : Int)
deriving DecidableEq

namespace Descriptors

def lookup (os : Descriptors) (number : Int) : Option Nat :=
  os.table.lookup number

/-- A client has been accepted under a number. -/
def accept (os : Descriptors) (number : Int) : Descriptors where
  table := (number, os.next) :: os.table
  next := os.next + 1

/-- The system call `close`, which fails on a number that is not open. -/
def close (os : Descriptors) (number : Int) : Descriptors × List DescriptorEvent :=
  match os.lookup number with
  | some serial =>
      ({ os with table := os.table.filter (fun e => e.1 ≠ number) }, [.closed serial])
  | none => (os, [.badClose number])

end Descriptors

namespace Fd

/-- An object that owns nothing. -/
def none : Fd := ⟨-1⟩

def valid (f : Fd) : Bool :=
  decide (0 ≤ f.fd)

/-- The move constructor: the new object. -/
def moved (f : Fd) : Fd := ⟨f.fd⟩

/-- The move constructor: what is left of the old object. -/
def movedFrom (_ : Fd) : Fd := ⟨-1⟩

/-- `reset`: what happens to the descriptor that the object owned. -/
def reset (f : Fd) (fd : Int) (os : Descriptors) : Descriptors × List DescriptorEvent :=
  if 0 ≤ f.fd ∧ f.fd ≠ fd then os.close f.fd else (os, [])

/-- The destructor. -/
def destroy (f : Fd) (os : Descriptors) : Descriptors × List DescriptorEvent :=
  f.reset (-1) os

end Fd

end Descriptors

section Statistics

/-- An atomic addition to a `std::size_t`. -/
def fetchAdd (counter k : Nat) : Nat :=
  (counter + k) % sizeBound

/-- An atomic subtraction from a `std::size_t`. -/
def fetchSub (counter k : Nat) : Nat :=
  (counter + (sizeBound - k)) % sizeBound

/-- The counters of `HttpServer` and `WorkerPool`; `ends` holds one for each reason. -/
structure ServerStats where
  acceptedConnections : Nat := 0
  dispatchedConnections : Nat := 0
  rejectedDispatches : Nat := 0
  activeConnections : Nat := 0
  completedConnections : Nat := 0
  requestsServed : Nat := 0
  bytesRead : Nat := 0
  bytesWritten : Nat := 0
  ends : ConnectionEndReason → Nat := fun _ => 0
  workerErrors : Nat := 0

/-- `record_result`, whose additions commute with those of the other threads. -/
def ServerStats.recordResult (stats : ServerStats) (result : ConnectionResult) : ServerStats :=
  { stats with
    completedConnections := fetchAdd stats.completedConnections 1
    requestsServed := fetchAdd stats.requestsServed result.requestsServed
    bytesRead := fetchAdd stats.bytesRead result.bytesRead
    bytesWritten := fetchAdd stats.bytesWritten result.bytesWritten
    ends := Function.update stats.ends result.reason (fetchAdd (stats.ends result.reason) 1) }

/-- The counters that `dispatch` adds to. -/
def ServerStats.countDispatch (stats : ServerStats) (accepted : Bool) : ServerStats :=
  if accepted then
    { stats with dispatchedConnections := fetchAdd stats.dispatchedConnections 1 }
  else
    { stats with rejectedDispatches := fetchAdd stats.rejectedDispatches 1 }

end Statistics

section Threads

inductive ServerThread (ω : Type u) (ρ : Type v)
  | acceptor
  | worker (w : ω)
  | requester (r : ρ)
deriving DecidableEq

/--
The program points of `serve_forever`, with the `Fd` objects that are alive there:
`client` of `serve_one`, the argument of `dispatch` and the argument of `push`.
-/
inductive AcceptorPc
  | checking
  | polling
  | polled (listener pipe : Bool)
  | accepting
  | accepted (client : Fd)
  | counted (client : Fd)
  | pushing (client arg : Fd)
  | pushReturned (client arg item : Fd) (accepted : Bool)
  | dispatching (client arg : Fd) (accepted : Bool)
  | dispatched (client : Fd) (accepted : Bool)
  | requesting
  | stopping
  | closingPool
  | joining
  | returned
  | threw

/--
The program points of `worker_loop`, with the `Fd` objects that are alive there:
the popped optional and the member of the `Connection`.
-/
inductive WorkerPc
  | looping
  | popping
  | popped (client : Fd)
  | active (client : Fd)
  | serving (client connection : Fd)
  | recording (client connection : Fd) (result : ConnectionResult)
  | leaving (client connection : Fd)
  | unwinding (client connection : Fd)
  | caught (client : Fd)
  | finishing (client : Fd)
  | exited

/-- The program points of `request_shutdown`. -/
inductive RequestPc
  | idle
  | exchanging
  | closing
  | writing
deriving DecidableEq

end Threads

section LocalSteps

/-- What the threads share besides the queue, and the clients that wait for `accept`. -/
structure ServerShared where
  shutdownRequested : Bool := false
  stats : ServerStats := {}
  os : Descriptors := {}
  backlog : Nat := 0
  pipe : Nat := 0

/-- What the threads do; `none` for the serial number of a descriptor that is not open. -/
inductive ServerEvent (ω : Type u) (ρ : Type v)
  | queue (e : QueueEvent (ServerThread ω ρ) Fd)
  | descriptor (e : DescriptorEvent)
  | rejected (serial : Option Nat)
  | constructed (w : ω) (serial : Option Nat)
  | constructorThrew (w : ω) (serial : Option Nat)
  | serveReturned (w : ω) (serial : Option Nat) (result : ConnectionResult)
  | serveThrew (w : ω) (serial : Option Nat)

variable {ω : Type u} {ρ : Type v}

namespace ServerShared

/-- The destructor of an object runs. -/
def destroy (g : ServerShared) (f : Fd) : ServerShared :=
  { g with os := (f.destroy g.os).1 }

def destroyEvents (g : ServerShared) (f : Fd) : List (ServerEvent ω ρ) :=
  (f.destroy g.os).2.map .descriptor

end ServerShared

/-- Clients connect and go away, and a signal handler writes to the pipe. -/
inductive EnvironmentStep (g : ServerShared) : ServerShared → Prop
  | connects : EnvironmentStep g { g with backlog := g.backlog + 1 }
  | aborts : EnvironmentStep g { g with backlog := g.backlog - 1 }
  | signals : EnvironmentStep g { g with pipe := g.pipe + 1 }

/-- The steps of `serve_forever` and `serve_one` outside calls to the queue. -/
inductive AcceptorStep (g : ServerShared) :
    AcceptorPc → List (ServerEvent ω ρ) → ServerShared → AcceptorPc → Prop
  | loopEnds
      (hflag : g.shutdownRequested = true) :
      AcceptorStep g .checking [] g .stopping
  | loopPolls
      (hflag : g.shutdownRequested = false) :
      AcceptorStep g .checking [] g .polling
  | pollReturns
      (hready : 0 < g.backlog ∨ 0 < g.pipe) :
      AcceptorStep g .polling [] g (.polled (decide (0 < g.backlog)) (decide (0 < g.pipe)))
  | pollInterrupted :
      AcceptorStep g .polling [] g .checking
  | pollFails :
      AcceptorStep g .polling [] g .threw
  | listenerReady :
      AcceptorStep g (.polled true false) [] g .accepting
  | nothingReady :
      AcceptorStep g (.polled false false) [] g .checking
  | accepts (number : Int)
      (hbacklog : 0 < g.backlog)
      (hnumber : 0 ≤ number)
      (hfresh : number ∉ g.os.table.map Prod.fst) :
      AcceptorStep g .accepting [.descriptor (.accepted g.os.next number)]
        { g with os := g.os.accept number, backlog := g.backlog - 1 } (.accepted ⟨number⟩)
  | acceptInterrupted :
      AcceptorStep g .accepting [] g .accepting
  | acceptFails :
      AcceptorStep g .accepting [] g .threw
  | countsAccepted {client : Fd} :
      AcceptorStep g (.accepted client) []
        { g with stats := { g.stats with
            acceptedConnections := fetchAdd g.stats.acceptedConnections 1 } }
        (.counted client)
  | destroysItem {client arg item : Fd} {accepted : Bool} :
      AcceptorStep g (.pushReturned client arg item accepted) (g.destroyEvents item)
        (g.destroy item) (.dispatching client arg accepted)
  | countsDispatch {client arg : Fd} {accepted : Bool} :
      AcceptorStep g (.dispatching client arg accepted) (g.destroyEvents arg)
        { g.destroy arg with stats := g.stats.countDispatch accepted }
        (.dispatched client accepted)
  | serveOneReturns {client : Fd} {accepted : Bool} :
      AcceptorStep g (.dispatched client accepted) (g.destroyEvents client)
        (g.destroy client)
        (if accepted || g.shutdownRequested then .checking else .threw)

/-- The steps of `worker_loop` outside calls to the queue. -/
inductive WorkerStep (w : ω) (g : ServerShared) :
    WorkerPc → List (ServerEvent ω ρ) → ServerShared → WorkerPc → Prop
  | countsActive {client : Fd} :
      WorkerStep w g (.popped client) []
        { g with stats := { g.stats with
            activeConnections := fetchAdd g.stats.activeConnections 1 } }
        (.active client)
  | constructs {client : Fd} :
      WorkerStep w g (.active client) [.constructed w (g.os.lookup client.moved.moved.fd)]
        g (.serving client.movedFrom client.moved.moved)
  | constructorThrows {client : Fd} :
      WorkerStep w g (.active client) [.constructorThrew w (g.os.lookup client.moved.moved.fd)]
        g (.unwinding client.movedFrom client.moved.moved)
  | serveReturns {client connection : Fd} {result : ConnectionResult} :
      WorkerStep w g (.serving client connection)
        [.serveReturned w (g.os.lookup connection.fd) result]
        g (.recording client connection result)
  | serveThrows {client connection : Fd} :
      WorkerStep w g (.serving client connection) [.serveThrew w (g.os.lookup connection.fd)]
        g (.unwinding client connection)
  | recordsResult {client connection : Fd} {result : ConnectionResult} :
      WorkerStep w g (.recording client connection result) []
        { g with stats := g.stats.recordResult result } (.leaving client connection)
  | destroysConnection {client connection : Fd} :
      WorkerStep w g (.leaving client connection) (g.destroyEvents connection)
        (g.destroy connection) (.finishing client)
  | unwinds {client connection : Fd} :
      WorkerStep w g (.unwinding client connection) (g.destroyEvents connection)
        (g.destroy connection) (.caught client)
  | countsError {client : Fd} :
      WorkerStep w g (.caught client) []
        { g with stats := { g.stats with workerErrors := fetchAdd g.stats.workerErrors 1 } }
        (.finishing client)
  | finishes {client : Fd} :
      WorkerStep w g (.finishing client) (g.destroyEvents client)
        { g.destroy client with stats := { g.stats with
            activeConnections := fetchSub g.stats.activeConnections 1 } }
        .looping

/-- The steps of `request_shutdown` after its first atomic operation found the flag set, and
after the queue has been closed. The pipe is not blocking; a write to a full pipe is lost. -/
inductive RequestStep (g : ServerShared) : RequestPc → ServerShared → RequestPc → Prop
  | exchangesAgain
      (hflag : g.shutdownRequested = true) :
      RequestStep g .exchanging g .idle
  | writesPipe :
      RequestStep g .writing { g with pipe := g.pipe + 1 } .idle
  | pipeFull
      (hfull : 0 < g.pipe) :
      RequestStep g .writing g .idle

end LocalSteps

section System

variable (ω : Type u) (ρ : Type v)

structure ServerState where
  queue : QueueState (ServerThread ω ρ) Fd
  shared : ServerShared := {}
  acceptor : AcceptorPc := .checking
  worker : ω → WorkerPc := fun _ => .looping
  request : ServerThread ω ρ → RequestPc := fun _ => .idle

variable {ω ρ}

/-- The server as constructed, with an empty queue. -/
def ServerState.start (ω : Type u) (ρ : Type v) (q : BoundedQueue Fd) : ServerState ω ρ where
  queue := QueueState.start _ q

variable [DecidableEq ω] [DecidableEq ρ]

namespace ServerState

def setWorker (s : ServerState ω ρ) (w : ω) (pc : WorkerPc) : ServerState ω ρ :=
  { s with worker := Function.update s.worker w pc }

def setRequest (s : ServerState ω ρ) (t : ServerThread ω ρ) (pc : RequestPc) : ServerState ω ρ :=
  { s with request := Function.update s.request t pc }

/-- A thread calls a method of the queue. -/
def call (s : ServerState ω ρ) (t : ServerThread ω ρ) (pc : QueuePc Fd) : ServerState ω ρ :=
  { s with queue := s.queue.move t pc }

/-- `push` returns to `dispatch`; its argument is alive until the caller destroys it. -/
def pushReturns (s : ServerState ω ρ) (item : Fd) (accepted : Bool) : ServerState ω ρ :=
  match s.acceptor with
  | .pushing client arg =>
      { s with
        acceptor := .pushReturned client arg (if accepted then item.movedFrom else item) accepted }
  | _ => s

/-- `close` returns to `request_shutdown`, or to `shutdown` of the pool. -/
def closeReturns (s : ServerState ω ρ) (t : ServerThread ω ρ) : ServerState ω ρ :=
  if s.request t = .closing then
    s.setRequest t .writing
  else
    { s with acceptor := .joining }

/-- A call to the queue returns to its caller. -/
def deliver (s : ServerState ω ρ) : QueueEvent (ServerThread ω ρ) Fd → ServerState ω ρ
  | .pushReturned _ item accepted => s.pushReturns item accepted
  | .popReturned (.worker w) item => s.setWorker w (.popped item)
  | .drained (.worker w) => s.setWorker w .exited
  | .closeReturned t => s.closeReturns t
  | _ => s

/-- The events of a step of a call to the queue. -/
def reports (s : ServerState ω ρ) :
    QueueEvent (ServerThread ω ρ) Fd → List (ServerEvent ω ρ)
  | .pushReturned t item false =>
      [.queue (.pushReturned t item false), .rejected (s.shared.os.lookup item.fd)]
  | e => [.queue e]

end ServerState

/-- The steps of the clients, of signal handlers and of the threads. -/
inductive ServerStep :
    ServerState ω ρ → List (ServerEvent ω ρ) → ServerState ω ρ → Prop
  | environment {s : ServerState ω ρ} {g : ServerShared}
      (henv : EnvironmentStep s.shared g) :
      ServerStep s [] { s with shared := g }
  | queueMoves {s : ServerState ω ρ} {word : List (QueueEvent (ServerThread ω ρ) Fd)}
      {q : QueueState (ServerThread ω ρ) Fd}
      (hmove : QueueMove s.queue word q) :
      ServerStep s (word.flatMap s.reports)
        (word.foldl ServerState.deliver { s with queue := q })
  | acceptor {s : ServerState ω ρ} {word : List (ServerEvent ω ρ)} {g : ServerShared}
      {pc : AcceptorPc}
      (hstep : AcceptorStep s.shared s.acceptor word g pc) :
      ServerStep s word { s with shared := g, acceptor := pc }
  | worker {s : ServerState ω ρ} {w : ω} {word : List (ServerEvent ω ρ)} {g : ServerShared}
      {pc : WorkerPc}
      (hstep : WorkerStep w s.shared (s.worker w) word g pc) :
      ServerStep s word { s.setWorker w pc with shared := g }
  | request {s : ServerState ω ρ} {t : ServerThread ω ρ} {g : ServerShared} {pc : RequestPc}
      (hstep : RequestStep s.shared (s.request t) g pc) :
      ServerStep s [] { s.setRequest t pc with shared := g }
  | callsPush {s : ServerState ω ρ} {client : Fd}
      (hpc : s.acceptor = .counted client) :
      ServerStep s []
        { s.call .acceptor (.pushReady client.moved.moved) with
          acceptor := .pushing client.movedFrom client.moved.movedFrom }
  | callsPop {s : ServerState ω ρ} {w : ω}
      (hpc : s.worker w = .looping) :
      ServerStep s [] ((s.setWorker w .popping).call (.worker w) .popReady)
  | requestStarts {s : ServerState ω ρ} {r : ρ}
      (hpc : s.request (.requester r) = .idle) :
      ServerStep s [] (s.setRequest (.requester r) .exchanging)
  | pipeReady {s : ServerState ω ρ} {listener : Bool}
      (hpc : s.acceptor = .polled listener true) :
      ServerStep s [] { s.setRequest .acceptor .exchanging with acceptor := .requesting }
  | destructs {s : ServerState ω ρ}
      (hpc : s.acceptor = .threw) :
      -- The exception leaves `serve_forever`, and `~HttpServer` asks for the shutdown.
      ServerStep s [] { s.setRequest .acceptor .exchanging with acceptor := .requesting }
  | exchangesFirst {s : ServerState ω ρ} {t : ServerThread ω ρ}
      (hpc : s.request t = .exchanging)
      (hflag : s.shared.shutdownRequested = false) :
      ServerStep s []
        { (s.setRequest t .closing).call t .closeReady with
          shared := { s.shared with shutdownRequested := true } }
  | requestReturns {s : ServerState ω ρ}
      (hpc : s.acceptor = .requesting)
      (hrequest : s.request .acceptor = .idle) :
      ServerStep s [] { s with acceptor := .stopping }
  | closesPool {s : ServerState ω ρ}
      (hpc : s.acceptor = .stopping) :
      ServerStep s [] { s.call .acceptor .closeReady with acceptor := .closingPool }
  | joins {s : ServerState ω ρ}
      (hpc : s.acceptor = .joining)
      (hexited : ∀ w, s.worker w = .exited) :
      ServerStep s [] { s with acceptor := .returned }

end System

end HttpServer
