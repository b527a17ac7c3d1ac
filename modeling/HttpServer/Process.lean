import HttpServer.FdObjects
import HttpServer.Lib.Unwinding

/-!
# The process around the server

`main` reads its arguments, constructs the server, installs the signal handlers,
serves, and leaves through destructors, on every path: each call of the operating
system may fail, each call of the library may throw.  The functions are written as
programs over these calls (`SysCall`), with the destructors of local objects, of
members and of the `catch` clauses where the source has them.

Meanwhile the process has other threads.  A worker runs until the queue has been
closed; it may open and close descriptors of its own.  A signal may be handled on
any thread: the main thread does nothing else meanwhile, while a worker may be
interrupted between the two lines in which the handler reads the global variable and
writes to that descriptor (`ThreadPhase.handling`).  A signal that is not handled
ends the process, and with it the run.

The rounds that the loop of `serve_forever` goes on from are one call here, which
tells how the last round left the loop (`LoopExit`); `HttpServer.Server` is the model
of the rounds.
-/

namespace HttpServer

open Unwinding

section State

/-- The signals that `install_shutdown_handler` handles. -/
inductive ShutdownSignal
  | sigint
  | sigterm
deriving DecidableEq

/-- A `std::thread` and its worker; `handling` has read the global variable. -/
inductive ThreadPhase
  | running
  | handling (fd : Int)
  | ended
  | joined
deriving DecidableEq

abbrev ErrorNumber := Nat

/-- What happens to descriptors and threads, what goes wrong, and what is reported. -/
inductive ProcessEvent
  | piped (readEnd writeEnd : Nat)
  | closed (serial : Nat)
  | badClose (number : Int)
  | notified (serial : Nat)
  | missed (number : Int)
  | terminated
  | failed (operation : Bytes) (errno : ErrorNumber)
  | threw (what : Bytes)
  | refusedAddress (address : Bytes)
  | unhandled (signal : ShutdownSignal)
  | reported (what : Bytes)
deriving DecidableEq

/-- The threads, the flags of the server and the disposition of the signals. -/
structure Control where
  threads : List ThreadPhase := []
  queueClosed : Bool := false
  shutdownRequested : Bool := false
  handled : ShutdownSignal → Bool := fun _ => false
  shutdownNotificationFd : Int := -1

namespace Control

/-- Some worker has not been joined. -/
def Busy (c : Control) : Prop :=
  ∃ phase ∈ c.threads, phase ≠ .joined

def setThread (c : Control) (i : Nat) (phase : ThreadPhase) : Control :=
  { c with threads := c.threads.set i phase }

end Control

/-- The process; `elsewhere` has the descriptors that are not those of the main thread. -/
structure ProcessState where
  os : Descriptors := {}
  elsewhere : List Nat := []
  errno : ErrorNumber := 0
  control : Control := {}
  log : List ProcessEvent := []

namespace ProcessState

/-- The process as it is started, with the descriptors that it inherits. -/
def start (os : Descriptors) : ProcessState where
  os := os

def record (s : ProcessState) (e : ProcessEvent) : ProcessState :=
  { s with log := s.log ++ [e] }

/-- A call fails and says why. -/
def fail (s : ProcessState) (operation : Bytes) (errno : ErrorNumber) : ProcessState :=
  { s.record (.failed operation errno) with errno := errno }

/-- The main thread opens a descriptor. -/
def opens (s : ProcessState) (number : Int) : ProcessState :=
  { s with os := s.os.accept number }

def destroyEvent : DescriptorEvent → ProcessEvent
  | .accepted serial _ => .closed serial
  | .closed serial => .closed serial
  | .badClose number => .badClose number

/-- The destructor of an `Fd` runs. -/
def destroyFd (s : ProcessState) (f : Fd) : ProcessState :=
  { s with
    os := (f.destroy s.os).1
    log := s.log ++ (f.destroy s.os).2.map destroyEvent }

/-- `write` of the notification, which may leave another `errno`. -/
def write (s : ProcessState) (fd : Int) (errno : ErrorNumber) : ProcessState :=
  match s.os.lookup fd with
  | some serial => { s.record (.notified serial) with errno := errno }
  | none => { s.record (.missed fd) with errno := errno }

/-- The handler on the main thread. -/
def handleShutdownSignal (s : ProcessState) (errno : ErrorNumber) : ProcessState :=
  let savedErrno := s.errno
  let fd := s.control.shutdownNotificationFd
  let s := if 0 ≤ fd then s.write fd errno else s
  { s with errno := savedErrno }

/-- The second half of the handler on a worker, which has an `errno` of its own. -/
def workerWrites (s : ProcessState) (i : Nat) (fd : Int) (errno : ErrorNumber) : ProcessState :=
  { s.write fd errno with errno := s.errno, control := s.control.setThread i .running }

/-- The signals and the other threads. -/
inductive Interrupt : ProcessState → ProcessState → Prop
  | handled {s : ProcessState} (signal : ShutdownSignal) (errno : ErrorNumber)
      (hhandled : s.control.handled signal = true) :
      Interrupt s (s.handleShutdownSignal errno)
  | workerHandles {s : ProcessState} {i : Nat} (signal : ShutdownSignal)
      (hhandled : s.control.handled signal = true)
      (hrunning : s.control.threads[i]? = some .running)
      (hfd : 0 ≤ s.control.shutdownNotificationFd) :
      Interrupt s
        { s with control :=
            s.control.setThread i (.handling s.control.shutdownNotificationFd) }
  | workerWrites {s : ProcessState} {i : Nat} {fd : Int} (errno : ErrorNumber)
      (hhandling : s.control.threads[i]? = some (.handling fd)) :
      Interrupt s (s.workerWrites i fd errno)
  | workerEnds {s : ProcessState} {i : Nat}
      (hclosed : s.control.queueClosed = true)
      (hrunning : s.control.threads[i]? = some .running) :
      Interrupt s { s with control := s.control.setThread i .ended }
  | opensElsewhere {s : ProcessState} {number : Int}
      (hbusy : s.control.Busy)
      (hnumber : 0 ≤ number)
      (hfree : s.os.lookup number = none) :
      Interrupt s
        { s with os := s.os.accept number, elsewhere := s.os.next :: s.elsewhere }
  | closesElsewhere {s : ProcessState} {number : Int} {serial : Nat}
      (hopen : s.os.lookup number = some serial)
      (helsewhere : serial ∈ s.elsewhere) :
      Interrupt s { s with os := (s.os.close number).1 }

end ProcessState

end State

section Calls

/-- How a round leaves the loop of `serve_forever`. -/
inductive LoopExit
  | shutdownRequested
  | pipeReadable
  | pollFailed
  | acceptFailed
  | poolClosed
deriving DecidableEq

/-- The calls of the main thread, one constructor for each that the source makes. -/
inductive SysCall
  | canonical (path : Bytes)
  | socket
  | setReuseAddr (fd : Int)
  | inetPton (address : Bytes)
  | bind (fd : Int) (address : Bytes) (port : Nat)
  | listen (fd : Int) (backlog : Int)
  | getsockname (fd : Int)
  | pipe
  | setCloexec (fd : Int)
  | getFlags (fd : Int)
  | setNonblock (fd : Int) (flags : Int)
  | errno
  | destroyFd (f : Fd)
  | reserve (count : Nat)
  | startWorker
  | workersSize
  | joinable (i : Nat)
  | join (i : Nat)
  | destroyWorkers
  | closeQueue
  | exchangeShutdownRequested
  | write (fd : Int)
  | setNotificationFd (fd : Int)
  | sigaction (signal : ShutdownSignal)
  | serveLoop (listener shutdownPipe : Int)
  | printUsage
  | printListening
  | printMetrics
  | printError (what : Bytes)

/-- The answers; `none` is that of a call that has set `errno`. -/
abbrev SysCall.Reply : SysCall → Type
  | .canonical _ => Except Bytes Unit
  | .socket => Int
  | .setReuseAddr _ => Option Unit
  | .inetPton _ => Bool
  | .bind _ _ _ => Option Unit
  | .listen _ _ => Option Unit
  | .getsockname _ => Option Nat
  | .pipe => Option (Int × Int)
  | .setCloexec _ => Option Unit
  | .getFlags _ => Option Int
  | .setNonblock _ _ => Option Unit
  | .errno => ErrorNumber
  | .reserve _ => Except Bytes Unit
  | .startWorker => Except Bytes Unit
  | .workersSize => Nat
  | .joinable _ => Bool
  | .exchangeShutdownRequested => Bool
  | .sigaction _ => Bool
  | .serveLoop _ _ => LoopExit
  | .printListening => Except Bytes Unit
  | .printMetrics => Except Bytes Unit
  | _ => Unit

namespace ProcessState

/-- A call that changes nothing but `errno`, when it fails. -/
def MayFail {α : Type} (s : ProcessState) (operation : Bytes) :
    Option α → ProcessState → Prop
  | some _, s' => s' = s
  | none, s' => ∃ errno, s' = s.fail operation errno

/-- A call of the library that throws, or is done. -/
def MayThrow (s done : ProcessState) : Except Bytes Unit → ProcessState → Prop
  | .ok _, s' => s' = done
  | .error what, s' => s' = s.record (.threw what)

/-- The main thread gets two descriptors. -/
def opensPipe (s : ProcessState) (readEnd writeEnd : Int) : ProcessState :=
  ((s.opens readEnd).opens writeEnd).record (.piped s.os.next (s.os.next + 1))

def setControl (s : ProcessState) (c : Control) : ProcessState :=
  { s with control := c }

/-- A thread that has not been joined may not be destroyed. -/
def destroyWorkers (s : ProcessState) : ProcessState :=
  if s.control.threads.all (fun phase => phase == .joined) then s else s.record .terminated

/-- The pipe with this read end has been written to. -/
def PipeReadable (s : ProcessState) (fd : Int) : Prop :=
  ∃ readEnd writeEnd, s.os.lookup fd = some readEnd ∧ .piped readEnd writeEnd ∈ s.log ∧
    .notified writeEnd ∈ s.log

/--
The ways out of the loop.  The failures are those of `poll` and `accept` with another error
than `EINTR`; the queue refuses a client when it has been closed.
-/
def LeavesLoop (s : ProcessState) (shutdownPipe : Int) : LoopExit → ProcessState → Prop
  | .shutdownRequested, s' => s.control.shutdownRequested = true ∧ s' = s
  | .pipeReadable, s' => s.PipeReadable shutdownPipe ∧ s' = s
  | .pollFailed, s' => ∃ errno, s' = s.fail (ascii "poll") errno
  | .acceptFailed, s' => ∃ errno, s' = s.fail (ascii "accept") errno
  | .poolClosed, s' =>
      s.control.queueClosed = true ∧ s.control.shutdownRequested = false ∧ s' = s

/-- How the calls are answered. -/
def Answers : (k : SysCall) → ProcessState → k.Reply → ProcessState → Prop
  | .canonical _, s, r, s' => s.MayThrow s r s'
  | .socket, s, (number : Int), s' =>
      (0 ≤ number ∧ s.os.lookup number = none ∧ s' = s.opens number) ∨
        (number = -1 ∧ ∃ errno, s' = s.fail (ascii "socket") errno)
  | .setReuseAddr _, s, r, s' => s.MayFail (ascii "setsockopt(SO_REUSEADDR)") r s'
  | .inetPton address, s, (valid : Bool), s' =>
      s' = if valid then s else s.record (.refusedAddress address)
  | .bind _ _ _, s, r, s' => s.MayFail (ascii "bind") r s'
  | .listen _ _, s, r, s' => s.MayFail (ascii "listen") r s'
  | .getsockname _, s, r, s' => s.MayFail (ascii "getsockname") r s'
  | .pipe, s, some (readEnd, writeEnd), s' =>
      0 ≤ readEnd ∧ 0 ≤ writeEnd ∧ readEnd ≠ writeEnd ∧
        s.os.lookup readEnd = none ∧ s.os.lookup writeEnd = none ∧
        s' = s.opensPipe readEnd writeEnd
  | .pipe, s, none, s' => ∃ errno, s' = s.fail (ascii "pipe") errno
  | .setCloexec _, s, r, s' => s.MayFail (ascii "fcntl(FD_CLOEXEC)") r s'
  | .getFlags _, s, r, s' => s.MayFail (ascii "fcntl(O_NONBLOCK)") r s'
  | .setNonblock _ _, s, r, s' => s.MayFail (ascii "fcntl(O_NONBLOCK)") r s'
  | .errno, s, r, s' => r = s.errno ∧ s' = s
  | .destroyFd f, s, _, s' => s' = s.destroyFd f
  | .reserve _, s, r, s' => s.MayThrow s r s'
  | .startWorker, s, r, s' =>
      s.MayThrow
        (s.setControl { s.control with threads := s.control.threads ++ [.running] }) r s'
  | .workersSize, s, r, s' => r = s.control.threads.length ∧ s' = s
  | .joinable i, s, r, s' => r = decide (s.control.threads[i]? ≠ some .joined) ∧ s' = s
  | .join i, s, _, s' =>
      s.control.threads[i]? = some .ended ∧ s' = s.setControl (s.control.setThread i .joined)
  | .destroyWorkers, s, _, s' => s' = s.destroyWorkers
  | .closeQueue, s, _, s' => s' = s.setControl { s.control with queueClosed := true }
  | .exchangeShutdownRequested, s, r, s' =>
      r = s.control.shutdownRequested ∧
        s' = s.setControl { s.control with shutdownRequested := true }
  | .write fd, s, _, s' => ∃ errno, s' = s.write fd errno
  | .setNotificationFd fd, s, _, s' =>
      s' = s.setControl { s.control with shutdownNotificationFd := fd }
  | .sigaction signal, s, (done : Bool), s' =>
      s' =
        if done then
          s.setControl
            { s.control with handled := Function.update s.control.handled signal true }
        else
          s.record (.unhandled signal)
  | .serveLoop _ shutdownPipe, s, r, s' => s.LeavesLoop shutdownPipe r s'
  | .printUsage, s, _, s' => s' = s
  | .printListening, s, r, s' => s.MayThrow s r s'
  | .printMetrics, s, r, s' => s.MayThrow s r s'
  | .printError what, s, _, s' => s' = s.record (.reported what)

end ProcessState

/-- The process as the system under its main thread. -/
def processSystem : System SysCall SysCall.Reply ProcessState where
  answer := ProcessState.Answers
  interrupt := ProcessState.Interrupt

/-- A function of the main thread; what it throws is the text of the exception. -/
abbrev MainProg (α : Type) := Prog SysCall SysCall.Reply Bytes α

def sysCall (k : SysCall) : MainProg k.Reply := Prog.perform k

end Calls

section Functions

/-- Throw what a call of the library has thrown. -/
def orThrow {α : Type} : Except Bytes α → MainProg α
  | .ok a => pure a
  | .error what => .throw what

variable (strerror : ErrorNumber → Bytes)

def syscallError {α : Type} (operation : Bytes) : MainProg α := do
  let errno ← sysCall .errno
  .throw (operation ++ ascii ": " ++ strerror errno)

/-- The common form of a call and its test: `if (…) throw syscall_error(…)`. -/
def orSyscallError (done : Bool) (operation : Bytes) : MainProg Unit :=
  if done then pure () else syscallError strerror operation

section Listener

structure TcpListener where
  fd : Fd
  port : Nat

def makeIpv4Address (address : Bytes) : MainProg Unit := do
  let valid ← sysCall (.inetPton address)
  if valid then pure () else .throw (ascii "invalid IPv4 address: " ++ address)

def boundPort (fd : Int) : MainProg Nat := do
  match ← sysCall (.getsockname fd) with
  | some port => pure port
  | none => syscallError strerror (ascii "getsockname")

/-- What `bind_ipv4` does while its local `listener` is alive. -/
def listenOn (listener : Fd) (port : Nat) (backlog : Int) (address : Bytes) :
    MainProg TcpListener := do
  orSyscallError strerror listener.valid (ascii "socket")
  let reuse ← sysCall (.setReuseAddr listener.fd)
  orSyscallError strerror reuse.isSome (ascii "setsockopt(SO_REUSEADDR)")
  makeIpv4Address address
  let bound ← sysCall (.bind listener.fd address port)
  orSyscallError strerror bound.isSome (ascii "bind")
  let listening ← sysCall (.listen listener.fd backlog)
  orSyscallError strerror listening.isSome (ascii "listen")
  let assignedPort ← boundPort strerror listener.fd
  pure ⟨listener.moved, assignedPort⟩

def bindIpv4 (port : Nat) (backlog : Int) (address : Bytes) : MainProg TcpListener := do
  let number ← sysCall .socket
  (listenOn strerror ⟨number⟩ port backlog address).guarded
    (sysCall (.destroyFd (Fd.mk number).movedFrom))
    (sysCall (.destroyFd ⟨number⟩))

end Listener

section Pipe

/-- The destructor of `std::array<Fd, 2>`. -/
def destroyPipe (pipe : Fd × Fd) : MainProg Unit := do
  sysCall (.destroyFd pipe.2)
  sysCall (.destroyFd pipe.1)

/-- What `make_shutdown_pipe` does while its local `result` is alive. -/
def setPipeFlags (result : Fd × Fd) : MainProg (Fd × Fd) := do
  let first ← sysCall (.setCloexec result.1.fd)
  orSyscallError strerror first.isSome (ascii "fcntl(FD_CLOEXEC)")
  let second ← sysCall (.setCloexec result.2.fd)
  orSyscallError strerror second.isSome (ascii "fcntl(FD_CLOEXEC)")
  let flags ← sysCall (.getFlags result.2.fd)
  orSyscallError strerror flags.isSome (ascii "fcntl(O_NONBLOCK)")
  let done ← sysCall (.setNonblock result.2.fd (flags.getD 0))
  orSyscallError strerror done.isSome (ascii "fcntl(O_NONBLOCK)")
  pure (result.1.moved, result.2.moved)

def makeShutdownPipe : MainProg (Fd × Fd) := do
  match ← sysCall .pipe with
  | none => syscallError strerror (ascii "pipe")
  | some (readEnd, writeEnd) =>
      (setPipeFlags strerror (⟨readEnd⟩, ⟨writeEnd⟩)).guarded
        (destroyPipe ((Fd.mk readEnd).movedFrom, (Fd.mk writeEnd).movedFrom))
        (destroyPipe (⟨readEnd⟩, ⟨writeEnd⟩))

end Pipe

namespace WorkerPool

/-- The loop of the `catch` clause in the constructor. -/
def joinAll : MainProg Unit := do
  let size ← sysCall .workersSize
  Prog.forUpTo size (fun i => sysCall (.join i))

def shutdown : MainProg Unit := do
  sysCall .closeQueue
  let size ← sysCall .workersSize
  Prog.forUpTo size (fun i => do
    let joinable ← sysCall (.joinable i)
    if joinable then sysCall (.join i) else pure ())

def destruct : MainProg Unit := do
  shutdown
  sysCall .destroyWorkers

def startWorkers (workerCount : Nat) : MainProg Unit :=
  Prog.forUpTo workerCount (fun _ => do
    let started ← sysCall .startWorker
    orThrow started)

/-- The body of the constructor. -/
def constructBody (workerCount : Nat) : MainProg Unit :=
  if workerCount = 0 then
    .throw (ascii "worker count must be greater than zero")
  else do
    let reserved ← sysCall (.reserve workerCount)
    orThrow reserved
    (startWorkers workerCount).tryCatch (fun what => do
      sysCall .closeQueue
      joinAll
      .throw what)

/-- The constructor: an exception of its body destroys the members. -/
def construct (workerCount queueCapacity : Nat) : MainProg Unit :=
  match (BoundedQueue.make queueCapacity : Except String (BoundedQueue Fd)) with
  | .error what => .throw (ascii what)
  | .ok _ => (constructBody workerCount).onThrow (sysCall .destroyWorkers)

end WorkerPool

/-- The members of `HttpServer` that own something. -/
structure ServerMembers where
  listener : TcpListener
  shutdownPipe : Fd × Fd

namespace ServerMembers

/-- The constructor: an exception destroys the members that are there already. -/
def construct (documentRoot : Bytes) (port : Nat) (backlog : Int) (address : Bytes)
    (workerCount queueCapacity : Nat) : MainProg ServerMembers := do
  let root ← sysCall (.canonical documentRoot)
  orThrow root
  let listener ← bindIpv4 strerror port backlog address
  Prog.onThrow
    (do
      WorkerPool.construct workerCount queueCapacity
      let shutdownPipe ← (makeShutdownPipe strerror).onThrow WorkerPool.destruct
      pure ⟨listener, shutdownPipe⟩)
    (sysCall (.destroyFd listener.fd))

def requestShutdown (server : ServerMembers) : MainProg Unit := do
  let requested ← sysCall .exchangeShutdownRequested
  if requested then
    pure ()
  else do
    sysCall .closeQueue
    sysCall (.write server.shutdownPipe.2.fd)

/-- The destructor: its body, and the members in reverse order. -/
def destruct (server : ServerMembers) : MainProg Unit := do
  server.requestShutdown
  WorkerPool.shutdown
  destroyPipe server.shutdownPipe
  WorkerPool.destruct
  sysCall (.destroyFd server.listener.fd)

/-- What follows the loop, or the exception that has left it. -/
def leaveLoop (server : ServerMembers) : LoopExit → MainProg Unit
  | .shutdownRequested => pure ()
  | .pipeReadable => server.requestShutdown
  | .pollFailed => syscallError strerror (ascii "poll")
  | .acceptFailed => syscallError strerror (ascii "accept")
  | .poolClosed => .throw (ascii "worker pool is closed")

def serveForever (server : ServerMembers) : MainProg Unit := do
  let left ← sysCall (.serveLoop server.listener.fd.fd server.shutdownPipe.1.fd)
  server.leaveLoop strerror left
  WorkerPool.shutdown

end ServerMembers

section Main

def parsePort (input : Bytes) : Except Bytes Nat :=
  let result := fromCharsBelow (2 ^ 32) input
  if result.ec ≠ .none ∨ result.ptr ≠ input.length ∨ result.value = 0 ∨
      65535 < result.value then
    .error (ascii "port must be an integer from 1 to 65535")
  else
    .ok result.value

def parsePositiveSize (input name : Bytes) : Except Bytes Nat :=
  let result := fromChars input
  if result.ec ≠ .none ∨ result.ptr ≠ input.length ∨ result.value = 0 then
    .error (name ++ ascii " must be a positive integer")
  else
    .ok result.value

def installShutdownHandler (notificationFd : Int) : MainProg Unit := do
  sysCall (.setNotificationFd notificationFd)
  let first ← sysCall (.sigaction .sigint)
  let second ← if first then sysCall (.sigaction .sigterm) else pure false
  if second then
    pure ()
  else do
    sysCall (.setNotificationFd (-1))
    .throw (ascii "failed to install shutdown signal handlers")

/-- What `main` does while its local `server` is alive. -/
def serveUntilShutdown (server : ServerMembers) : MainProg Unit := do
  installShutdownHandler server.shutdownPipe.2.fd
  let listening ← sysCall .printListening
  orThrow listening
  server.serveForever strerror
  sysCall (.setNotificationFd (-1))
  let printed ← sysCall .printMetrics
  orThrow printed

/-- The `try` block of `main`, on the arguments behind the name of the program. -/
def mainBody (args : List Bytes) : MainProg Nat := do
  let port ← orThrow ((args[0]?.map parsePort).getD (.ok 8080))
  let documentRoot := args[1]?.getD (ascii "www")
  let bindAddress := args[2]?.getD (ascii "127.0.0.1")
  let workerCount ←
    orThrow ((args[3]?.map (parsePositiveSize · (ascii "worker count"))).getD (.ok 4))
  let queueCapacity ←
    orThrow ((args[4]?.map (parsePositiveSize · (ascii "queue capacity"))).getD (.ok 128))
  let server ← ServerMembers.construct strerror documentRoot port 128 bindAddress
    workerCount queueCapacity
  (serveUntilShutdown strerror server).guarded server.destruct server.destruct
  pure 0

/-- `main`: the exit status. -/
def main (args : List Bytes) : MainProg Nat :=
  if 6 < args.length + 1 then do
    sysCall .printUsage
    pure 2
  else
    (mainBody strerror args).tryCatch (fun what => do
      sysCall (.printError what)
      pure 1)

end Main

end Functions

end HttpServer
