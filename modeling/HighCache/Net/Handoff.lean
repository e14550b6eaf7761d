import HighCache.Lib.KeyedList
import Mathlib.Data.Fin.Basic

/-!
# The handoff of sockets

The acceptor of the server gives each accepted socket to a worker: `Worker::enqueue` appends it to
`pending_` under a mutex and then adds one to the eventfd of the worker. The worker waits in
`epoll_wait`, goes through the batch of events it got, and after the batch, if the eventfd was among
them, takes all of `pending_` and installs it in `connections_`.

What a thread does between two points where others can see it is one step, and a run is any sequence
of steps of the acceptor, of the workers and of the threads that ask workers to stop. What the
system calls and the connections decide is left open: which events `epoll_wait` returns, whether an
event closes its connection, and where an exception ends an installation. Descriptors are handed out
again by the kernel once they are closed.
-/

namespace HighCache

open KeyedList

/-! ## Sockets, workers and the acceptor

A worker is where its thread is, with the data that thread shares with others. The phases are the
points between which the source holds a mutex or makes a system call. -/

/-- An accepted socket. `id` tells apart the sockets that had the same descriptor `fd`. -/
structure AcceptedSocket where
  id : ℕ
  fd : ℕ
  deriving DecidableEq, Repr

/-- An event that `epoll_wait` returned: the eventfd, or the descriptor of a connection, which was
`source` when the call returned. -/
inductive EpollEvent where
  | wakeup
  | connection (source : AcceptedSocket)
  deriving DecidableEq, Repr

/-- Where `Worker::run` is. -/
inductive WorkerPhase where
  /-- At the head of the loop. -/
  | checking
  /-- In `epoll_wait`. -/
  | waiting
  /-- In the loop over a batch. `present` are the connections there were when the batch came. -/
  | batch (events : List EpollEvent) (wakeupSeen : Bool) (present : List AcceptedSocket)
  /-- In `install_pending`, before the swap. -/
  | swapping
  /-- In the loop of `install_pending`. An exception may have left sockets of the local vector
  where they were; they are `kept` until the vector is destroyed. -/
  | installing (kept rest : List AcceptedSocket)
  /-- After the loop, before `connections_.clear()`. -/
  | clearing
  /-- Before `pending_.clear()`. -/
  | clearingPending
  | finished
  deriving DecidableEq, Repr

/-- `Worker`. -/
structure Worker where
  stopRequested : Bool
  /-- Calls of `request_stop` that have not yet added to the eventfd. -/
  stopWakes : ℕ
  /-- The value of the eventfd. -/
  counter : ℕ
  pending : List AcceptedSocket
  connections : List AcceptedSocket
  phase : WorkerPhase
  /-- `epoll_wait` has failed. -/
  failed : Bool
  deriving DecidableEq, Repr

/-- How the installation of a socket ends. -/
inductive Installation where
  /-- In `connections_`, whether or not the registration with epoll went through. -/
  | done
  /-- Closed at once: by the exception of its constructor, or because it could not be registered. -/
  | closed
  /-- Still in the local vector: there was no memory for a connection. -/
  | kept
  deriving DecidableEq, Repr

/-- The steps that concern one worker. -/
inductive WorkerStep where
  | requestStop
  | stopWake
  | check
  | interrupt
  | fail
  | epollWait (events : List EpollEvent)
  | handleEvent (keep : Bool)
  | endBatch
  | swapPending
  | install (installation : Installation)
  | endInstall
  | clearConnections
  | clearPending
  deriving DecidableEq, Repr

/-! ## The steps

Each thread has its own step function. A step that the state of the thread does not allow is `none`,
so a sequence of steps is one that can happen. -/

/-- `max_events` of `cache_server.cpp`. -/
def maxEvents : ℕ := 64

/-- The largest value an eventfd can have. -/
def maxCounter : ℕ := 2 ^ 64 - 2

/-- `wake_event`; a write that would exceed the maximum fails, and the event is due anyway. -/
def wakeEvent (counter : ℕ) : ℕ := if counter < maxCounter then counter + 1 else counter

namespace Worker

/-- A new worker. -/
def new : Worker := ⟨false, 0, 0, [], [], .checking, false⟩

/-- The events that `epoll_wait` may return: of the eventfd if its value is positive, and of
connections. -/
def mayReport (x : Worker) : EpollEvent → Bool
  | .wakeup => 0 < x.counter
  | .connection source => source ∈ x.connections

/-- `handle_connection_event`. Whether the connection is kept is left open. -/
def handleConnectionEvent (fd : ℕ) (keep : Bool) (x : Worker) : List AcceptedSocket × Worker :=
  match find AcceptedSocket.fd fd x.connections with
  | none => ([], x)
  | some socket =>
    if keep then ([], x) else ([socket], { x with connections := x.connections.erase socket })

/-- The next event of a batch. -/
def handleEvent (event : EpollEvent) (events : List EpollEvent) (seen : Bool)
    (present : List AcceptedSocket) (keep : Bool) (x : Worker) : List AcceptedSocket × Worker :=
  match event with
  | .wakeup => ([], { x with counter := 0, phase := .batch events true present })
  | .connection source =>
    let (closed, x) := x.handleConnectionEvent source.fd keep
    (closed, { x with phase := .batch events seen present })

/-- The next socket of `install_pending`. A connection that `emplace` did not take is destroyed. -/
def install (socket : AcceptedSocket) (kept rest : List AcceptedSocket)
    (installation : Installation) (x : Worker) : List AcceptedSocket × Worker :=
  match installation with
  | .done =>
    match find AcceptedSocket.fd socket.fd x.connections with
    | none =>
      ([], { x with connections := socket :: x.connections, phase := .installing kept rest })
    | some _ => ([socket], { x with phase := .installing kept rest })
  | .closed => ([socket], { x with phase := .installing kept rest })
  | .kept => ([], { x with phase := .installing (kept ++ [socket]) rest })

/-- One step, with the sockets that it closes. There is none where the thread is elsewhere. -/
def step (x : Worker) : WorkerStep → Option (List AcceptedSocket × Worker)
  | .requestStop => some ([], { x with stopRequested := true, stopWakes := x.stopWakes + 1 })
  | .stopWake =>
    if 0 < x.stopWakes then
      some ([], { x with stopWakes := x.stopWakes - 1, counter := wakeEvent x.counter })
    else none
  | .check =>
    match x.phase with
    | .checking => some ([], { x with phase := if x.stopRequested then .clearing else .waiting })
    | _ => none
  | .interrupt =>
    match x.phase with
    | .waiting => some ([], { x with phase := .checking })
    | _ => none
  | .fail =>
    match x.phase with
    | .waiting => some ([], { x with phase := .clearing, failed := true })
    | _ => none
  | .epollWait events =>
    match x.phase with
    | .waiting =>
      if 0 < events.length ∧ events.length ≤ maxEvents ∧ events.all x.mayReport then
        some ([], { x with phase := .batch events false x.connections })
      else none
    | _ => none
  | .handleEvent keep =>
    match x.phase with
    | .batch (event :: events) seen present => some (x.handleEvent event events seen present keep)
    | _ => none
  -- `install_pending` is called only after a wake-up and while the worker goes on
  | .endBatch =>
    match x.phase with
    | .batch [] seen _ =>
      some ([], { x with phase := if seen && !x.stopRequested then .swapping else .checking })
    | _ => none
  | .swapPending =>
    match x.phase with
    | .swapping => some ([], { x with pending := [], phase := .installing [] x.pending })
    | _ => none
  | .install installation =>
    match x.phase with
    | .installing kept (socket :: rest) => some (x.install socket kept rest installation)
    | _ => none
  | .endInstall =>
    match x.phase with
    | .installing kept [] => some (kept, { x with phase := .checking })
    | _ => none
  | .clearConnections =>
    match x.phase with
    | .clearing => some (x.connections, { x with connections := [], phase := .clearingPending })
    | _ => none
  | .clearPending =>
    match x.phase with
    | .clearingPending => some (x.pending, { x with pending := [], phase := .finished })
    | _ => none

end Worker

/-- Where the acceptor is: outside `enqueue`, before its critical section with a socket for a
worker, or between the critical section and the wake-up. -/
inductive Acceptor (n : ℕ) where
  | idle
  | holding (socket : AcceptedSocket) (w : Fin n)
  | pushed (w : Fin n)
  deriving DecidableEq, Repr

/-- The workers and the acceptor of a `CacheServer`, with all the sockets that were ever accepted
and all that were closed. -/
structure Server (n : ℕ) where
  workers : Fin n → Worker
  acceptor : Acceptor n
  nextWorker : UInt64
  accepted : List AcceptedSocket
  closed : List AcceptedSocket
  workerCount_pos : 0 < n

/-- The steps of the server. -/
inductive ServerStep (n : ℕ) where
  /-- `accept4` returned a descriptor. -/
  | accept (fd : ℕ)
  /-- The critical section of `enqueue`. -/
  | push
  /-- The same, where `push_back` throws. -/
  | pushThrows
  /-- The wake-up after it. -/
  | wake
  | worker (w : Fin n) (step : WorkerStep)

namespace Server

variable {n : ℕ}

/-- A new server. -/
def new (h : 0 < n) : Server n := ⟨fun _ ↦ .new, .idle, 0, [], [], h⟩

/-- The worker that `accept_connections` chooses next. -/
def chosen (s : Server n) : Fin n := ⟨s.nextWorker.toNat % n, Nat.mod_lt _ s.workerCount_pos⟩

/-- The kernel does not hand out a descriptor that is open. -/
def isFree (fd : ℕ) (s : Server n) : Bool :=
  s.accepted.all fun socket ↦ socket.fd ≠ fd ∨ socket ∈ s.closed

/-- The sockets that a step closed. -/
def close (sockets : List AcceptedSocket) (s : Server n) : Server n :=
  { s with closed := sockets ++ s.closed }

/-- A worker after a step. -/
def setWorker (w : Fin n) (x : Worker) (s : Server n) : Server n :=
  { s with workers := Function.update s.workers w x }

/-- One step. -/
def step (s : Server n) : ServerStep n → Option (Server n)
  | .accept fd =>
    match s.acceptor with
    | .idle =>
      if s.isFree fd then
        let socket : AcceptedSocket := ⟨s.accepted.length, fd⟩
        some { s with
          acceptor := .holding socket s.chosen
          nextWorker := s.nextWorker + 1
          accepted := socket :: s.accepted }
      else none
    | _ => none
  | .push =>
    match s.acceptor with
    | .holding socket w =>
      if (s.workers w).stopRequested then
        some ({ s with acceptor := .idle }.close [socket])
      else
        let x := { s.workers w with pending := (s.workers w).pending ++ [socket] }
        some ({ s with acceptor := .pushed w }.setWorker w x)
    | _ => none
  | .pushThrows =>
    match s.acceptor with
    | .holding socket _ => some ({ s with acceptor := .idle }.close [socket])
    | _ => none
  | .wake =>
    match s.acceptor with
    | .pushed w =>
      let x := { s.workers w with counter := wakeEvent (s.workers w).counter }
      some ({ s with acceptor := .idle }.setWorker w x)
    | _ => none
  | .worker w step =>
    match (s.workers w).step step with
    | some (closed, x) => some ((s.setWorker w x).close closed)
    | none => none

/-- A sequence of steps. -/
def run (s : Server n) (steps : List (ServerStep n)) : Option (Server n) := steps.foldlM step s

end Server

/-! ## Where the sockets are

A socket is in the hand of the acceptor, at one of the places of a worker, or closed. The places of
a worker are told apart because sockets move between them in different steps. -/

/-- The sockets that the local vector of `install_pending` owns. -/
def WorkerPhase.localVector : WorkerPhase → List AcceptedSocket
  | .installing kept rest => kept ++ rest
  | _ => []

/-- The places a worker keeps sockets in. -/
inductive Spot where
  | pending
  | installing
  | connections
  deriving DecidableEq, Repr

/-- The places a socket can be: in the hand of the acceptor, with a worker, or closed. -/
inductive Place (n : ℕ) where
  | hand
  | worker (w : Fin n) (spot : Spot)
  | closed
  deriving DecidableEq, Repr

/-- The sockets in the hand of the acceptor. -/
def Acceptor.hand {n : ℕ} : Acceptor n → List AcceptedSocket
  | .holding socket _ => [socket]
  | _ => []

/-- The sockets of a worker. -/
def Worker.sockets (x : Worker) : Spot → List AcceptedSocket
  | .pending => x.pending
  | .installing => x.phase.localVector
  | .connections => x.connections

/-- The sockets at a place. -/
def Server.sockets {n : ℕ} (s : Server n) : Place n → List AcceptedSocket
  | .hand => s.acceptor.hand
  | .worker w spot => (s.workers w).sockets spot
  | .closed => s.closed

end HighCache
