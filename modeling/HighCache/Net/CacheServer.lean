import HighCache.Net.Handoff

/-!
# The threads of the server

`CacheServer::Impl` of `cache_server.cpp`: `start` makes a thread for each worker and one for the
acceptor, `request_stop` asks the acceptor to stop, and `join` waits for it, asks the workers to
stop and waits for them. Where a thread cannot be made, `start` stops those that there are and
throws.

This goes around the handoff of the sockets: what the acceptor and the workers do with sockets are
steps of `Server`, and here is when they do it. As there, what a thread does between two points
where others can see it is one step, and what the kernel decides is left open. One thread owns the
server and calls `start` and `join`; `request_stop` is for all. What the timer does to the engine
is told in `HandleTimer`.
-/

namespace HighCache

/-! ## Where the threads are

The acceptor has a loop over events with a loop over connections in it, and in this the handoff. The
owner is in one of the loops over the workers, of `start` on its way out or of `join`. -/

/-- An event of the acceptor: of `stop_event_`, of `timer_` or of the listening socket. -/
inductive AcceptorEvent where
  | stop
  | timer
  | listen
  deriving DecidableEq, Repr

/-- Where `run_acceptor` is, and which events of a batch are still to come. -/
inductive AcceptorPhase where
  /-- There is no thread. -/
  | unstarted
  /-- At the head of the loop. -/
  | checking
  /-- In `epoll_wait`. -/
  | waiting
  | batch (rest : List AcceptorEvent)
  /-- At the head of the loop of `accept_connections`. -/
  | accepting (rest : List AcceptorEvent)
  /-- In `accept4`. -/
  | calling (rest : List AcceptorEvent)
  /-- In `Worker::enqueue`. -/
  | enqueueing (rest : List AcceptorEvent)
  /-- After the loop. -/
  | leaving
  | exited
  deriving DecidableEq, Repr

/-- Where the owner of the server is. The two loops over the workers are those of `join`, or, when
`unwinding`, those of `start` after an exception. -/
inductive OwnerPhase where
  | idle
  /-- In the loop of `start`. -/
  | starting
  /-- `running_` has been set, and the thread of the acceptor is to be made. -/
  | launching
  /-- An exception has been caught. -/
  | failing
  | joiningAcceptor
  /-- Before `request_stop` of a worker. -/
  | stopping (unwinding : Bool) (w : ℕ)
  /-- In `request_stop` of a worker, before the wake-up. -/
  | waking (unwinding : Bool) (w : ℕ)
  /-- In `join` of a worker. -/
  | joining (unwinding : Bool) (w : ℕ)
  /-- At the end of `join`, before `running_` is cleared. -/
  | clearing
  | joined
  deriving DecidableEq, Repr

/-- `CacheServer::Impl`. -/
structure CacheServer (n : ℕ) where
  server : Server n
  thread : AcceptorPhase
  owner : OwnerPhase
  /-- The workers that have a thread are those below. -/
  started : ℕ
  stopRequested : Bool
  /-- Calls of `request_stop` that have not yet added to `stop_event_`. -/
  stopWakes : ℕ
  /-- The value of `stop_event_`. -/
  stopCounter : ℕ
  everStarted : Bool
  running : Bool

/-! ## Their steps

Which steps are the kernel's, and which a thread takes on its own, is said of the labels: only the
latter can be expected of a thread. -/

/-- The steps of the acceptor. -/
inductive AcceptorStep where
  | check
  | interrupt
  | fail
  | epollWait (events : List AcceptorEvent)
  | handleEvent
  | endBatch
  | acceptCheck
  | accept (fd : ℕ)
  /-- `accept4` failed with an error that is passed over. -/
  | retry
  /-- `accept4` failed with another. -/
  | done
  | push
  | pushThrows
  | wake
  | leave
  deriving DecidableEq, Repr

/-- The steps of the owner. -/
inductive OwnerStep where
  | start (armed : Bool)
  | startWorker (created : Bool)
  | publish
  | launch (created : Bool)
  | unwind
  | join
  | joinAcceptor
  | stopWorker
  | wakeWorker
  | joinWorker
  | clear
  deriving DecidableEq, Repr

/-- The steps of all threads. -/
inductive CacheServerStep (n : ℕ) where
  | requestStop
  | stopWake
  | owner (step : OwnerStep)
  | acceptor (step : AcceptorStep)
  | worker (w : Fin n) (step : WorkerStep)

/-- Where only the kernel can let the acceptor go on: `epoll_wait` returns, and not because of
`stop_event_`. -/
def AcceptorStep.byKernel : AcceptorStep → Bool
  | .interrupt => true
  | .fail => true
  | .epollWait events => !events.contains .stop
  | _ => false

/-- Where only the kernel can let a worker go on: `epoll_wait` returns, and not because of the
eventfd. -/
def WorkerStep.byKernel : WorkerStep → Bool
  | .interrupt => true
  | .fail => true
  | .epollWait events => !events.contains .wakeup
  | _ => false

/-- A step that a worker takes itself. -/
def WorkerStep.isOwn : WorkerStep → Bool
  | .requestStop => false
  | .stopWake => false
  | _ => true

namespace CacheServer

variable {n : ℕ}

/-! ## The server

The handoff is a component of the state, and the threads move it by its own steps. What they add to
it is when. -/

/-- A new server. -/
def new (h : 0 < n) : CacheServer n where
  server := .new h
  thread := .unstarted
  owner := .idle
  started := 0
  stopRequested := false
  stopWakes := 0
  stopCounter := 0
  everStarted := false
  running := false

/-- A step of the handoff that a thread takes. -/
def handoff (step : ServerStep n) (s : CacheServer n) : Option (CacheServer n) :=
  (s.server.step step).map fun server ↦ { s with server := server }

/-- The events that `epoll_wait` may return: of `stop_event_` if its value is positive, and of the
others. -/
def mayReport (s : CacheServer n) : AcceptorEvent → Bool
  | .stop => 0 < s.stopCounter
  | _ => true

/-- A step of the acceptor. -/
def acceptorStep (s : CacheServer n) : AcceptorStep → Option (CacheServer n)
  | .check =>
    match s.thread with
    | .checking => some { s with thread := if s.stopRequested then .leaving else .waiting }
    | _ => none
  | .interrupt =>
    match s.thread with
    | .waiting => some { s with thread := .checking }
    | _ => none
  | .fail =>
    match s.thread with
    | .waiting => some { s with thread := .leaving }
    | _ => none
  | .epollWait events =>
    match s.thread with
    | .waiting =>
      if 0 < events.length ∧ events.length ≤ maxEvents ∧ events.all s.mayReport then
        some { s with thread := .batch events }
      else none
    | _ => none
  | .handleEvent =>
    match s.thread with
    | .batch (.stop :: rest) => some { s with stopCounter := 0, thread := .batch rest }
    | .batch (.timer :: rest) => some { s with thread := .batch rest }
    | .batch (.listen :: rest) => some { s with thread := .accepting rest }
    | _ => none
  | .endBatch =>
    match s.thread with
    | .batch [] => some { s with thread := .checking }
    | _ => none
  | .acceptCheck =>
    match s.thread with
    | .accepting rest =>
      some { s with thread := if s.stopRequested then .batch rest else .calling rest }
    | _ => none
  | .accept fd =>
    match s.thread with
    | .calling rest => { s with thread := .enqueueing rest }.handoff (.accept fd)
    | _ => none
  | .retry =>
    match s.thread with
    | .calling rest => some { s with thread := .accepting rest }
    | _ => none
  | .done =>
    match s.thread with
    | .calling rest => some { s with thread := .batch rest }
    | _ => none
  | .push =>
    match s.thread with
    | .enqueueing rest =>
      (s.handoff .push).map fun s ↦
        -- where the worker is to stop, `enqueue` returns without the wake-up
        if s.server.acceptor = .idle then { s with thread := .accepting rest } else s
    | _ => none
  | .pushThrows =>
    match s.thread with
    | .enqueueing rest => { s with thread := .accepting rest }.handoff .pushThrows
    | _ => none
  | .wake =>
    match s.thread with
    | .enqueueing rest => { s with thread := .accepting rest }.handoff .wake
    | _ => none
  | .leave =>
    match s.thread with
    | .leaving => some { s with running := false, thread := .exited }
    | _ => none

/-- How many workers a loop is over. -/
def count (unwinding : Bool) (s : CacheServer n) : ℕ := if unwinding then s.started else n

/-- The thread of the acceptor is not there. -/
def halted (s : CacheServer n) : Bool := s.thread = .unstarted ∨ s.thread = .exited

/-- The thread of a worker is not there: it was never made, or its `run` has returned. -/
def idle (w : Fin n) (s : CacheServer n) : Bool :=
  s.started ≤ w ∨ (s.server.workers w).phase = .finished

/-- A step of the owner. -/
def ownerStep (s : CacheServer n) : OwnerStep → Option (CacheServer n)
  | .start armed =>
    if s.owner = .idle ∨ s.owner = .joined then
      -- a second call throws, and so does one for which the timer cannot be set
      if s.everStarted then some s
      else some { s with everStarted := true, owner := if armed then .starting else s.owner }
    else none
  | .startWorker created =>
    if s.owner = .starting ∧ s.started < n then
      if created then some { s with started := s.started + 1 }
      else some { s with owner := .failing }
    else none
  | .publish =>
    if s.owner = .starting ∧ s.started = n then
      some { s with running := true, owner := .launching }
    else none
  | .launch created =>
    if s.owner = .launching then
      if created then some { s with thread := .checking, owner := .idle }
      else some { s with owner := .failing }
    else none
  | .unwind =>
    if s.owner = .failing then some { s with running := false, owner := .stopping true 0 } else none
  | .join =>
    if s.owner = .idle ∨ s.owner = .joined then some { s with owner := .joiningAcceptor } else none
  | .joinAcceptor =>
    if s.owner = .joiningAcceptor ∧ s.halted then some { s with owner := .stopping false 0 }
    else none
  | .stopWorker =>
    match s.owner with
    | .stopping unwinding w =>
      if h : w < n ∧ w < s.count unwinding then
        { s with owner := .waking unwinding w }.handoff (.worker ⟨w, h.1⟩ .requestStop)
      else some { s with owner := .joining unwinding 0 }
    | _ => none
  | .wakeWorker =>
    match s.owner with
    | .waking unwinding w =>
      if h : w < n then
        { s with owner := .stopping unwinding (w + 1) }.handoff (.worker ⟨w, h⟩ .stopWake)
      else none
    | _ => none
  | .joinWorker =>
    match s.owner with
    | .joining unwinding w =>
      if h : w < n ∧ w < s.count unwinding then
        if s.idle ⟨w, h.1⟩ then some { s with owner := .joining unwinding (w + 1) } else none
      else some { s with owner := if unwinding then .idle else .clearing }
    | _ => none
  | .clear =>
    if s.owner = .clearing then some { s with running := false, owner := .joined } else none

/-- One step. -/
def step (s : CacheServer n) : CacheServerStep n → Option (CacheServer n)
  | .requestStop => some { s with stopRequested := true, stopWakes := s.stopWakes + 1 }
  | .stopWake =>
    if 0 < s.stopWakes then
      some { s with stopWakes := s.stopWakes - 1, stopCounter := wakeEvent s.stopCounter }
    else none
  | .owner step => s.ownerStep step
  | .acceptor step => s.acceptorStep step
  | .worker w step => if w < s.started ∧ step.isOwn then s.handoff (.worker w step) else none

/-- A sequence of steps. -/
def run (s : CacheServer n) (steps : List (CacheServerStep n)) : Option (CacheServer n) :=
  steps.foldlM step s

end CacheServer

end HighCache
