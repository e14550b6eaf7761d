import HighCache.Net.Connection

/-!
# The event loop of a worker

`Worker::handle_connection_event` and what `Worker::install_pending` puts into `connections_`. One
thread serves all its connections, one event at a time, on the engine that the other workers and the
timer use too. The sockets themselves come as told in `Handoff`; here is what is done with them.

What epoll watches for a connection is its `interest`. The kernel decides which events it reports,
what `recv` and `send` answer, and whether `epoll_ctl` goes through.

## Exceptions

Of the handlers only `handle_readable` can throw: where memory runs out, `input_.append`,
`decode_request` or `queue_response` does. The worker catches the exception and drops the
connection, and what the engine has executed by then stays executed. Where it happens is up to the
surroundings (`Throw`). A buffer beyond the largest vector ends a run of the model.
-/

namespace HighCache

open KeyedList Protocol

/-! ## A handler that throws

The same functions as those of the connection, followed up to a point the surroundings pick. What
they return is the connection as it is when the exception leaves. -/

/-- Where an exception leaves `handle_readable`, which handles what `recv` has given it last. -/
inductive Throw where
  /-- `input_.append` throws. -/
  | appending
  /-- After some requests, `decode_request` throws. -/
  | decoding (answered : ℕ)
  /-- After some requests, `queue_response` or `queue_protocol_error` throws. -/
  | queueing (answered : ℕ)
  deriving DecidableEq, Repr

namespace Connection

variable {n : ℕ} (hash : Bytes → UInt64)

/-- `process_input` where it throws after `answered` requests: in the decoder, or when the response
is to be queued and the engine has executed the next request. The output says whether it gets there.
-/
def processThrow (queueing : Bool) : ℕ → Connection n → Except Fault (Bool × Connection n)
  | 0, c =>
    if c.input.empty then .ok (false, c)
    else if queueing then do
      let decoded ← decodeRequest c.input ⟨.get, 0, [], [], 0⟩ .none
      match decoded.result with
      | .incomplete => .ok (false, c)
      | .error => .ok (true, { c with input := decoded.input.retrieveAll })
      | .complete => do
        let (_, engine) ← c.engine.respond hash decoded.message
        .ok (true, { c with input := decoded.input, engine := engine })
    else .ok (true, c)
  | answered + 1, c =>
    if c.input.empty then .ok (false, c)
    else do
      let decoded ← decodeRequest c.input ⟨.get, 0, [], [], 0⟩ .none
      match decoded.result with
      | .incomplete | .error => .ok (false, c)
      | .complete => do
        let (executed, c) ← execute hash decoded.message { c with input := decoded.input }
        if executed then processThrow queueing answered c else .ok (false, c)

/-- The handling of a chunk of input that throws. -/
def chunkThrow (throw : Throw) (bytes : Bytes) (c : Connection n) :
    Except Fault (Bool × Connection n) :=
  match throw with
  | .appending => .ok (true, c)
  | .decoding answered => do
    let input ← c.input.append bytes
    processThrow hash false answered { c with input := input }
  | .queueing answered => do
    let input ← c.input.append bytes
    processThrow hash true answered { c with input := input }

/-- The loop of `Connection::handle_readable` where the handling of the last answer of `recv`
throws. The output says whether it gets there. -/
def readThrow (throw : Throw) : List RecvResult → Connection n → Except Fault (Bool × Connection n)
  | [], c => .ok (false, c)
  | result :: results, c =>
    if c.closeAfterWrite || c.shouldClose then .ok (false, c)
    else
      match result with
      | .received bytes _ _ => do
        let c := { c with socket.received := c.socket.received ++ bytes }
        let room ← Checked.sub maxInputBufferSize c.input.readableBytes
        if bytes.length > room then .ok (false, c)
        else if results.isEmpty then chunkThrow hash throw bytes c
        else do
          let input ← c.input.append bytes
          let (processed, c) ← processInput hash { c with input := input }
          if processed then readThrow throw results c else .ok (false, c)
      | .interrupted => readThrow throw results c
      | .closed | .wouldBlock | .failed => .ok (false, c)

/-- `handle_readable`, which throws if it gets to the place where memory runs out. The result is
`none` then. -/
def tryReadable (throw : Option Throw) (reads : List RecvResult) (c : Connection n) :
    Except Fault (Option Bool × Connection n) := do
  let (thrown, c') ← match throw with
    | none => .ok (false, c)
    | some throw => c.readThrow hash throw reads
  if thrown then .ok (none, c')
  else do
    let (kept, c') ← c.handleReadable hash reads
    .ok (some kept, c')

/-- The `try` block of `Worker::handle_connection_event`, with whether the connection is to be kept;
`none` where a handler throws. -/
def dispatch (events : UInt32) (reads : List RecvResult) (writes : List SendResult)
    (throw : Option Throw) (c : Connection n) : Except Fault (Option Bool × Connection n) := do
  let keep := events &&& epollErr == 0
  let (keep, c) ← (if keep && events &&& (epollIn ||| epollRdHup ||| epollHup) != 0 then
    c.tryReadable hash throw reads else .ok (some keep, c))
  match keep with
  | none => .ok (none, c)
  | some keep => do
    let (keep, c) ← (if keep && events &&& epollOut != 0 then
      c.handleWritable writes else .ok (keep, c))
    if keep && events &&& (epollRdHup ||| epollHup) != 0 then
      .ok (some (!c.notePeerClosed.shouldClose), c.notePeerClosed)
    else .ok (some keep, c)

end Connection

/-! ## The connections of a worker

A connection that has gone is kept, with what it went for, in the order of departure. The source
destroys it; the list is for the statements. -/

/-- An entry of `connections_`. `id` tells apart the connections that had the same descriptor. -/
structure Entry (n : ℕ) where
  id : ℕ
  fd : ℕ
  connection : Connection n
  /-- The events that epoll watches; none where the descriptor was not added. -/
  interest : Option UInt32

/-- Why a connection is no longer in `connections_`. -/
inductive Departure where
  /-- `should_close`. -/
  | closed
  /-- `EPOLLERR` was reported. -/
  | error
  /-- A handler threw. -/
  | exception
  /-- `epoll_ctl` failed. -/
  | unwatched
  /-- The worker has stopped. -/
  | stopped
  deriving DecidableEq, Repr

/-- How the call of `add_to_epoll` ends. -/
inductive Watching where
  | watched
  /-- It throws an exception that is not a `HighCacheError`, so that the entry stays. -/
  | unwatched
  /-- It throws a `HighCacheError`. -/
  | removed
  deriving DecidableEq, Repr

/-- The connections of a `Worker`, with those it has had. -/
structure EventLoop (n : ℕ) where
  engine : SharedEngine n
  outputLimit : ℕ
  connections : List (Entry n)
  /-- How many there have been. -/
  installed : ℕ
  departed : List (Entry n × Departure)

/-- What a worker does with its connections. -/
inductive LoopStep where
  | install (fd : ℕ) (watching : Watching)
  | event (fd : ℕ) (events : UInt32) (reads : List RecvResult) (writes : List SendResult)
    (throw : Option Throw) (modified : Bool)
  | clear

namespace EventLoop

variable {n : ℕ} (hash : Bytes → UInt64)

/-- A new worker. -/
def new (engine : SharedEngine n) (outputLimit : ℕ) : EventLoop n :=
  ⟨engine, outputLimit, [], 0, []⟩

/-- The next socket of `install_pending`. -/
def install (fd : ℕ) (watching : Watching) (x : EventLoop n) : EventLoop n :=
  match find Entry.fd fd x.connections with
  | some _ => x
  | none =>
    let c := Connection.new x.engine x.outputLimit
    let x' := { x with installed := x.installed + 1 }
    match watching with
    | .watched =>
      { x' with connections := ⟨x.installed, fd, c, some c.desiredEvents⟩ :: x.connections }
    | .unwatched => { x' with connections := ⟨x.installed, fd, c, none⟩ :: x.connections }
    | .removed => { x' with departed := (⟨x.installed, fd, c, none⟩, .unwatched) :: x.departed }

/-- `Worker::handle_connection_event`. -/
def handleConnectionEvent (fd : ℕ) (events : UInt32) (reads : List RecvResult)
    (writes : List SendResult) (throw : Option Throw) (modified : Bool) (x : EventLoop n) :
    Except Fault (EventLoop n) :=
  match find Entry.fd fd x.connections with
  | none => .ok x
  | some entry => do
    let (kept, c) ←
      { entry.connection with engine := x.engine }.dispatch hash events reads writes throw
    let x := { x with engine := c.engine, connections := without Entry.fd fd x.connections }
    -- an exception is caught here
    let keep := kept.getD false
    -- `modify_epoll`
    let keep := if keep && !c.shouldClose then modified else keep
    if !keep || c.shouldClose then
      let departure := if c.shouldClose then .closed else if kept.isNone then .exception
        else if events &&& epollErr == 0 then .unwatched else .error
      .ok { x with departed := ({ entry with connection := c }, departure) :: x.departed }
    else
      .ok { x with connections :=
        { entry with connection := c, interest := some c.desiredEvents } :: x.connections }

/-- `connections_.clear()`. -/
def clear (x : EventLoop n) : EventLoop n :=
  { x with
    connections := []
    departed := x.connections.map (fun entry ↦ (entry, .stopped)) ++ x.departed }

/-- One step. -/
def step (x : EventLoop n) : LoopStep → Except Fault (Unit × EventLoop n)
  | .install fd watching => .ok ((), x.install fd watching)
  | .event fd events reads writes throw modified => do
    let x ← x.handleConnectionEvent hash fd events reads writes throw modified
    .ok ((), x)
  | .clear => .ok ((), x.clear)

/-- The connections there are and have been. -/
def entries (x : EventLoop n) : List (Entry n) := x.connections ++ x.departed.map Prod.fst

end EventLoop

end HighCache
