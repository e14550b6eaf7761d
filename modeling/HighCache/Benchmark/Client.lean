import HighCache.Lib.KeyedList
import HighCache.Lib.Scan
import HighCache.Net.Connection

/-!
# The benchmark client

`benchmark.cpp`: a plan of operations is divided among threads, each of which has a worker with
connections of its own. A worker keeps a number of requests under way on each connection, matches
the responses with them by their ids, and counts every operation as successful or failed.

## What the worker is told

The kernel and the server answer every call, so a run comes with the answers: of `epoll_wait` a list
(`WaitResult`), and with each event that one reports the answers of the calls its handler makes
(`ReadyEvent`). Where the answers of a socket run out the next one is `EAGAIN`, and where those of
`epoll_wait` run out it times out. Nothing is assumed about them, so the responses may be those of
any server. The clock is a sequence of readings.

An exception that the worker catches is a value (`Except String`). What stops the model is only what
a program without bugs and without allocation failures cannot do (`Fault`).

## What the worker remembers

`Tally` and `Books` are not in the program: the ids of the operations that have been counted, and
the three numbers that make up the account, taken down after each step that changes one of them.
-/

namespace HighCache

open Protocol Scan

namespace Benchmark

/-! ## Counting

What has been counted, and what has been sent and waits for its response. A request is taken off the
tracker when it is counted, one way or the other. -/

/-- `Statistics`. The counters never exceed the number of operations. -/
structure Statistics where
  successful : ℕ := 0
  failed : ℕ := 0
  getHits : ℕ := 0
  getMisses : ℕ := 0
  latencies : List ℤ := []
  errors : List String := []
  deriving DecidableEq, Repr

namespace Statistics

/-- `Statistics::record_response`. -/
def recordResponse (opcode : Opcode) (status : WireStatus) (latency : ℤ) (s : Statistics) :
    Statistics :=
  let s := { s with latencies := s.latencies ++ [latency] }
  if opcode = .get ∧ status = .ok then
    { s with getHits := s.getHits + 1, successful := s.successful + 1 }
  else if opcode = .get ∧ status = .notFound then
    { s with getMisses := s.getMisses + 1, successful := s.successful + 1 }
  else if opcode = .set ∧ status = .ok then { s with successful := s.successful + 1 }
  else { s with failed := s.failed + 1 }

/-- `Statistics::record_failures`. -/
def recordFailures (count : ℕ) (s : Statistics) : Statistics :=
  { s with failed := s.failed + count }

/-- `Statistics::record_error`. -/
def recordError (message : String) (s : Statistics) : Statistics :=
  { s with errors := s.errors ++ [message] }

/-- `Statistics::merge`. -/
def merge (s other : Statistics) : Statistics where
  successful := s.successful + other.successful
  failed := s.failed + other.failed
  getHits := s.getHits + other.getHits
  getMisses := s.getMisses + other.getMisses
  latencies := s.latencies ++ other.latencies
  errors := s.errors ++ other.errors

/-- `Statistics::handled`. -/
def handled (s : Statistics) : ℕ := s.successful + s.failed

end Statistics

/-- `PendingRequest`. -/
structure PendingRequest where
  opcode : Opcode
  start : ℤ
  deriving DecidableEq, Repr

/-- `RequestTracker`: the requests under way, with their ids. -/
structure RequestTracker where
  pending : List (UInt64 × PendingRequest) := []
  deriving DecidableEq, Repr

namespace RequestTracker

/-- `RequestTracker::add`. -/
def add (requestId : UInt64) (opcode : Opcode) (start : ℤ) (t : RequestTracker) :
    Except String RequestTracker :=
  match KeyedList.find Prod.fst requestId t.pending with
  | some _ => .error "duplicate benchmark request_id"
  | none => .ok ⟨t.pending ++ [(requestId, ⟨opcode, start⟩)]⟩

/-- `RequestTracker::complete`. -/
def complete (response : Response) (finish : ℤ) (statistics : Statistics) (t : RequestTracker) :
    Except String (Statistics × RequestTracker) :=
  match KeyedList.find Prod.fst response.requestId t.pending with
  | none => .error "response has unknown benchmark request_id"
  | some (_, request) =>
    .ok (statistics.recordResponse request.opcode response.status (finish - request.start),
      ⟨KeyedList.without Prod.fst response.requestId t.pending⟩)

/-- `RequestTracker::size`. -/
def size (t : RequestTracker) : ℕ := t.pending.length

/-- `RequestTracker::fail_all`. -/
def failAll (statistics : Statistics) (t : RequestTracker) : ℕ × Statistics × RequestTracker :=
  (t.size, statistics.recordFailures t.size, {})

/-- The ids of the requests under way. -/
def ids (t : RequestTracker) : List UInt64 := t.pending.map Prod.fst

end RequestTracker

/-! ## What is to be done

A plan is a list of operations. Every worker gets an interval of it, and works through its interval
from the beginning. -/

/-- `Operation`. -/
structure Operation where
  opcode : Opcode
  keyIndex : ℕ
  requestId : UInt64
  deriving DecidableEq, Repr

/-- `make_keys`. -/
def makeKeys (keySpace : ℕ) : List Bytes :=
  (List.range keySpace).map fun index ↦ literal "highcache-bench-" ++ decimal index

/-- The plan, the keys and the value of an execution. `run_benchmark` makes the keys with
`make_keys`, takes the operations from `make_preload` or `generate_workload`, which pick their keys
below `key_space`, and has checked the size of the value. -/
structure Workload where
  keySpace : ℕ
  value : Bytes
  plan : List Operation
  keySpace_lt : keySpace < 2 ^ 64
  value_le : value.length ≤ Cache.maxValueLength
  opcode_valid : ∀ operation ∈ plan, isValidOpcode operation.opcode = true
  keyIndex_lt : ∀ operation ∈ plan, operation.keyIndex < keySpace

/-- `make_preload`. -/
def makePreload (keySpace : ℕ) : List Operation :=
  (List.range keySpace).map fun index ↦ ⟨.set, index, UInt64.ofNat (index + 1)⟩

/-- The workload of the first phase of `run_benchmark`. -/
def Workload.preload (keySpace : ℕ) (value : Bytes) (hspace : keySpace < 2 ^ 64)
    (hvalue : value.length ≤ Cache.maxValueLength) : Workload where
  keySpace := keySpace
  value := value
  plan := makePreload keySpace
  keySpace_lt := hspace
  value_le := hvalue
  opcode_valid := by
    intro operation hmem
    obtain ⟨index, -, rfl⟩ := List.mem_map.mp hmem
    rfl
  keyIndex_lt := by
    intro operation hmem
    obtain ⟨index, hindex, rfl⟩ := List.mem_map.mp hmem
    exact List.mem_range.mp hindex

/-- What a worker is given: `options.pipeline`, and the part of the plan from `begin` to `end`. -/
structure Job where
  load : Workload
  pipeline : ℕ
  beginIndex : ℕ
  endIndex : ℕ

/-- The ids of the operations of the plan from `i` to `j`. -/
def Workload.idsBetween (load : Workload) (i j : ℕ) : List UInt64 :=
  ((load.plan.take j).drop i).map Operation.requestId

/-! ## The surroundings

Calls that fail are exceptions with the text of the error. `EAGAIN`, `EINTR` and a timeout are not
failures. -/

/-- `max_events` of `benchmark.cpp`. -/
def maxEvents : ℕ := 64

/-- The message of `throw_system_error`, where the system calls the error `description`. -/
def systemError (operation description : String) : String := operation ++ ": " ++ description

/-- How a system call ends that may fail. -/
inductive CallResult where
  | done
  | failed (description : String)

/-- The call, or the exception. -/
def CallResult.orThrow (operation : String) : CallResult → Except String Unit
  | .done => .ok ()
  | .failed description => .error (systemError operation description)

/-- How `connect_socket` and the registration of the socket end. -/
inductive ConnectResult where
  | connected (fd : ℕ)
  | noSocket (description : String)
  | noDelayFailed (description : String)
  | notAnAddress
  | refused (description : String)
  | flagsFailed (description : String)
  | addFailed (description : String)

/-- The descriptor, or the exception. -/
def ConnectResult.orThrow : ConnectResult → Except String ℕ
  | .connected fd => .ok fd
  | .noSocket description => .error (systemError "socket failed" description)
  | .noDelayFailed description =>
    .error (systemError "setsockopt TCP_NODELAY failed" description)
  | .notAnAddress => .error "benchmark host must be an IPv4 address"
  | .refused description => .error (systemError "connect failed" description)
  | .flagsFailed description => .error (systemError "fcntl O_NONBLOCK failed" description)
  | .addFailed description => .error (systemError "epoll_ctl add failed" description)

/-- An event that `epoll_wait` reports, with the answers to the calls it leads to: those of `send`,
those of `recv`, and the one of `epoll_ctl`. -/
structure ReadyEvent where
  fd : ℕ
  events : UInt32
  sends : List SendResult
  receives : List RecvResult
  modified : CallResult

/-- What `epoll_wait` answers. -/
inductive WaitResult where
  | ready (events : List ReadyEvent) (pos : 0 < events.length) (le : events.length ≤ maxEvents)
  | timedOut
  /-- `EINTR`. -/
  | interrupted
  /-- Any other error. -/
  | failed (description : String)

/-- Everything a worker with `n` connections is told. -/
structure Answers (n : ℕ) where
  epoll : CallResult
  connects : Fin n → ConnectResult
  clock : ℕ → ℤ
  /-- The answers of `epoll_ctl` before the first `epoll_wait`. -/
  modified : Fin n → CallResult
  waits : List WaitResult

/-! ## A worker

The handlers change the statistics before they can throw. Therefore they return the worker in both
cases, with the exception if there was one. -/

/-- `ClientConnection`. -/
structure ClientConnection where
  input : Buffer
  output : Buffer
  tracker : RequestTracker
  active : Bool

/-- The ids of the operations counted as successful, and of those counted as failed. -/
structure Tally where
  successes : List UInt64 := []
  failures : List UInt64 := []
  deriving DecidableEq, Repr

/-- `handled()`, the sizes of all trackers together, and `end - next`. -/
structure Books where
  handled : ℕ
  pending : ℕ
  unissued : ℕ
  deriving DecidableEq, Repr

/-- `ClientWorker`. What never changes is in its `Job`. -/
structure ClientWorker (job : Job) (n : ℕ) where
  next : ℕ
  connections : Fin n → ClientConnection
  connectionIndexes : List (ℕ × Fin n)
  statistics : Statistics
  clock : ℕ → ℤ
  tally : Tally
  history : List Books

namespace ClientWorker

variable {job : Job} {n : ℕ}

/-- The account as it is. -/
def books (w : ClientWorker job n) : Books where
  handled := w.statistics.handled
  pending := ∑ i, (w.connections i).tracker.size
  unissued := job.endIndex - w.next

/-- The account is taken down. -/
def note (w : ClientWorker job n) : ClientWorker job n :=
  { w with history := w.history ++ [w.books] }

/-- A connection changes. -/
def setConnection (i : Fin n) (c : ClientConnection) (w : ClientWorker job n) :
    ClientWorker job n :=
  { w with connections := Function.update w.connections i c }

/-- A connection has given up requests, which have been counted. -/
def settle (i : Fin n) (c : ClientConnection) (statistics : Statistics) (tally : Tally)
    (w : ClientWorker job n) : ClientWorker job n :=
  note (setConnection i c { w with statistics := statistics, tally := tally })

/-- `Clock::now()`. -/
def now (w : ClientWorker job n) : ℤ × ClientWorker job n :=
  (w.clock 0, { w with clock := fun k ↦ w.clock (k + 1) })

/-- `statistics_.record_error`. -/
def recordError (message : String) (w : ClientWorker job n) : ClientWorker job n :=
  { w with statistics := w.statistics.recordError message }

/-- The constructor, which throws if one of the connections cannot be made. -/
def new (job : Job) (answers : Answers n) : Except String (ClientWorker job n) := do
  answers.epoll.orThrow "epoll_create1 failed"
  let fds ← (List.finRange n).mapM fun i ↦ (answers.connects i).orThrow
  .ok (note {
    next := job.beginIndex
    connections := fun _ ↦ {
      input := .new Connection.bufferCapacity
      output := .new Connection.bufferCapacity
      tracker := {}
      active := true }
    connectionIndexes := fds.zip (List.finRange n)
    statistics := {}
    clock := answers.clock
    tally := {}
    history := [] })

/-- `active_connection_count`. -/
def activeConnectionCount (w : ClientWorker job n) : ℕ :=
  (List.finRange n).countP fun i ↦ (w.connections i).active

/-- `update_interest`. -/
def updateInterest (answer : CallResult) : Except String Unit :=
  answer.orThrow "epoll_ctl modify failed"

/-- A round of the loop of `fill_pipeline`. The operation is taken off the plan first. -/
def issue (i : Fin n) (w : ClientWorker job n) :
    Except Fault (Except String Unit × ClientWorker job n) :=
  match job.load.plan[w.next]? with
  | none => .error .invalidIterator
  | some operation =>
    let w := { w with next := w.next + 1 }
    match (makeKeys job.load.keySpace)[operation.keyIndex]? with
    | none => .error .invalidIterator
    | some key =>
      match encodeRequest {
        opcode := operation.opcode
        requestId := operation.requestId
        key := key
        value := if operation.opcode = .set then job.load.value else []
        ttlMs := 0 } with
      | .error exception => .ok (.error exception.what, w.note)
      | .ok frame => do
        let (start, w) := w.now
        let c := w.connections i
        let output ← c.output.append frame
        match c.tracker.add operation.requestId operation.opcode start with
        | .error what => .ok (.error what, (w.setConnection i { c with output := output }).note)
        | .ok tracker =>
          .ok (.ok (), (w.setConnection i { c with output := output, tracker := tracker }).note)

/-- The loop of `fill_pipeline`. Each round takes an operation off the plan, so the number of those
that are left is fuel enough. -/
def fillLoop (i : Fin n) :
    ℕ → ClientWorker job n → Except Fault (Except String Unit × ClientWorker job n)
  | 0, w => .ok (.ok (), w)
  | fuel + 1, w =>
    if (w.connections i).tracker.size < job.pipeline ∧ w.next < job.endIndex then do
      match ← w.issue i with
      | (.error what, w) => .ok (.error what, w)
      | (.ok (), w) => fillLoop i fuel w
    else .ok (.ok (), w)

/-- `fill_pipeline`. -/
def fillPipeline (i : Fin n) (w : ClientWorker job n) :
    Except Fault (Except String Unit × ClientWorker job n) :=
  fillLoop i (job.endIndex - w.next) w

/-- `handle_writable`. -/
def handleWritable (i : Fin n) :
    List SendResult → ClientWorker job n → Except Fault (Bool × ClientWorker job n)
  | [], w => .ok (true, w)
  | result :: results, w =>
    let c := w.connections i
    if c.output.empty then .ok (true, w)
    else
      match result with
      | .accepted count _ => do
        let output ← c.output.retrieve (min count c.output.readableBytes)
        handleWritable i results (w.setConnection i { c with output := output })
      | .interrupted => handleWritable i results w
      | .wouldBlock => .ok (true, w)
      | .failed => .ok (false, w)

/-- `RequestTracker::complete` for the tracker of a connection. -/
def complete (i : Fin n) (response : Response) (finish : ℤ) (w : ClientWorker job n) :
    Except String (ClientWorker job n) := do
  let c := w.connections i
  let (statistics, tracker) ← c.tracker.complete response finish w.statistics
  let tally :=
    if statistics.successful = w.statistics.successful then
      { w.tally with failures := w.tally.failures ++ [response.requestId] }
    else { w.tally with successes := w.tally.successes ++ [response.requestId] }
  .ok (w.settle i { c with tracker := tracker } statistics tally)

/-- The loop of `decode_responses`. Each round takes a frame off the input, so the number of its
bytes is fuel enough. -/
def decodeLoop (i : Fin n) :
    ℕ → ClientWorker job n → Except Fault (Except String Unit × ClientWorker job n)
  | 0, w => .ok (.ok (), w)
  | fuel + 1, w =>
    let c := w.connections i
    if c.input.empty then .ok (.ok (), w)
    else do
      let decoded ← decodeResponse c.input ⟨0, .ok, []⟩ .none
      let w := w.setConnection i { c with input := decoded.input }
      match decoded.result with
      | .incomplete => .ok (.ok (), w)
      | .error => .ok (.error ("invalid benchmark response: " ++ decoded.error.message), w)
      | .complete =>
        let (finish, w) := w.now
        match w.complete i decoded.message finish with
        | .error what => .ok (.error what, w)
        | .ok w => decodeLoop i fuel w

/-- `decode_responses`. -/
def decodeResponses (i : Fin n) (w : ClientWorker job n) :
    Except Fault (Except String Unit × ClientWorker job n) :=
  decodeLoop i (w.connections i).input.readableBytes w

/-- `handle_readable`. -/
def handleReadable (i : Fin n) :
    List RecvResult → ClientWorker job n → Except Fault (Except String Bool × ClientWorker job n)
  | [], w => .ok (.ok true, w)
  | .received bytes _ _ :: results, w => do
    let c := w.connections i
    let input ← c.input.append bytes
    match ← (w.setConnection i { c with input := input }).decodeResponses i with
    | (.error what, w) => .ok (.error what, w)
    | (.ok (), w) => handleReadable i results w
  | .closed :: _, w => .ok (.ok false, w)
  | .interrupted :: results, w => handleReadable i results w
  | .wouldBlock :: _, w => .ok (.ok true, w)
  | .failed :: _, w => .ok (.ok false, w)

/-- `RequestTracker::fail_all` for the tracker of a connection, which is then no longer active. -/
def failAll (i : Fin n) (w : ClientWorker job n) : ℕ × ClientWorker job n :=
  let c := w.connections i
  let (count, statistics, tracker) := c.tracker.failAll w.statistics
  (count, w.settle i { c with tracker := tracker, active := false } statistics
    { w.tally with failures := w.tally.failures ++ c.tracker.ids })

/-- `fail_connection`. -/
def failConnection (i : Fin n) (error : String) (w : ClientWorker job n) : ClientWorker job n :=
  if !(w.connections i).active then w
  else
    let (failed, w) := w.failAll i
    if failed ≠ 0 then w.recordError error else w

/-- `fail_unissued`. -/
def failUnissued (w : ClientWorker job n) : ClientWorker job n :=
  if w.next < job.endIndex then
    { w with
      statistics := w.statistics.recordFailures (job.endIndex - w.next)
      tally := { w.tally with
        failures := w.tally.failures ++ job.load.idsBetween w.next job.endIndex }
      next := job.endIndex }.note
  else w

/-- `fail_everything`. -/
def failEverything (w : ClientWorker job n) : ClientWorker job n :=
  ((List.finRange n).foldl
    (fun w i ↦ if (w.connections i).active then (w.failAll i).2 else w) w).failUnissued

/-- The `try` block around an event. The value says whether to keep the connection. -/
def tryEvent (i : Fin n) (event : ReadyEvent) (w : ClientWorker job n) :
    Except Fault (Except String Bool × ClientWorker job n) := do
  let keep := event.events &&& epollErr = 0
  let (keep, w) ←
    (if keep ∧ event.events &&& epollOut ≠ 0 then w.handleWritable i event.sends
      else .ok (decide keep, w))
  let (result, w) ←
    (if keep ∧ event.events &&& (epollIn ||| epollRdHup ||| epollHup) ≠ 0 then
        w.handleReadable i event.receives
      else .ok (.ok keep, w))
  match result with
  | .error what => .ok (.error what, w)
  | .ok keep =>
    if !keep || event.events &&& (epollRdHup ||| epollHup) ≠ 0 then .ok (.ok false, w)
    else
      match ← w.fillPipeline i with
      | (.error what, w) => .ok (.error what, w)
      | (.ok (), w) => .ok ((updateInterest event.modified).map fun _ ↦ true, w)

/-- An event on a connection, with the handling of what it throws. -/
def handleEvent (i : Fin n) (event : ReadyEvent) (w : ClientWorker job n) :
    Except Fault (ClientWorker job n) := do
  match ← w.tryEvent i event with
  | (.ok true, w) => .ok w
  | (.ok false, w) => .ok (w.failConnection i "benchmark connection closed")
  | (.error what, w) => .ok (w.failConnection i what)

/-- The loop over the events. Those of unknown descriptors and of connections that are no longer
active are passed over. -/
def eventLoop : List ReadyEvent → ClientWorker job n → Except Fault (ClientWorker job n)
  | [], w => .ok w
  | event :: events, w =>
    match w.connectionIndexes.lookup event.fd with
    | none => eventLoop events w
    | some i =>
      if !(w.connections i).active then eventLoop events w
      else do
        let w ← w.handleEvent i event
        eventLoop events w

/-- The loop of `run` before the first `epoll_wait`. -/
def startLoop (modified : Fin n → CallResult) :
    List (Fin n) → ClientWorker job n → Except Fault (Except String Unit × ClientWorker job n)
  | [], w => .ok (.ok (), w)
  | i :: is, w => do
    match ← w.fillPipeline i with
    | (.error what, w) => .ok (.error what, w)
    | (.ok (), w) =>
      match updateInterest (modified i) with
      | .error what => .ok (.error what, w)
      | .ok () => startLoop modified is w

/-- The head of the loop of `run`: everything has been handled, or no connection is active, or else
there is something to wait for. -/
def leave (w : ClientWorker job n) : Except Fault (Option (ClientWorker job n)) := do
  let length ← Checked.sub job.endIndex job.beginIndex
  if ¬w.statistics.handled < length then .ok (some w)
  else if w.activeConnectionCount = 0 then .ok (some w.failUnissued)
  else .ok none

/-- The loop of `run` around `epoll_wait`. -/
def waitLoop :
    List WaitResult → ClientWorker job n → Except Fault (Except String Unit × ClientWorker job n)
  | [], w => do
    match ← w.leave with
    | some w => .ok (.ok (), w)
    | none => .ok (.error "benchmark I/O timed out", w)
  | wait :: waits, w => do
    match ← w.leave with
    | some w => .ok (.ok (), w)
    | none =>
      match wait with
      | .ready events _ _ => do
        let w ← w.eventLoop events
        waitLoop waits w
      | .timedOut => .ok (.error "benchmark I/O timed out", w)
      | .interrupted => waitLoop waits w
      | .failed description =>
        .ok (.error (systemError "benchmark epoll_wait failed" description), w)

/-- The `try` block of `run`. -/
def tryRun (answers : Answers n) (w : ClientWorker job n) :
    Except Fault (Except String Unit × ClientWorker job n) := do
  match ← w.startLoop answers.modified (List.finRange n) with
  | (.error what, w) => .ok (.error what, w)
  | (.ok (), w) => w.waitLoop answers.waits

/-- `ClientWorker::run`. -/
def run (answers : Answers n) (w : ClientWorker job n) : Except Fault (ClientWorker job n) := do
  match ← w.tryRun answers with
  | (.ok (), w) => .ok w
  | (.error what, w) => .ok (w.recordError what).failEverything

end ClientWorker

/-! ## The threads

The plan is cut into intervals of about one length and the connections are dealt out to the threads,
each of which has a worker of its own. The statistics are added up when all threads have ended. -/

/-- The `Options` that `execute_plan` uses. -/
structure Options where
  threads : ℕ
  connections : ℕ
  pipeline : ℕ

namespace Options

/-- `connection_count` of a thread. -/
def connectionCount (options : Options) (threadIndex : ℕ) : ℕ :=
  options.connections / options.threads
    + if threadIndex < options.connections % options.threads then 1 else 0

/-- `begin` and `end` of a thread. -/
def slice (options : Options) (size threadIndex : ℕ) : Except Fault (ℕ × ℕ) := do
  let before ← Checked.mul size threadIndex
  let after ← Checked.mul size (threadIndex + 1)
  .ok (before / options.threads, after / options.threads)

end Options

/-- What a thread leaves in `per_thread`, and what has been remembered of it. -/
structure ThreadResult where
  statistics : Statistics
  tally : Tally
  history : List Books

/-- The body of a thread. -/
def runThread (options : Options) (load : Workload) (threadIndex : ℕ)
    (answers : Answers (options.connectionCount threadIndex)) : Except Fault ThreadResult := do
  let (beginIndex, endIndex) ← options.slice load.plan.length threadIndex
  match ClientWorker.new ⟨load, options.pipeline, beginIndex, endIndex⟩ answers with
  | .error what => do
    let length ← Checked.sub endIndex beginIndex
    .ok {
      statistics := (({} : Statistics).recordFailures length).recordError what
      tally := { failures := load.idsBetween beginIndex endIndex }
      history := [] }
  | .ok worker => do
    let worker ← worker.run answers
    .ok ⟨worker.statistics, worker.tally, worker.history⟩

/-- The threads, one after the other: they share nothing that any of them writes. -/
def runThreads (options : Options) (load : Workload)
    (answers : (i : ℕ) → Answers (options.connectionCount i)) :
    List ℕ → Except Fault (List ThreadResult)
  | [] => .ok []
  | i :: is => do
    let result ← runThread options load i (answers i)
    let results ← runThreads options load answers is
    .ok (result :: results)

/-- `execute_plan`: the combined statistics, and what the threads have left. -/
def executePlan (options : Options) (load : Workload)
    (answers : (i : ℕ) → Answers (options.connectionCount i)) :
    Except Fault (Statistics × List ThreadResult) := do
  let results ← runThreads options load answers (List.range options.threads)
  .ok (results.foldl (fun combined result ↦ combined.merge result.statistics) {}, results)

end Benchmark

end HighCache
