import HighCache.Cache.CacheEngine
import HighCache.Protocol.ProtocolCodec

/-!
# A connection

`connection.cpp`: what is received is collected in one buffer, every whole request in it is executed
at once, and the response is queued in another buffer, which is sent as the socket takes it. A
request that is malformed is answered once more, and nothing is read after it.

## The socket

The kernel answers each `recv` and `send`, so a call of a handler comes with the answers it will
get; where they run out the next one is `EAGAIN`. `Socket` remembers the bytes that `recv` has
returned and those that `send` has taken.

## The engine

The connection has a reference to an engine that other connections and the timer use as well. They
may call it between any two calls of this connection, so the `k`-th call comes with the calls that
others make before it and with what the surroundings decide during it (`Surroundings`). Nothing is
assumed about either.
-/

namespace HighCache

open Protocol

/-! ## The socket

`recv` and `send` can say that they took some bytes, that they were interrupted, that they would
have to wait, or that there is an error. Each of these leads to another branch of the handlers. -/

/-- `read_chunk_size`. -/
def readChunkSize : ℕ := 64 * 1024

/-- `max_input_buffer_size`. -/
def maxInputBufferSize : ℕ := maxRequestFrameSize + readChunkSize

/-- What `recv` answers. -/
inductive RecvResult where
  | received (bytes : Bytes) (pos : 0 < bytes.length) (le : bytes.length ≤ readChunkSize)
  /-- The peer has closed its side. -/
  | closed
  /-- `EINTR`. -/
  | interrupted
  /-- `EAGAIN` or `EWOULDBLOCK`. -/
  | wouldBlock
  /-- Any other error. -/
  | failed

/-- What `send` answers. -/
inductive SendResult where
  /-- Some of the bytes were taken: `count` of them, or all if there are fewer. -/
  | accepted (count : ℕ) (pos : 0 < count)
  /-- `EINTR`. -/
  | interrupted
  /-- `EAGAIN` or `EWOULDBLOCK`. -/
  | wouldBlock
  /-- Zero, or any other error. -/
  | failed

/-- The bytes that have come and gone. -/
structure Socket where
  received : Bytes
  sent : Bytes
  deriving DecidableEq, Repr

/-- `EPOLLIN`. -/
def epollIn : UInt32 := 0x001

/-- `EPOLLOUT`. -/
def epollOut : UInt32 := 0x004

/-- `EPOLLERR`. -/
def epollErr : UInt32 := 0x008

/-- `EPOLLHUP`. -/
def epollHup : UInt32 := 0x010

/-- `EPOLLRDHUP`. -/
def epollRdHup : UInt32 := 0x2000

/-! ## The engine

A request is a call of the engine and its answer a response. A request that throws is answered with
an internal error, and the connection goes on. -/

/-- What happens around one call of the engine. -/
structure Surroundings (n : ℕ) where
  /-- The calls that others make before it. -/
  others : List (EngineCall n)
  env : Env

/-- The engine, with what will happen around each call that is made to it. -/
structure SharedEngine (n : ℕ) where
  engine : CacheEngine n
  upcoming : ℕ → Surroundings n

namespace SharedEngine

variable {n : ℕ} (hash : Bytes → UInt64)

/-- One call, after those of the others. -/
def call (s : SharedEngine n) (call : Env → EngineCall n) :
    Except Fault (Answer × SharedEngine n) := do
  let (_, engine) ← Transition.run (CacheEngine.call hash) s.engine (s.upcoming 0).others
  let (answer, engine) ← engine.call hash (call (s.upcoming 0).env)
  .ok (answer, ⟨engine, fun k ↦ s.upcoming (k + 1)⟩)

/-- The response to an answer of the engine. The status is `not_found` until one is assigned. -/
def reply (requestId : UInt64) : Answer → Response
  | .status status => ⟨requestId, toWireStatus status, []⟩
  | .output status value => ⟨requestId, toWireStatus status, if status ≠ .ok then [] else value⟩
  | .thrown _ => ⟨requestId, .internalError, []⟩
  | .done => ⟨requestId, toWireStatus .notFound, []⟩

/-- The response `Connection::execute` prepares. -/
def respond (s : SharedEngine n) (request : Request) :
    Except Fault (Response × SharedEngine n) :=
  if request.opcode = .get then do
    let (answer, s) ← s.call hash fun env ↦ .get env request.key []
    .ok (reply request.requestId answer, s)
  else if request.opcode = .set then do
    let (answer, s) ← s.call hash fun env ↦
      .set env request.key request.value request.ttlMs.toInt64
    .ok (reply request.requestId answer, s)
  else if request.opcode = .erase then do
    let (answer, s) ← s.call hash fun env ↦ .erase env request.key
    .ok (reply request.requestId answer, s)
  else .ok (reply request.requestId (.status .notFound), s)

end SharedEngine

/-! ## The connection -/

/-- Which call of `close_immediately` closed a connection. -/
inductive CloseReason where
  /-- More input than `max_input_buffer_size`. -/
  | inputLimit
  /-- More output than `output_limit_`. -/
  | outputLimit
  /-- `recv` or `send` failed. -/
  | socketError
  /-- There is nothing more to send, and nothing more to come. -/
  | drained
  deriving DecidableEq, Repr

/-- `Connection`. `closeImmediately` is `close_immediately_` with the reason it was set for. -/
structure Connection (n : ℕ) where
  socket : Socket
  engine : SharedEngine n
  input : Buffer
  output : Buffer
  outputLimit : ℕ
  peerClosed : Bool
  closeAfterWrite : Bool
  closeImmediately : Option CloseReason

namespace Connection

variable {n : ℕ} (hash : Bytes → UInt64)

/-- The default of `initial_capacity`. -/
def bufferCapacity : ℕ := 4096

/-- `Connection::Connection(socket, engine, output_limit)`. -/
def new (engine : SharedEngine n) (outputLimit : ℕ) : Connection n where
  socket := ⟨[], []⟩
  engine := engine
  input := .new bufferCapacity
  output := .new bufferCapacity
  outputLimit := outputLimit
  peerClosed := false
  closeAfterWrite := false
  closeImmediately := none

/-- `Connection::close_immediately`; the first reason stays. -/
def close (reason : CloseReason) (c : Connection n) : Connection n :=
  { c with closeImmediately := c.closeImmediately <|> some reason }

/-- `Connection::should_close`. -/
def shouldClose (c : Connection n) : Bool := c.closeImmediately.isSome

/-- `Connection::wants_write`. -/
def wantsWrite (c : Connection n) : Bool := !c.output.empty

/-- `Connection::pending_output_bytes`. -/
def pendingOutputBytes (c : Connection n) : ℕ := c.output.readableBytes

/-- `Connection::desired_events`. -/
def desiredEvents (c : Connection n) : UInt32 :=
  if c.shouldClose then 0
  else
    let events := epollRdHup
    let events := if !c.closeAfterWrite && !c.peerClosed then events ||| epollIn else events
    if c.wantsWrite then events ||| epollOut else events

/-- `Connection::queue_response`. An exception of `encode_response` would leave the connection. -/
def queueResponse (response : Response) (c : Connection n) : Except Fault (Bool × Connection n) :=
  match encodeResponse response with
  | .error exception => .error (.exception exception.what)
  | .ok frame =>
    let pending := c.output.readableBytes
    if pending > c.outputLimit ∨ frame.length > c.outputLimit - pending then
      .ok (false, c.close .outputLimit)
    else do
      let output ← c.output.append frame
      .ok (true, { c with output := output })

/-- The response `Connection::queue_protocol_error` queues. -/
def errorResponse (error : ProtocolError) : Response where
  requestId := if error.hasRequestId then error.requestId else 0
  status := .protocolError
  value := error.message.toUTF8.data.toList

/-- `Connection::queue_protocol_error`. -/
def queueProtocolError (error : ProtocolError) (c : Connection n) :
    Except Fault (Bool × Connection n) := do
  let (queued, c) ← c.queueResponse (errorResponse error)
  if queued then .ok (true, { c with closeAfterWrite := true }) else .ok (false, c)

/-- `Connection::execute`. -/
def execute (request : Request) (c : Connection n) : Except Fault (Bool × Connection n) := do
  let (response, engine) ← c.engine.respond hash request
  queueResponse response { c with engine := engine }

/-- The loop of `Connection::process_input`. Each round takes a frame off the input, so the number
of its bytes is fuel enough. -/
def processLoop : ℕ → Connection n → Except Fault (Bool × Connection n)
  | 0, c => .ok (true, c)
  | fuel + 1, c =>
    if c.input.empty then .ok (true, c)
    else do
      let decoded ← decodeRequest c.input ⟨.get, 0, [], [], 0⟩ .none
      match decoded.result with
      | .incomplete => .ok (true, { c with input := decoded.input })
      | .error =>
        queueProtocolError decoded.error { c with input := decoded.input.retrieveAll }
      | .complete =>
        let (executed, c) ← execute hash decoded.message { c with input := decoded.input }
        if executed then processLoop fuel c else .ok (false, c)

/-- `Connection::process_input`. -/
def processInput (c : Connection n) : Except Fault (Bool × Connection n) :=
  processLoop hash c.input.readableBytes c

/-- `Connection::note_peer_closed`. -/
def notePeerClosed (c : Connection n) : Connection n :=
  let c := { c with peerClosed := true }
  if c.output.empty then c.close .drained else c

/-- The loop of `Connection::handle_readable`. -/
def readLoop : List RecvResult → Connection n → Except Fault (Connection n)
  | [], c => .ok c
  | result :: results, c =>
    if c.closeAfterWrite || c.shouldClose then .ok c
    else
      match result with
      | .received bytes _ _ => do
        let c := { c with socket.received := c.socket.received ++ bytes }
        let room ← Checked.sub maxInputBufferSize c.input.readableBytes
        if bytes.length > room then .ok (c.close .inputLimit)
        else do
          let input ← c.input.append bytes
          let (processed, c) ← processInput hash { c with input := input }
          if processed then readLoop results c else .ok c
      | .closed => .ok c.notePeerClosed
      | .interrupted => readLoop results c
      | .wouldBlock => .ok c
      | .failed => .ok (c.close .socketError)

/-- `Connection::handle_readable`. -/
def handleReadable (results : List RecvResult) (c : Connection n) :
    Except Fault (Bool × Connection n) := do
  let c ← readLoop hash results c
  .ok (!c.shouldClose, c)

/-- What `Connection::handle_writable` does when it leaves the loop by its condition. -/
def finishWriting (c : Connection n) : Connection n :=
  if c.output.empty && (c.closeAfterWrite || c.peerClosed) then c.close .drained else c

/-- `Connection::handle_writable`. -/
def handleWritable : List SendResult → Connection n → Except Fault (Bool × Connection n)
  | [], c =>
    if c.output.empty || c.shouldClose then .ok (!c.finishWriting.shouldClose, c.finishWriting)
    else .ok (true, c)
  | result :: results, c =>
    if c.output.empty || c.shouldClose then .ok (!c.finishWriting.shouldClose, c.finishWriting)
    else
      match result with
      | .accepted count _ => do
        let accepted := min count c.output.readableBytes
        let sent := c.socket.sent ++ c.output.readableView.take accepted
        let output ← c.output.retrieve accepted
        handleWritable results { c with socket.sent := sent, output := output }
      | .interrupted => handleWritable results c
      | .wouldBlock => .ok (true, c)
      | .failed => .ok (false, c.close .socketError)

/-- A call of one of the handlers, with the answers of the kernel to it. -/
inductive Event where
  | readable (results : List RecvResult)
  | writable (results : List SendResult)
  | peerClosed

/-- One call; the output says whether the connection is kept. -/
def step (c : Connection n) : Event → Except Fault (Bool × Connection n)
  | .readable results => c.handleReadable hash results
  | .writable results => c.handleWritable results
  | .peerClosed => .ok (!c.notePeerClosed.shouldClose, c.notePeerClosed)

end Connection

/-! ## For the examples

An engine of one shard that nobody else uses, and frames for the key `107`. -/

namespace SharedEngine

/-- No call fails. -/
def quiet : SharedEngine 1 := ⟨.oneShard, fun _ ↦ ⟨[], some 8, fun _ ↦ false⟩⟩

theorem new_quiet : CacheEngine.new (100 : UInt64).toNat 1 = .ok quiet.engine := rfl

end SharedEngine

/-- The frame of a request. -/
def requestFrame (opcode requestId : UInt8) (value : Bytes) : Bytes :=
  [72, 67, 65, 67, 1, opcode, 0, 0, 0, 0, 0, 0, 0, 0, 0, requestId, 0, 0, 0, 1, 0, 0, 0,
    UInt8.ofNat value.length, 0, 0, 0, 0, 0, 0, 0, 0, 107] ++ value

/-- The frame of a response. -/
def responseFrame (status requestId : UInt8) (value : Bytes) : Bytes :=
  [72, 67, 65, 67, 1, status, 0, 0, 0, 0, 0, 0, 0, 0, 0, requestId, 0, 0, 0,
    UInt8.ofNat value.length] ++ value

/-- `recv` returns these bytes if they are a chunk. -/
def RecvResult.ofBytes (bytes : Bytes) : RecvResult :=
  if h : 0 < bytes.length ∧ bytes.length ≤ readChunkSize then .received bytes h.1 h.2
  else .wouldBlock

/-- `send` takes up to so many bytes. -/
def SendResult.ofCount (count : ℕ) : SendResult :=
  if h : 0 < count then .accepted count h else .wouldBlock

end HighCache
