import HighCache.Config.Config
import HighCache.Net.Connection

/-!
# The command-line client

`client/main.cpp`: one request is made of the arguments, sent over a blocking socket, and the one
response is printed. The status of the process tells whether the request succeeded.

The arguments are strings of bytes, that of the program among them. The kernel answers each `send`
and `recv`, so the client is a machine that takes one answer at a time; an answer to a call that it
is not making is none. `EAGAIN` is what a blocking socket says when its time is up.
-/

namespace HighCache

open Protocol Scan

/-- `to_string(WireStatus)`. -/
def Protocol.WireStatus.toText (status : WireStatus) : String :=
  if status = .ok then "ok"
  else if status = .notFound then "not_found"
  else if status = .invalidKey then "invalid_key"
  else if status = .keyTooLarge then "key_too_large"
  else if status = .valueTooLarge then "value_too_large"
  else if status = .itemTooLarge then "item_too_large"
  else if status = .invalidTtl then "invalid_ttl"
  else if status = .protocolError then "protocol_error"
  else if status = .internalError then "internal_error"
  else "unknown"

namespace Command

/-! ## The arguments

The number of arguments is tested together with the command. Whatever does not fit gets the same
text, the usage. -/

/-- The message about wrong arguments. -/
def usage : String := "usage: highcache_client HOST PORT get|set|delete KEY [VALUE] [TTL_MS]"

/-- `parse_unsigned`. -/
def parseUnsigned (value : Bytes) : Except String UInt64 :=
  match fromChars value with
  | .error _ => .error "expected unsigned decimal integer"
  | .ok (parsed, rest) =>
    if rest ≠ [] then .error "expected unsigned decimal integer" else .ok (UInt64.ofNat parsed)

/-- `parse_request`. -/
def parseRequest : List Bytes → Except String Request
  | _ :: _ :: _ :: command :: key :: rest =>
    if command = literal "get" ∧ rest.length = 0 then .ok ⟨.get, 1, key, [], 0⟩
    else if command = literal "delete" ∧ rest.length = 0 then .ok ⟨.erase, 1, key, [], 0⟩
    else if command = literal "set" ∧ (rest.length = 1 ∨ rest.length = 2) then do
      let value := rest.getD 0 []
      if rest.length = 2 then
        let ttlMs ← parseUnsigned (rest.getD 1 [])
        .ok ⟨.set, 1, key, value, ttlMs⟩
      else .ok ⟨.set, 1, key, value, 0⟩
    else .error usage
  | _ => .error usage

/-- The port, from the third argument. -/
def parsePort (argv : List Bytes) : Except String UInt64 := do
  let port ← (if 3 ≤ argv.length then parseUnsigned (argv.getD 2 []) else .ok 0)
  if port = 0 ∨ port > 65535 then .error "port must be between 1 and 65535" else .ok port

/-- How `connect_to` ends. -/
inductive ConnectResult where
  | connected
  | noSocket
  | noTimeouts
  | notAnAddress
  | refused
  deriving DecidableEq, Repr

/-- The connection, or the exception. -/
def ConnectResult.orThrow : ConnectResult → Except String Unit
  | .connected => .ok ()
  | .noSocket => .error "socket failed"
  | .noTimeouts => .error "socket timeout setup failed"
  | .notAnAddress => .error "host must be an IPv4 address"
  | .refused => .error "connect failed"

/-! ## The process

The program is in one of its two loops or has ended. What it prints goes to one of two streams, with
the status the process returns. -/

/-- What the process leaves: its two streams and its status. -/
structure Outcome where
  output : Bytes
  errorOutput : String
  exitCode : ℕ
  deriving DecidableEq, Repr

/-- The end of `main` after a response. -/
def printed (response : Response) : Outcome where
  output := literal response.status.toText
    ++ (if response.value = [] then [] else literal " " ++ response.value) ++ literal "\n"
  errorOutput := ""
  exitCode := if response.status = .ok then 0 else 2

/-- The end of `main` after an exception. -/
def failed (what : String) : Outcome := ⟨[], "highcache_client: " ++ what ++ "\n", 1⟩

/-- Where the process is. -/
inductive Phase where
  /-- In `send_all`, which has sent so many bytes. -/
  | sending (sent : ℕ)
  /-- In `recv` of `read_response`. -/
  | reading (input : Buffer)
  | exited (outcome : Outcome)

/-- The process, with the frame of its request and the bytes that have come and gone. -/
structure Client where
  frame : Bytes
  socket : Socket
  phase : Phase

namespace Client

/-- The head of the loop of `read_response`. -/
def readResponse (input : Buffer) : Except Fault Phase := do
  let decoded ← decodeResponse input ⟨0, .ok, []⟩ .none
  match decoded.result with
  | .complete => .ok (.exited (printed decoded.message))
  | .error => .ok (.exited (failed ("invalid response: " ++ decoded.error.message)))
  | .incomplete => .ok (.reading decoded.input)

/-- The head of the loop of `send_all`, and what comes after it. -/
def sendAll (frame : Bytes) (sent : ℕ) : Except Fault Phase :=
  if sent < frame.length then .ok (.sending sent)
  else readResponse (.new Connection.bufferCapacity)

/-- `main` up to `encode_request`. -/
def prepare (argv : List Bytes) (connecting : ConnectResult) : Except String Bytes := do
  let _ ← parsePort argv
  let request ← parseRequest argv
  connecting.orThrow
  match encodeRequest request with
  | .error exception => .error exception.what
  | .ok frame => .ok frame

/-- `main` up to the first `send`. -/
def start (argv : List Bytes) (connecting : ConnectResult) : Except Fault Client :=
  match prepare argv connecting with
  | .error what => .ok ⟨[], ⟨[], []⟩, .exited (failed what)⟩
  | .ok frame => do
    let phase ← sendAll frame 0
    .ok ⟨frame, ⟨[], []⟩, phase⟩

/-- An answer to `send`. -/
def handleSend (result : SendResult) (c : Client) : Except Fault Client :=
  match c.phase with
  | .sending sent =>
    match result with
    | .accepted count _ => do
      let accepted := min count (c.frame.length - sent)
      let phase ← sendAll c.frame (sent + accepted)
      .ok { c with
        socket.sent := c.socket.sent ++ (c.frame.drop sent).take accepted
        phase := phase }
    | .interrupted => .ok c
    | .wouldBlock => .ok { c with phase := .exited (failed "send failed") }
    | .failed => .ok { c with phase := .exited (failed "send failed") }
  | _ => .ok c

/-- An answer to `recv`. -/
def handleRecv (result : RecvResult) (c : Client) : Except Fault Client :=
  match c.phase with
  | .reading input =>
    match result with
    | .received bytes _ _ => do
      let input ← input.append bytes
      let phase ← readResponse input
      .ok { c with socket.received := c.socket.received ++ bytes, phase := phase }
    | .interrupted => .ok c
    | .closed => .ok { c with phase := .exited (failed "connection closed before response") }
    | .wouldBlock => .ok { c with phase := .exited (failed "connection closed before response") }
    | .failed => .ok { c with phase := .exited (failed "connection closed before response") }
  | _ => .ok c

end Client

end Command

end HighCache
