import HighCache.Net.Connection
import HighCache.Protocol.Stream

/-!
# What a client gets back

A client has sent some bytes. `dialogue` says what it is owed for them, without buffers, chunks or
events: the requests in them are executed one after another, each response is encoded, and a wrong
header is answered with one more. A connection owes exactly that at every moment. What it has sent
and what it has yet to send are, put together, what the client is owed for the bytes received so
far, however they arrived and however much of the output the socket has taken.

## The invariant

While a connection is open its input buffer holds the unfinished frame of the stream and nothing
else. A chunk of input extends that frame, and `contents_append` says that reading on from there is
reading the whole stream.

The connection may be closed because its output has grown too large or because the socket failed;
then nothing is claimed. It is never closed because of its input: an unfinished frame leaves room
for a chunk.
-/

namespace HighCache

open Protocol

/-! ## The specification

A function of the engine and of all bytes received. It uses the same `respond` as the connection, so
that what is specified is what a client gets back and when, and not what the engine answers. -/

/-- The frames of some responses, one after another. -/
def encodeAll : List Response → Except Fault Bytes
  | [] => .ok []
  | response :: responses =>
    match encodeResponse response with
    | .error exception => .error (.exception exception.what)
    | .ok frame => do
      let frames ← encodeAll responses
      .ok (frame ++ frames)

/-- The response to a wrong header. -/
def protocolErrorResponse (error : ProtocolError) : Response where
  requestId := error.requestId
  status := .protocolError
  value := error.message.toUTF8.data.toList

section

variable {n : ℕ} (hash : Bytes → UInt64)

/-- What is owed for the bytes received, and the engine that is left. -/
def dialogue (engine : SharedEngine n) (received : Bytes) :
    Except Fault (Bytes × SharedEngine n) := do
  let (responses, engine) ←
    Transition.run (SharedEngine.respond hash) engine (contents received).requests
  let frames ← encodeAll (responses ++ (contents received).error.toList.map protocolErrorResponse)
  .ok (frames, engine)

variable {hash}

theorem dialogue_eq_ok_iff {engine engine' : SharedEngine n} {received out : Bytes} :
    dialogue hash engine received = .ok (out, engine')
      ↔ ∃ responses, Transition.run (SharedEngine.respond hash) engine (contents received).requests
          = .ok (responses, engine')
        ∧ encodeAll (responses ++ (contents received).error.toList.map protocolErrorResponse)
          = .ok out := by
  rw [dialogue, Except.bind_eq_ok_iff]
  constructor
  · rintro ⟨⟨responses, engine₁⟩, hrun, hrest⟩
    obtain ⟨frames, hencode, hok⟩ := Except.bind_eq_ok_iff.mp hrest
    cases hok
    exact ⟨responses, hrun, hencode⟩
  · rintro ⟨responses, hrun, hencode⟩
    exact ⟨_, hrun, Except.bind_eq_ok_iff.mpr ⟨_, hencode, rfl⟩⟩

theorem encodeAll_cons {response : Response} {frame : Bytes}
    (h : encodeResponse response = .ok frame) {responses : List Response} {frames : Bytes}
    (hs : encodeAll responses = .ok frames) :
    encodeAll (response :: responses) = .ok (frame ++ frames) := by
  rw [encodeAll, h]
  dsimp only
  rw [hs]
  rfl

theorem encodeAll_append {xs ys : List Response} {out out' : Bytes} (hxs : encodeAll xs = .ok out)
    (hys : encodeAll ys = .ok out') : encodeAll (xs ++ ys) = .ok (out ++ out') := by
  induction xs generalizing out with
  | nil =>
    cases hxs
    exact hys
  | cons x xs ih =>
    rw [encodeAll] at hxs
    cases hx : encodeResponse x with
    | error exception =>
      rw [hx] at hxs
      cases hxs
    | ok frame =>
      rw [hx] at hxs
      obtain ⟨frames, hframes, hok⟩ := Except.bind_eq_ok_iff.mp hxs
      cases hok
      rw [List.cons_append, List.append_assoc]
      exact encodeAll_cons hx (ih hframes)

theorem dialogue_of_incomplete {engine : SharedEngine n} {bytes : Bytes}
    (h : nextFrame bytes = .incomplete) : dialogue hash engine bytes = .ok ([], engine) := by
  rw [dialogue, contents_of_incomplete h]
  rfl

theorem dialogue_of_invalid {engine : SharedEngine n} {bytes frame : Bytes} {error : ProtocolError}
    (h : nextFrame bytes = .invalid error)
    (hframe : encodeResponse (protocolErrorResponse error) = .ok frame) :
    dialogue hash engine bytes = .ok (frame, engine) := by
  rw [dialogue_eq_ok_iff, contents_of_invalid h]
  refine ⟨[], rfl, ?_⟩
  have hencode : encodeAll [protocolErrorResponse error] = .ok (frame ++ []) :=
    encodeAll_cons hframe rfl
  rwa [List.append_nil] at hencode

theorem dialogue_of_complete {engine engine' engine'' : SharedEngine n}
    {bytes rest frame out : Bytes} {request : Request} {response : Response}
    (h : nextFrame bytes = .complete request rest)
    (hrespond : engine.respond hash request = .ok (response, engine'))
    (hframe : encodeResponse response = .ok frame)
    (hrest : dialogue hash engine' rest = .ok (out, engine'')) :
    dialogue hash engine bytes = .ok (frame ++ out, engine'') := by
  rw [dialogue_eq_ok_iff] at hrest ⊢
  obtain ⟨responses, hrun, hencode⟩ := hrest
  rw [contents_of_complete h]
  refine ⟨response :: responses, ?_, encodeAll_cons hframe hencode⟩
  rw [Transition.run_cons hrespond, hrun]
  rfl

/-- What is owed for more bytes is what is owed for the unfinished frame with them. -/
theorem dialogue_append {engine engine' engine'' : SharedEngine n} {bytes more out out' : Bytes}
    (herror : (contents bytes).error = none) (h : dialogue hash engine bytes = .ok (out, engine'))
    (h' : dialogue hash engine' ((contents bytes).rest ++ more) = .ok (out', engine'')) :
    dialogue hash engine (bytes ++ more) = .ok (out ++ out', engine'') := by
  rw [dialogue_eq_ok_iff] at h h' ⊢
  obtain ⟨responses, hrun, hencode⟩ := h
  obtain ⟨responses', hrun', hencode'⟩ := h'
  rw [herror, Option.toList_none, List.map_nil, List.append_nil] at hencode
  rw [contents_append herror]
  refine ⟨responses ++ responses', ?_, ?_⟩
  · rw [Transition.run_append hrun, hrun']
    rfl
  · rw [List.append_assoc]
    exact encodeAll_append hencode hencode'

end

/-! ## Responses

Every response to a request can be encoded: its status is one of the nine, and its value is no
longer than the longest value. -/

theorem encodeResponse_of_le {response : Response} (hstatus : isValidStatus response.status.value)
    (hvalue : response.value.length ≤ Cache.maxValueLength) :
    ∃ frame, encodeResponse response = .ok frame := by
  unfold encodeResponse
  rw [if_neg (by simp [hstatus]), if_neg (Nat.not_lt.mpr hvalue)]
  exact ⟨_, rfl⟩

theorem isValidStatus_toWireStatus (status : CacheStatus) :
    isValidStatus (toWireStatus status).value = true := by
  cases status <;> decide

namespace SharedEngine

variable {n : ℕ} (hash : Bytes → UInt64)

/-- The shards of the engine are list caches. -/
def Sound (s : SharedEngine n) : Prop := s.engine.Sound

private theorem encode_reply (requestId : UInt64) {answer : Answer} (h : answer.Bounded) :
    ∃ frame, encodeResponse (reply requestId answer) = .ok frame := by
  cases answer with
  | status status => exact encodeResponse_of_le (isValidStatus_toWireStatus status) (Nat.zero_le _)
  | output status value =>
    refine encodeResponse_of_le (isValidStatus_toWireStatus status) ?_
    show (if status ≠ .ok then [] else value).length ≤ _
    split
    · exact Nat.zero_le _
    · exact h
  | done => exact encodeResponse_of_le (isValidStatus_toWireStatus .notFound) (Nat.zero_le _)
  | thrown exception => exact encodeResponse_of_le rfl (Nat.zero_le _)

theorem Sound.call {s : SharedEngine n} (h : s.Sound) {call : Env → EngineCall n}
    (hout : ∀ env, (call env).output = []) :
    ∃ answer s', s.call hash call = .ok (answer, s') ∧ s'.Sound ∧ answer.Bounded := by
  obtain ⟨answers, engine, hothers, A, hA⟩ :=
    Transition.run_invariant (CacheEngine.Sound.call hash) (s.upcoming 0).others h
  obtain ⟨answer, e', A', hcall, hA', hbounded⟩ := hA.call hash (call (s.upcoming 0).env)
  refine ⟨answer, ⟨e', fun k ↦ s.upcoming (k + 1)⟩, ?_, ⟨A', hA'⟩, hbounded ?_⟩
  · rw [SharedEngine.call, hothers, Except.ok_bind_eq]
    dsimp only
    rw [hcall]
    rfl
  · rw [hout]
    exact Nat.zero_le _

theorem Sound.respond {s : SharedEngine n} (h : s.Sound) (request : Request) :
    ∃ response s' frame, s.respond hash request = .ok (response, s') ∧ s'.Sound
      ∧ response.requestId = request.requestId ∧ encodeResponse response = .ok frame := by
  have hid : ∀ answer, (reply request.requestId answer).requestId = request.requestId := by
    intro answer
    cases answer <;> rfl
  have hanswer : ∀ call : Env → EngineCall n, (∀ env, (call env).output = []) →
      ∃ response s' frame, (s.call hash call >>= fun r ↦
          .ok (reply request.requestId r.1, r.2)) = .ok (response, s') ∧ s'.Sound
        ∧ response.requestId = request.requestId ∧ encodeResponse response = .ok frame := by
    intro call hout
    obtain ⟨answer, s', hcall, hs', hbounded⟩ := h.call hash hout
    obtain ⟨frame, hframe⟩ := encode_reply request.requestId hbounded
    exact ⟨_, s', frame, by rw [hcall]; rfl, hs', hid answer, hframe⟩
  unfold SharedEngine.respond
  split
  · exact hanswer _ fun _ ↦ rfl
  split
  · exact hanswer _ fun _ ↦ rfl
  split
  · exact hanswer _ fun _ ↦ rfl
  · have hbounded : (Answer.status .notFound).Bounded := trivial
    obtain ⟨frame, hframe⟩ := encode_reply request.requestId hbounded
    exact ⟨_, s, frame, rfl, h, rfl, hframe⟩

end SharedEngine

section

variable {n : ℕ} {hash : Bytes → UInt64}

private theorem respond_id {engine engine' : SharedEngine n} {request : Request}
    {response : Response} (h : engine.respond hash request = .ok (response, engine')) :
    response.requestId = request.requestId := by
  have hid : ∀ answer, (SharedEngine.reply request.requestId answer).requestId
      = request.requestId := by
    intro answer
    cases answer <;> rfl
  have hcall : ∀ {called : Except Fault (Answer × SharedEngine n)},
      (called >>= fun r ↦ .ok (SharedEngine.reply request.requestId r.1, r.2))
        = .ok (response, engine') → response.requestId = request.requestId := by
    intro called h
    obtain ⟨⟨answer, s⟩, -, h⟩ := Except.bind_eq_ok_iff.mp h
    cases h
    exact hid answer
  unfold SharedEngine.respond at h
  split at h
  · exact hcall h
  split at h
  · exact hcall h
  split at h
  · exact hcall h
  · cases h
    exact hid _

theorem respond_ids (requests : List Request) : ∀ {engine engine' : SharedEngine n}
    {responses : List Response},
    Transition.run (SharedEngine.respond hash) engine requests = .ok (responses, engine') →
    responses.map Response.requestId = requests.map Request.requestId := by
  induction requests with
  | nil =>
    intro engine engine' responses hrun
    cases hrun
    rfl
  | cons request requests ih =>
    intro engine engine' responses hrun
    obtain ⟨response, responses, engine₁, hrespond, hrest, rfl⟩ := Transition.run_cons_ok hrun
    rw [List.map_cons, List.map_cons, respond_id hrespond, ih hrest]

end

/-! ## Processing the input

The loop takes requests off the input until what is left is unfinished. What it leaves in the
output, together with what was there before, is the dialogue for the input it was given. -/

namespace Connection

variable {n : ℕ} (hash : Bytes → UInt64)

/-- The one way in which a handler can stop: the output buffer grows beyond `2 ^ 62` bytes. -/
def Overgrown (outputLimit : ℕ) (fault : Fault) : Prop :=
  2 ^ 62 < outputLimit ∧ ∃ what, fault = .exception what

theorem queueResponse_ensures (c : Connection n) {response : Response} {frame : Bytes}
    (hframe : encodeResponse response = .ok frame) :
    (c.queueResponse response).Ensures (fun r ↦ r = (false, c.close .outputLimit)
      ∨ ∃ output, r = (true, { c with output := output })
        ∧ output.readableView = c.output.readableView ++ frame) (Overgrown c.outputLimit) := by
  unfold queueResponse
  rw [hframe]
  dsimp only
  split
  · exact Or.inl rfl
  · rename_i hfits
    have hthrown : ∀ fault, (2 ^ 62 < c.output.readableBytes + frame.length
        ∧ Buffer.Full fault) → Overgrown c.outputLimit fault := by
      rintro fault ⟨hlarge, hfull⟩
      exact ⟨by omega, hfull.exception⟩
    have happend := c.output.append_ensures frame
    cases hresult : c.output.append frame with
    | error fault =>
      rw [hresult] at happend
      exact hthrown fault happend
    | ok output =>
      rw [hresult] at happend
      exact Or.inr ⟨output, rfl, happend⟩

/-- `c'` is `c` after its input has been processed. -/
structure Processed (c c' : Connection n) : Prop where
  dialogue : ∃ out, dialogue hash c.engine c.input.readableView = .ok (out, c'.engine)
    ∧ c'.output.readableView = c.output.readableView ++ out
  input : c'.input.readableView = (contents c.input.readableView).rest
  closeAfterWrite : c'.closeAfterWrite = (contents c.input.readableView).error.isSome
  sound : c'.engine.Sound
  socket : c'.socket = c.socket
  outputLimit : c'.outputLimit = c.outputLimit
  closeImmediately : c'.closeImmediately = none

/-- A connection that accepts requests. -/
structure Open (c : Connection n) : Prop where
  sound : c.engine.Sound
  closeAfterWrite : c.closeAfterWrite = false
  closeImmediately : c.closeImmediately = none

variable {hash}

theorem Processed.of_incomplete {c : Connection n} (h : c.Open)
    (hframe : nextFrame c.input.readableView = .incomplete) : Processed hash c c where
  dialogue := ⟨[], dialogue_of_incomplete hframe, (List.append_nil _).symm⟩
  input := by rw [contents_of_incomplete hframe]
  closeAfterWrite := by
    rw [contents_of_incomplete hframe]
    exact h.closeAfterWrite
  sound := h.sound
  socket := rfl
  outputLimit := rfl
  closeImmediately := h.closeImmediately

/-- The outcome of processing: the output limit is reached, or all of the input is processed. -/
def Outcome (hash : Bytes → UInt64) (c : Connection n) (r : Bool × Connection n) : Prop :=
  (r.1 = false ∧ r.2.closeImmediately = some .outputLimit ∧ r.2.outputLimit = c.outputLimit)
    ∨ (r.1 = true ∧ Processed hash c r.2)

private theorem queueProtocolError_ensures {c : Connection n} (h : c.Open) {error : ProtocolError}
    (hframe : nextFrame c.input.readableView = .invalid error) :
    (queueProtocolError error { c with input := c.input.retrieveAll }).Ensures (Outcome hash c)
      (Overgrown c.outputLimit) := by
  obtain ⟨hid, -, hmessage⟩ := error_of_invalid hframe
  have hresponse : errorResponse error = protocolErrorResponse error := by
    rw [errorResponse, hid]
    rfl
  obtain ⟨frame, hencode⟩ : ∃ frame, encodeResponse (protocolErrorResponse error) = .ok frame :=
    encodeResponse_of_le rfl (hmessage.trans (by decide))
  unfold queueProtocolError
  rw [hresponse]
  refine (queueResponse_ensures _ hencode).bind ?_
  rintro r (rfl | ⟨output, rfl, hview⟩)
  · refine Or.inl ⟨rfl, ?_, rfl⟩
    show (c.closeImmediately <|> some .outputLimit) = _
    rw [h.closeImmediately]
    rfl
  · refine Or.inr ⟨rfl, ⟨frame, dialogue_of_invalid hframe hencode, hview⟩, ?_, ?_, h.sound, rfl,
      rfl, h.closeImmediately⟩
    · rw [contents_of_invalid hframe]
      rfl
    · rw [contents_of_invalid hframe]
      rfl

/-- **Every request in the input is answered**, and what is left is an unfinished frame. -/
theorem processLoop_ensures (fuel : ℕ) : ∀ {c : Connection n}, c.Open →
    c.input.readableBytes ≤ fuel →
    (processLoop hash fuel c).Ensures (Outcome hash c) (Overgrown c.outputLimit) := by
  induction fuel with
  | zero =>
    intro c h hfuel
    have hnil : c.input.readableView = [] := by
      rw [← List.length_eq_zero_iff, Buffer.length_readableView]
      omega
    exact Or.inr ⟨rfl, .of_incomplete h (by rw [hnil]; rfl)⟩
  | succ fuel ih =>
    intro c h hfuel
    rw [processLoop]
    by_cases hempty : c.input.empty = true
    · rw [if_pos hempty]
      have hnil : c.input.readableView = [] := c.input.empty_iff.mp hempty
      exact Or.inr ⟨rfl, .of_incomplete h (by rw [hnil]; rfl)⟩
    rw [if_neg hempty]
    have hdecode := decodeRequest_spec c.input ⟨.get, 0, [], [], 0⟩ .none
    cases hframe : nextFrame c.input.readableView with
    | incomplete =>
      rw [hframe] at hdecode
      rw [hdecode]
      exact Or.inr ⟨rfl, .of_incomplete h hframe⟩
    | invalid error =>
      rw [hframe] at hdecode
      rw [hdecode]
      exact queueProtocolError_ensures h hframe
    | complete request rest =>
      rw [hframe] at hdecode
      obtain ⟨input, hdecode, hview⟩ := hdecode
      rw [hdecode]
      obtain ⟨response, engine, frame, hrespond, hsound, -, hencode⟩ := h.sound.respond hash request
      show (execute hash request { c with input := input } >>= _).Ensures _ _
      unfold execute
      dsimp only
      rw [hrespond]
      refine (queueResponse_ensures _ hencode).bind ?_
      -- either the response does not fit, or it is queued and the loop goes on with the rest
      rintro r (rfl | ⟨output, rfl, hout⟩)
      · refine Or.inl ⟨rfl, ?_, rfl⟩
        show (c.closeImmediately <|> some .outputLimit) = _
        rw [h.closeImmediately]
        rfl
      · have hlength := length_rest_lt hframe
        have hopen : Open ({ c with input := input, engine := engine, output := output }) :=
          ⟨hsound, h.closeAfterWrite, h.closeImmediately⟩
        have hfuel' : input.readableBytes ≤ fuel := by
          rw [← Buffer.length_readableView, hview]
          rw [Buffer.length_readableView] at hlength
          omega
        refine (ih hopen hfuel').mono ?_
        rintro r (⟨hfalse, hlost⟩ | ⟨htrue, hprocessed⟩)
        · exact Or.inl ⟨hfalse, hlost⟩
        · obtain ⟨⟨out, hrest, hview'⟩, hinput, hclose, hsound', hsocket, hlimit, hnone⟩ :=
            hprocessed
          dsimp only at hrest hview' hinput hclose
          rw [hview] at hrest hinput hclose
          refine Or.inr ⟨htrue,
            ⟨frame ++ out, dialogue_of_complete hframe hrespond hencode hrest, ?_⟩, ?_, ?_,
            hsound', hsocket, hlimit, hnone⟩
          · rw [hview', hout, List.append_assoc]
          · rw [hinput, contents_of_complete hframe]
          · rw [hclose, contents_of_complete hframe]

/-! ## The handlers

The handlers are loops over the answers of the socket. Each round receives a chunk or sends some
bytes, and between two rounds the connection owes what the invariant says. -/

theorem closeImmediately_eq_none {c : Connection n} :
    c.closeImmediately = none ↔ c.shouldClose = false := by
  rw [shouldClose, Option.isSome_eq_false_iff, Option.isNone_iff_eq_none]

/-- Output was dropped: it was too much, or the socket failed. -/
def Lost (c : Connection n) : Prop :=
  c.closeImmediately = some .outputLimit ∨ c.closeImmediately = some .socketError

/-- The connection owes the client exactly what it has not sent yet. -/
structure Settled (hash : Bytes → UInt64) (start : SharedEngine n) (c : Connection n) : Prop where
  owed : dialogue hash start c.socket.received
    = .ok (c.socket.sent ++ c.output.readableView, c.engine)
  input : c.input.readableView = (contents c.socket.received).rest
  closeAfterWrite : c.closeAfterWrite = (contents c.socket.received).error.isSome
  sound : c.engine.Sound
  closeImmediately : c.closeImmediately ≠ some .inputLimit

/-- What holds of every state a connection gets into. -/
structure Accountable (hash : Bytes → UInt64) (start : SharedEngine n) (outputLimit : ℕ)
    (c : Connection n) : Prop where
  outputLimit_eq : c.outputLimit = outputLimit
  settled : ¬c.Lost → c.Settled hash start

variable {start : SharedEngine n} {outputLimit : ℕ}

theorem accountable_new (h : start.Sound) :
    (new start outputLimit).Accountable hash start outputLimit where
  outputLimit_eq := rfl
  settled := by
    intro _
    have hincomplete : nextFrame [] = .incomplete := rfl
    refine ⟨dialogue_of_incomplete hincomplete, ?_, ?_, h, by rintro ⟨⟩⟩
    · exact contents_nil ▸ rfl
    · exact contents_nil ▸ rfl

namespace Accountable

variable {c : Connection n}

private theorem close_drained (h : c.Accountable hash start outputLimit) :
    (c.close .drained).Accountable hash start outputLimit := by
  refine ⟨h.outputLimit_eq, fun hlost ↦ ?_⟩
  cases hclosed : c.closeImmediately with
  | none =>
    have hsettled := h.settled (by simp [Lost, hclosed])
    have hreason : (c.close .drained).closeImmediately = some .drained := by
      rw [close, hclosed]
      rfl
    exact ⟨hsettled.owed, hsettled.input, hsettled.closeAfterWrite, hsettled.sound,
      by rw [hreason]; rintro ⟨⟩⟩
  | some reason =>
    have hsame : c.close .drained = c := by
      rw [close, hclosed]
      show { c with closeImmediately := some reason } = c
      rw [← hclosed]
    rw [hsame] at hlost ⊢
    exact h.settled hlost

/-- Closing a connection for a reason for which output may be lost. -/
theorem close_of_lost (h : c.Accountable hash start outputLimit) {reason : CloseReason}
    (hnone : c.closeImmediately = none) (hreason : reason = .outputLimit ∨ reason = .socketError) :
    (c.close reason).Accountable hash start outputLimit := by
  refine ⟨h.outputLimit_eq, fun hlost ↦ absurd ?_ hlost⟩
  have hclosed : (c.close reason).closeImmediately = some reason := by
    rw [close, hnone]
    rfl
  unfold Lost
  rw [hclosed, Option.some.injEq, Option.some.injEq]
  exact hreason

theorem notePeerClosed (h : c.Accountable hash start outputLimit) :
    c.notePeerClosed.Accountable hash start outputLimit := by
  have hpeer : Accountable hash start outputLimit { c with peerClosed := true } :=
    ⟨h.outputLimit_eq, fun hlost ↦
      have hsettled := h.settled hlost
      ⟨hsettled.owed, hsettled.input, hsettled.closeAfterWrite, hsettled.sound,
        hsettled.closeImmediately⟩⟩
  unfold Connection.notePeerClosed
  dsimp only
  split
  · exact hpeer.close_drained
  · exact hpeer

theorem finishWriting (h : c.Accountable hash start outputLimit) :
    c.finishWriting.Accountable hash start outputLimit := by
  unfold Connection.finishWriting
  split
  · exact h.close_drained
  · exact h

/-- Where `recv` is called the input holds an unfinished frame. -/
theorem readableBytes_lt (h : c.Accountable hash start outputLimit)
    (hopen : c.closeAfterWrite = false) (hnone : c.closeImmediately = none) :
    (contents c.socket.received).error = none ∧ c.input.readableBytes < maxRequestFrameSize := by
  have hsettled := h.settled (by simp [Lost, hnone])
  have herror : (contents c.socket.received).error = none := by
    rw [← Option.not_isSome_iff_eq_none, ← hsettled.closeAfterWrite, hopen]
    exact Bool.false_ne_true
  refine ⟨herror, ?_⟩
  rw [← Buffer.length_readableView, hsettled.input]
  exact length_lt_of_incomplete (nextFrame_rest herror)

theorem receive (h : c.Accountable hash start outputLimit) (hopen : c.closeAfterWrite = false)
    (hnone : c.closeImmediately = none) {bytes : Bytes} (hle : bytes.length ≤ readChunkSize) :
    ∃ input, Checked.sub maxInputBufferSize c.input.readableBytes
        = .ok (maxInputBufferSize - c.input.readableBytes)
      ∧ bytes.length ≤ maxInputBufferSize - c.input.readableBytes
      ∧ c.input.append bytes = .ok input
      ∧ (processInput hash { c with
          socket.received := c.socket.received ++ bytes
          input := input }).Ensures
        (fun r ↦ r.2.Accountable hash start outputLimit) (Overgrown outputLimit) := by
  have hsettled := h.settled (by simp [Lost, hnone])
  obtain ⟨herror, hshort⟩ := h.readableBytes_lt hopen hnone
  have hmax : maxInputBufferSize = maxRequestFrameSize + readChunkSize := rfl
  have hroom : bytes.length ≤ maxInputBufferSize - c.input.readableBytes := by omega
  have hsmall : maxInputBufferSize ≤ 2 ^ 62 := by decide
  have hsum : c.input.readableBytes + bytes.length ≤ 2 ^ 62 := by omega
  obtain ⟨input, happend, hview, -⟩ := Buffer.append_eq hsum
  refine ⟨input, Checked.sub_eq (by omega), hroom, happend, ?_⟩
  have hready : Open { c with
      socket.received := c.socket.received ++ bytes
      input := input } := ⟨hsettled.sound, hopen, hnone⟩
  rw [← h.outputLimit_eq]
  refine (processLoop_ensures input.readableBytes hready le_rfl).mono ?_
  rintro r (⟨-, hlost, hlimit⟩ |
    ⟨-, ⟨out, hdialogue, hout⟩, hinput, hclose, hsound, hsocket, hlimit, hnone'⟩)
  · exact ⟨hlimit, fun hkept ↦ absurd (Or.inl hlost) hkept⟩
  · dsimp only at hdialogue hout hinput hclose
    rw [hview, hsettled.input] at hdialogue hinput hclose
    refine ⟨hlimit, fun _ ↦ ⟨?_, ?_, ?_, hsound, by rw [hnone']; rintro ⟨⟩⟩⟩
    · rw [hsocket, hout, ← List.append_assoc]
      exact dialogue_append herror hsettled.owed hdialogue
    · rw [hinput, hsocket, contents_append herror]
    · rw [hclose, hsocket, contents_append herror]

end Accountable

theorem Accountable.readLoop (results : List RecvResult) : ∀ {c : Connection n},
    c.Accountable hash start outputLimit →
    (readLoop hash results c).Ensures (fun c' ↦ c'.Accountable hash start outputLimit)
      (Overgrown outputLimit) := by
  induction results with
  | nil => exact fun h ↦ h
  | cons result results ih =>
    intro c h
    unfold Connection.readLoop
    by_cases hclosing : (c.closeAfterWrite || c.shouldClose) = true
    · rw [if_pos hclosing]
      exact h
    rw [if_neg hclosing]
    rw [Bool.or_eq_true, not_or, Bool.not_eq_true, Bool.not_eq_true] at hclosing
    obtain ⟨hopen, hclosed⟩ := hclosing
    have hnone := closeImmediately_eq_none.mpr hclosed
    cases result with
    | received bytes hpos hle =>
      obtain ⟨input, hsub, hroom, happend, hprocess⟩ := h.receive hopen hnone hle
      dsimp only
      rw [hsub, Except.ok_bind_eq, if_neg (Nat.not_lt.mpr hroom), happend, Except.ok_bind_eq]
      refine hprocess.bind ?_
      rintro ⟨processed, c'⟩ h'
      dsimp only
      split
      · exact ih h'
      · exact h'
    | closed => exact h.notePeerClosed
    | interrupted => exact ih h
    | wouldBlock => exact h
    | failed => exact h.close_of_lost hnone (Or.inr rfl)

theorem Accountable.handleWritable (results : List SendResult) : ∀ {c : Connection n},
    c.Accountable hash start outputLimit →
    ∃ r, c.handleWritable results = .ok r ∧ r.2.Accountable hash start outputLimit := by
  induction results with
  | nil =>
    intro c h
    rw [Connection.handleWritable]
    split
    · exact ⟨_, rfl, h.finishWriting⟩
    · exact ⟨_, rfl, h⟩
  | cons result results ih =>
    intro c h
    unfold Connection.handleWritable
    by_cases hdone : (c.output.empty || c.shouldClose) = true
    · rw [if_pos hdone]
      exact ⟨_, rfl, h.finishWriting⟩
    rw [if_neg hdone]
    cases result with
    | accepted count hpos =>
      obtain ⟨output, hretrieve, hview, -⟩ := Buffer.retrieve_eq (b := c.output)
        (min_le_right count c.output.readableBytes)
      dsimp only
      rw [hretrieve, Except.ok_bind_eq]
      refine ih ⟨h.outputLimit_eq, fun hkept ↦ ?_⟩
      have hsettled := h.settled hkept
      refine ⟨?_, hsettled.input, hsettled.closeAfterWrite, hsettled.sound,
        hsettled.closeImmediately⟩
      -- what leaves the front of the output arrives at the end of what was sent
      rw [hview, List.append_assoc, List.take_append_drop]
      exact hsettled.owed
    | interrupted => exact ih h
    | wouldBlock => exact ⟨_, rfl, h⟩
    | failed =>
      rw [Bool.or_eq_true, not_or, Bool.not_eq_true, Bool.not_eq_true] at hdone
      have hnone := closeImmediately_eq_none.mpr hdone.2
      exact ⟨_, rfl, h.close_of_lost hnone (Or.inr rfl)⟩

theorem Accountable.step {c : Connection n} (h : c.Accountable hash start outputLimit)
    (event : Event) :
    (c.step hash event).Ensures (fun r ↦ r.2.Accountable hash start outputLimit)
      (Overgrown outputLimit) := by
  cases event with
  | readable results =>
    refine (Accountable.readLoop results h).bind fun c' h' ↦ ?_
    exact h'
  | writable results =>
    obtain ⟨r, hr, h'⟩ := Accountable.handleWritable results h
    show (c.handleWritable results).Ensures _ _
    rw [hr]
    exact h'
  | peerClosed => exact h.notePeerClosed

/-! ## Every sequence of events -/

/-- **A connection answers every request it has received, once each and in order.** Whatever the
peer sends, however `recv` cuts it into chunks and `send` takes the output, and whatever others do
with the engine in between: unless the output limit or a socket error has closed the connection,
what was sent and what is queued is what `dialogue` says is owed for what was received, the engine
has executed the requests in it and nothing else, each response carries the id of its request, and
so it depends on nothing but the stream. A run stops only where the output limit allows more than
`2 ^ 62` bytes to be queued. -/
theorem run_dialogue (hash : Bytes → UInt64) (capacity outputLimit : UInt64) {e₀ e : CacheEngine n}
    (hnew : CacheEngine.new capacity.toNat n = .ok e₀)
    (hreach : Transition.Reachable (CacheEngine.call hash) e₀ e) (upcoming : ℕ → Surroundings n)
    (events : List Event) :
    (∃ kept c, Transition.run (step hash) (new ⟨e, upcoming⟩ outputLimit.toNat) events
        = .ok (kept, c)
      ∧ (c.closeImmediately ≠ some .outputLimit → c.closeImmediately ≠ some .socketError →
        dialogue hash ⟨e, upcoming⟩ c.socket.received
            = .ok (c.socket.sent ++ c.output.readableView, c.engine)
          ∧ ∃ responses, Transition.run (SharedEngine.respond hash) ⟨e, upcoming⟩
              (contents c.socket.received).requests = .ok (responses, c.engine)
            ∧ responses.map Response.requestId
              = (contents c.socket.received).requests.map Request.requestId))
    ∨ (2 ^ 62 < outputLimit.toNat
      ∧ ∃ what, Transition.run (step hash) (new ⟨e, upcoming⟩ outputLimit.toNat) events
        = .error (.exception what)) := by
  have hsound : (⟨e, upcoming⟩ : SharedEngine n).Sound :=
    hreach.invariant (CacheEngine.Sound.call hash)
      ⟨_, CacheEngine.simulates_new capacity.toNat_lt hnew⟩
  have hstep : ∀ (c : Connection n) (event : Event),
      c.Accountable hash ⟨e, upcoming⟩ outputLimit.toNat →
      (c.step hash event).Ensures
        (fun r ↦ r.2.Accountable hash ⟨e, upcoming⟩ outputLimit.toNat)
        (Overgrown outputLimit.toNat) := fun c event h ↦ h.step event
  have hrun := Transition.run_ensures hstep events (accountable_new hsound)
  cases hresult : Transition.run (step hash) (new ⟨e, upcoming⟩ outputLimit.toNat) events with
  | error fault =>
    rw [hresult] at hrun
    obtain ⟨hlimit, what, rfl⟩ := hrun
    exact Or.inr ⟨hlimit, what, rfl⟩
  | ok r =>
    rw [hresult] at hrun
    obtain ⟨kept, c⟩ := r
    refine Or.inl ⟨kept, c, rfl, fun hlimit hsocket ↦ ?_⟩
    have howed := (hrun.settled (not_or.mpr ⟨hlimit, hsocket⟩)).owed
    obtain ⟨responses, hresponds, -⟩ := dialogue_eq_ok_iff.mp howed
    exact ⟨howed, responses, hresponds, respond_ids _ hresponds⟩

/-- A SET in two chunks, the second with a GET and a header of zeros after it; the socket takes the
answer to the SET and seven bytes more. -/
private def twoChunks : List Event :=
  [.readable [.ofBytes ((requestFrame 2 9 [118]).take 16)],
    .readable [.ofBytes ((requestFrame 2 9 [118]).drop 16 ++ requestFrame 1 10 []
      ++ List.replicate 32 0)],
    .writable [.ofCount 27]]

/-- The GET returns the value of the SET, and the key stays in the engine. -/
theorem run_dialogue_two_chunks :
    ∃ kept c responses, Transition.run (step fun _ ↦ 0) (new .quiet (4096 : UInt64).toNat) twoChunks
        = .ok (kept, c)
      ∧ c.socket.sent = responseFrame 0 9 [] ++ (responseFrame 0 10 [118]).take 7
      ∧ (c.engine.engine.shards 0).recency.values = [[107]]
      ∧ dialogue (fun _ ↦ 0) .quiet c.socket.received
        = .ok (c.socket.sent ++ c.output.readableView, c.engine)
      ∧ Transition.run (SharedEngine.respond fun _ ↦ 0) .quiet
        (contents c.socket.received).requests = .ok (responses, c.engine)
      ∧ responses.map Response.requestId = [9, 10] := by
  have hstate : (Transition.run (step fun _ ↦ 0) (new .quiet (4096 : UInt64).toNat)
      twoChunks).toOption.map (fun r ↦ (r.2.closeImmediately, r.2.socket.sent,
        (r.2.engine.engine.shards 0).recency.values,
        (contents r.2.socket.received).requests.map Request.requestId))
      = some (none, responseFrame 0 9 [] ++ (responseFrame 0 10 [118]).take 7, [[107]],
        [9, 10]) := by decide +kernel
  rcases run_dialogue (fun _ ↦ 0) 100 4096 SharedEngine.new_quiet (.refl _ _)
    SharedEngine.quiet.upcoming twoChunks with ⟨kept, c, hrun, howed⟩ | ⟨hlarge, -⟩
  · change Transition.run _ (new .quiet _) _ = _ at hrun
    rw [hrun] at hstate
    obtain ⟨hclosed, hsent, hkeys, hids⟩ : c.closeImmediately = none ∧ c.socket.sent = _
        ∧ (c.engine.engine.shards 0).recency.values = _
        ∧ (contents c.socket.received).requests.map Request.requestId = _ := by
      simpa only [Prod.mk.injEq] using Option.some.inj hstate
    obtain ⟨hdialogue, responses, hresponds, hids'⟩ :=
      howed (by rw [hclosed]; rintro ⟨⟩) (by rw [hclosed]; rintro ⟨⟩)
    exact ⟨kept, c, responses, hrun, hsent, hkeys, hdialogue, hresponds, hids'.trans hids⟩
  · exact absurd hlarge (by decide)

end Connection

end HighCache
