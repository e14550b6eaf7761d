import HighCache.Net.Orderly
import HighCache.Protocol.Responses

/-!
# What the peer of a connection sees

`dialogue` says what a client is owed, and a connection that has not lost anything owes exactly what
it has not sent yet. A client sees less than that: the bytes that have reached it, of a connection
that may have been closed in the meantime for whatever reason. What it sees is still right. The
bytes sent are at every moment a beginning of what is owed (`Honest`), so a client that has sent
well-formed requests and reads any beginning of what comes back reads the responses to the first of
its requests, in their order, and never anything malformed.

## Two ends of one stream

What a client knows is what it has sent, all of it, and what it has received, a beginning of what
the server has sent. Neither end knows how the other's calls cut the stream. The statements below
are therefore about beginnings of sequences of bytes, and the decoders at both ends are related to
them by the theory of frames.
-/

namespace HighCache

open Protocol

namespace Protocol

/-! ## Streams of frames

Requests that were encoded one after another are `Written`, and so are responses. What is received
of them is a beginning. -/

theorem written_requests {requests : List Request} : ∀ {frames : List Bytes},
    requests.map encodeRequest = frames.map .ok →
    requestFraming.Written requests frames.flatten := by
  induction requests with
  | nil =>
    intro frames hframes
    obtain rfl : frames = [] := List.map_eq_nil_iff.mp hframes.symm
    exact .nil
  | cons request requests ih =>
    intro frames hframes
    cases frames with
    | nil => cases hframes
    | cons frame frames =>
      rw [List.map_cons, List.map_cons, List.cons.injEq] at hframes
      refine .cons (fun rest ↦ ?_) (ih hframes.2)
      exact next_of_nextFrame (nextFrame_encode hframes.1 rest)

theorem written_responses {responses : List Response} : ∀ {out : Bytes},
    encodeAll responses = .ok out → responseFraming.Written responses out := by
  induction responses with
  | nil =>
    intro out h
    cases h
    exact .nil
  | cons response responses ih =>
    intro out h
    rw [encodeAll] at h
    cases hresponse : encodeResponse response with
    | error exception =>
      rw [hresponse] at h
      cases h
    | ok frame =>
      rw [hresponse] at h
      obtain ⟨frames, hframes, hok⟩ := Except.bind_eq_ok_iff.mp h
      cases hok
      exact .cons (fun rest ↦ next_encodeResponse hresponse rest) (ih hframes)

theorem length_encodeResponse_le {response : Response} {frame : Bytes}
    (h : encodeResponse response = .ok frame) : frame.length ≤ maxResponseFrameSize := by
  obtain ⟨⟨-, hvalue⟩, hframe⟩ := (encodeResponse_eq_ok_iff response frame).mp h
  rw [hframe, List.length_append, ResponseHeader.length_bytes]
  exact Nat.add_le_add_left hvalue _

theorem contents_reads (bytes : Bytes) :
    ∃ rest, requestFraming.Reads bytes (contents bytes).requests rest
      ∧ ∀ error, (contents bytes).error = some error →
        requestFraming.next rest = .invalid error := by
  induction bytes using frames_induction with
  | incomplete bytes hframe =>
    rw [contents_of_incomplete hframe]
    exact ⟨bytes, .nil _, by rintro error ⟨⟩⟩
  | invalid bytes error hframe =>
    rw [contents_of_invalid hframe]
    refine ⟨bytes, .nil _, fun error' herror ↦ ?_⟩
    cases herror
    exact next_of_nextFrame hframe
  | complete bytes request rest hframe ih =>
    obtain ⟨rest', hreads, herror⟩ := ih
    rw [contents_of_complete hframe]
    exact ⟨rest', .cons (next_of_nextFrame hframe) hreads, herror⟩

/-- The contents of a beginning of some requests are a beginning of the requests. -/
theorem contents_of_prefix {requests : List Request} {stream received : Bytes}
    (h : requestFraming.Written requests stream) (hpre : received <+: stream) :
    (contents received).error = none ∧ (contents received).requests <+: requests := by
  obtain ⟨rest, hreads, herror⟩ := contents_reads received
  obtain ⟨others, zs, rfl, hothers, hrest⟩ :=
    Framing.Written.reads_of_prefix (by decide) hreads h hpre
  refine ⟨?_, List.prefix_append _ _⟩
  cases hcontents : (contents received).error with
  | none => rfl
  | some error =>
    exact absurd (herror error hcontents) (hothers.next_ne_invalid (by decide) hrest error)

/-- Nothing is read after a header that is wrong. -/
theorem contents_append_of_error {bytes : Bytes} {error : ProtocolError}
    (h : (contents bytes).error = some error) (more : Bytes) :
    contents (bytes ++ more) = contents bytes := by
  induction bytes using frames_induction with
  | incomplete bytes hframe =>
    rw [contents_of_incomplete hframe] at h
    cases h
  | invalid bytes error' hframe =>
    have hmore : requestFraming.next (bytes ++ more) = .invalid error' :=
      Framing.next_append_of_invalid (next_of_nextFrame hframe) more
    have hframe' : nextFrame (bytes ++ more) = .invalid error' := by
      rw [nextFrame_eq, hmore]
      rfl
    rw [contents_of_invalid hframe, contents_of_invalid hframe']
  | complete bytes request rest hframe ih =>
    rw [contents_of_complete hframe] at h ⊢
    rw [contents_of_complete (nextFrame_append_of_complete hframe more), ih h]

/-- The loop of a client reads off what there is, if it is a beginning of some responses. -/
theorem decodeResponsesLoop_reads (fuel : ℕ) : ∀ {input : Buffer} {responses : List Response}
    {out : Bytes}, responseFraming.Written responses out → input.readableView <+: out →
    input.readableBytes ≤ fuel →
    ∃ read input', decodeResponsesLoop fuel input = .ok (read, input')
      ∧ responseFraming.Reads input.readableView read input'.readableView
      ∧ responseFraming.next input'.readableView = .incomplete := by
  induction fuel with
  | zero =>
    intro input responses out _ _ hfuel
    have hnil : input.readableView = [] := by
      rw [← List.length_eq_zero_iff, Buffer.length_readableView]
      omega
    refine ⟨[], input, rfl, .nil _, ?_⟩
    rw [hnil]
    rfl
  | succ fuel ih =>
    intro input responses out hwritten hpre hfuel
    rw [decodeResponsesLoop]
    by_cases hempty : input.empty = true
    · rw [if_pos hempty]
      refine ⟨[], input, rfl, .nil _, ?_⟩
      rw [input.empty_iff.mp hempty]
      rfl
    rw [if_neg hempty]
    have hfollows := decodeResponse_follows input ⟨0, .ok, []⟩ .none
    cases hnext : responseFraming.next input.readableView with
    | incomplete =>
      rw [hnext] at hfollows
      rw [hfollows]
      exact ⟨[], input, rfl, .nil _, hnext⟩
    | invalid error =>
      -- a beginning of what was written is never malformed
      exact absurd hnext (hwritten.next_ne_invalid (by decide) hpre error)
    | complete response rest =>
      rw [hnext] at hfollows
      obtain ⟨input₁, hdecode, hview⟩ := hfollows
      obtain ⟨others, zs, -, hothers, hrest⟩ := Framing.Written.reads_of_prefix (by decide)
        (Framing.Reads.cons hnext (.nil _)) hwritten hpre
      have hlength := Framing.length_rest_of_complete hnext
      have hheader : responseFraming.headerSize = 20 := rfl
      have hfuel₁ : input₁.readableBytes ≤ fuel := by
        rw [← Buffer.length_readableView, hview]
        rw [Buffer.length_readableView] at hlength
        omega
      obtain ⟨read, input', hloop, hreads, hleft⟩ := ih hothers (hview ▸ hrest) hfuel₁
      refine ⟨response :: read, input', ?_, .cons hnext (hview ▸ hreads), hleft⟩
      rw [hdecode]
      simp only [Except.ok_bind_eq, hloop]

end Protocol

/-! ## What is owed for more

What is owed for a longer stream begins with what is owed for a shorter one. This is why a
connection that has been closed in the meantime has still sent nothing wrong. -/

section

variable {n : ℕ} {hash : Bytes → UInt64}

theorem dialogue_total (hash : Bytes → UInt64) (bytes : Bytes) :
    ∀ {engine : SharedEngine n}, engine.Sound →
    ∃ out engine', dialogue hash engine bytes = .ok (out, engine') ∧ engine'.Sound := by
  induction bytes using frames_induction with
  | incomplete bytes hframe =>
    intro engine h
    exact ⟨[], engine, dialogue_of_incomplete hframe, h⟩
  | invalid bytes error hframe =>
    intro engine h
    obtain ⟨-, -, hmessage⟩ := error_of_invalid hframe
    obtain ⟨frame, hencode⟩ : ∃ frame, encodeResponse (protocolErrorResponse error) = .ok frame :=
      encodeResponse_of_le rfl (hmessage.trans (by decide))
    exact ⟨frame, engine, dialogue_of_invalid hframe hencode, h⟩
  | complete bytes request rest hframe ih =>
    intro engine h
    obtain ⟨response, engine₁, frame, hrespond, h₁, -, hencode⟩ := h.respond hash request
    obtain ⟨out, engine', hrest, h'⟩ := ih h₁
    exact ⟨frame ++ out, engine', dialogue_of_complete hframe hrespond hencode hrest, h'⟩

/-- What is owed stays owed. -/
theorem dialogue_extend {engine engine' : SharedEngine n} (h : engine.Sound) {bytes out : Bytes}
    (hdialogue : dialogue hash engine bytes = .ok (out, engine')) (more : Bytes) :
    ∃ out' engine'', dialogue hash engine (bytes ++ more) = .ok (out', engine'')
      ∧ out <+: out' := by
  obtain ⟨out₁, engine₁, htotal, h₁⟩ := dialogue_total hash bytes h
  obtain ⟨rfl, rfl⟩ := Except.ok_unique htotal hdialogue
  cases herror : (contents bytes).error with
  | none =>
    obtain ⟨out', engine'', hmore, -⟩ := dialogue_total hash ((contents bytes).rest ++ more) h₁
    exact ⟨out₁ ++ out', engine'', dialogue_append herror hdialogue hmore, List.prefix_append _ _⟩
  | some error =>
    refine ⟨out₁, engine₁, ?_, List.prefix_refl _⟩
    rw [dialogue, contents_append_of_error herror more]
    exact hdialogue

end

/-! ## Nothing else is ever sent

In contrast to the account of the dialogue this one does not end when a connection is closed: it is
about the bytes that have left, and closing sends none. -/

namespace Connection

variable {n : ℕ} {hash : Bytes → UInt64} {start : SharedEngine n} {outputLimit : ℕ}

/-- What was sent is a beginning of what is owed for what was received. -/
def Honest (hash : Bytes → UInt64) (start : SharedEngine n) (c : Connection n) : Prop :=
  ∃ out engine, dialogue hash start c.socket.received = .ok (out, engine) ∧ c.socket.sent <+: out

theorem Settled.honest {c : Connection n} (h : c.Settled hash start) : c.Honest hash start :=
  ⟨_, _, h.owed, List.prefix_append _ _⟩

/-- Only the two ends of the stream matter. -/
theorem Honest.of_socket {c c' : Connection n} (h : c.Honest hash start)
    (hsocket : c'.socket = c.socket) : c'.Honest hash start := by
  unfold Honest
  rw [hsocket]
  exact h

theorem Honest.receive {c c' : Connection n} (hstart : start.Sound) (h : c.Honest hash start)
    {more : Bytes} (hreceived : c'.socket.received = c.socket.received ++ more)
    (hsent : c'.socket.sent = c.socket.sent) : c'.Honest hash start := by
  obtain ⟨out, engine, hdialogue, hpre⟩ := h
  obtain ⟨out', engine', hmore, hextends⟩ := dialogue_extend hstart hdialogue more
  refine ⟨out', engine', ?_, ?_⟩
  · rw [hreceived]
    exact hmore
  · rw [hsent]
    exact hpre.trans hextends

theorem queueResponse_socket {c : Connection n} {response : Response} {r : Bool × Connection n}
    (h : c.queueResponse response = .ok r) : r.2.socket = c.socket := by
  unfold queueResponse at h
  split at h
  · cases h
  dsimp only at h
  split at h
  · cases h
    rfl
  · obtain ⟨output, -, hok⟩ := Except.bind_eq_ok_iff.mp h
    cases hok
    rfl

/-- Processing touches the socket in no way. -/
theorem processLoop_socket (fuel : ℕ) : ∀ {c : Connection n} {r : Bool × Connection n},
    processLoop hash fuel c = .ok r → r.2.socket = c.socket := by
  induction fuel with
  | zero =>
    intro c r h
    cases h
    rfl
  | succ fuel ih =>
    intro c r h
    rw [processLoop] at h
    split at h
    · cases h
      rfl
    obtain ⟨decoded, -, h⟩ := Except.bind_eq_ok_iff.mp h
    cases hresult : decoded.result with
    | incomplete =>
      rw [hresult] at h
      cases h
      rfl
    | error =>
      rw [hresult] at h
      obtain ⟨⟨queued, c'⟩, hqueue, h⟩ := Except.bind_eq_ok_iff.mp h
      have hsocket := queueResponse_socket hqueue
      dsimp only at h
      split at h
      · cases h
        exact hsocket
      · cases h
        exact hsocket
    | complete =>
      rw [hresult] at h
      obtain ⟨⟨executed, c'⟩, hexecute, h⟩ := Except.bind_eq_ok_iff.mp h
      obtain ⟨⟨response, engine⟩, -, hqueue⟩ := Except.bind_eq_ok_iff.mp hexecute
      have hsocket := queueResponse_socket hqueue
      dsimp only at h
      split at h
      · exact (ih h).trans hsocket
      · cases h
        exact hsocket

theorem notePeerClosed_socket (c : Connection n) : c.notePeerClosed.socket = c.socket := by
  unfold notePeerClosed
  dsimp only
  split <;> rfl

theorem finishWriting_socket (c : Connection n) : c.finishWriting.socket = c.socket := by
  unfold finishWriting
  split <;> rfl

theorem Honest.readLoop (hstart : start.Sound) (results : List RecvResult) :
    ∀ {c c' : Connection n}, c.Honest hash start → readLoop hash results c = .ok c' →
    c'.Honest hash start := by
  induction results with
  | nil =>
    intro c c' h hloop
    cases hloop
    exact h
  | cons result results ih =>
    intro c c' h hloop
    unfold Connection.readLoop at hloop
    split at hloop
    · cases hloop
      exact h
    cases result with
    | received bytes hpos hle =>
      have hreceived : Honest hash start
          { c with socket.received := c.socket.received ++ bytes } := h.receive hstart rfl rfl
      obtain ⟨room, -, hloop⟩ := Except.bind_eq_ok_iff.mp hloop
      split at hloop
      · cases hloop
        exact hreceived.of_socket rfl
      obtain ⟨input, -, hloop⟩ := Except.bind_eq_ok_iff.mp hloop
      obtain ⟨⟨processed, c₁⟩, hprocess, hloop⟩ := Except.bind_eq_ok_iff.mp hloop
      -- processing sends nothing
      have h₁ : c₁.Honest hash start := hreceived.of_socket (processLoop_socket _ hprocess)
      dsimp only at hloop
      split at hloop
      · exact ih h₁ hloop
      · cases hloop
        exact h₁
    | closed =>
      cases hloop
      exact h.of_socket c.notePeerClosed_socket
    | interrupted => exact ih h hloop
    | wouldBlock =>
      cases hloop
      exact h
    | failed =>
      cases hloop
      exact h.of_socket rfl

theorem Accountable.sent {c : Connection n} (h : c.Accountable hash start outputLimit) {count : ℕ}
    {output : Buffer} (hcount : count ≤ c.output.readableBytes)
    (hretrieve : c.output.retrieve count = .ok output) :
    Accountable hash start outputLimit { c with
      socket.sent := c.socket.sent ++ c.output.readableView.take count
      output := output } := by
  obtain ⟨output', hretrieve', hview, -⟩ := Buffer.retrieve_eq hcount
  rw [hretrieve, Except.ok.injEq] at hretrieve'
  subst hretrieve'
  refine ⟨h.outputLimit_eq, fun hkept ↦ ?_⟩
  have hsettled := h.settled hkept
  refine ⟨?_, hsettled.input, hsettled.closeAfterWrite, hsettled.sound,
    hsettled.closeImmediately⟩
  show dialogue hash start c.socket.received
    = .ok (c.socket.sent ++ c.output.readableView.take count ++ output.readableView, c.engine)
  rw [hview, List.append_assoc, List.take_append_drop]
  exact hsettled.owed

/-- `handle_writable`: what it sends comes from the output of an open connection, which owes it. -/
theorem Honest.handleWritable (results : List SendResult) : ∀ {c : Connection n}
    {r : Bool × Connection n}, c.Accountable hash start outputLimit → c.Honest hash start →
    c.handleWritable results = .ok r → r.2.Honest hash start := by
  induction results with
  | nil =>
    intro c r _ h hloop
    rw [Connection.handleWritable] at hloop
    split at hloop
    · cases hloop
      exact h.of_socket c.finishWriting_socket
    · cases hloop
      exact h
  | cons result results ih =>
    intro c r ha h hloop
    unfold Connection.handleWritable at hloop
    split at hloop
    · cases hloop
      exact h.of_socket c.finishWriting_socket
    rename_i hgo
    cases result with
    | accepted count hpos =>
      obtain ⟨output, hretrieve, hloop⟩ := Except.bind_eq_ok_iff.mp hloop
      have ha₁ := ha.sent (min_le_right count c.output.readableBytes) hretrieve
      have hnone : c.closeImmediately = none := by
        rw [closeImmediately_eq_none]
        rw [Bool.or_eq_true, not_or, Bool.not_eq_true, Bool.not_eq_true] at hgo
        exact hgo.2
      have hsettled := ha₁.settled (by simp [Lost, hnone])
      exact ih ha₁ hsettled.honest hloop
    | interrupted => exact ih ha h hloop
    | wouldBlock =>
      cases hloop
      exact h
    | failed =>
      cases hloop
      exact h.of_socket rfl

/-! ## Connections that are closed for their output

The other half: a connection is closed for its output only when more is owed than it may queue. The
condition is on the stream and not on the connection. -/

/-- More is owed than what was sent and the limit together. -/
def Overdue (hash : Bytes → UInt64) (start : SharedEngine n) (outputLimit : ℕ) (c : Connection n) :
    Prop :=
  ∃ out engine, dialogue hash start c.socket.received = .ok (out, engine)
    ∧ c.socket.sent.length + outputLimit < out.length

/-- A response that is not queued was too long. -/
private theorem length_of_queueResponse {c c' : Connection n} {response : Response} {frame : Bytes}
    {queued : Bool} (hencode : encodeResponse response = .ok frame)
    (h : c.queueResponse response = .ok (queued, c')) :
    (queued = false ∧ c.outputLimit < c.output.readableBytes + frame.length)
      ∨ (queued = true ∧ c'.closeImmediately = c.closeImmediately) := by
  unfold queueResponse at h
  rw [hencode] at h
  dsimp only at h
  split at h
  · rename_i hlong
    obtain ⟨rfl, -⟩ := Prod.mk.inj (Except.ok.inj h)
    exact Or.inl ⟨rfl, by omega⟩
  · obtain ⟨output, -, hok⟩ := Except.bind_eq_ok_iff.mp h
    obtain ⟨rfl, rfl⟩ := Prod.mk.inj (Except.ok.inj hok)
    exact Or.inr ⟨rfl, rfl⟩

/-- **Processing closes a connection only where the input is owed more than there is room for.** -/
theorem processLoop_overdue (fuel : ℕ) : ∀ {c : Connection n} {r : Bool × Connection n}, c.Open →
    processLoop hash fuel c = .ok r → r.2.closeImmediately ≠ none →
    ∃ out engine, dialogue hash c.engine c.input.readableView = .ok (out, engine)
      ∧ c.outputLimit < c.output.readableBytes + out.length := by
  induction fuel with
  | zero =>
    intro c r hopen h hclosed
    cases h
    exact absurd hopen.closeImmediately hclosed
  | succ fuel ih =>
    intro c r hopen h hclosed
    rw [processLoop] at h
    split at h
    · cases h
      exact absurd hopen.closeImmediately hclosed
    have hdecode := decodeRequest_spec c.input ⟨.get, 0, [], [], 0⟩ .none
    cases hframe : nextFrame c.input.readableView with
    | incomplete =>
      rw [hframe] at hdecode
      rw [hdecode] at h
      cases h
      exact absurd hopen.closeImmediately hclosed
    | invalid error =>
      rw [hframe] at hdecode
      rw [hdecode, Except.ok_bind_eq] at h
      obtain ⟨hid, -, hmessage⟩ := error_of_invalid hframe
      have hresponse : errorResponse error = protocolErrorResponse error := by
        rw [errorResponse, hid]
        rfl
      obtain ⟨frame, hencode⟩ : ∃ frame, encodeResponse (protocolErrorResponse error) = .ok frame :=
        encodeResponse_of_le rfl (hmessage.trans (by decide))
      obtain ⟨⟨queued, c'⟩, hqueue, h⟩ := Except.bind_eq_ok_iff.mp h
      rw [hresponse] at hqueue
      rcases length_of_queueResponse hencode hqueue with ⟨-, hlong⟩ | ⟨rfl, hsame⟩
      · exact ⟨frame, c.engine, dialogue_of_invalid hframe hencode, hlong⟩
      · cases h
        exact absurd (hsame.trans hopen.closeImmediately) hclosed
    | complete request rest =>
      rw [hframe] at hdecode
      obtain ⟨input, hdecode, hview⟩ := hdecode
      rw [hdecode, Except.ok_bind_eq] at h
      obtain ⟨response, engine, frame, hrespond, hsound, -, hencode⟩ :=
        hopen.sound.respond hash request
      obtain ⟨⟨executed, c'⟩, hexecute, h⟩ := Except.bind_eq_ok_iff.mp h
      obtain ⟨⟨response', engine'⟩, hrespond', hqueue⟩ := Except.bind_eq_ok_iff.mp hexecute
      obtain ⟨rfl, rfl⟩ := Except.ok_unique hrespond hrespond'
      dsimp only at hqueue
      have hqueued := queueResponse_ensures { c with input := input, engine := engine } hencode
      rw [hqueue] at hqueued
      rcases length_of_queueResponse hencode hqueue with ⟨-, hlong⟩ | ⟨rfl, hsame⟩
      · obtain ⟨out, engine', hrest, -⟩ := dialogue_total hash rest hsound
        refine ⟨frame ++ out, engine', dialogue_of_complete hframe hrespond hencode hrest, ?_⟩
        dsimp only at hlong
        rw [List.length_append]
        omega
      · rcases hqueued with hfalse | ⟨output, hr, hout⟩
        · cases hfalse
        obtain ⟨-, rfl⟩ := Prod.mk.inj hr
        have hopen' : Open ({ c with input := input, engine := engine, output := output }) :=
          ⟨hsound, hopen.closeAfterWrite, hopen.closeImmediately⟩
        obtain ⟨out, engine', hrest, hlong⟩ := ih hopen' h hclosed
        dsimp only at hrest hlong
        rw [hview] at hrest
        refine ⟨frame ++ out, engine', dialogue_of_complete hframe hrespond hencode hrest, ?_⟩
        have hlength := congrArg List.length hout
        rw [List.length_append, Buffer.length_readableView, Buffer.length_readableView] at hlength
        rw [List.length_append]
        dsimp only at hlength
        omega

/-- The output limit has closed the connection only where more is owed. -/
def Limited (hash : Bytes → UInt64) (start : SharedEngine n) (outputLimit : ℕ) (c : Connection n) :
    Prop :=
  c.closeImmediately = some .outputLimit → c.Overdue hash start outputLimit

theorem Limited.close {c c' : Connection n} (h : c.Limited hash start outputLimit)
    {reason : CloseReason} (hreason : reason ≠ .outputLimit) (hsocket : c'.socket = c.socket)
    (hclose : c'.closeImmediately = (c.closeImmediately <|> some reason)) :
    c'.Limited hash start outputLimit := by
  intro hlimit
  unfold Overdue
  rw [hsocket]
  refine h ?_
  rw [hclose] at hlimit
  cases hclosed : c.closeImmediately with
  | none =>
    rw [hclosed] at hlimit
    exact absurd (Option.some.inj hlimit) hreason
  | some reason' =>
    rw [hclosed] at hlimit
    exact hlimit

theorem Limited.notePeerClosed {c : Connection n} (h : c.Limited hash start outputLimit) :
    c.notePeerClosed.Limited hash start outputLimit := by
  unfold Connection.notePeerClosed
  dsimp only
  split
  · exact h.close (by rintro ⟨⟩) rfl rfl
  · exact h

theorem Limited.finishWriting {c : Connection n} (h : c.Limited hash start outputLimit) :
    c.finishWriting.Limited hash start outputLimit := by
  unfold Connection.finishWriting
  split
  · exact h.close (by rintro ⟨⟩) rfl rfl
  · exact h

theorem Accountable.overdue {c : Connection n} (h : c.Accountable hash start outputLimit)
    (hopen : c.closeAfterWrite = false) (hnone : c.closeImmediately = none) {bytes : Bytes}
    {input : Buffer} (hview : input.readableView = c.input.readableView ++ bytes)
    {r : Bool × Connection n} (hprocess : processInput hash { c with
      socket.received := c.socket.received ++ bytes
      input := input } = .ok r) :
    r.2.Limited hash start outputLimit := by
  intro hlimit
  have hsettled := h.settled (by simp [Lost, hnone])
  obtain ⟨herror, -⟩ := h.readableBytes_lt hopen hnone
  have hready : Open { c with
      socket.received := c.socket.received ++ bytes
      input := input } := ⟨hsettled.sound, hopen, hnone⟩
  obtain ⟨out, engine, hdialogue, hlong⟩ :=
    processLoop_overdue _ hready hprocess (by rw [hlimit]; rintro ⟨⟩)
  have hsocket := processLoop_socket _ hprocess
  dsimp only at hdialogue hlong hsocket
  rw [hview, hsettled.input] at hdialogue
  refine ⟨c.socket.sent ++ c.output.readableView ++ out, engine, ?_, ?_⟩
  · rw [hsocket]
    exact dialogue_append herror hsettled.owed hdialogue
  · rw [hsocket, ← h.outputLimit_eq, List.length_append, List.length_append,
      Buffer.length_readableView]
    show c.socket.sent.length + c.outputLimit < _
    omega

theorem Limited.readLoop (results : List RecvResult) : ∀ {c c' : Connection n},
    c.Accountable hash start outputLimit → c.Limited hash start outputLimit →
    readLoop hash results c = .ok c' → c'.Limited hash start outputLimit := by
  induction results with
  | nil =>
    intro c c' _ h hloop
    cases hloop
    exact h
  | cons result results ih =>
    intro c c' ha h hloop
    unfold Connection.readLoop at hloop
    split at hloop
    · cases hloop
      exact h
    rename_i hgo
    rw [Bool.or_eq_true, not_or, Bool.not_eq_true, Bool.not_eq_true] at hgo
    obtain ⟨hopen, hclosed⟩ := hgo
    have hnone := closeImmediately_eq_none.mpr hclosed
    cases result with
    | received bytes hpos hle =>
      obtain ⟨input, hsub, hroom, happend, hensures⟩ := ha.receive hopen hnone hle
      have hview := c.input.append_ensures bytes
      dsimp only at hloop
      rw [hsub, Except.ok_bind_eq, if_neg (Nat.not_lt.mpr hroom), happend,
        Except.ok_bind_eq] at hloop
      rw [happend] at hview
      obtain ⟨⟨processed, c₁⟩, hprocess, hloop⟩ := Except.bind_eq_ok_iff.mp hloop
      have h₁ := ha.overdue hopen hnone hview hprocess
      rw [hprocess] at hensures
      dsimp only at hloop
      split at hloop
      · exact ih hensures h₁ hloop
      · cases hloop
        exact h₁
    | closed =>
      cases hloop
      exact h.notePeerClosed
    | interrupted => exact ih ha h hloop
    | wouldBlock =>
      cases hloop
      exact h
    | failed =>
      cases hloop
      exact h.close (by rintro ⟨⟩) rfl rfl

theorem Limited.handleWritable (results : List SendResult) : ∀ {c : Connection n}
    {r : Bool × Connection n}, c.Limited hash start outputLimit →
    c.handleWritable results = .ok r → r.2.Limited hash start outputLimit := by
  induction results with
  | nil =>
    intro c r h hloop
    rw [Connection.handleWritable] at hloop
    split at hloop
    · cases hloop
      exact h.finishWriting
    · cases hloop
      exact h
  | cons result results ih =>
    intro c r h hloop
    unfold Connection.handleWritable at hloop
    split at hloop
    · cases hloop
      exact h.finishWriting
    rename_i hgo
    rw [Bool.or_eq_true, not_or, Bool.not_eq_true, Bool.not_eq_true] at hgo
    have hnone := closeImmediately_eq_none.mpr hgo.2
    cases result with
    | accepted count hpos =>
      obtain ⟨output, -, hloop⟩ := Except.bind_eq_ok_iff.mp hloop
      refine ih (fun hlimit ↦ ?_) hloop
      rw [show _ = c.closeImmediately from rfl, hnone] at hlimit
      cases hlimit
    | interrupted => exact ih h hloop
    | wouldBlock =>
      cases hloop
      exact h
    | failed =>
      cases hloop
      exact h.close (by rintro ⟨⟩) rfl rfl

/-! ## Both, in every run -/

/-- What holds of a connection however it may have ended. -/
structure Upright (hash : Bytes → UInt64) (start : SharedEngine n) (outputLimit : ℕ)
    (c : Connection n) : Prop where
  accountable : c.Accountable hash start outputLimit
  honest : c.Honest hash start
  limited : c.Limited hash start outputLimit

theorem upright_new (h : start.Sound) :
    (new start outputLimit).Upright hash start outputLimit where
  accountable := accountable_new h
  honest := ((accountable_new h).settled (by simp [Lost, new])).honest
  limited := by rintro ⟨⟩

theorem Upright.step (hstart : start.Sound) {c : Connection n}
    (h : c.Upright hash start outputLimit) (event : Event) :
    (c.step hash event).Ensures (fun r ↦ r.2.Upright hash start outputLimit)
      (Overgrown outputLimit) := by
  have haccountable := h.accountable.step event
  cases hresult : c.step hash event with
  | error fault =>
    rw [hresult] at haccountable
    exact haccountable
  | ok r =>
    rw [hresult] at haccountable
    cases event with
    | readable results =>
      obtain ⟨c', hloop, hok⟩ := Except.bind_eq_ok_iff.mp hresult
      cases hok
      exact ⟨haccountable, h.honest.readLoop hstart results hloop,
        h.limited.readLoop results h.accountable hloop⟩
    | writable results =>
      exact ⟨haccountable, h.honest.handleWritable results h.accountable hresult,
        h.limited.handleWritable results hresult⟩
    | peerClosed =>
      cases hresult
      exact ⟨haccountable, h.honest.of_socket c.notePeerClosed_socket, h.limited.notePeerClosed⟩

theorem run_upright (hash : Bytes → UInt64) {capacity : ℕ} (hcapacity : capacity < Checked.wordSize)
    (outputLimit : ℕ) {e₀ e : CacheEngine n} (hnew : CacheEngine.new capacity n = .ok e₀)
    (hreach : Transition.Reachable (CacheEngine.call hash) e₀ e) (upcoming : ℕ → Surroundings n)
    (events : List Event) :
    (⟨e, upcoming⟩ : SharedEngine n).Sound
      ∧ (Transition.run (Connection.step hash) (new ⟨e, upcoming⟩ outputLimit) events).Ensures
        (fun r ↦ r.2.Upright hash ⟨e, upcoming⟩ outputLimit) (Overgrown outputLimit) := by
  have hsound : (⟨e, upcoming⟩ : SharedEngine n).Sound :=
    hreach.invariant (CacheEngine.Sound.call hash) ⟨_, CacheEngine.simulates_new hcapacity hnew⟩
  exact ⟨hsound, Transition.run_ensures (fun c event h ↦ h.step hsound event) events
    (upright_new hsound)⟩

theorem Honest.exchange {c : Connection n} (h : c.Honest hash start)
    {requests : List Request} {frames : List Bytes}
    (hframes : requests.map encodeRequest = frames.map .ok)
    (hreceived : c.socket.received <+: frames.flatten) :
    ∃ executed responses engine out, executed <+: requests
      ∧ Transition.run (SharedEngine.respond hash) start executed = .ok (responses, engine)
      ∧ responses.map Response.requestId = executed.map Request.requestId
      ∧ responseFraming.Written responses out ∧ c.socket.sent <+: out := by
  obtain ⟨out, engine, hdialogue, hsent⟩ := h
  obtain ⟨herror, hpre⟩ := contents_of_prefix (written_requests hframes) hreceived
  obtain ⟨responses, hrun, hencode⟩ := dialogue_eq_ok_iff.mp hdialogue
  rw [herror, Option.toList_none, List.map_nil, List.append_nil] at hencode
  exact ⟨_, responses, engine, out, hpre, hrun, respond_ids _ hrun,
    written_responses hencode, hsent⟩

/-- **A client reads the responses to its requests, in their order, and nothing else.** The server
has received a beginning of the encoded requests of a client, and a beginning of what it has sent
has reached the client. Whatever happened on the way, and however the connection may have been
closed: what the client decodes are responses that executing some of its first requests gives, one
for each and in their order, with the ids of the requests; and nothing it gets is malformed. -/
theorem run_exchange (hash : Bytes → UInt64) (capacity outputLimit : UInt64) {e₀ e : CacheEngine n}
    (hnew : CacheEngine.new capacity.toNat n = .ok e₀)
    (hreach : Transition.Reachable (CacheEngine.call hash) e₀ e) (upcoming : ℕ → Surroundings n)
    (events : List Event) {kept : List Bool} {c : Connection n}
    (hrun : Transition.run (step hash) (new ⟨e, upcoming⟩ outputLimit.toNat) events
      = .ok (kept, c))
    {requests : List Request} {frames : List Bytes}
    (hframes : requests.map encodeRequest = frames.map .ok)
    (hreceived : c.socket.received <+: frames.flatten) {input : Buffer}
    (hinput : input.readableView <+: c.socket.sent) :
    ∃ executed responses engine read input', executed <+: requests
      ∧ Transition.run (SharedEngine.respond hash) ⟨e, upcoming⟩ executed
        = .ok (responses, engine)
      ∧ responses.map Response.requestId = executed.map Request.requestId
      ∧ decodeResponses input = .ok (read, input') ∧ read <+: responses := by
  obtain ⟨hsound, hensures⟩ :=
    run_upright hash capacity.toNat_lt outputLimit.toNat hnew hreach upcoming events
  rw [hrun] at hensures
  obtain ⟨executed, responses, engine, out, hexecuted, hrespond, hids, hwritten, hsent⟩ :=
    hensures.honest.exchange hframes hreceived
  have hpre := hinput.trans hsent
  obtain ⟨read, input', hdecode, hreads, -⟩ :=
    decodeResponsesLoop_reads _ hwritten hpre (le_refl _)
  obtain ⟨others, -, rfl, -, -⟩ :=
    Framing.Written.reads_of_prefix (by decide) hreads hwritten hpre
  exact ⟨executed, _, engine, read, input', hexecuted, hrespond, hids, hdecode,
    List.prefix_append _ _⟩

/-- A DELETE of the key `107`. -/
private def deleteRequest (requestId : UInt64) : Request := ⟨.erase, requestId, [107], [], 0⟩

/-- A DELETE whose answer is sent, and two more at once. -/
private def threeDeletes : List Event :=
  [.readable [.ofBytes (requestFrame 3 9 [])], .writable [.ofCount 20],
    .readable [.ofBytes (requestFrame 3 10 [] ++ requestFrame 3 11 [])]]

/-- The answer to the third exceeds the limit, and the answer to the first is read. -/
theorem run_exchange_limited :
    ∃ kept c, Transition.run (step fun _ ↦ 0) (new .quiet (20 : UInt64).toNat) threeDeletes
        = .ok (kept, c)
      ∧ c.closeImmediately = some .outputLimit
      ∧ ∃ executed responses engine read input',
        executed <+: [deleteRequest 9, deleteRequest 10, deleteRequest 11]
        ∧ Transition.run (SharedEngine.respond fun _ ↦ 0) .quiet executed
          = .ok (responses, engine)
        ∧ responses.map Response.requestId = executed.map Request.requestId
        ∧ decodeResponses ⟨responseFrame 1 9 [], 64, 0, Nat.zero_le _, Nat.le_of_ble_eq_true rfl⟩
          = .ok (read, input')
        ∧ read <+: responses := by
  have hstate : (Transition.run (step fun _ ↦ 0) (new .quiet (20 : UInt64).toNat)
      threeDeletes).toOption.map (fun r ↦ (r.2.closeImmediately, r.2.socket.received,
        r.2.socket.sent))
      = some (some .outputLimit,
        [requestFrame 3 9 [], requestFrame 3 10 [], requestFrame 3 11 []].flatten,
        responseFrame 1 9 []) := by decide +kernel
  cases hresult : Transition.run (step fun _ ↦ 0) (new .quiet (20 : UInt64).toNat)
      threeDeletes with
  | error fault =>
    rw [hresult] at hstate
    cases hstate
  | ok r =>
    rw [hresult] at hstate
    obtain ⟨hclosed, hrest⟩ := Prod.mk.inj (Option.some.inj hstate)
    obtain ⟨hreceived, hsent⟩ := Prod.mk.inj hrest
    have hframes : [deleteRequest 9, deleteRequest 10, deleteRequest 11].map encodeRequest
        = [requestFrame 3 9 [], requestFrame 3 10 [], requestFrame 3 11 []].map .ok := rfl
    refine ⟨r.1, r.2, rfl, hclosed, ?_⟩
    refine run_exchange (fun _ ↦ 0) 100 20 SharedEngine.new_quiet (.refl _ _)
      SharedEngine.quiet.upcoming threeDeletes hresult hframes ?_ ?_
    · rw [hreceived]
    · rw [hsent]
      exact List.prefix_refl _

/-- **The output limit closes a connection only where it has to.** A connection that was closed for
its output owes more bytes for what it has received, beyond those it has sent, than the limit
allows. A client that never lets so much come together is never disconnected for it. -/
theorem run_overdue (hash : Bytes → UInt64) (capacity outputLimit : UInt64) {e₀ e : CacheEngine n}
    (hnew : CacheEngine.new capacity.toNat n = .ok e₀)
    (hreach : Transition.Reachable (CacheEngine.call hash) e₀ e) (upcoming : ℕ → Surroundings n)
    (events : List Event) {kept : List Bool} {c : Connection n}
    (hrun : Transition.run (step hash) (new ⟨e, upcoming⟩ outputLimit.toNat) events
      = .ok (kept, c)) (hclosed : c.closeImmediately = some .outputLimit) :
    ∃ out engine, dialogue hash ⟨e, upcoming⟩ c.socket.received = .ok (out, engine)
      ∧ c.socket.sent <+: out ∧ c.socket.sent.length + outputLimit.toNat < out.length := by
  obtain ⟨-, hensures⟩ :=
    run_upright hash capacity.toNat_lt outputLimit.toNat hnew hreach upcoming events
  rw [hrun] at hensures
  obtain ⟨out, engine, hdialogue, hsent⟩ := hensures.honest
  obtain ⟨out', engine', hdialogue', hlong⟩ := hensures.limited hclosed
  obtain ⟨rfl, rfl⟩ := Except.ok_unique hdialogue hdialogue'
  exact ⟨out, engine, hdialogue, hsent, hlong⟩

/-- Three answers are owed, the first is sent, and the limit is one. -/
theorem run_overdue_three :
    ∃ kept c, Transition.run (step fun _ ↦ 0) (new .quiet (20 : UInt64).toNat) threeDeletes
        = .ok (kept, c)
      ∧ ∃ out engine, dialogue (fun _ ↦ 0) .quiet c.socket.received = .ok (out, engine)
        ∧ c.socket.sent <+: out ∧ c.socket.sent.length + (20 : UInt64).toNat < out.length := by
  have hstate : (Transition.run (step fun _ ↦ 0) (new .quiet (20 : UInt64).toNat)
      threeDeletes).toOption.map (fun r ↦ r.2.closeImmediately) = some (some .outputLimit) := by
    decide +kernel
  cases hresult : Transition.run (step fun _ ↦ 0) (new .quiet (20 : UInt64).toNat)
      threeDeletes with
  | error fault =>
    rw [hresult] at hstate
    cases hstate
  | ok r =>
    rw [hresult] at hstate
    exact ⟨r.1, r.2, rfl, run_overdue (fun _ ↦ 0) 100 20 SharedEngine.new_quiet (.refl _ _)
      SharedEngine.quiet.upcoming threeDeletes hresult (Option.some.inj hstate)⟩

end Connection

end HighCache
