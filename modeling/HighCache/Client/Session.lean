import HighCache.Client.Command
import HighCache.Net.Exchange

/-!
# A command and the server

The client of `client/main.cpp` on one end of a stream and a connection of the server on the other.
A run is any sequence of answers of the kernel to the client and of events of the connection; of the
network it is assumed that each end receives a beginning of what the other has sent (`Delivers`).
Either end may see errors, and others use the engine meanwhile.

What the client prints is then the answer of the engine to the request that was made of its
arguments (`run_answered`), whatever pieces anything arrived in, and it is printed as soon as
nothing is on its way any more.
-/

namespace HighCache

open Protocol

namespace Command

/-! ## The client alone

What can be said without the server: the client sends its frame from the front and nothing else, and
prints what the first response it has received says, or fails with a text of its own. -/

namespace Client

/-- Where a client is with its request. -/
inductive Progress (frame : Bytes) (c : Client) : Prop where
  | sending {sent : ℕ} (hphase : c.phase = .sending sent) (hlt : sent < frame.length)
      (hsent : c.socket.sent = frame.take sent) (hreceived : c.socket.received = [])
  | reading {input : Buffer} (hphase : c.phase = .reading input) (hsent : c.socket.sent = frame)
      (hview : input.readableView = c.socket.received)
      (hnext : responseFraming.next c.socket.received = .incomplete)
  | answered {response : Response} {rest : Bytes} (hphase : c.phase = .exited (printed response))
      (hnext : responseFraming.next c.socket.received = .complete response rest)
  | refused {error : ProtocolError}
      (hphase : c.phase = .exited (failed ("invalid response: " ++ error.message)))
      (hnext : responseFraming.next c.socket.received = .invalid error)
  | cut {what : String} (hphase : c.phase = .exited (failed what))
      (hwhat : what = "send failed" ∨ what = "connection closed before response")

/-- A client that has something to send or has sent it. -/
structure Follows (frame : Bytes) (c : Client) : Prop where
  frame_eq : c.frame = frame
  sent : c.socket.sent <+: frame
  progress : c.Progress frame

variable {frame : Bytes} {c : Client}

theorem Follows.readResponse (hframe : c.frame = frame) (hsent : c.socket.sent = frame)
    {input : Buffer} (hview : input.readableView = c.socket.received) :
    ∃ phase, readResponse input = .ok phase ∧ Follows frame { c with phase := phase } := by
  have hfollows := decodeResponse_follows input ⟨0, .ok, []⟩ .none
  have hprefix : c.socket.sent <+: frame := hsent ▸ List.prefix_refl _
  unfold Client.readResponse
  cases hnext : responseFraming.next input.readableView with
  | incomplete =>
    rw [hnext] at hfollows
    rw [hfollows]
    rw [hview] at hnext
    exact ⟨.reading input, rfl, hframe, hprefix, .reading rfl hsent hview hnext⟩
  | invalid error =>
    rw [hnext] at hfollows
    rw [hfollows]
    rw [hview] at hnext
    exact ⟨_, rfl, hframe, hprefix, .refused rfl hnext⟩
  | complete response rest =>
    rw [hnext] at hfollows
    obtain ⟨input', hdecode, -⟩ := hfollows
    rw [hdecode]
    rw [hview] at hnext
    exact ⟨_, rfl, hframe, hprefix, .answered rfl hnext⟩

theorem Follows.sendAll (hframe : c.frame = frame) {sent : ℕ}
    (hsent : c.socket.sent = frame.take sent) (hreceived : c.socket.received = []) :
    ∃ phase, sendAll frame sent = .ok phase ∧ Follows frame { c with phase := phase } := by
  unfold Client.sendAll
  by_cases hlt : sent < frame.length
  · rw [if_pos hlt]
    exact ⟨_, rfl, hframe, hsent ▸ List.take_prefix _ _, .sending rfl hlt hsent hreceived⟩
  · rw [if_neg hlt]
    rw [List.take_of_length_le (Nat.not_lt.mp hlt)] at hsent
    exact Follows.readResponse hframe hsent (by rw [hreceived]; rfl)

theorem Follows.cut (h : c.Follows frame) {what : String}
    (hwhat : what = "send failed" ∨ what = "connection closed before response") :
    Follows frame { c with phase := .exited (failed what) } :=
  ⟨h.frame_eq, h.sent, .cut rfl hwhat⟩

theorem Follows.handleSend (h : c.Follows frame) (result : SendResult) :
    ∃ c', c.handleSend result = .ok c' ∧ c'.Follows frame := by
  unfold Client.handleSend
  cases h.progress with
  | sending hphase hlt hsent hreceived =>
    rename_i sent
    rw [hphase]
    dsimp only
    cases result with
    | accepted count hpos =>
      rw [h.frame_eq]
      have hsent' : c.socket.sent ++ (frame.drop sent).take (min count (frame.length - sent))
          = frame.take (sent + min count (frame.length - sent)) := by
        rw [hsent, List.take_add]
      obtain ⟨phase, hphase', hfollows⟩ := Follows.sendAll (c := { c with
        socket.sent := c.socket.sent ++ (frame.drop sent).take (min count (frame.length - sent)) })
        h.frame_eq hsent' hreceived
      refine ⟨_, ?_, hfollows⟩
      dsimp only
      rw [hphase', h.frame_eq]
      rfl
    | interrupted => exact ⟨c, rfl, h⟩
    | wouldBlock => exact ⟨_, rfl, h.cut (Or.inl rfl)⟩
    | failed => exact ⟨_, rfl, h.cut (Or.inl rfl)⟩
  | reading hphase _ _ _ =>
    rw [hphase]
    exact ⟨c, rfl, h⟩
  | answered hphase _ =>
    rw [hphase]
    exact ⟨c, rfl, h⟩
  | refused hphase _ =>
    rw [hphase]
    exact ⟨c, rfl, h⟩
  | cut hphase _ =>
    rw [hphase]
    exact ⟨c, rfl, h⟩

theorem Follows.handleRecv (h : c.Follows frame) (result : RecvResult) :
    ∃ c', c.handleRecv result = .ok c' ∧ c'.Follows frame := by
  unfold Client.handleRecv
  cases h.progress with
  | reading hphase hsent hview hnext =>
    rename_i input
    rw [hphase]
    dsimp only
    cases result with
    | received bytes hpos hle =>
      -- an unfinished response leaves room in the buffer
      have hshort := Framing.length_lt_of_next_incomplete (by decide) hnext
      have hmax : responseFraming.maxLength + readChunkSize ≤ 2 ^ 62 := by decide
      have hroom : input.readableBytes + bytes.length ≤ 2 ^ 62 := by
        rw [← Buffer.length_readableView, hview]
        omega
      obtain ⟨input', happend, hview', -⟩ := Buffer.append_eq hroom
      rw [hview] at hview'
      obtain ⟨phase, hphase', hfollows⟩ := Follows.readResponse (c := { c with
        socket.received := c.socket.received ++ bytes }) h.frame_eq hsent hview'
      refine ⟨_, ?_, hfollows⟩
      dsimp only
      rw [happend, Except.ok_bind_eq, hphase']
      rfl
    | interrupted => exact ⟨c, rfl, h⟩
    | closed => exact ⟨_, rfl, h.cut (Or.inr rfl)⟩
    | wouldBlock => exact ⟨_, rfl, h.cut (Or.inr rfl)⟩
    | failed => exact ⟨_, rfl, h.cut (Or.inr rfl)⟩
  | sending hphase _ _ _ =>
    rw [hphase]
    exact ⟨c, rfl, h⟩
  | answered hphase _ =>
    rw [hphase]
    exact ⟨c, rfl, h⟩
  | refused hphase _ =>
    rw [hphase]
    exact ⟨c, rfl, h⟩
  | cut hphase _ =>
    rw [hphase]
    exact ⟨c, rfl, h⟩

private theorem prepare_eq_ok {argv : List Bytes} {connecting : ConnectResult} {frame : Bytes}
    (h : prepare argv connecting = .ok frame) :
    ∃ request, parseRequest argv = .ok request ∧ encodeRequest request = .ok frame := by
  unfold prepare at h
  obtain ⟨port, -, h⟩ := Except.bind_eq_ok_iff.mp h
  obtain ⟨request, hrequest, h⟩ := Except.bind_eq_ok_iff.mp h
  obtain ⟨-, -, h⟩ := Except.bind_eq_ok_iff.mp h
  cases hencode : encodeRequest request with
  | error exception =>
    rw [hencode] at h
    cases h
  | ok frame' =>
    rw [hencode] at h
    cases h
    exact ⟨request, hrequest, hencode⟩

end Client

/-! ## The client and the server

The two ends are run side by side in any order. The network appears only as the condition that a
byte is received no earlier than it was sent, in the order of sending. -/

/-- A client and the connection that the server has accepted from it. -/
structure Session (n : ℕ) where
  client : Client
  connection : Connection n

/-- What can happen next: an answer to a call of the client, or an event of the connection. -/
inductive SessionStep where
  | send (result : SendResult)
  | recv (result : RecvResult)
  | server (event : Connection.Event)

namespace Session

variable {n : ℕ} (hash : Bytes → UInt64)

/-- One step. -/
def step (s : Session n) : SessionStep → Except Fault (Unit × Session n)
  | .send result => do
    let client ← s.client.handleSend result
    .ok ((), { s with client := client })
  | .recv result => do
    let client ← s.client.handleRecv result
    .ok ((), { s with client := client })
  | .server event => do
    let (_, connection) ← s.connection.step hash event
    .ok ((), { s with connection := connection })

/-- Each end has received a beginning of what the other has sent. -/
def Delivers (s : Session n) : Prop :=
  s.connection.socket.received <+: s.client.socket.sent
    ∧ s.client.socket.received <+: s.connection.socket.sent

/-- The network permits a step. -/
def Permitted (s : Session n) (step : SessionStep) : Prop :=
  ∀ u s', s.step hash step = .ok (u, s') → s'.Delivers

/-- Everything has been sent and has arrived. -/
structure Quiet (s : Session n) : Prop where
  sent : ∀ k, s.client.phase ≠ .sending k
  request : s.connection.socket.received = s.client.socket.sent
  output : s.connection.output.empty = true
  response : s.client.socket.received = s.connection.socket.sent

variable {hash} {start : SharedEngine n} {outputLimit : ℕ} {frame : Bytes}

/-! ### What holds of both ends -/

/-- What holds throughout a session with a request. -/
structure Inv (hash : Bytes → UInt64) (start : SharedEngine n) (outputLimit : ℕ) (frame : Bytes)
    (s : Session n) : Prop where
  client : s.client.Follows frame
  connection : s.connection.Upright hash start outputLimit
  delivers : s.Delivers

theorem Inv.step (hstart : start.Sound) (hlimit : outputLimit ≤ 2 ^ 62) {s : Session n}
    (h : s.Inv hash start outputLimit frame) {step : SessionStep}
    (hpermitted : s.Permitted hash step) :
    ∃ u s', s.step hash step = .ok (u, s') ∧ s'.Inv hash start outputLimit frame := by
  cases step with
  | send result =>
    obtain ⟨client, hsend, hclient⟩ := h.client.handleSend result
    have hstep : s.step hash (.send result) = .ok ((), { s with client := client }) := by
      rw [Session.step, hsend]
      rfl
    exact ⟨(), _, hstep, hclient, h.connection, hpermitted _ _ hstep⟩
  | recv result =>
    obtain ⟨client, hrecv, hclient⟩ := h.client.handleRecv result
    have hstep : s.step hash (.recv result) = .ok ((), { s with client := client }) := by
      rw [Session.step, hrecv]
      rfl
    exact ⟨(), _, hstep, hclient, h.connection, hpermitted _ _ hstep⟩
  | server event =>
    have hevent := h.connection.step hstart event
    cases hresult : s.connection.step hash event with
    | error fault =>
      rw [hresult] at hevent
      exact absurd hevent.1 (Nat.not_lt.mpr hlimit)
    | ok r =>
      rw [hresult] at hevent
      have hstep : s.step hash (.server event) = .ok ((), { s with connection := r.2 }) := by
        rw [Session.step, hresult]
        rfl
      exact ⟨(), _, hstep, h.client, hevent, hpermitted _ _ hstep⟩

theorem Inv.exchange {s : Session n} {request : Request}
    (hencode : encodeRequest request = .ok frame) (h : s.Inv hash start outputLimit frame) :
    ∃ executed responses engine out, executed <+: [request]
      ∧ Transition.run (SharedEngine.respond hash) start executed = .ok (responses, engine)
      ∧ responseFraming.Written responses out ∧ s.client.socket.received <+: out := by
  have hframes : [request].map encodeRequest = [frame].map .ok := by
    rw [List.map_singleton, List.map_singleton, hencode]
  have hreceived : s.connection.socket.received <+: [frame].flatten := by
    rw [List.flatten_singleton]
    exact h.delivers.1.trans h.client.sent
  obtain ⟨executed, responses, engine, out, hexecuted, hrun, -, hwritten, hsent⟩ :=
    h.connection.honest.exchange hframes hreceived
  exact ⟨executed, responses, engine, out, hexecuted, hrun, hwritten, h.delivers.2.trans hsent⟩

/-! ### The answer

The server owes the stream it receives one response, and the client has received a beginning of what
was sent. A response that is whole is therefore the one that is owed. -/

/-- **What a client prints is the answer to its request.** -/
theorem Inv.answered {s : Session n} {request : Request}
    (hencode : encodeRequest request = .ok frame) (h : s.Inv hash start outputLimit frame)
    {response : Response} {rest : Bytes}
    (hnext : responseFraming.next s.client.socket.received = .complete response rest) :
    ∃ engine, start.respond hash request = .ok (response, engine) := by
  obtain ⟨executed, responses, engine, out, hexecuted, hrun, hwritten, hreceived⟩ :=
    h.exchange hencode
  obtain ⟨others, -, rfl, -, -⟩ := Framing.Written.reads_of_prefix (by decide)
    (Framing.Reads.cons hnext (.nil _)) hwritten hreceived
  cases executed with
  | nil => cases hrun
  | cons request' executed =>
    obtain ⟨rfl, -⟩ := List.cons_prefix_cons.mp hexecuted
    obtain ⟨response', responses, engine', hrespond, -, hresponses⟩ := Transition.run_cons_ok hrun
    obtain ⟨rfl, -⟩ := List.cons.inj hresponses
    exact ⟨engine', hrespond⟩

private theorem Inv.not_invalid {s : Session n} {request : Request}
    (hencode : encodeRequest request = .ok frame) (h : s.Inv hash start outputLimit frame)
    (error : ProtocolError) :
    responseFraming.next s.client.socket.received ≠ .invalid error := by
  obtain ⟨-, responses, -, out, -, -, hwritten, hreceived⟩ := h.exchange hencode
  exact hwritten.next_ne_invalid (by decide) hreceived error

private theorem dialogue_request (hash : Bytes → UInt64) (hstart : start.Sound) {request : Request}
    (hencode : encodeRequest request = .ok frame) :
    ∃ response engine out, start.respond hash request = .ok (response, engine)
      ∧ dialogue hash start frame = .ok (out, engine)
      ∧ responseFraming.next out = .complete response []
      ∧ out.length ≤ maxResponseFrameSize := by
  obtain ⟨response, engine, out, hrespond, hengine, -, hout⟩ := hstart.respond hash request
  have hframe : nextFrame frame = .complete request [] := by
    have := nextFrame_encode hencode []
    rwa [List.append_nil] at this
  have hnil : nextFrame [] = .incomplete := rfl
  have hrest : dialogue hash engine [] = .ok ([], engine) := dialogue_of_incomplete hnil
  have hdialogue := dialogue_of_complete hframe hrespond hout hrest
  rw [List.append_nil] at hdialogue
  have hnext := next_encodeResponse hout []
  rw [List.append_nil] at hnext
  exact ⟨response, engine, out, hrespond, hdialogue, hnext, length_encodeResponse_le hout⟩

/-- The output limit is not reached by one response. -/
theorem Inv.closeImmediately_ne (hstart : start.Sound) (hlarge : maxResponseFrameSize ≤ outputLimit)
    {s : Session n} {request : Request} (hencode : encodeRequest request = .ok frame)
    (h : s.Inv hash start outputLimit frame) :
    s.connection.closeImmediately ≠ some .outputLimit := by
  intro hclosed
  obtain ⟨out, engine, hdialogue, hlong⟩ := h.connection.limited hclosed
  obtain ⟨response, engine', out', -, hdialogue', -, hlength⟩ :=
    dialogue_request hash hstart hencode
  -- what is owed for a beginning of the request is a beginning of what is owed for all of it
  obtain ⟨more, hmore⟩ := h.delivers.1.trans h.client.sent
  obtain ⟨out'', engine'', hextended, hprefix⟩ := dialogue_extend hstart hdialogue more
  rw [hmore] at hextended
  obtain ⟨rfl, -⟩ := Except.ok_unique hextended hdialogue'
  have hle := hprefix.length_le
  omega

/-- **When nothing is on its way any more the client has its answer.** -/
theorem Inv.quiet (hstart : start.Sound) (hlarge : maxResponseFrameSize ≤ outputLimit)
    {s : Session n} {request : Request} (hencode : encodeRequest request = .ok frame)
    (h : s.Inv hash start outputLimit frame) (hquiet : s.Quiet)
    (hopen : s.connection.closeImmediately ≠ some .socketError) :
    (∃ response engine, start.respond hash request = .ok (response, engine)
      ∧ s.client.phase = .exited (printed response))
    ∨ ∃ what, (what = "send failed" ∨ what = "connection closed before response")
      ∧ s.client.phase = .exited (failed what) := by
  cases h.client.progress with
  | sending hphase _ _ _ => exact absurd hphase (hquiet.sent _)
  | reading hphase hsent _ hnext =>
    have hsettled := h.connection.accountable.settled
      (not_or.mpr ⟨h.closeImmediately_ne hstart hlarge hencode, hopen⟩)
    obtain ⟨response, engine, out, -, hdialogue, hcomplete, -⟩ :=
      dialogue_request hash hstart hencode
    have howed := hsettled.owed
    rw [hquiet.request, hsent, (Buffer.empty_iff _).mp hquiet.output, List.append_nil] at howed
    obtain ⟨hout, -⟩ := Except.ok_unique howed hdialogue
    rw [hquiet.response, hout, hcomplete] at hnext
    cases hnext
  | answered hphase hnext =>
    obtain ⟨engine, hrespond⟩ := h.answered hencode hnext
    exact Or.inl ⟨_, engine, hrespond, hphase⟩
  | refused hphase hnext => exact absurd hnext (h.not_invalid hencode _)
  | cut hphase hwhat => exact Or.inr ⟨_, hwhat, hphase⟩

/-! ### Every session -/

/-- **A command prints the answer of the engine to its request.** A client whose arguments give a
request that can be sent is connected to a server. In every run that the network permits, however
both streams are cut into pieces and whatever others do with the engine: if the process has exited,
it has printed the response that executing its request gives, or its socket has failed it; it never
gets a response it cannot decode. And once the request has arrived and everything the server has
for it has arrived as well, the process has exited. -/
theorem run_answered (hash : Bytes → UInt64) (capacity outputLimit : UInt64) {e₀ e : CacheEngine n}
    (hnew : CacheEngine.new capacity.toNat n = .ok e₀)
    (hreach : Transition.Reachable (CacheEngine.call hash) e₀ e) (upcoming : ℕ → Surroundings n)
    (hlarge : maxResponseFrameSize ≤ outputLimit.toNat) (hlimit : outputLimit.toNat ≤ 2 ^ 62)
    {argv : List Bytes} {connecting : ConnectResult} {frame : Bytes}
    (hprepare : Client.prepare argv connecting = .ok frame) (steps : List SessionStep)
    {client : Client} (hclient : Client.start argv connecting = .ok client)
    (hpermits : Transition.Permits (Permitted hash) (step hash)
      ⟨client, .new ⟨e, upcoming⟩ outputLimit.toNat⟩ steps) :
    ∃ request us s, parseRequest argv = .ok request
      ∧ Transition.run (step hash) ⟨client, .new ⟨e, upcoming⟩ outputLimit.toNat⟩ steps
        = .ok (us, s)
      ∧ (∀ outcome, s.client.phase = .exited outcome →
        (∃ response engine, SharedEngine.respond hash ⟨e, upcoming⟩ request = .ok (response, engine)
          ∧ outcome = printed response)
        ∨ ∃ what, (what = "send failed" ∨ what = "connection closed before response")
          ∧ outcome = failed what)
      ∧ (s.Quiet → s.connection.closeImmediately ≠ some .socketError →
        ∃ outcome, s.client.phase = .exited outcome) := by
  obtain ⟨request, hrequest, hencode⟩ := Client.prepare_eq_ok hprepare
  have hsound : (⟨e, upcoming⟩ : SharedEngine n).Sound :=
    hreach.invariant (CacheEngine.Sound.call hash)
      ⟨_, CacheEngine.simulates_new capacity.toNat_lt hnew⟩
  -- before the first step the client has sent what `send` took at once
  have hstart : Inv hash ⟨e, upcoming⟩ outputLimit.toNat frame
      ⟨client, .new ⟨e, upcoming⟩ outputLimit.toNat⟩ := by
    obtain ⟨phase, hphase, hfollows⟩ := Client.Follows.sendAll
      (c := ⟨frame, ⟨[], []⟩, .sending 0⟩) rfl (List.take_zero (l := frame)).symm rfl
    unfold Client.start at hclient
    rw [hprepare] at hclient
    dsimp only at hclient
    rw [hphase] at hclient
    cases hclient
    exact ⟨hfollows, Connection.upright_new hsound, List.prefix_refl _, List.prefix_refl _⟩
  obtain ⟨us, s, hrun, -, h⟩ := Transition.run_permitted (Q := fun _ ↦ True)
    (fun s step (h : Inv hash ⟨e, upcoming⟩ outputLimit.toNat frame s) hpermitted ↦ by
      obtain ⟨u, s', hstep, h'⟩ := h.step hsound hlimit hpermitted
      exact ⟨u, s', hstep, trivial, h'⟩) steps hstart hpermits
  refine ⟨request, us, s, hrequest, hrun, fun outcome hexited ↦ ?_, fun hquiet hopen ↦ ?_⟩
  · cases h.client.progress with
    | sending hphase _ _ _ =>
      rw [hexited] at hphase
      cases hphase
    | reading hphase _ _ _ =>
      rw [hexited] at hphase
      cases hphase
    | answered hphase hnext =>
      obtain ⟨engine, hrespond⟩ := h.answered hencode hnext
      rw [hexited, Phase.exited.injEq] at hphase
      exact Or.inl ⟨_, engine, hrespond, hphase⟩
    | refused hphase hnext => exact absurd hnext (h.not_invalid hencode _)
    | cut hphase hwhat =>
      rw [hexited, Phase.exited.injEq] at hphase
      exact Or.inr ⟨_, hwhat, hphase⟩
  · rcases h.quiet hsound hlarge hencode hquiet hopen with
      ⟨response, -, -, hphase⟩ | ⟨what, -, hphase⟩
    · exact ⟨_, hphase⟩
    · exact ⟨_, hphase⟩

/-- `highcache_client 127.0.0.1 11211 get k`. -/
private def getCommand : List Bytes :=
  [Scan.literal "highcache_client", Scan.literal "127.0.0.1", Scan.literal "11211",
    Scan.literal "get", Scan.literal "k"]

/-- Request and response go over in two pieces. -/
private def piecemeal : List SessionStep :=
  [.send (.ofCount 10), .send (.ofCount 100),
    .server (.readable [.ofBytes ((requestFrame 1 1 []).take 12)]),
    .server (.readable [.ofBytes ((requestFrame 1 1 []).drop 12)]),
    .server (.writable [.ofCount 7]),
    .recv (.ofBytes ((responseFrame 1 1 []).take 7)),
    .server (.writable [.ofCount 100]),
    .recv (.ofBytes ((responseFrame 1 1 []).drop 7))]

/-- The steps are permitted, one after another. -/
private def delivered (hash : Bytes → UInt64) : Session n → List SessionStep → Bool
  | _, [] => true
  | s, step :: steps =>
    match s.step hash step with
    | .error _ => true
    | .ok (_, s') =>
      s'.connection.socket.received.isPrefixOf s'.client.socket.sent
        && s'.client.socket.received.isPrefixOf s'.connection.socket.sent && delivered hash s' steps

private theorem permits_of_delivered (hash : Bytes → UInt64) (steps : List SessionStep) :
    ∀ {s : Session n}, delivered hash s steps = true →
    Transition.Permits (Permitted hash) (step hash) s steps := by
  induction steps with
  | nil => exact fun _ ↦ trivial
  | cons step steps ih =>
    intro s h
    rw [delivered] at h
    have hstep : ∀ u s', s.step hash step = .ok (u, s') →
        s'.Delivers ∧ delivered hash s' steps = true := by
      intro u s' hs
      rw [hs] at h
      dsimp only at h
      rw [Bool.and_eq_true, Bool.and_eq_true, List.isPrefixOf_iff_prefix,
        List.isPrefixOf_iff_prefix] at h
      exact h
    exact ⟨fun u s' hs ↦ (hstep u s' hs).1, fun u s' hs ↦ ih (hstep u s' hs).2⟩

/-- The process prints that the key is not found. -/
theorem run_answered_piecemeal :
    ∃ client request us s, Client.start getCommand .connected = .ok client
      ∧ parseRequest getCommand = .ok request
      ∧ Transition.run (step fun _ ↦ 0) ⟨client, .new .quiet (4194304 : UInt64).toNat⟩ piecemeal
        = .ok (us, s)
      ∧ s.client.phase = .exited (printed ⟨1, .notFound, []⟩)
      ∧ ((∃ response engine, SharedEngine.quiet.respond (fun _ ↦ 0) request = .ok (response, engine)
          ∧ printed ⟨1, .notFound, []⟩ = printed response)
        ∨ ∃ what, (what = "send failed" ∨ what = "connection closed before response")
          ∧ printed ⟨1, .notFound, []⟩ = failed what) := by
  have hclient : Client.start getCommand .connected
      = .ok ⟨requestFrame 1 1 [], ⟨[], []⟩, .sending 0⟩ := rfl
  have hprepare : Client.prepare getCommand .connected = .ok (requestFrame 1 1 []) := rfl
  have hpermits := permits_of_delivered (fun _ ↦ 0) piecemeal
    (s := ⟨⟨requestFrame 1 1 [], ⟨[], []⟩, .sending 0⟩, .new .quiet (4194304 : UInt64).toNat⟩)
    (by decide +kernel)
  have hphase : ((Transition.run (step fun _ ↦ 0)
      ⟨⟨requestFrame 1 1 [], ⟨[], []⟩, .sending 0⟩, .new .quiet (4194304 : UInt64).toNat⟩
      piecemeal).toOption.map fun r ↦ match r.2.client.phase with
        | .exited outcome => some outcome
        | _ => none) = some (some (printed ⟨1, .notFound, []⟩)) := by decide +kernel
  obtain ⟨request, us, s, hrequest, hrun, hexited, -⟩ := run_answered (fun _ ↦ 0) 100 4194304
    SharedEngine.new_quiet (.refl _ _) SharedEngine.quiet.upcoming (by decide) (by decide) hprepare
    piecemeal hclient hpermits
  rw [show (⟨SharedEngine.quiet.engine, SharedEngine.quiet.upcoming⟩ : SharedEngine 1) = .quiet
    from rfl] at hrun hexited
  rw [hrun] at hphase
  have hphase' : s.client.phase = .exited (printed ⟨1, .notFound, []⟩) := by
    cases hclient : s.client.phase with
    | sending sent =>
      rw [Except.toOption, Option.map_some, hclient] at hphase
      cases hphase
    | reading input =>
      rw [Except.toOption, Option.map_some, hclient] at hphase
      cases hphase
    | exited outcome =>
      rw [Except.toOption, Option.map_some, hclient] at hphase
      rw [Option.some.inj (Option.some.inj hphase)]
  exact ⟨_, request, us, s, hclient, hrequest, hrun, hphase', hexited _ hphase'⟩

end Session

end Command

end HighCache
