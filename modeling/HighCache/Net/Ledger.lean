import HighCache.Net.Processing

/-!
# What has been executed for a connection

The requests a connection has had executed, the responses, and the bytes it has sent belong
together, and not only while all is well. Where a connection is closed because a response was too
long, or dropped because a handler threw, the engine may have executed a request that is never
answered. So a ledger has two parts. `Ledger` holds to the end: the requests are the first of those
received, and what was sent are responses to the first of these. `Current` holds while the
connection is open: every request received has been executed, and every response is on its way.

Both are about a client that sends requests and nothing else. They say nothing about the engine, and
so the ledger of a connection is the same whether others use the engine early or late (`Sees`).
-/

namespace HighCache

open Protocol Transition

namespace Connection

variable {n : ℕ} {hash : Bytes → UInt64} {c c' : Connection n}

/-! ## The ledger

What is received is the stream of the client so far. Reading on is reading the whole stream, as long
as nothing is wrong in it (`contents_append`). -/

/-- What the requests that have been executed have led to. -/
structure Ledger (executed : List Request) (responses : List Response) (c : Connection n) :
    Prop where
  requests : executed <+: (contents c.socket.received).requests
  sent : ∃ answered out, answered <+: responses ∧ encodeAll answered = .ok out
    ∧ c.socket.sent <+: out

/-- What has been executed is all that was received, and all responses are on their way. -/
structure Current (executed : List Request) (responses : List Response) (c : Connection n) :
    Prop where
  requests : executed = (contents c.socket.received).requests
  input : c.input.readableView = (contents c.socket.received).rest
  closeAfterWrite : c.closeAfterWrite = false
  output : encodeAll responses = .ok (c.socket.sent ++ c.output.readableView)

/-- The ledger of a connection whose client sends requests and nothing else. -/
def Booked (executed : List Request) (responses : List Response) (c : Connection n) : Prop :=
  (contents c.socket.received).error = none →
    Ledger executed responses c ∧ (c.shouldClose = false → Current executed responses c)

variable {executed executed' : List Request} {responses responses' : List Response}

theorem Current.ledger (h : Current executed responses c) : Ledger executed responses c :=
  ⟨h.requests ▸ List.prefix_refl _, responses, _, List.prefix_refl _, h.output,
    List.prefix_append _ _⟩

theorem booked_new (engine : SharedEngine n) (outputLimit : ℕ) :
    Booked [] [] (new engine outputLimit) := by
  intro _
  have hcurrent : Current [] [] (new engine outputLimit) := by
    have hcontents : contents (new engine outputLimit).socket.received = ⟨[], none, []⟩ :=
      contents_nil
    exact ⟨by rw [hcontents], by rw [hcontents]; rfl, rfl, rfl⟩
  exact ⟨hcurrent.ledger, fun _ ↦ hcurrent⟩

/-- Where nothing is wrong with the whole, nothing is wrong with its beginning. -/
theorem contents_of_append {bytes more : Bytes} (h : (contents (bytes ++ more)).error = none) :
    (contents bytes).error = none
      ∧ (contents bytes).requests <+: (contents (bytes ++ more)).requests := by
  cases herror : (contents bytes).error with
  | none =>
    rw [contents_append herror]
    exact ⟨rfl, List.prefix_append _ _⟩
  | some error =>
    rw [contents_append_of_error herror, herror] at h
    cases h

theorem Ledger.received (h : Ledger executed responses c) {bytes : Bytes}
    (hreceived : c'.socket.received = c.socket.received ++ bytes)
    (hsent : c'.socket.sent = c.socket.sent)
    (herror : (contents (c.socket.received ++ bytes)).error = none) :
    Ledger executed responses c' := by
  obtain ⟨answered, out, hanswered, hencode, hpre⟩ := h.sent
  exact ⟨hreceived ▸ h.requests.trans (contents_of_append herror).2, answered, out, hanswered,
    hencode, hsent ▸ hpre⟩

/-- Nothing has happened to the connection, but that it may have been closed. -/
theorem Booked.of_same (h : Booked executed responses c) (hsocket : c'.socket = c.socket)
    (hopen : c'.shouldClose = false → c.shouldClose = false ∧ c'.input = c.input
      ∧ c'.output = c.output ∧ c'.closeAfterWrite = c.closeAfterWrite) :
    Booked executed responses c' := by
  intro herror
  rw [hsocket] at herror
  obtain ⟨hledger, hcurrent⟩ := h herror
  refine ⟨⟨hsocket ▸ hledger.requests, hsocket ▸ hledger.sent⟩, fun hkept ↦ ?_⟩
  obtain ⟨hbefore, hinput, houtput, hclose⟩ := hopen hkept
  have hc := hcurrent hbefore
  exact ⟨hsocket ▸ hc.requests, by rw [hinput, hsocket]; exact hc.input,
    hclose.trans hc.closeAfterWrite, by rw [hsocket, houtput]; exact hc.output⟩

theorem Booked.close (h : Booked executed responses c) (reason : CloseReason) :
    Booked executed responses (c.close reason) :=
  h.of_same rfl fun hopen ↦ absurd (shouldClose_close c reason) (by rw [hopen]; rintro ⟨⟩)

theorem Booked.notePeerClosed (h : Booked executed responses c) :
    Booked executed responses c.notePeerClosed := by
  have hpeer : Booked executed responses { c with peerClosed := true } :=
    h.of_same rfl fun hopen ↦ ⟨hopen, rfl, rfl, rfl⟩
  unfold Connection.notePeerClosed
  dsimp only
  split
  · exact hpeer.close .drained
  · exact hpeer

theorem Booked.finishWriting (h : Booked executed responses c) :
    Booked executed responses c.finishWriting := by
  unfold Connection.finishWriting
  split
  · exact h.close .drained
  · exact h

/-- Some requests of a chunk have been executed. -/
theorem Current.more (h : Current executed responses c) {bytes : Bytes}
    (herror : (contents (c.socket.received ++ bytes)).error = none)
    (hreceived : c'.socket.received = c.socket.received ++ bytes)
    (hsent : c'.socket.sent = c.socket.sent)
    (hmore : executed' <+: (contents (c.input.readableView ++ bytes)).requests) :
    Ledger (executed ++ executed') (responses ++ responses') c' := by
  refine ⟨?_, responses, _, List.prefix_append _ _, h.output, ?_⟩
  · rw [hreceived, contents_append (contents_of_append herror).1, h.requests, ← h.input]
    exact (List.prefix_append_right_inj _).mpr hmore
  · rw [hsent]
    exact List.prefix_append _ _

theorem Booked.process (h : Booked executed responses c) (hopen : c.shouldClose = false)
    {bytes : Bytes} {input : Buffer} (hview : input.readableView = c.input.readableView ++ bytes)
    {processed : Bool} (hprocess : processInput hash { c with
      socket.received := c.socket.received ++ bytes
      input := input } = .ok (processed, c')) :
    ∃ more answers, Sees hash (processLoop hash input.readableBytes) { c with
        socket.received := c.socket.received ++ bytes
        input := input } processed c' more answers
      ∧ Booked (executed ++ more) (responses ++ answers) c' := by
  obtain ⟨more, answers, hsees, hworks⟩ := processLoop_works _ le_rfl hprocess
  refine ⟨more, answers, hsees, fun herror ↦ ?_⟩
  have hrequests := hworks.requests
  have hdone := hworks.done
  have hqueued := hworks.queued
  have hsocket := hworks.socket
  dsimp only at hrequests hdone hqueued hsocket
  rw [hview] at hrequests hdone hqueued
  rw [hsocket] at herror
  have hcurrent := (h (contents_of_append herror).1).2 hopen
  refine ⟨hcurrent.more herror (by rw [hsocket]) (by rw [hsocket]) hrequests, fun hkept ↦ ?_⟩
  obtain rfl : processed = true := by
    cases processed with
    | false => rw [hworks.closed rfl] at hkept; cases hkept
    | true => rfl
  have hcontents := contents_append (contents_of_append herror).1 bytes
  rw [← hcurrent.input] at hcontents
  obtain ⟨hall, hleft⟩ := hdone rfl
  obtain ⟨hclose, out, hencode, hout⟩ := hqueued rfl (by rw [hcontents] at herror; exact herror)
  refine ⟨?_, ?_, hclose.trans hcurrent.closeAfterWrite, ?_⟩
  · rw [hsocket, hcontents, hcurrent.requests, hall]
  · rw [hsocket, hcontents, hleft]
  · rw [hsocket, hout, ← List.append_assoc]
    exact encodeAll_append hcurrent.output hencode

/-! ## The handlers

Each handler keeps the ledger, in either of its two parts, and tells what it has executed. As long
as the connection is open and its input is not at a wrong header it stays current. -/

/-- The loop of `handle_readable`, as a call without a result. -/
private def reading (hash : Bytes → UInt64) (results : List RecvResult) (c : Connection n) :
    Except Fault (Unit × Connection n) := do
  let c ← readLoop hash results c
  .ok ((), c)

private theorem reading_of_ok {results : List RecvResult} (h : readLoop hash results c = .ok c') :
    reading hash results c = .ok ((), c') := by
  rw [reading, h]
  rfl

private theorem readLoop_received (c : Connection n) {bytes : Bytes} {pos : 0 < bytes.length}
    {le : bytes.length ≤ readChunkSize} {results : List RecvResult} {room : ℕ} {input : Buffer}
    (hopen : ¬(c.closeAfterWrite || c.shouldClose) = true)
    (hroom : Checked.sub maxInputBufferSize c.input.readableBytes = .ok room)
    (hfits : ¬bytes.length > room) (hinput : c.input.append bytes = .ok input) :
    readLoop hash (.received bytes pos le :: results) c
      = processLoop hash input.readableBytes
        { c with socket.received := c.socket.received ++ bytes, input := input } >>= fun r ↦
          if r.1 then readLoop hash results r.2 else .ok r.2 := by
  refine (if_neg hopen).trans ?_
  dsimp only
  rw [hroom, Except.ok_bind_eq, if_neg hfits, hinput, Except.ok_bind_eq]
  rfl

private theorem reading_received (c : Connection n) {bytes : Bytes} {pos : 0 < bytes.length}
    {le : bytes.length ≤ readChunkSize} {results : List RecvResult} {room : ℕ} {input : Buffer}
    (hopen : ¬(c.closeAfterWrite || c.shouldClose) = true)
    (hroom : Checked.sub maxInputBufferSize c.input.readableBytes = .ok room)
    (hfits : ¬bytes.length > room) (hinput : c.input.append bytes = .ok input) :
    reading hash (.received bytes pos le :: results) c
      = processLoop hash input.readableBytes
        { c with socket.received := c.socket.received ++ bytes, input := input } >>= fun r ↦
          if r.1 then reading hash results r.2 else .ok ((), r.2) := by
  rw [reading, readLoop_received c hopen hroom hfits hinput]
  cases processLoop hash input.readableBytes { c with
      socket.received := c.socket.received ++ bytes
      input := input } with
  | error fault => rfl
  | ok r =>
    obtain ⟨processed, c₂⟩ := r
    cases processed <;> rfl

theorem notePeerClosed_engine (c : Connection n) : c.notePeerClosed.engine = c.engine
    ∧ ∀ s : SharedEngine n, { c with engine := s }.notePeerClosed
      = { c.notePeerClosed with engine := s } := by
  by_cases hempty : c.output.empty = true
  · have hnote : ∀ s : SharedEngine n, { c with engine := s }.notePeerClosed
        = Connection.close .drained { c with engine := s, peerClosed := true } :=
      fun s ↦ if_pos hempty
    rw [show c.notePeerClosed = _ from hnote c.engine]
    exact ⟨rfl, hnote⟩
  · have hnote : ∀ s : SharedEngine n, { c with engine := s }.notePeerClosed
        = { c with engine := s, peerClosed := true } := fun s ↦ if_neg hempty
    rw [show c.notePeerClosed = _ from hnote c.engine]
    exact ⟨rfl, hnote⟩

theorem finishWriting_engine (c : Connection n) : c.finishWriting.engine = c.engine
    ∧ ∀ s : SharedEngine n, { c with engine := s }.finishWriting
      = { c.finishWriting with engine := s } := by
  by_cases hdone : (c.output.empty && (c.closeAfterWrite || c.peerClosed)) = true
  · have hfinish : ∀ s : SharedEngine n, { c with engine := s }.finishWriting
        = Connection.close .drained { c with engine := s } := fun s ↦ if_pos hdone
    rw [show c.finishWriting = _ from hfinish c.engine]
    exact ⟨rfl, hfinish⟩
  · have hfinish : ∀ s : SharedEngine n, { c with engine := s }.finishWriting
        = { c with engine := s } := fun s ↦ if_neg hdone
    rw [show c.finishWriting = _ from hfinish c.engine]
    exact ⟨rfl, hfinish⟩

/-- The loop ends without a call of the engine. -/
private theorem Booked.reading_last {results : List RecvResult} (h : Booked executed responses c')
    (hengine : c'.engine = c.engine)
    (hall : ∀ s : SharedEngine n, Connection.readLoop hash results { c with engine := s }
      = .ok { c' with engine := s }) :
    ∃ more answers, Sees hash (reading hash results) c () c' more answers
      ∧ Booked (executed ++ more) (responses ++ answers) c' := by
  refine ⟨[], [], sees_of_blind hengine fun s ↦ reading_of_ok (hall s), ?_⟩
  rwa [List.append_nil, List.append_nil]

/-- A chunk for which there is no room has been received all the same. -/
private theorem Booked.overlong (h : Booked executed responses c) (bytes : Bytes) :
    Booked executed responses (Connection.close .inputLimit { c with
      socket.received := c.socket.received ++ bytes }) := fun herror ↦
  ⟨((h (contents_of_append herror).1).1).received rfl rfl herror, fun hopen ↦
    absurd (shouldClose_close _ _) (by rw [hopen]; rintro ⟨⟩)⟩

/-- A chunk for which there is room is processed, and then the loop goes on or ends. -/
private theorem Booked.reading_received (h : Booked executed responses c) {bytes : Bytes}
    {pos : 0 < bytes.length} {le : bytes.length ≤ readChunkSize} {results : List RecvResult}
    {room : ℕ} {input : Buffer} {processed : Bool} {c₁ : Connection n}
    (hopen : ¬(c.closeAfterWrite || c.shouldClose) = true)
    (hroom : Checked.sub maxInputBufferSize c.input.readableBytes = .ok room)
    (hfits : ¬bytes.length > room) (hinput : c.input.append bytes = .ok input)
    (hprocess : processInput hash { c with
      socket.received := c.socket.received ++ bytes
      input := input } = .ok (processed, c₁))
    (hrest : ∀ {executed responses}, Booked executed responses c₁ → ∃ more answers,
      Sees hash (fun c ↦ if processed then reading hash results c else .ok ((), c)) c₁ () c'
        more answers ∧ Booked (executed ++ more) (responses ++ answers) c') :
    ∃ more answers, Sees hash (reading hash (.received bytes pos le :: results)) c () c'
        more answers
      ∧ Booked (executed ++ more) (responses ++ answers) c' := by
  have hview := c.input.append_ensures bytes
  rw [hinput] at hview
  have hkept := hopen
  rw [Bool.or_eq_true, not_or, Bool.not_eq_true, Bool.not_eq_true] at hkept
  obtain ⟨more, answers, hsees, hbooked⟩ := h.process hkept.2 hview hprocess
  obtain ⟨more', answers', hsees', hbooked'⟩ := hrest hbooked
  have hboth := hsees.bind (fun processed c ↦
    if processed then reading hash results c else .ok ((), c)) hsees'
  have hsame : ∀ s : SharedEngine n,
      reading hash (.received bytes pos le :: results) { c with engine := s } = _ :=
    fun s ↦ Connection.reading_received (c := { c with engine := s }) hopen hroom hfits hinput
  rw [List.append_assoc, List.append_assoc] at hbooked'
  exact ⟨_, _, ⟨hboth.valid, hboth.responds, fun s s' hrun ↦
    (hsame s).trans (hboth.same s s' hrun)⟩, hbooked'⟩

/-- `handle_readable`, by induction on the answers of `recv`. -/
theorem Booked.readLoop (results : List RecvResult) : ∀ {c c' : Connection n}
    {executed : List Request} {responses : List Response}, Booked executed responses c →
    readLoop hash results c = .ok c' →
    ∃ more answers, Sees hash (reading hash results) c () c' more answers
      ∧ Booked (executed ++ more) (responses ++ answers) c' := by
  induction results with
  | nil =>
    intro c c' executed responses h hloop
    cases hloop
    exact h.reading_last rfl fun s ↦ rfl
  | cons result results ih =>
    intro c c' executed responses h hloop
    by_cases hdone : (c.closeAfterWrite || c.shouldClose) = true
    · rw [show Connection.readLoop hash (result :: results) c = .ok c from if_pos hdone] at hloop
      cases hloop
      exact h.reading_last rfl fun s ↦ if_pos hdone
    have hunfold : ∀ (s : SharedEngine n) {r : Except Fault (Connection n)},
        (if c.closeAfterWrite || c.shouldClose then .ok { c with engine := s } else r) = r :=
      fun s r ↦ if_neg hdone
    replace hloop := (hunfold c.engine).symm.trans hloop
    cases result with
    | received bytes pos le =>
      obtain ⟨room, hroom, hloop⟩ := Except.bind_eq_ok_iff.mp hloop
      split at hloop
      · rename_i hlong
        cases hloop
        refine (h.overlong bytes).reading_last rfl fun s ↦ (hunfold s).trans ?_
        dsimp only
        rw [hroom, Except.ok_bind_eq]
        exact if_pos hlong
      · rename_i hfits
        obtain ⟨input, hinput, hloop⟩ := Except.bind_eq_ok_iff.mp hloop
        obtain ⟨⟨processed, c₁⟩, hprocess, hloop⟩ := Except.bind_eq_ok_iff.mp hloop
        refine h.reading_received hdone hroom hfits hinput hprocess fun hbooked ↦ ?_
        cases processed with
        | true => exact ih hbooked hloop
        | false =>
          cases hloop
          refine ⟨[], [], sees_of_blind rfl fun s ↦ rfl, ?_⟩
          rwa [List.append_nil, List.append_nil]
    | closed =>
      cases hloop
      exact h.notePeerClosed.reading_last (notePeerClosed_engine c).1 fun s ↦
        (hunfold s).trans (congrArg Except.ok ((notePeerClosed_engine c).2 s))
    | interrupted =>
      obtain ⟨more, answers, hsees, hbooked⟩ := ih h hloop
      refine ⟨more, answers, hsees.congr fun s ↦ ?_, hbooked⟩
      rw [reading, show Connection.readLoop hash (.interrupted :: results) { c with engine := s }
        = _ from hunfold s]
      rfl
    | wouldBlock =>
      cases hloop
      exact h.reading_last rfl fun s ↦ hunfold s
    | failed =>
      cases hloop
      exact (h.close .socketError).reading_last rfl fun s ↦ hunfold s

theorem Booked.handleReadable (h : Booked executed responses c) {results : List RecvResult}
    {kept : Bool} (hread : c.handleReadable hash results = .ok (kept, c')) :
    ∃ more answers, Sees hash (handleReadable hash results) c kept c' more answers
      ∧ Booked (executed ++ more) (responses ++ answers) c' := by
  obtain ⟨c₁, hloop, hread⟩ := Except.bind_eq_ok_iff.mp hread
  cases hread
  obtain ⟨more, answers, hsees, hbooked⟩ := h.readLoop results hloop
  have hlast : Sees hash (fun c ↦ .ok (!c.shouldClose, c)) c' (!c'.shouldClose) c' [] [] :=
    sees_of_blind rfl fun s ↦ rfl
  have hboth : Sees hash (Connection.handleReadable hash results) c (!c'.shouldClose) c'
      (more ++ []) (answers ++ []) :=
    (hsees.bind (fun _ c ↦ .ok (!c.shouldClose, c)) hlast).congr fun s ↦ by
      rw [Connection.handleReadable, reading]
      cases Connection.readLoop hash results { c with engine := s } <;> rfl
  rw [List.append_nil, List.append_nil] at hboth
  exact ⟨more, answers, hboth, hbooked⟩

/-- The loop of `handle_writable` has nothing to do. -/
private theorem Booked.handleWritable_done {results : List SendResult} {kept : Bool}
    (h : Booked executed responses c) (hdone : (c.output.empty || c.shouldClose) = true)
    (hwrite : c.handleWritable results = .ok (kept, c')) :
    Sees hash (handleWritable results) c kept c' [] [] ∧ Booked executed responses c' := by
  have hunfold : ∀ s : SharedEngine n, { c with engine := s }.handleWritable results
      = .ok (!{ c with engine := s }.finishWriting.shouldClose,
        { c with engine := s }.finishWriting) := by
    intro s
    cases results <;> exact if_pos hdone
  rw [show c.handleWritable results = _ from hunfold c.engine] at hwrite
  cases hwrite
  refine ⟨sees_of_blind (finishWriting_engine c).1 fun s ↦ ?_, h.finishWriting⟩
  rw [hunfold, (finishWriting_engine c).2]
  rfl

/-- Bytes go from the front of the output to the end of what was sent. -/
private theorem Booked.sent (h : Booked executed responses c) (hopen : c.shouldClose = false)
    {count : ℕ} (hcount : count ≤ c.output.readableBytes) {output : Buffer}
    (houtput : c.output.retrieve count = .ok output) :
    Booked executed responses { c with
      socket.sent := c.socket.sent ++ c.output.readableView.take count
      output := output } := by
  obtain ⟨output', houtput', hview, -⟩ := Buffer.retrieve_eq hcount
  rw [houtput] at houtput'
  cases houtput'
  intro herror
  have hc := (h herror).2 hopen
  have hcurrent : Current executed responses { c with
      socket.sent := c.socket.sent ++ c.output.readableView.take count
      output := output } := by
    refine ⟨hc.requests, hc.input, hc.closeAfterWrite, ?_⟩
    dsimp only
    rw [hview, List.append_assoc, List.take_append_drop]
    exact hc.output
  exact ⟨hcurrent.ledger, fun _ ↦ hcurrent⟩

/-- `handle_writable`, by induction on the answers of `send`. -/
theorem Booked.handleWritable (results : List SendResult) : ∀ {c c' : Connection n} {kept : Bool},
    Booked executed responses c → c.handleWritable results = .ok (kept, c') →
    Sees hash (handleWritable results) c kept c' [] [] ∧ Booked executed responses c' := by
  induction results with
  | nil =>
    intro c c' kept h hwrite
    by_cases hdone : (c.output.empty || c.shouldClose) = true
    · exact h.handleWritable_done hdone hwrite
    · rw [show c.handleWritable [] = _ from if_neg hdone] at hwrite
      cases hwrite
      exact ⟨sees_of_blind rfl fun s ↦ if_neg hdone, h⟩
  | cons result results ih =>
    intro c c' kept h hwrite
    by_cases hdone : (c.output.empty || c.shouldClose) = true
    · exact h.handleWritable_done hdone hwrite
    have hunfold : ∀ s : SharedEngine n,
        { c with engine := s }.handleWritable (result :: results) = _ := fun s ↦ if_neg hdone
    rw [show c.handleWritable (result :: results) = _ from if_neg hdone] at hwrite
    rw [Bool.or_eq_true, not_or, Bool.not_eq_true, Bool.not_eq_true] at hdone
    cases result with
    | accepted count pos =>
      obtain ⟨output, houtput, hwrite⟩ := Except.bind_eq_ok_iff.mp hwrite
      have hmoved := h.sent hdone.2 (min_le_right count c.output.readableBytes) houtput
      obtain ⟨hsees, hbooked⟩ := ih hmoved hwrite
      refine ⟨⟨hsees.valid, hsees.responds, fun s s' hrun ↦ (hunfold s).trans ?_⟩, hbooked⟩
      dsimp only
      rw [houtput, Except.ok_bind_eq]
      exact hsees.same s s' hrun
    | interrupted =>
      obtain ⟨hsees, hbooked⟩ := ih h hwrite
      exact ⟨hsees.congr fun s ↦ hunfold s, hbooked⟩
    | wouldBlock =>
      cases hwrite
      exact ⟨sees_of_blind rfl fun s ↦ hunfold s, h⟩
    | failed =>
      cases hwrite
      exact ⟨sees_of_blind rfl fun s ↦ hunfold s, h.close .socketError⟩

/-- **A handler keeps the ledger**, and sees of the engine only the responses it puts down. -/
theorem Booked.step (h : Booked executed responses c) {event : Event} {kept : Bool}
    (hstep : c.step hash event = .ok (kept, c')) :
    ∃ more answers, Sees hash (fun c ↦ c.step hash event) c kept c' more answers
      ∧ Booked (executed ++ more) (responses ++ answers) c' := by
  cases event with
  | readable results => exact h.handleReadable hstep
  | writable results =>
    obtain ⟨hsees, hbooked⟩ := h.handleWritable results hstep
    refine ⟨[], [], hsees, ?_⟩
    rwa [List.append_nil, List.append_nil]
  | peerClosed =>
    cases hstep
    refine ⟨[], [], sees_of_blind (notePeerClosed_engine c).1 fun s ↦ ?_, ?_⟩
    · show Except.ok _ = _
      rw [(notePeerClosed_engine c).2]
      rfl
    · rw [List.append_nil, List.append_nil]
      exact h.notePeerClosed

theorem Booked.run (events : List Event) : ∀ {c c' : Connection n} {executed : List Request}
    {responses : List Response} {kept : List Bool}, Booked executed responses c →
    Transition.run (Connection.step hash) c events = .ok (kept, c') →
    ∃ more answers, Sees hash (fun c ↦ Transition.run (Connection.step hash) c events) c kept c'
        more answers
      ∧ Booked (executed ++ more) (responses ++ answers) c' := by
  induction events with
  | nil =>
    intro c c' executed responses kept h hrun
    cases hrun
    refine ⟨[], [], sees_of_blind rfl fun s ↦ rfl, ?_⟩
    rwa [List.append_nil, List.append_nil]
  | cons event events ih =>
    intro c c' executed responses kept h hrun
    obtain ⟨k, ks, c₁, hstep, hrest, rfl⟩ := run_cons_ok hrun
    obtain ⟨more, answers, hsees, hbooked⟩ := h.step hstep
    obtain ⟨more', answers', hsees', hbooked'⟩ := ih hbooked hrest
    have hlast := hsees'.bind (fun ks c ↦ .ok (k :: ks, c))
      (sees_of_blind (a := k :: ks) (c := c') rfl fun s ↦ rfl)
    rw [List.append_nil, List.append_nil] at hlast
    have hboth : Sees hash (fun c ↦ Transition.run (Connection.step hash) c (event :: events)) c
        (k :: ks) c' (more ++ more') (answers ++ answers') :=
      (hsees.bind (fun k c ↦ Transition.run (Connection.step hash) c events >>= fun r ↦
        .ok (k :: r.1, r.2)) hlast).congr fun s ↦ rfl
    rw [List.append_assoc, List.append_assoc] at hbooked'
    exact ⟨_, _, hboth, hbooked'⟩

end Connection

end HighCache
