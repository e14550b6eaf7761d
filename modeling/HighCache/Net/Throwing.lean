import HighCache.Net.EventLoop
import HighCache.Net.Ledger
import HighCache.Net.Limits

/-!
# A handler that throws

Where memory runs out an exception leaves `handle_readable`. By then the engine may have executed a
request whose response is lost. Nothing is sent on the way, and what has been queued stays in order:
the ledger of the connection holds (`Booked.readThrow`), and so does what limits its output
(`Orderly.readThrow`).
-/

namespace HighCache

open Protocol Transition

/-! ## Up to the exception

Where a chunk is processed until memory runs out, a number of its requests has been answered, and
one more may have been executed. The model says at which of the two the exception came. -/

namespace Connection

variable {n : ℕ} {hash : Bytes → UInt64} {c c' : Connection n}

variable {executed executed' : List Request} {responses responses' : List Response}

/-- What is true where a handler has thrown. -/
structure Threw (c : Connection n) (c' : Connection n) (executed : List Request) : Prop where
  socket : c'.socket = c.socket
  requests : executed <+: (contents c.input.readableView).requests
  queued : Queued c c'
  closeImmediately : c'.closeImmediately = c.closeImmediately

private theorem processThrow_zero {queueing : Bool}
    (h : processThrow hash queueing 0 c = .ok (true, c')) :
    ∃ executed responses, Sees hash (processThrow hash queueing 0) c true c' executed responses
      ∧ Threw c c' executed := by
  rw [processThrow] at h
  split at h
  · cases h
  rename_i hne
  cases queueing with
  | false =>
    cases h
    exact ⟨[], [], sees_of_blind rfl fun s ↦ if_neg hne, rfl, List.nil_prefix,
      .of_eq rfl rfl rfl rfl rfl, rfl⟩
  | true =>
    rw [if_pos rfl] at h
    have hdecode := decodeRequest_spec c.input ⟨.get, 0, [], [], 0⟩ .none
    cases hframe : nextFrame c.input.readableView with
    | incomplete =>
      rw [hframe] at hdecode
      rw [hdecode] at h
      cases h
    | invalid error =>
      rw [hframe] at hdecode
      rw [hdecode] at h
      cases h
      refine ⟨[], [], sees_of_blind rfl fun s ↦ ?_, rfl, List.nil_prefix,
        .of_eq rfl rfl rfl rfl rfl, rfl⟩
      rw [processThrow, if_neg hne, if_pos rfl, hdecode]
      rfl
    | complete request rest =>
      rw [hframe] at hdecode
      obtain ⟨input, hdecode, -⟩ := hdecode
      rw [hdecode, Except.ok_bind_eq] at h
      obtain ⟨⟨response, engine⟩, hrespond, h⟩ := Except.bind_eq_ok_iff.mp h
      cases h
      have hsees := sees_respond (valid_of_complete hframe) hrespond
      refine ⟨[request], [response], ⟨hsees.valid, hsees.responds, fun s s' hrun ↦ ?_⟩, rfl, ?_,
        .of_eq rfl rfl rfl rfl rfl, rfl⟩
      · rw [processThrow, if_neg hne, if_pos rfl, hdecode]
        show (s.respond hash request >>= _) = _
        rw [run_singleton.mp hrun]
        rfl
      · rw [contents_of_complete hframe]
        exact (List.cons_prefix_cons).mpr ⟨rfl, List.nil_prefix⟩

/-- `process_input` up to where it throws. -/
theorem processThrow_threw {queueing : Bool} (answered : ℕ) : ∀ {c c' : Connection n},
    processThrow hash queueing answered c = .ok (true, c') →
    ∃ executed responses, Sees hash (processThrow hash queueing answered) c true c' executed
        responses ∧ Threw c c' executed := by
  induction answered with
  | zero => exact processThrow_zero
  | succ answered ih =>
    intro c c' h
    rw [processThrow] at h
    split at h
    · cases h
    rename_i hne
    have hdecode := decodeRequest_spec c.input ⟨.get, 0, [], [], 0⟩ .none
    cases hframe : nextFrame c.input.readableView with
    | incomplete =>
      rw [hframe] at hdecode
      rw [hdecode] at h
      cases h
    | invalid error =>
      rw [hframe] at hdecode
      rw [hdecode] at h
      cases h
    | complete request rest =>
      rw [hframe] at hdecode
      obtain ⟨input, hdecode, hview⟩ := hdecode
      rw [hdecode, Except.ok_bind_eq] at h
      obtain ⟨⟨executed, c₁⟩, hexecute, h⟩ := Except.bind_eq_ok_iff.mp h
      obtain ⟨response, hsees, ⟨rfl, -, -⟩ | ⟨frame, engine, output, -, rfl, rfl, hout, hle⟩⟩ :=
        execute_cases (valid_of_complete hframe) hexecute
      · cases h
      obtain ⟨more, responses, hmore, hthrew⟩ := ih h
      -- one request has been answered, and the exception comes later
      have hboth := hsees.bind (fun executed c ↦
        if executed then processThrow hash queueing answered c else .ok (false, c)) hmore
      have hunfold : ∀ s : SharedEngine n,
          processThrow hash queueing (answered + 1) { c with engine := s }
            = execute hash request { c with input := input, engine := s } >>= fun r ↦
              if r.1 then processThrow hash queueing answered r.2 else .ok (false, r.2) := by
        intro s
        rw [processThrow, if_neg hne, hdecode]
        rfl
      have hrequests := hthrew.requests
      dsimp only at hrequests
      rw [hview] at hrequests
      have hqueued : Queued c { c with input := input, engine := engine, output := output } :=
        ⟨rfl, rfl, ⟨frame, hout⟩, fun _ ↦ hle, .inl rfl, .inl rfl⟩
      refine ⟨request :: more, response :: responses, ⟨hboth.valid, hboth.responds,
        fun s s' hrun ↦ (hunfold s).trans (hboth.same s s' hrun)⟩, hthrew.socket, ?_,
        hqueued.trans hthrew.queued, hthrew.closeImmediately⟩
      rw [contents_of_complete hframe]
      exact (List.cons_prefix_cons).mpr ⟨rfl, hrequests⟩

theorem chunkThrow_threw {throw : Throw} {bytes : Bytes}
    (h : chunkThrow hash throw bytes c = .ok (true, c')) :
    ∃ executed responses, Sees hash (chunkThrow hash throw bytes) c true c' executed responses
      ∧ c'.socket = c.socket
      ∧ executed <+: (contents (c.input.readableView ++ bytes)).requests
      ∧ Queued c c' ∧ c'.closeImmediately = c.closeImmediately := by
  have hprocess : ∀ {queueing : Bool} {answered : ℕ},
      (c.input.append bytes >>= fun input ↦
        processThrow hash queueing answered { c with input := input }) = .ok (true, c') →
      ∃ executed responses, Sees hash (fun c ↦ c.input.append bytes >>= fun input ↦
            processThrow hash queueing answered { c with input := input })
          c true c' executed responses
        ∧ c'.socket = c.socket
        ∧ executed <+: (contents (c.input.readableView ++ bytes)).requests
        ∧ Queued c c' ∧ c'.closeImmediately = c.closeImmediately := by
    intro queueing answered h
    obtain ⟨input, hinput, h⟩ := Except.bind_eq_ok_iff.mp h
    have hview := c.input.append_ensures bytes
    rw [hinput] at hview
    obtain ⟨executed, responses, hsees, hthrew⟩ := processThrow_threw answered h
    refine ⟨executed, responses, ⟨hsees.valid, hsees.responds, fun s s' hrun ↦ ?_⟩, hthrew.socket,
      ?_, hthrew.queued.of_source rfl rfl rfl rfl rfl, hthrew.closeImmediately⟩
    · show (c.input.append bytes >>= _) = _
      rw [hinput]
      exact hsees.same s s' hrun
    · have hrequests := hthrew.requests
      rwa [show ({ c with input := input } : Connection n).input.readableView = _ from hview]
        at hrequests
  cases throw with
  | appending =>
    cases h
    exact ⟨[], [], sees_of_blind rfl fun s ↦ rfl, rfl, List.nil_prefix,
      .of_eq rfl rfl rfl rfl rfl, rfl⟩
  | decoding answered => exact hprocess h
  | queueing answered => exact hprocess h

/-! ## The loop around it -/

private theorem readThrow_last (throw : Throw) (c : Connection n) {bytes : Bytes}
    {pos : 0 < bytes.length} {le : bytes.length ≤ readChunkSize} {room : ℕ}
    (hopen : ¬(c.closeAfterWrite || c.shouldClose) = true)
    (hroom : Checked.sub maxInputBufferSize c.input.readableBytes = .ok room)
    (hfits : ¬bytes.length > room) :
    readThrow hash throw [.received bytes pos le] c
      = chunkThrow hash throw bytes { c with socket.received := c.socket.received ++ bytes } := by
  refine (if_neg hopen).trans ?_
  dsimp only
  rw [hroom, Except.ok_bind_eq, if_neg hfits]
  rfl

private theorem readThrow_received (throw : Throw) (c : Connection n) {bytes : Bytes}
    {pos : 0 < bytes.length} {le : bytes.length ≤ readChunkSize} {result : RecvResult}
    {results : List RecvResult} {room : ℕ} {input : Buffer}
    (hopen : ¬(c.closeAfterWrite || c.shouldClose) = true)
    (hroom : Checked.sub maxInputBufferSize c.input.readableBytes = .ok room)
    (hfits : ¬bytes.length > room) (hinput : c.input.append bytes = .ok input) :
    readThrow hash throw (.received bytes pos le :: result :: results) c
      = processLoop hash input.readableBytes
        { c with socket.received := c.socket.received ++ bytes, input := input } >>= fun r ↦
          if r.1 then readThrow hash throw (result :: results) r.2 else .ok (false, r.2) := by
  refine (if_neg hopen).trans ?_
  dsimp only
  rw [hroom, Except.ok_bind_eq, if_neg hfits, hinput, Except.ok_bind_eq]
  rfl

/-- What a loop that throws has done: it has received a chunk whose handling throws, or one that has
been processed, or `recv` was interrupted. -/
theorem readThrow_cases {throw : Throw} {result : RecvResult} {results : List RecvResult}
    (h : readThrow hash throw (result :: results) c = .ok (true, c')) :
    (c.closeAfterWrite || c.shouldClose) = false
      ∧ ((result = .interrupted ∧ readThrow hash throw results c = .ok (true, c'))
        ∨ ∃ bytes pos le room, result = .received bytes pos le
          ∧ Checked.sub maxInputBufferSize c.input.readableBytes = .ok room
          ∧ ¬bytes.length > room
          ∧ ((results = [] ∧ chunkThrow hash throw bytes
                { c with socket.received := c.socket.received ++ bytes } = .ok (true, c'))
            ∨ ∃ next rest input c₁, results = next :: rest ∧ c.input.append bytes = .ok input
              ∧ processInput hash
                  { c with socket.received := c.socket.received ++ bytes, input := input }
                = .ok (true, c₁)
              ∧ readThrow hash throw results c₁ = .ok (true, c'))) := by
  unfold Connection.readThrow at h
  split at h
  · cases h
  rename_i hopen
  refine ⟨Bool.not_eq_true _ ▸ hopen, ?_⟩
  cases result with
  | received bytes pos le =>
    obtain ⟨room, hroom, h⟩ := Except.bind_eq_ok_iff.mp h
    split at h
    · cases h
    rename_i hfits
    refine .inr ⟨bytes, pos, le, room, rfl, hroom, hfits, ?_⟩
    -- the exception comes in the chunk that was received last
    cases results with
    | nil => exact .inl ⟨rfl, h⟩
    | cons next rest =>
      obtain ⟨input, hinput, h⟩ := Except.bind_eq_ok_iff.mp h
      obtain ⟨⟨processed, c₁⟩, hprocess, h⟩ := Except.bind_eq_ok_iff.mp h
      cases processed with
      | false => cases h
      | true => exact .inr ⟨next, rest, input, c₁, rfl, hinput, hprocess, h⟩
  | interrupted => exact .inl ⟨rfl, h⟩
  | closed | wouldBlock | failed => cases h

/-- **A handler that throws keeps the ledger** of what has been executed and sent. -/
theorem Booked.readThrow (throw : Throw) (results : List RecvResult) : ∀ {c c' : Connection n}
    {executed : List Request} {responses : List Response}, Booked executed responses c →
    readThrow hash throw results c = .ok (true, c') →
    ∃ more answers, Sees hash (readThrow hash throw results) c true c' more answers
      ∧ ((contents c'.socket.received).error = none →
        Ledger (executed ++ more) (responses ++ answers) c') := by
  induction results with
  | nil =>
    intro c c' executed responses h hthrow
    cases hthrow
  | cons result results ih =>
    intro c c' executed responses h hthrow
    obtain ⟨hopen, ⟨rfl, hrest⟩ | ⟨bytes, pos, le, room, rfl, hroom, hfits, hchunk⟩⟩ :=
      readThrow_cases hthrow
    · obtain ⟨more, answers, hsees, hledger⟩ := ih h hrest
      exact ⟨more, answers, hsees.congr fun s ↦ if_neg (Bool.not_eq_true _ ▸ hopen), hledger⟩
    have hclosed := (Bool.or_eq_false_iff.mp hopen).2
    rw [← Bool.not_eq_true] at hopen
    rcases hchunk with ⟨rfl, hchunk⟩ | ⟨next, rest, input, c₁, rfl, hinput, hprocess, hrest⟩
    · obtain ⟨more, answers, hsees, hsocket, hrequests, -, -⟩ := chunkThrow_threw hchunk
      refine ⟨more, answers, ⟨hsees.valid, hsees.responds, fun s s' hrun ↦ ?_⟩, fun herror ↦ ?_⟩
      · exact (readThrow_last throw (c := { c with engine := s }) hopen hroom hfits).trans
          (hsees.same s s' hrun)
      · rw [hsocket] at herror
        exact ((h (contents_of_append herror).1).2 hclosed).more herror (by rw [hsocket])
          (by rw [hsocket]) hrequests
    · have hview := c.input.append_ensures bytes
      rw [hinput] at hview
      obtain ⟨more, answers, hsees, hbooked⟩ := h.process hclosed hview hprocess
      obtain ⟨more', answers', hsees', hledger⟩ := ih hbooked hrest
      have hboth := hsees.bind (fun processed c ↦
        if processed then Connection.readThrow hash throw (next :: rest) c else .ok (false, c))
        hsees'
      rw [List.append_assoc, List.append_assoc] at hledger
      exact ⟨_, _, ⟨hboth.valid, hboth.responds, fun s s' hrun ↦
        (readThrow_received throw (c := { c with engine := s }) hopen hroom hfits hinput).trans
          (hboth.same s s' hrun)⟩, hledger⟩

theorem readThrow_open {throw : Throw} (results : List RecvResult) : ∀ {c c' : Connection n},
    readThrow hash throw results c = .ok (true, c') → c'.shouldClose = false := by
  induction results with
  | nil =>
    intro c c' hthrow
    cases hthrow
  | cons result results ih =>
    intro c c' hthrow
    obtain ⟨hopen, ⟨rfl, hrest⟩ | ⟨bytes, pos, le, room, rfl, -, -, hchunk⟩⟩ :=
      readThrow_cases hthrow
    · exact ih hrest
    rcases hchunk with ⟨-, hchunk⟩ | ⟨_, _, _, _, -, -, -, hrest⟩
    · obtain ⟨-, -, -, -, -, -, hclose⟩ := chunkThrow_threw hchunk
      rw [shouldClose, hclose]
      exact (Bool.or_eq_false_iff.mp hopen).2
    · exact ih hrest

variable {start : SharedEngine n} {outputLimit : ℕ}

theorem Orderly.readThrow (throw : Throw) (results : List RecvResult) : ∀ {c c' : Connection n},
    c.Orderly → c.Accountable hash start outputLimit →
    readThrow hash throw results c = .ok (true, c') →
    c'.Orderly ∧ c'.outputLimit = outputLimit ∧ c'.closeImmediately = none := by
  induction results with
  | nil =>
    intro c c' _ _ hthrow
    cases hthrow
  | cons result results ih =>
    intro c c' h ha hthrow
    obtain ⟨hopen, ⟨rfl, hrest⟩ | ⟨bytes, pos, le, room, rfl, hroom, hfits, hchunk⟩⟩ :=
      readThrow_cases hthrow
    · exact ih h ha hrest
    obtain ⟨hwrite, hclosed⟩ := Bool.or_eq_false_iff.mp hopen
    have hnone := closeImmediately_eq_none.mpr hclosed
    rcases hchunk with ⟨rfl, hchunk⟩ | ⟨next, rest, input, c₁, rfl, hinput, hprocess, hrest⟩
    · obtain ⟨-, -, -, -, -, hqueued, hclose⟩ := chunkThrow_threw hchunk
      exact ⟨h.of_queued hnone (hqueued.of_source rfl rfl rfl rfl rfl),
        hqueued.outputLimit.trans ha.outputLimit_eq, hclose.trans hnone⟩
    · obtain ⟨input', -, -, hinput', hensures⟩ := ha.receive hwrite hnone le
      rw [hinput] at hinput'
      cases hinput'
      have hqueued := processLoop_queued hash input.readableBytes (c := { c with
        socket.received := c.socket.received ++ bytes
        input := input }) (ha.settled (by simp [Lost, hnone])).sound
      rw [hprocess] at hensures
      rw [show processLoop hash input.readableBytes _ = _ from hprocess] at hqueued
      exact ih (h.of_queued hnone (hqueued.1.of_source rfl rfl rfl rfl rfl)) hensures hrest

/-! ## The life of a connection

Handlers are called one after another, and one that throws is the last. -/

/-- Some calls of handlers that return, with whether the connection was to be kept, and perhaps one
of `handle_readable` that throws. -/
def live (hash : Bytes → UInt64) (events : List Event) (threw : Option (Throw × List RecvResult))
    (c : Connection n) : Except Fault ((List Bool × Bool) × Connection n) := do
  let (kept, c) ← Transition.run (Connection.step hash) c events
  match threw with
  | none => .ok ((kept, false), c)
  | some (place, reads) => do
    let (thrown, c) ← Connection.readThrow hash place reads c
    .ok ((kept, thrown), c)

private theorem live_of_run {events : List Event} {kept : List Bool}
    (h : Transition.run (Connection.step hash) c events = .ok (kept, c')) :
    live hash events none c = .ok ((kept, false), c') := by
  rw [live, h]
  rfl

theorem live_append {events : List Event} {kept : List Bool}
    (h : live hash events none c = .ok ((kept, false), c')) (more : List Event)
    (threw : Option (Throw × List RecvResult)) :
    live hash (events ++ more) threw c
      = live hash more threw c' >>= fun r ↦ .ok ((kept ++ r.1.1, r.1.2), r.2) := by
  obtain ⟨⟨kept', c₁⟩, hrun, h⟩ := Except.bind_eq_ok_iff.mp h
  cases h
  rw [live, live, run_append hrun]
  cases Transition.run (Connection.step hash) c' more with
  | error fault => rfl
  | ok r =>
    cases threw with
    | none => rfl
    | some threw =>
      show (Connection.readThrow hash threw.1 threw.2 r.2 >>= _)
        = (Connection.readThrow hash threw.1 threw.2 r.2 >>= _) >>= _
      cases Connection.readThrow hash threw.1 threw.2 r.2 <;> rfl

/-- More of the life of a connection keeps its ledger, and it sees of the engine only the responses
it puts down. -/
def Acts (hash : Bytes → UInt64) (c : Connection n) (events : List Event)
    (threw : Option (Throw × List RecvResult)) (kept : List Bool) (c' : Connection n) : Prop :=
  ∀ executed responses, Booked executed responses c → ∃ more answers,
    Sees hash (live hash events threw) c (kept, threw.isSome) c' more answers
    ∧ ((contents c'.socket.received).error = none →
      Ledger (executed ++ more) (responses ++ answers) c')
    ∧ (threw = none → Booked (executed ++ more) (responses ++ answers) c')

theorem acts_of_run {events : List Event} {kept : List Bool}
    (h : Transition.run (Connection.step hash) c events = .ok (kept, c')) :
    Acts hash c events none kept c' := by
  intro executed responses hbooked
  obtain ⟨more, answers, hsees, hbooked'⟩ := hbooked.run events h
  exact ⟨more, answers, ⟨hsees.valid, hsees.responds, fun s s' hrun ↦
    live_of_run (hsees.same s s' hrun)⟩, fun herror ↦ (hbooked' herror).1, fun _ ↦ hbooked'⟩

theorem acts_of_throw {throw : Throw} {reads : List RecvResult}
    (h : Connection.readThrow hash throw reads c = .ok (true, c')) :
    Acts hash c [] (some (throw, reads)) [] c' := by
  intro executed responses hbooked
  obtain ⟨more, answers, hsees, hledger⟩ := hbooked.readThrow throw reads h
  refine ⟨more, answers, ⟨hsees.valid, hsees.responds, fun s s' hrun ↦ ?_⟩, hledger, by rintro ⟨⟩⟩
  show (Connection.readThrow hash throw reads { c with engine := s } >>= _) = _
  rw [hsees.same s s' hrun]
  rfl

theorem live_orderly (hash : Bytes → UInt64) {capacity : ℕ}
    (hcapacity : capacity < Checked.wordSize)
    {e₀ e : CacheEngine n} (hnew : CacheEngine.new capacity n = .ok e₀)
    (hreach : Reachable (CacheEngine.call hash) e₀ e) (upcoming : ℕ → Surroundings n)
    {events : List Event} {threw : Option (Throw × List RecvResult)} {kept : List Bool}
    (h : live hash events threw (new ⟨e, upcoming⟩ outputLimit) = .ok ((kept, threw.isSome), c)) :
    c.Orderly ∧ c.outputLimit = outputLimit ∧ c.closeImmediately ≠ some .inputLimit := by
  obtain ⟨⟨kept', c₁⟩, hrun, h⟩ := Except.bind_eq_ok_iff.mp h
  have hensures := run_orderly hash hcapacity outputLimit hnew hreach upcoming events
  rw [hrun] at hensures
  obtain ⟨horderly, haccountable⟩ := hensures
  cases threw with
  | none =>
    cases h
    exact ⟨horderly, haccountable.outputLimit_eq, haccountable.closeImmediately_ne⟩
  | some threw =>
    obtain ⟨⟨thrown, c₂⟩, hthrow, h⟩ := Except.bind_eq_ok_iff.mp h
    cases h
    obtain ⟨horderly', hlimit, hnone⟩ := horderly.readThrow threw.1 threw.2 haccountable hthrow
    exact ⟨horderly', hlimit, by rw [hnone]; rintro ⟨⟩⟩

end Connection

end HighCache
