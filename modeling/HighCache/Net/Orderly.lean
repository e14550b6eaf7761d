import HighCache.Net.Dialogue
import HighCache.Protocol.Responses

/-!
# An orderly connection

Three flags and two buffers decide what a connection waits for and when it is closed, and they are
written from many places. Whatever the order of the handlers and the answers of the socket, between
two calls they agree: a connection that will not be read again has something to write or is closed,
so it never waits for nothing; output is only dropped for a reason that says so; and no more output
is queued than the limit allows.

Processing input is the one part that can queue output. `Queued c c'` collects what it may do to a
connection, and `processLoop` is a chain of such steps.
-/

namespace HighCache

open Protocol

namespace Connection

variable {n : ℕ} {hash : Bytes → UInt64}

/-! ## Queueing

A relation that is transitive: what several steps of processing may do is what one may do. -/

/-- `c'` is `c` after some responses have been queued, none of them empty; the last one may have
been too long, and then the connection is closed. -/
structure Queued (c c' : Connection n) : Prop where
  peerClosed : c'.peerClosed = c.peerClosed
  outputLimit : c'.outputLimit = c.outputLimit
  output : ∃ out, c'.output.readableView = c.output.readableView ++ out
  pending : c.pendingOutputBytes ≤ c.outputLimit → c'.pendingOutputBytes ≤ c'.outputLimit
  closeAfterWrite : c'.closeAfterWrite = c.closeAfterWrite ∨ c'.output.readableView ≠ []
  closeImmediately : c'.closeImmediately = c.closeImmediately
    ∨ c'.closeImmediately = (c.closeImmediately <|> some .outputLimit)

namespace Queued

variable {c c' c'' : Connection n}

theorem of_eq (houtput : c'.output = c.output) (hlimit : c'.outputLimit = c.outputLimit)
    (hpeer : c'.peerClosed = c.peerClosed) (hwrite : c'.closeAfterWrite = c.closeAfterWrite)
    (hclosed : c'.closeImmediately = c.closeImmediately) : Queued c c' where
  peerClosed := hpeer
  outputLimit := hlimit
  output := ⟨[], by rw [houtput, List.append_nil]⟩
  pending := by
    rw [pendingOutputBytes, pendingOutputBytes, houtput, hlimit]
    exact id
  closeAfterWrite := Or.inl hwrite
  closeImmediately := Or.inl hclosed

theorem trans (h : Queued c c') (h' : Queued c' c'') : Queued c c'' := by
  obtain ⟨out, hout⟩ := h.output
  obtain ⟨out', hout'⟩ := h'.output
  refine ⟨h'.peerClosed.trans h.peerClosed, h'.outputLimit.trans h.outputLimit,
    ⟨out ++ out', by rw [hout', hout, List.append_assoc]⟩, fun hle ↦ h'.pending (h.pending hle),
    ?_, ?_⟩
  · rcases h'.closeAfterWrite with heq | hne
    · rcases h.closeAfterWrite with heq' | hne'
      · exact Or.inl (heq.trans heq')
      · refine Or.inr ?_
        rw [hout']
        exact List.append_ne_nil_of_left_ne_nil hne' _
    · exact Or.inr hne
  · -- the first reason for closing stays
    rcases h.closeImmediately with heq | heq
    · rw [← heq]
      exact h'.closeImmediately
    · right
      rcases h'.closeImmediately with heq' | heq'
      · rw [heq', heq]
      · rw [heq', heq]
        cases c.closeImmediately <;> rfl

theorem of_source (h : Queued c' c'') (houtput : c'.output = c.output)
    (hlimit : c'.outputLimit = c.outputLimit) (hpeer : c'.peerClosed = c.peerClosed)
    (hwrite : c'.closeAfterWrite = c.closeAfterWrite)
    (hclosed : c'.closeImmediately = c.closeImmediately) : Queued c c'' :=
  (of_eq houtput hlimit hpeer hwrite hclosed).trans h

theorem close (c : Connection n) : Queued c (c.close .outputLimit) where
  peerClosed := rfl
  outputLimit := rfl
  output := ⟨[], (List.append_nil _).symm⟩
  pending := id
  closeAfterWrite := Or.inl rfl
  closeImmediately := Or.inr rfl

end Queued

theorem queueResponse_queued (c : Connection n) {response : Response} {frame : Bytes}
    (hframe : encodeResponse response = .ok frame) :
    (c.queueResponse response).Ensures
      (fun r ↦ Queued c r.2 ∧ (r.1 = true → r.2.output.readableView ≠ []) ∧ r.2.engine = c.engine)
      Buffer.Full := by
  unfold queueResponse
  rw [hframe]
  dsimp only
  split
  · exact ⟨.close c, by rintro ⟨⟩, rfl⟩
  · rename_i hfits
    have hpos := length_encodeResponse_pos hframe
    have happend := c.output.append_ensures frame
    cases hresult : c.output.append frame with
    | error fault =>
      rw [hresult] at happend
      exact happend.2
    | ok output =>
      rw [hresult] at happend
      have hview : output.readableView = c.output.readableView ++ frame := happend
      have hlength : output.readableBytes = c.output.readableBytes + frame.length := by
        rw [← Buffer.length_readableView, hview, List.length_append, Buffer.length_readableView]
      have hne : output.readableView ≠ [] := by
        rw [hview]
        exact List.append_ne_nil_of_right_ne_nil _ (List.length_pos_iff.mp hpos)
      refine ⟨⟨rfl, rfl, ⟨frame, hview⟩, fun _ ↦ ?_, Or.inl rfl, Or.inl rfl⟩, fun _ ↦ hne, rfl⟩
      show output.readableBytes ≤ c.outputLimit
      omega

/-- **Processing only queues**, and no response is too long to be encoded. -/
theorem processLoop_queued (hash : Bytes → UInt64) (fuel : ℕ) : ∀ {c : Connection n},
    c.engine.Sound →
    (processLoop hash fuel c).Ensures (fun r ↦ Queued c r.2 ∧ r.2.engine.Sound) Buffer.Full := by
  induction fuel with
  | zero =>
    intro c h
    exact ⟨.of_eq rfl rfl rfl rfl rfl, h⟩
  | succ fuel ih =>
    intro c h
    rw [processLoop]
    by_cases hempty : c.input.empty = true
    · rw [if_pos hempty]
      exact ⟨.of_eq rfl rfl rfl rfl rfl, h⟩
    rw [if_neg hempty]
    have hdecode := decodeRequest_spec c.input ⟨.get, 0, [], [], 0⟩ .none
    cases hframe : nextFrame c.input.readableView with
    | incomplete =>
      rw [hframe] at hdecode
      rw [hdecode]
      exact ⟨.of_eq rfl rfl rfl rfl rfl, h⟩
    | invalid error =>
      rw [hframe] at hdecode
      rw [hdecode]
      obtain ⟨-, -, hmessage⟩ := error_of_invalid hframe
      obtain ⟨frame, hencode⟩ : ∃ frame, encodeResponse (errorResponse error) = .ok frame :=
        encodeResponse_of_le rfl (hmessage.trans (by decide))
      show (queueProtocolError error { c with input := c.input.retrieveAll }).Ensures _ _
      unfold queueProtocolError
      refine (queueResponse_queued _ hencode).bind ?_
      rintro ⟨queued, c'⟩ ⟨hqueued, hne, hengine⟩
      have hqueued' : Queued c c' := hqueued.of_source rfl rfl rfl rfl rfl
      have hsound : c'.engine.Sound := hengine ▸ h
      cases queued with
      | false => exact ⟨hqueued', hsound⟩
      | true =>
        -- the flag is set only where the response is in the output
        exact ⟨⟨hqueued'.peerClosed, hqueued'.outputLimit, hqueued'.output, hqueued'.pending,
          Or.inr (hne rfl), hqueued'.closeImmediately⟩, hsound⟩
    | complete request rest =>
      rw [hframe] at hdecode
      obtain ⟨input, hdecode, -⟩ := hdecode
      rw [hdecode]
      obtain ⟨response, engine, frame, hrespond, hsound, -, hencode⟩ := h.respond hash request
      show (execute hash request { c with input := input } >>= _).Ensures _ _
      unfold execute
      dsimp only
      rw [hrespond]
      refine (queueResponse_queued _ hencode).bind ?_
      rintro ⟨executed, c'⟩ ⟨hqueued, -, hengine⟩
      have hqueued' : Queued c c' := hqueued.of_source rfl rfl rfl rfl rfl
      have hsound' : c'.engine.Sound := hengine ▸ hsound
      cases executed with
      | false => exact ⟨hqueued', hsound'⟩
      | true => exact (ih hsound').mono fun r hr ↦ ⟨hqueued'.trans hr.1, hr.2⟩

/-! ## The invariant

`Restrained` is what holds within the loop of `handle_writable`, where the output may be empty
before the connection is closed. `Orderly` holds between two calls. -/

/-- Nothing is dropped without a reason, and no more is queued than allowed. -/
structure Restrained (c : Connection n) : Prop where
  drained : c.closeImmediately = some .drained → c.output.readableView = []
  pending : c.pendingOutputBytes ≤ c.outputLimit

/-- What holds between two calls of the handlers. -/
structure Orderly (c : Connection n) : Prop extends Restrained c where
  /-- A connection that will not be read again and has nothing to write is closed. -/
  closing : c.closeAfterWrite = true ∨ c.peerClosed = true → c.output.readableView = [] →
    c.shouldClose = true

theorem orderly_new (engine : SharedEngine n) (outputLimit : ℕ) :
    (new engine outputLimit).Orderly where
  drained := by rintro ⟨⟩
  pending := Nat.zero_le _
  closing := by
    rintro (h | h)
    · cases h
    · cases h

theorem shouldClose_close (c : Connection n) (reason : CloseReason) :
    (c.close reason).shouldClose = true := by
  rw [shouldClose, close]
  cases c.closeImmediately <;> rfl

theorem Restrained.close {c : Connection n} (h : c.Restrained) {reason : CloseReason}
    (hreason : reason = .drained → c.output.readableView = []) : (c.close reason).Orderly where
  drained := by
    intro hdrained
    cases hclosed : c.closeImmediately with
    | none =>
      rw [Connection.close, hclosed] at hdrained
      exact hreason (Option.some.inj hdrained)
    | some reason' =>
      rw [Connection.close, hclosed] at hdrained
      exact h.drained (hclosed.trans hdrained)
  pending := h.pending
  closing := fun _ _ ↦ shouldClose_close c reason

theorem Orderly.of_queued {c c' : Connection n} (h : c.Orderly) (hnone : c.closeImmediately = none)
    (hqueued : Queued c c') : c'.Orderly where
  drained := by
    intro hdrained
    rcases hqueued.closeImmediately with heq | heq
    · rw [heq, hnone] at hdrained
      cases hdrained
    · rw [heq, hnone] at hdrained
      cases hdrained
  pending := hqueued.pending h.pending
  closing := by
    intro hclosing hempty
    obtain ⟨out, hout⟩ := hqueued.output
    rw [hempty] at hout
    -- the output was empty before, so the connection would have been closed before
    have hempty' : c.output.readableView = [] := (List.append_eq_nil_iff.mp hout.symm).1
    have hclosed : c.shouldClose = true := by
      refine h.closing ?_ hempty'
      rw [hqueued.peerClosed] at hclosing
      exact hclosing.imp_left fun hwrite ↦
        (hqueued.closeAfterWrite.resolve_right (not_not.mpr hempty)).symm.trans hwrite
    rw [shouldClose, hnone] at hclosed
    cases hclosed

theorem Orderly.notePeerClosed {c : Connection n} (h : c.Orderly) : c.notePeerClosed.Orderly := by
  have hrestrained : Restrained { c with peerClosed := true } := ⟨h.drained, h.pending⟩
  unfold Connection.notePeerClosed
  dsimp only
  split
  · rename_i hempty
    exact hrestrained.close fun _ ↦ c.output.empty_iff.mp hempty
  · rename_i hpending
    exact ⟨hrestrained, fun _ hempty ↦ absurd (c.output.empty_iff.mpr hempty) hpending⟩

theorem Restrained.finishWriting {c : Connection n} (h : c.Restrained) :
    c.finishWriting.Orderly := by
  unfold Connection.finishWriting
  split
  · rename_i hdone
    rw [Bool.and_eq_true] at hdone
    exact h.close fun _ ↦ c.output.empty_iff.mp hdone.1
  · rename_i hdone
    refine ⟨h, fun hclosing hempty ↦ absurd ?_ hdone⟩
    rw [Bool.and_eq_true, Bool.or_eq_true]
    exact ⟨c.output.empty_iff.mpr hempty, hclosing⟩

variable {start : SharedEngine n} {outputLimit : ℕ}

theorem Orderly.readLoop (results : List RecvResult) : ∀ {c : Connection n}, c.Orderly →
    c.Accountable hash start outputLimit →
    (readLoop hash results c).Ensures
      (fun c' ↦ c'.Orderly ∧ c'.Accountable hash start outputLimit)
      fun fault ↦ Buffer.Full fault ∧ Overgrown outputLimit fault := by
  induction results with
  | nil => exact fun h ha ↦ ⟨h, ha⟩
  | cons result results ih =>
    intro c h ha
    unfold Connection.readLoop
    by_cases hclosing : (c.closeAfterWrite || c.shouldClose) = true
    · rw [if_pos hclosing]
      exact ⟨h, ha⟩
    rw [if_neg hclosing]
    rw [Bool.or_eq_true, not_or, Bool.not_eq_true, Bool.not_eq_true] at hclosing
    obtain ⟨hopen, hclosed⟩ := hclosing
    have hnone := closeImmediately_eq_none.mpr hclosed
    cases result with
    | received bytes hpos hle =>
      -- there is room for every chunk, and the buffer can take it
      obtain ⟨input, hsub, hroom, happend, hprocess⟩ := ha.receive hopen hnone hle
      dsimp only
      rw [hsub, Except.ok_bind_eq, if_neg (Nat.not_lt.mpr hroom), happend, Except.ok_bind_eq]
      have hsound : c.engine.Sound := (ha.settled (by simp [Lost, hnone])).sound
      have hqueued := processLoop_queued hash input.readableBytes (c := { c with
        socket.received := c.socket.received ++ bytes
        input := input }) hsound
      refine (hqueued.and hprocess).bind ?_
      rintro ⟨processed, c'⟩ ⟨⟨hq, -⟩, ha'⟩
      have h' : c'.Orderly := h.of_queued hnone (hq.of_source rfl rfl rfl rfl rfl)
      dsimp only
      split
      · exact ih h' ha'
      · exact ⟨h', ha'⟩
    | closed => exact ⟨h.notePeerClosed, ha.notePeerClosed⟩
    | interrupted => exact ih h ha
    | wouldBlock => exact ⟨h, ha⟩
    | failed => exact ⟨h.toRestrained.close (by rintro ⟨⟩), ha.close_of_lost hnone (Or.inr rfl)⟩

/-- `handle_writable`, by induction on the answers of `send`. In the loop a connection may have
nothing left to write and not be closed yet. -/
theorem Restrained.handleWritable (results : List SendResult) : ∀ {c : Connection n},
    c.Restrained → ∃ r, c.handleWritable results = .ok r ∧ r.2.Orderly := by
  induction results with
  | nil =>
    intro c h
    rw [Connection.handleWritable]
    split
    · exact ⟨_, rfl, h.finishWriting⟩
    · rename_i hpending
      refine ⟨_, rfl, h, fun _ hempty ↦ absurd ?_ hpending⟩
      rw [c.output.empty_iff.mpr hempty, Bool.true_or]
  | cons result results ih =>
    intro c h
    unfold Connection.handleWritable
    by_cases hdone : (c.output.empty || c.shouldClose) = true
    · rw [if_pos hdone]
      exact ⟨_, rfl, h.finishWriting⟩
    rw [if_neg hdone]
    cases result with
    | accepted count hpos =>
      obtain ⟨output, hretrieve, hview, -⟩ := Buffer.retrieve_eq (b := c.output)
        (min_le_right count c.output.readableBytes)
      dsimp only
      rw [hretrieve, Except.ok_bind_eq]
      refine ih ⟨fun hdrained ↦ ?_, ?_⟩
      · rw [hview, h.drained hdrained, List.drop_nil]
      · show output.readableBytes ≤ c.outputLimit
        rw [← Buffer.length_readableView, hview, List.length_drop, Buffer.length_readableView]
        exact (Nat.sub_le _ _).trans h.pending
    | interrupted => exact ih h
    | wouldBlock =>
      refine ⟨_, rfl, h, fun _ hempty ↦ absurd ?_ hdone⟩
      rw [c.output.empty_iff.mpr hempty, Bool.true_or]
    | failed => exact ⟨_, rfl, h.close (by rintro ⟨⟩)⟩

theorem Orderly.step {c : Connection n} (h : c.Orderly)
    (ha : c.Accountable hash start outputLimit) (event : Event) :
    (c.step hash event).Ensures
      (fun r ↦ r.2.Orderly ∧ r.2.Accountable hash start outputLimit)
      fun fault ↦ Buffer.Full fault ∧ Overgrown outputLimit fault := by
  cases event with
  | readable results =>
    refine (Orderly.readLoop results h ha).bind fun c' h' ↦ ?_
    exact h'
  | writable results =>
    obtain ⟨r, hr, h'⟩ := h.toRestrained.handleWritable results
    obtain ⟨r', hr', ha'⟩ := Accountable.handleWritable results ha
    show (c.handleWritable results).Ensures _ _
    rw [hr] at hr' ⊢
    cases hr'
    exact ⟨h', ha'⟩
  | peerClosed => exact ⟨h.notePeerClosed, ha.notePeerClosed⟩

theorem run_orderly (hash : Bytes → UInt64) {capacity : ℕ} (hcapacity : capacity < Checked.wordSize)
    (outputLimit : ℕ) {e₀ e : CacheEngine n} (hnew : CacheEngine.new capacity n = .ok e₀)
    (hreach : Transition.Reachable (CacheEngine.call hash) e₀ e) (upcoming : ℕ → Surroundings n)
    (events : List Event) :
    (Transition.run (step hash) (new ⟨e, upcoming⟩ outputLimit) events).Ensures
      (fun r ↦ r.2.Orderly ∧ r.2.Accountable hash ⟨e, upcoming⟩ outputLimit)
      fun fault ↦ Buffer.Full fault ∧ Overgrown outputLimit fault := by
  have hsound : (⟨e, upcoming⟩ : SharedEngine n).Sound :=
    hreach.invariant (CacheEngine.Sound.call hash) ⟨_, CacheEngine.simulates_new hcapacity hnew⟩
  have hstep : ∀ (c : Connection n) (event : Event),
      c.Orderly ∧ c.Accountable hash ⟨e, upcoming⟩ outputLimit →
      (c.step hash event).Ensures
        (fun r ↦ r.2.Orderly ∧ r.2.Accountable hash ⟨e, upcoming⟩ outputLimit)
        fun fault ↦ Buffer.Full fault ∧ Overgrown outputLimit fault :=
    fun c event h ↦ h.1.step h.2 event
  exact Transition.run_ensures hstep events ⟨orderly_new _ _, accountable_new hsound⟩

/-! ## Waiting

What a connection waits for, in terms of what it has to do. A connection that is closed waits for
nothing and does nothing more. -/

/-- An open connection waits for output to be taken exactly if there is some. -/
theorem desiredEvents_out {c : Connection n} (h : c.shouldClose = false) :
    c.desiredEvents &&& epollOut ≠ 0 ↔ c.output.empty = false := by
  unfold desiredEvents wantsWrite
  rw [h]
  cases c.output.empty <;> cases c.closeAfterWrite <;> cases c.peerClosed <;> decide

/-- It waits for input exactly if it may be read again. -/
theorem desiredEvents_in {c : Connection n} (h : c.shouldClose = false) :
    c.desiredEvents &&& epollIn ≠ 0 ↔ ¬(c.closeAfterWrite = true ∨ c.peerClosed = true) := by
  unfold desiredEvents wantsWrite
  rw [h]
  cases c.output.empty <;> cases c.closeAfterWrite <;> cases c.peerClosed <;> decide

/-- The two connections differ in their flags at most. -/
structure SameBuffers (c c' : Connection n) : Prop where
  socket : c'.socket = c.socket
  engine : c'.engine = c.engine
  input : c'.input = c.input
  output : c'.output = c.output

theorem SameBuffers.trans {c c' c'' : Connection n} (h : SameBuffers c c')
    (h' : SameBuffers c' c'') : SameBuffers c c'' :=
  ⟨h'.socket.trans h.socket, h'.engine.trans h.engine, h'.input.trans h.input,
    h'.output.trans h.output⟩

/-- Nothing happens on a connection that is closed. -/
theorem step_of_closed {c : Connection n} (h : c.shouldClose = true) (event : Event) :
    ∃ c', c.step hash event = .ok (false, c') ∧ c'.shouldClose = true ∧ SameBuffers c c' := by
  cases event with
  | readable results =>
    refine ⟨c, ?_, h, rfl, rfl, rfl, rfl⟩
    have hloop : readLoop hash results c = .ok c := by
      cases results with
      | nil => rfl
      | cons result results =>
        unfold Connection.readLoop
        rw [h, Bool.or_true, if_pos rfl]
    show handleReadable hash results c = _
    rw [handleReadable, hloop, Except.ok_bind_eq, h]
    rfl
  | writable results =>
    -- closing once more changes the reason at most
    have hfinish : c.finishWriting.shouldClose = true := by
      unfold finishWriting
      split
      · exact shouldClose_close c _
      · exact h
    refine ⟨c.finishWriting, ?_, hfinish, ?_⟩
    · show c.handleWritable results = _
      cases results <;>
        · unfold handleWritable
          rw [h, Bool.or_true, if_pos rfl, hfinish]
          rfl
    · unfold finishWriting
      split
      · exact ⟨rfl, rfl, rfl, rfl⟩
      · exact ⟨rfl, rfl, rfl, rfl⟩
  | peerClosed =>
    have hnote : c.notePeerClosed.shouldClose = true := by
      unfold notePeerClosed
      dsimp only
      split
      · exact shouldClose_close _ _
      · exact h
    refine ⟨c.notePeerClosed, ?_, hnote, ?_⟩
    · show Except.ok _ = _
      rw [hnote]
      rfl
    · unfold notePeerClosed
      dsimp only
      split
      · exact ⟨rfl, rfl, rfl, rfl⟩
      · exact ⟨rfl, rfl, rfl, rfl⟩

/-! ## Every sequence of events -/

/-- **A connection never waits for nothing, and drops nothing without a reason.** In every state
that a sequence of handler calls leads to: if the connection is to be closed after its output, or
the peer has closed, and there is no output, then it is closed; if it is not closed it waits for
input or output, for output exactly if there is some; if it was closed with output pending, then for
a socket error, the output limit or the input limit; and once it is closed, no later calls execute a
request or queue output. -/
theorem run_attended (hash : Bytes → UInt64) (capacity outputLimit : UInt64) {e₀ e : CacheEngine n}
    (hnew : CacheEngine.new capacity.toNat n = .ok e₀)
    (hreach : Transition.Reachable (CacheEngine.call hash) e₀ e) (upcoming : ℕ → Surroundings n)
    (events : List Event) :
    (∃ kept c, Transition.run (step hash) (new ⟨e, upcoming⟩ outputLimit.toNat) events
        = .ok (kept, c)
      ∧ (c.closeAfterWrite = true ∨ c.peerClosed = true → c.output.empty = true →
        c.shouldClose = true)
      ∧ (c.shouldClose = false →
        (c.desiredEvents &&& epollIn ≠ 0 ∨ c.desiredEvents &&& epollOut ≠ 0)
        ∧ (c.desiredEvents &&& epollOut ≠ 0 ↔ c.output.empty = false))
      ∧ (∀ reason, c.closeImmediately = some reason → c.output.empty = false →
        reason = .socketError ∨ reason = .outputLimit ∨ reason = .inputLimit)
      ∧ (c.shouldClose = true → ∀ later, ∃ kept' c', Transition.run (step hash) c later
          = .ok (kept', c') ∧ c'.shouldClose = true ∧ SameBuffers c c'))
    ∨ (2 ^ 62 < outputLimit.toNat
      ∧ ∃ what, Transition.run (step hash) (new ⟨e, upcoming⟩ outputLimit.toNat) events
        = .error (.exception what)) := by
  have hrun := run_orderly hash capacity.toNat_lt outputLimit.toNat hnew hreach upcoming events
  cases hresult : Transition.run (step hash) (new ⟨e, upcoming⟩ outputLimit.toNat) events with
  | error fault =>
    rw [hresult] at hrun
    obtain ⟨-, hlimit, what, rfl⟩ := hrun
    exact Or.inr ⟨hlimit, what, rfl⟩
  | ok r =>
    rw [hresult] at hrun
    obtain ⟨kept, c⟩ := r
    obtain ⟨horderly, -⟩ := hrun
    have hclosing : c.closeAfterWrite = true ∨ c.peerClosed = true → c.output.empty = true →
        c.shouldClose = true :=
      fun hclosing hempty ↦ horderly.closing hclosing (c.output.empty_iff.mp hempty)
    refine Or.inl ⟨kept, c, rfl, hclosing, ?_, ?_, ?_⟩
    · intro hopen
      refine ⟨?_, desiredEvents_out hopen⟩
      rw [desiredEvents_in hopen, desiredEvents_out hopen]
      -- a connection that is not read any more has output, or it would be closed
      by_cases hread : c.closeAfterWrite = true ∨ c.peerClosed = true
      · refine Or.inr (Bool.not_eq_true _ ▸ fun hempty ↦ ?_)
        rw [hclosing hread hempty] at hopen
        cases hopen
      · exact Or.inl hread
    · intro reason hreason hpending
      cases reason with
      | inputLimit => exact Or.inr (Or.inr rfl)
      | outputLimit => exact Or.inr (Or.inl rfl)
      | socketError => exact Or.inl rfl
      | drained =>
        rw [c.output.empty_iff.mpr (horderly.drained hreason)] at hpending
        cases hpending
    · intro hclosed later
      have hstep : ∀ (c' : Connection n) (event : Event),
          c'.shouldClose = true ∧ SameBuffers c c' →
          ∃ kept' c'', c'.step hash event = .ok (kept', c'')
            ∧ c''.shouldClose = true ∧ SameBuffers c c'' := by
        rintro c' event ⟨hclosed', hsame⟩
        obtain ⟨c'', hstep, hclosed'', hsame'⟩ := step_of_closed hclosed' event
        exact ⟨false, c'', hstep, hclosed'', hsame.trans hsame'⟩
      exact Transition.run_invariant hstep later ⟨hclosed, rfl, rfl, rfl, rfl⟩

/-- A header of zeros arrives, and the peer closes before it has taken the answer. -/
private def wrongHeader : List Event :=
  [.readable [.ofBytes (List.replicate 32 0)], .peerClosed, .writable [.ofCount 20, .wouldBlock]]

/-- The answer to a wrong header is still to be written after the peer has closed its side, and the
connection waits for that alone. -/
theorem run_attended_wrong_header :
    ∃ kept c, Transition.run (step fun _ ↦ 0) (new .quiet (4096 : UInt64).toNat) wrongHeader
        = .ok (kept, c)
      ∧ c.closeAfterWrite = true ∧ c.peerClosed = true ∧ c.shouldClose = false
      ∧ (c.desiredEvents &&& epollIn ≠ 0 ∨ c.desiredEvents &&& epollOut ≠ 0)
      ∧ (c.desiredEvents &&& epollOut ≠ 0 ↔ c.output.empty = false) := by
  have hstate : (Transition.run (step fun _ ↦ 0) (new .quiet (4096 : UInt64).toNat)
      wrongHeader).toOption.map (fun r ↦ (r.2.closeAfterWrite, r.2.peerClosed, r.2.shouldClose))
      = some (true, true, false) := by decide +kernel
  rcases run_attended (fun _ ↦ 0) 100 4096 SharedEngine.new_quiet (.refl _ _)
    SharedEngine.quiet.upcoming wrongHeader with ⟨kept, c, hrun, -, hwaits, -⟩ | ⟨hlarge, -⟩
  · change Transition.run _ (new .quiet _) _ = _ at hrun
    rw [hrun] at hstate
    obtain ⟨hwrite, hflags⟩ := Prod.mk.inj (Option.some.inj hstate)
    obtain ⟨hpeer, hopen⟩ := Prod.mk.inj hflags
    exact ⟨kept, c, hrun, hwrite, hpeer, hopen, hwaits hopen⟩
  · exact absurd hlarge (by decide)

end Connection

end HighCache
