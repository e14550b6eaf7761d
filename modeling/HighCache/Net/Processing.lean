import HighCache.Net.Orderly
import HighCache.Net.Replay

/-!
# What is executed of the input

The loop of `process_input` executes the requests of the input in their order. It stops at a frame
that is not finished, at a wrong header, or at a response that is too long; and of the engine it
sees no more than the responses (`Sees`). So what it executes is known from the bytes alone
(`processLoop_works`).
-/

namespace HighCache

open Protocol Transition

namespace Connection

variable {n : ℕ} {hash : Bytes → UInt64} {c c' : Connection n}

/-! ## Processing the input

The loop of `process_input` has three cases, as the input begins with a part of a frame, with a
wrong header or with a whole frame. None of them depends on the engine. -/

private theorem processLoop_of_incomplete (fuel : ℕ)
    (hframe : nextFrame c.input.readableView = .incomplete) :
    processLoop hash fuel c = .ok (true, c) := by
  cases fuel with
  | zero => rfl
  | succ fuel =>
    rw [processLoop]
    split
    · rfl
    · have hdecode := decodeRequest_spec c.input ⟨.get, 0, [], [], 0⟩ .none
      rw [hframe] at hdecode
      rw [hdecode]
      rfl

private theorem input_ne_empty (hframe : nextFrame c.input.readableView ≠ .incomplete) :
    ¬c.input.empty = true := by
  intro hempty
  rw [c.input.empty_iff.mp hempty] at hframe
  exact hframe rfl

private theorem processLoop_of_invalid (fuel : ℕ) {error : ProtocolError}
    (hframe : nextFrame c.input.readableView = .invalid error) :
    processLoop hash (fuel + 1) c
      = queueProtocolError error { c with input := c.input.retrieveAll } := by
  have hdecode := decodeRequest_spec c.input ⟨.get, 0, [], [], 0⟩ .none
  rw [hframe] at hdecode
  rw [processLoop, if_neg (input_ne_empty (by rw [hframe]; rintro ⟨⟩)), hdecode]
  rfl

private theorem processLoop_of_complete (fuel : ℕ) {input : Buffer} {request : Request}
    (hne : ¬c.input.empty = true) (hdecode : decodeRequest c.input ⟨.get, 0, [], [], 0⟩ .none
      = .ok ⟨.complete, input, request, .none⟩) :
    processLoop hash (fuel + 1) c = execute hash request { c with input := input } >>= fun r ↦
      if r.1 then processLoop hash fuel r.2 else .ok (false, r.2) := by
  rw [processLoop, if_neg hne, hdecode]
  rfl

theorem queueResponse_cases {response : Response} {queued : Bool}
    (h : c.queueResponse response = .ok (queued, c')) :
    (queued = false ∧ c' = c.close .outputLimit)
      ∨ ∃ frame output, encodeResponse response = .ok frame ∧ queued = true
        ∧ c' = { c with output := output }
        ∧ output.readableView = c.output.readableView ++ frame
        ∧ output.readableBytes ≤ c.outputLimit := by
  unfold queueResponse at h
  split at h
  · cases h
  · rename_i frame hframe
    dsimp only at h
    split at h
    · cases h
      exact .inl ⟨rfl, rfl⟩
    · rename_i hfits
      obtain ⟨output, houtput, h⟩ := Except.bind_eq_ok_iff.mp h
      cases h
      have happend := c.output.append_ensures frame
      rw [houtput] at happend
      have hview : output.readableView = c.output.readableView ++ frame := happend
      have hlength := congrArg List.length hview
      rw [List.length_append, Buffer.length_readableView, Buffer.length_readableView] at hlength
      exact .inr ⟨frame, output, hframe, rfl, rfl, hview, by omega⟩

private theorem sees_queueResponse {response : Response} {queued : Bool}
    (h : c.queueResponse response = .ok (queued, c')) :
    Sees hash (queueResponse response) c queued c' [] [] := by
  unfold queueResponse at h
  split at h
  · cases h
  · rename_i frame hframe
    dsimp only at h
    split at h
    · rename_i hlong
      cases h
      refine sees_of_blind rfl fun s ↦ ?_
      rw [queueResponse, hframe]
      exact if_pos hlong
    · rename_i hfits
      obtain ⟨output, houtput, h⟩ := Except.bind_eq_ok_iff.mp h
      cases h
      refine sees_of_blind rfl fun s ↦ ?_
      rw [queueResponse, hframe]
      dsimp only
      rw [if_neg hfits, houtput]
      rfl

private theorem sees_queueProtocolError {error : ProtocolError} {queued : Bool}
    (h : c.queueProtocolError error = .ok (queued, c')) :
    Sees hash (queueProtocolError error) c queued c' [] [] := by
  obtain ⟨⟨queued', c₁⟩, hqueue, h⟩ := Except.bind_eq_ok_iff.mp h
  have hlast : Sees hash (fun c ↦ if queued' then .ok (true, { c with closeAfterWrite := true })
      else .ok (false, c)) c₁ queued c' [] [] := by
    cases queued' <;>
      · cases h
        exact sees_of_blind rfl fun s ↦ rfl
  exact ((sees_queueResponse hqueue).bind (fun queued c ↦
    if queued then .ok (true, { c with closeAfterWrite := true }) else .ok (false, c)) hlast).congr
      fun s ↦ rfl

theorem execute_cases {request : Request} {executed : Bool}
    (hvalid : isValidOpcode request.opcode = true)
    (h : c.execute hash request = .ok (executed, c')) :
    ∃ response, Sees hash (execute hash request) c executed c' [request] [response]
      ∧ ((executed = false ∧ c'.socket = c.socket ∧ c'.shouldClose = true)
        ∨ ∃ frame engine output, encodeResponse response = .ok frame ∧ executed = true
          ∧ c' = { c with engine := engine, output := output }
          ∧ output.readableView = c.output.readableView ++ frame
          ∧ output.readableBytes ≤ c.outputLimit) := by
  obtain ⟨⟨response, s⟩, hrespond, hqueue⟩ := Except.bind_eq_ok_iff.mp h
  refine ⟨response, ?_, ?_⟩
  · have hboth := (sees_respond hvalid hrespond).bind queueResponse (sees_queueResponse hqueue)
    refine hboth.congr fun s ↦ ?_
    rw [execute]
    show (s.respond hash request >>= _) = ((s.respond hash request >>= _) >>= _)
    cases s.respond hash request <;> rfl
  · rcases queueResponse_cases hqueue with ⟨rfl, rfl⟩ | ⟨frame, output, hframe, rfl, rfl, hview⟩
    · exact .inl ⟨rfl, rfl, shouldClose_close _ _⟩
    · exact .inr ⟨frame, s, output, hframe, rfl, rfl, hview⟩

theorem valid_of_complete {bytes rest : Bytes} {request : Request}
    (h : nextFrame bytes = .complete request rest) : isValidOpcode request.opcode = true := by
  obtain ⟨frame, hencode, -⟩ := encode_nextFrame h
  exact ((encodeRequest_eq_ok_iff request frame).mp hencode).1.valid.opcode

/-! ## What it executes

One statement with everything the layers above use: which requests were executed, which responses
they got, where these are now, and that nothing else of the engine was seen. -/

/-- What has become of the input: some of the requests in it have been executed, and if the
connection has not been closed all of them, with the responses queued. -/
structure Works (c : Connection n) (processed : Bool) (c' : Connection n) (executed : List Request)
    (responses : List Response) : Prop where
  socket : c'.socket = c.socket
  requests : executed <+: (contents c.input.readableView).requests
  closed : processed = false → c'.shouldClose = true
  done : processed = true → executed = (contents c.input.readableView).requests
    ∧ c'.input.readableView = (contents c.input.readableView).rest
  queued : processed = true → (contents c.input.readableView).error = none →
    c'.closeAfterWrite = c.closeAfterWrite
      ∧ ∃ out, encodeAll responses = .ok out ∧ c'.output.readableView = c.output.readableView ++ out

private theorem works_of_incomplete (hframe : nextFrame c.input.readableView = .incomplete) :
    Works c true c [] [] where
  socket := rfl
  requests := List.nil_prefix
  closed := by rintro ⟨⟩
  done := fun _ ↦ by
    rw [contents_of_incomplete hframe]
    exact ⟨rfl, rfl⟩
  queued := fun _ _ ↦ ⟨rfl, [], rfl, (List.append_nil _).symm⟩

private theorem works_of_invalid {error : ProtocolError} {processed : Bool}
    (hframe : nextFrame c.input.readableView = .invalid error)
    (h : queueProtocolError error { c with input := c.input.retrieveAll } = .ok (processed, c')) :
    Works c processed c' [] [] := by
  obtain ⟨⟨queued, c₁⟩, hqueue, h⟩ := Except.bind_eq_ok_iff.mp h
  rcases queueResponse_cases hqueue with ⟨rfl, rfl⟩ | ⟨frame, output, -, rfl, rfl, -⟩
  · cases h
    exact ⟨rfl, List.nil_prefix, fun _ ↦ shouldClose_close _ _, by rintro ⟨⟩, by rintro ⟨⟩⟩
  · cases h
    refine ⟨rfl, List.nil_prefix, by rintro ⟨⟩, fun _ ↦ ?_, fun _ hnone ↦ ?_⟩
    · rw [contents_of_invalid hframe]
      exact ⟨rfl, rfl⟩
    · rw [contents_of_invalid hframe] at hnone
      cases hnone

theorem Works.cons {request : Request} {response : Response} {rest frame : Bytes}
    {input output : Buffer} {engine : SharedEngine n} {processed : Bool} {executed : List Request}
    {responses : List Response} (hframe : nextFrame c.input.readableView = .complete request rest)
    (hview : input.readableView = rest) (hencode : encodeResponse response = .ok frame)
    (hout : output.readableView = c.output.readableView ++ frame)
    (h : Works { c with input := input, engine := engine, output := output } processed c' executed
      responses) : Works c processed c' (request :: executed) (response :: responses) := by
  have hrest : ({ c with input := input, engine := engine, output := output } :
      Connection n).input.readableView = rest := hview
  refine ⟨h.socket, ?_, h.closed, fun hprocessed ↦ ?_, fun hprocessed hnone ↦ ?_⟩
  · have hrequests := h.requests
    rw [hrest] at hrequests
    rw [contents_of_complete hframe]
    exact (List.cons_prefix_cons).mpr ⟨rfl, hrequests⟩
  · obtain ⟨hall, hleft⟩ := h.done hprocessed
    rw [hrest] at hall hleft
    rw [contents_of_complete hframe]
    exact ⟨congrArg _ hall, hleft⟩
  · rw [contents_of_complete hframe] at hnone
    obtain ⟨hclose, out, hall, hqueued⟩ := h.queued hprocessed (by rw [hrest]; exact hnone)
    refine ⟨hclose, frame ++ out, encodeAll_cons hencode hall, ?_⟩
    rw [hqueued, ← List.append_assoc]
    exact congrArg (· ++ out) hout

/-- **What `process_input` executes are the requests of the input.** -/
theorem processLoop_works (fuel : ℕ) : ∀ {c c' : Connection n} {processed : Bool},
    c.input.readableBytes ≤ fuel → processLoop hash fuel c = .ok (processed, c') →
    ∃ executed responses, Sees hash (processLoop hash fuel) c processed c' executed responses
      ∧ Works c processed c' executed responses := by
  have hidle : ∀ {fuel : ℕ} {c c' : Connection n} {processed : Bool},
      nextFrame c.input.readableView = .incomplete →
      processLoop hash fuel c = .ok (processed, c') →
      ∃ executed responses, Sees hash (processLoop hash fuel) c processed c' executed responses
        ∧ Works c processed c' executed responses := by
    intro fuel c c' processed hframe h
    rw [processLoop_of_incomplete fuel hframe] at h
    cases h
    exact ⟨[], [], sees_of_blind rfl fun s ↦ processLoop_of_incomplete fuel hframe,
      works_of_incomplete hframe⟩
  induction fuel with
  | zero =>
    intro c c' processed hfuel h
    refine hidle ?_ h
    have hnil : c.input.readableView = [] := by
      rw [← List.length_eq_zero_iff, Buffer.length_readableView]
      omega
    rw [hnil]
    rfl
  | succ fuel ih =>
    intro c c' processed hfuel h
    cases hframe : nextFrame c.input.readableView with
    | incomplete => exact hidle hframe h
    | invalid error =>
      rw [processLoop_of_invalid fuel hframe] at h
      have hsees : Sees hash _ _ _ _ _ _ := sees_queueProtocolError h
      have hunfold : ∀ s : SharedEngine n, processLoop hash (fuel + 1) { c with engine := s } = _ :=
        fun s ↦ processLoop_of_invalid (c := { c with engine := s }) fuel hframe
      exact ⟨[], [], ⟨hsees.valid, hsees.responds, fun s s' hrun ↦
        (hunfold s).trans (hsees.same s s' hrun)⟩, works_of_invalid hframe h⟩
    | complete request rest =>
      have hne := input_ne_empty (by rw [hframe]; rintro ⟨⟩)
      have hdecode := decodeRequest_spec c.input ⟨.get, 0, [], [], 0⟩ .none
      rw [hframe] at hdecode
      obtain ⟨input, hdecode, hview⟩ := hdecode
      rw [processLoop_of_complete fuel hne hdecode] at h
      obtain ⟨⟨executed, c₁⟩, hexecute, h⟩ := Except.bind_eq_ok_iff.mp h
      obtain ⟨response, hsees, hcases⟩ := execute_cases (valid_of_complete hframe) hexecute
      -- the rest of the input, if the response has been queued
      have hrest : ∃ more responses, Sees hash (fun c ↦ if executed then processLoop hash fuel c
          else .ok (false, c)) c₁ processed c' more responses
          ∧ Works c processed c' (request :: more) (response :: responses) := by
        rcases hcases with ⟨rfl, hsocket, hclosed⟩ |
          ⟨frame, engine, output, hencode, rfl, rfl, hout, -⟩
        · cases h
          refine ⟨[], [], sees_of_blind rfl fun s ↦ rfl, hsocket, ?_, fun _ ↦ hclosed,
            by rintro ⟨⟩, by rintro ⟨⟩⟩
          rw [contents_of_complete hframe]
          exact (List.cons_prefix_cons).mpr ⟨rfl, List.nil_prefix⟩
        · have hlength := length_rest_lt hframe
          have hfuel' : input.readableBytes ≤ fuel := by
            rw [← Buffer.length_readableView, hview]
            rw [Buffer.length_readableView] at hlength
            omega
          obtain ⟨more, responses, hmore, hworks⟩ := ih hfuel' h
          exact ⟨more, responses, hmore, hworks.cons hframe hview hencode hout⟩
      obtain ⟨more, responses, hmore, hworks⟩ := hrest
      have hboth := hsees.bind (fun executed c ↦
        if executed then processLoop hash fuel c else .ok (false, c)) hmore
      have hunfold : ∀ s : SharedEngine n, processLoop hash (fuel + 1) { c with engine := s } = _ :=
        fun s ↦ processLoop_of_complete (c := { c with engine := s }) fuel hne hdecode
      exact ⟨request :: more, response :: responses, ⟨hboth.valid, hboth.responds,
        fun s s' hrun ↦ (hunfold s).trans (hboth.same s s' hrun)⟩, hworks⟩

end Connection

end HighCache
