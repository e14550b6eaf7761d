import HighCache.Net.Orderly

/-!
# The limits of a connection

Four checks on the way of a request are there for safety and can never fail. The input buffer holds
an unfinished frame when `recv` is called, which is shorter than the longest frame, so there is room
for a chunk. A frame whose lengths are within their own limits is within the limit of frames. And
what the cache returns, and what a decoder says about a wrong header, fits into a response. The one
limit that is reached in practice, that of the output, is kept.
-/

namespace HighCache

open Protocol

/-! ## Errors about headers

The decoder could say that a frame is too long. It does not, because lengths that are within their
own limits add up to less. -/

namespace Protocol

/-- What `decode_request` says about a wrong header: never that its frame is too long, and nothing
that does not fit into a response. -/
private theorem error_of_decodeRequest {input : Buffer} {request : Request} {error : ProtocolError}
    {decoded : Decoded Request} (h : decodeRequest input request error = .ok decoded)
    (hresult : decoded.result = .error) :
    decoded.error.message ≠ "request frame length overflow"
      ∧ ∃ frame, encodeResponse (Connection.errorResponse decoded.error) = .ok frame := by
  have hspec := decodeRequest_spec input request error
  cases hframe : nextFrame input.readableView with
  | incomplete =>
    rw [hframe, h] at hspec
    cases hspec
    cases hresult
  | complete r rest =>
    rw [hframe] at hspec
    obtain ⟨input', hdecode, -⟩ := hspec
    rw [h] at hdecode
    cases hdecode
    cases hresult
  | invalid e =>
    rw [hframe, h] at hspec
    cases hspec
    obtain ⟨message, hproblem, rfl⟩ := problem_of_invalid hframe
    obtain ⟨hlength, hne⟩ := RequestHeader.message_of_problem _ message hproblem
    exact ⟨hne, encodeResponse_of_le rfl (hlength.trans (by decide))⟩

end Protocol

/-! ## The limits

The checks on the input and on the response never fail, and the output stays within its limit. So of
the reasons for closing a connection one cannot occur, that of the input. -/

namespace Connection

variable {n : ℕ} {hash : Bytes → UInt64} {start : SharedEngine n} {outputLimit : ℕ}

/-- Input is never the reason for closing. -/
theorem Accountable.closeImmediately_ne {c : Connection n}
    (h : c.Accountable hash start outputLimit) : c.closeImmediately ≠ some .inputLimit := by
  by_cases hlost : c.Lost
  · rcases hlost with hreason | hreason
    · rw [hreason]
      rintro ⟨⟩
    · rw [hreason]
      rintro ⟨⟩
  · exact (h.settled hlost).closeImmediately

/-- **No limit is exceeded and no check of a limit can fail.** In every state that a sequence of
handler calls leads to, and in every state in which a further call of `handle_readable` calls `recv`
again after some answers: the output is within its limit; the input is shorter than the longest
frame, so the room that is left is computed without underflow and holds a chunk; the connection has
not been closed for its input; every request gets a response that can be encoded. `decode_request`
never says that a frame is too long, and what it says fits into a response. A run stops only where a
buffer of more than `2 ^ 62` bytes cannot grow, never because a response cannot be encoded. -/
theorem run_within_limits (hash : Bytes → UInt64) (capacity outputLimit : UInt64)
    {e₀ e : CacheEngine n} (hnew : CacheEngine.new capacity.toNat n = .ok e₀)
    (hreach : Transition.Reachable (CacheEngine.call hash) e₀ e) (upcoming : ℕ → Surroundings n)
    (events : List Event) :
    ((∃ kept c, Transition.run (step hash) (new ⟨e, upcoming⟩ outputLimit.toNat) events
        = .ok (kept, c)
      ∧ c.pendingOutputBytes ≤ outputLimit.toNat
      ∧ c.closeImmediately ≠ some .inputLimit
      ∧ (∀ results c', readLoop hash results c = .ok c' →
        c'.pendingOutputBytes ≤ outputLimit.toNat ∧ c'.closeImmediately ≠ some .inputLimit
        ∧ (c'.closeAfterWrite = false → c'.shouldClose = false →
          c'.input.readableBytes < maxRequestFrameSize
          ∧ Checked.sub maxInputBufferSize c'.input.readableBytes
            = .ok (maxInputBufferSize - c'.input.readableBytes)
          ∧ readChunkSize ≤ maxInputBufferSize - c'.input.readableBytes))
      ∧ (c.shouldClose = false → ∀ request, ∃ response engine frame,
        c.engine.respond hash request = .ok (response, engine)
        ∧ encodeResponse response = .ok frame))
    ∨ (2 ^ 62 < outputLimit.toNat ∧ ∃ fault, Buffer.Full fault
      ∧ Transition.run (step hash) (new ⟨e, upcoming⟩ outputLimit.toNat) events = .error fault))
    ∧ ∀ input request error decoded, decodeRequest input request error = .ok decoded →
      decoded.result = .error → decoded.error.message ≠ "request frame length overflow"
        ∧ ∃ frame, encodeResponse (errorResponse decoded.error) = .ok frame := by
  refine ⟨?_, fun input request error decoded hdecode hresult ↦
    error_of_decodeRequest hdecode hresult⟩
  have hrun := run_orderly hash capacity.toNat_lt outputLimit.toNat hnew hreach upcoming events
  cases hresult : Transition.run (step hash) (new ⟨e, upcoming⟩ outputLimit.toNat) events with
  | error fault =>
    rw [hresult] at hrun
    obtain ⟨hfull, hlimit, -⟩ := hrun
    exact Or.inr ⟨hlimit, fault, hfull, rfl⟩
  | ok r =>
    rw [hresult] at hrun
    obtain ⟨kept, c⟩ := r
    obtain ⟨horderly, haccount⟩ := hrun
    have hpending : ∀ {c' : Connection n}, c'.Orderly →
        c'.Accountable hash ⟨e, upcoming⟩ outputLimit.toNat →
        c'.pendingOutputBytes ≤ outputLimit.toNat :=
      fun ho ha ↦ ha.outputLimit_eq ▸ ho.pending
    refine Or.inl ⟨kept, c, rfl, hpending horderly haccount, haccount.closeImmediately_ne, ?_, ?_⟩
    · intro results c' hloop
      have hensures := Orderly.readLoop results horderly haccount
      rw [hloop] at hensures
      obtain ⟨horderly', haccount'⟩ := hensures
      refine ⟨hpending horderly' haccount', haccount'.closeImmediately_ne, fun hopen hclosed ↦ ?_⟩
      -- what is left in the input is an unfinished frame
      obtain ⟨-, hshort⟩ :=
        haccount'.readableBytes_lt hopen (closeImmediately_eq_none.mpr hclosed)
      have hmax : maxInputBufferSize = maxRequestFrameSize + readChunkSize := rfl
      exact ⟨hshort, Checked.sub_eq (by omega), by omega⟩
    · intro hclosed request
      have hnone := closeImmediately_eq_none.mpr hclosed
      have hsound := (haccount.settled (by simp [Lost, hnone])).sound
      obtain ⟨response, engine, frame, hrespond, -, -, hencode⟩ := hsound.respond hash request
      exact ⟨response, engine, frame, hrespond, hencode⟩

/-- A DELETE and the first bytes of another. -/
private def oneAndAHalf : List Event :=
  [.readable [.ofBytes (requestFrame 3 9 [] ++ (requestFrame 3 10 []).take 10)]]

/-- The answer to the first fills the limit, and the connection goes on. -/
theorem run_within_limits_tight :
    ∃ kept c, Transition.run (step fun _ ↦ 0) (new .quiet (20 : UInt64).toNat) oneAndAHalf
        = .ok (kept, c)
      ∧ c.shouldClose = false ∧ c.input.readableBytes = 10
      ∧ c.pendingOutputBytes ≤ (20 : UInt64).toNat ∧ c.closeImmediately ≠ some .inputLimit := by
  have hstate : (Transition.run (step fun _ ↦ 0) (new .quiet (20 : UInt64).toNat)
      oneAndAHalf).toOption.map (fun r ↦ (r.2.shouldClose, r.2.input.readableBytes))
      = some (false, 10) := by decide +kernel
  rcases (run_within_limits (fun _ ↦ 0) 100 20 SharedEngine.new_quiet (.refl _ _)
    SharedEngine.quiet.upcoming oneAndAHalf).1 with ⟨kept, c, hrun, hpending, hreason, -⟩ |
      ⟨hlarge, -⟩
  · change Transition.run _ (new .quiet _) _ = _ at hrun
    rw [hrun] at hstate
    obtain ⟨hopen, hinput⟩ := Prod.mk.inj (Option.some.inj hstate)
    exact ⟨kept, c, hrun, hopen, hinput, hpending, hreason⟩
  · exact absurd hlarge (by decide)

end Connection

end HighCache
