import HighCache.Protocol.Responses

/-!
# Decoding as bytes arrive

A receiver calls its decoder whenever bytes have arrived, so the same frame may be looked at many
times, with more of it in the buffer each time. `Incremental` says what makes that sound, of either
decoder: while it answers `incomplete` nothing has happened, an answer of another kind does not
change with more bytes, no part of a frame gets one, and a receiver never waits for a frame that
cannot be finished.

It holds of every decoder that finds the frames of a `Framing`, since there everything but the
length is decided by the header.
-/

namespace HighCache

namespace Protocol

/-! ## What a receiver relies on -/

/-- What a receiver relies on when it decodes while bytes arrive. -/
structure Incremental {α : Type} (decode : Buffer → α → ProtocolError → Except Fault (Decoded α))
    (headerSize maxFrameSize : ℕ) : Prop where
  /-- Decoding returns. -/
  total : ∀ input message error, ∃ decoded, decode input message error = .ok decoded
  /-- An incomplete frame leaves everything as it was. -/
  incomplete : ∀ input message error decoded, decode input message error = .ok decoded →
    decoded.result = .incomplete → decoded = ⟨.incomplete, input, message, error⟩
  /-- A complete frame takes a number of bytes that does not depend on what comes after it, … -/
  complete : ∀ input message error decoded, decode input message error = .ok decoded →
    decoded.result = .complete →
    ∃ n ≤ input.readableBytes, decoded.input.readableView = input.readableView.drop n
      ∧ (∀ more (input₂ : Buffer) message₂ error₂,
        input₂.readableView = input.readableView ++ more →
        ∃ input₂', decode input₂ message₂ error₂
            = .ok ⟨.complete, input₂', decoded.message, decoded.error⟩
          ∧ input₂'.readableView = input₂.readableView.drop n)
      -- … and no fewer bytes are complete
      ∧ ∀ k < n, ∀ (input₂ : Buffer) message₂ error₂,
        input₂.readableView = input.readableView.take k →
        decode input₂ message₂ error₂ = .ok ⟨.incomplete, input₂, message₂, error₂⟩
  /-- A wrong frame leaves the buffer and the message as they were, and stays wrong. -/
  error : ∀ input message error decoded, decode input message error = .ok decoded →
    decoded.result = .error → decoded = ⟨.error, input, message, decoded.error⟩
      ∧ ∀ more (input₂ : Buffer) message₂ error₂,
        input₂.readableView = input.readableView ++ more →
        decode input₂ message₂ error₂ = .ok ⟨.error, input₂, message₂, decoded.error⟩
  /-- An incomplete frame whose header is there can be completed within the limit. -/
  completable : ∀ input message error decoded, decode input message error = .ok decoded →
    decoded.result = .incomplete → headerSize ≤ input.readableBytes →
    ∃ more, input.readableBytes + more.length ≤ maxFrameSize
      ∧ ∀ (input₂ : Buffer) message₂ error₂, input₂.readableView = input.readableView ++ more →
        ∃ input₂' m, decode input₂ message₂ error₂ = .ok ⟨.complete, input₂', m, .none⟩
          ∧ input₂'.readableView = []

/-! ## Decoders that follow a format

The three answers of a decoder are the three answers of the format, and each of them is a statement
about lengths and the header. -/

namespace Follows

variable {α : Type} {decode : Buffer → α → ProtocolError → Except Fault (Decoded α)}
  {F : Framing UInt8 ProtocolError α} (h : Follows decode F)
include h

theorem decode_of_incomplete {input : Buffer} (hnext : F.next input.readableView = .incomplete)
    (message : α) (error : ProtocolError) :
    decode input message error = .ok ⟨.incomplete, input, message, error⟩ := by
  have hspec := h input message error
  rw [hnext] at hspec
  exact hspec

theorem decode_of_invalid {input : Buffer} {e : ProtocolError}
    (hnext : F.next input.readableView = .invalid e) (message : α) (error : ProtocolError) :
    decode input message error = .ok ⟨.error, input, message, e⟩ := by
  have hspec := h input message error
  rw [hnext] at hspec
  exact hspec

theorem decode_of_complete {input : Buffer} {m : α} {rest : Bytes}
    (hnext : F.next input.readableView = .complete m rest) (message : α) (error : ProtocolError) :
    ∃ input', decode input message error = .ok ⟨.complete, input', m, .none⟩
      ∧ input'.readableView = rest := by
  have hspec := h input message error
  rw [hnext] at hspec
  exact hspec

theorem decode_cases {input : Buffer} {message : α} {error : ProtocolError} {decoded : Decoded α}
    (hdecode : decode input message error = .ok decoded) :
    (F.next input.readableView = .incomplete ∧ decoded = ⟨.incomplete, input, message, error⟩)
      ∨ (∃ e, F.next input.readableView = .invalid e ∧ decoded = ⟨.error, input, message, e⟩)
      ∨ ∃ m input', F.next input.readableView = .complete m input'.readableView
        ∧ decoded = ⟨.complete, input', m, .none⟩ := by
  cases hnext : F.next input.readableView with
  | incomplete =>
    rw [h.decode_of_incomplete hnext] at hdecode
    exact Or.inl ⟨rfl, (Except.ok.inj hdecode).symm⟩
  | invalid e =>
    rw [h.decode_of_invalid hnext] at hdecode
    exact Or.inr (Or.inl ⟨e, rfl, (Except.ok.inj hdecode).symm⟩)
  | complete m rest =>
    obtain ⟨input', hdecode', rfl⟩ := h.decode_of_complete hnext message error
    rw [hdecode'] at hdecode
    exact Or.inr (Or.inr ⟨m, input', rfl, (Except.ok.inj hdecode).symm⟩)

/-- **A decoder that finds the frames of a format is incremental.** -/
theorem incremental : Incremental decode F.headerSize F.maxLength := by
  constructor
  · intro input message error
    cases hnext : F.next input.readableView with
    | incomplete => exact ⟨_, h.decode_of_incomplete hnext message error⟩
    | invalid e => exact ⟨_, h.decode_of_invalid hnext message error⟩
    | complete m rest =>
      obtain ⟨input', hdecode, -⟩ := h.decode_of_complete hnext message error
      exact ⟨_, hdecode⟩
  · intro input message error decoded hdecode hresult
    obtain ⟨-, hdecoded⟩ | ⟨e, -, rfl⟩ | ⟨m, input', -, rfl⟩ := h.decode_cases hdecode
    · exact hdecoded
    · cases hresult
    · cases hresult
  · intro input message error decoded hdecode hresult
    obtain ⟨-, rfl⟩ | ⟨e, -, rfl⟩ | ⟨m, input', hnext, rfl⟩ := h.decode_cases hdecode
    · cases hresult
    · cases hresult
    obtain ⟨-, hle, -, hrest⟩ := Framing.next_eq_complete_iff.mp hnext
    rw [Buffer.length_readableView] at hle
    -- more bytes change nothing, fewer are not enough
    refine ⟨_, hle, hrest.symm, ?_, ?_⟩
    · intro more input₂ message₂ error₂ hview
      have hnext₂ := Framing.next_append_of_complete hnext more
      rw [← hview] at hnext₂
      obtain ⟨input₂', hdecode₂, hrest₂⟩ := h.decode_of_complete hnext₂ message₂ error₂
      refine ⟨input₂', hdecode₂, ?_⟩
      rw [hrest₂, hview, ← hrest, List.drop_append_of_le_length]
      rw [Buffer.length_readableView]
      exact hle
    · intro k hk input₂ message₂ error₂ hview
      refine h.decode_of_incomplete ?_ message₂ error₂
      rw [hview]
      exact Framing.next_take_of_complete hnext hk
  · intro input message error decoded hdecode hresult
    obtain ⟨-, rfl⟩ | ⟨e, hnext, rfl⟩ | ⟨m, input', -, rfl⟩ := h.decode_cases hdecode
    · cases hresult
    · refine ⟨rfl, fun more input₂ message₂ error₂ hview ↦ ?_⟩
      refine h.decode_of_invalid ?_ message₂ error₂
      rw [hview]
      exact Framing.next_append_of_invalid hnext more
    · cases hresult
  · intro input message error decoded hdecode hresult hheader
    obtain ⟨hnext, -⟩ | ⟨e, -, rfl⟩ | ⟨m, input', -, rfl⟩ := h.decode_cases hdecode
    · rw [← Buffer.length_readableView] at hheader ⊢
      obtain ⟨more, m, hmax, hnext₂⟩ := Framing.exists_completion hheader hnext
      refine ⟨more, hmax, fun input₂ message₂ error₂ hview ↦ ?_⟩
      rw [← hview] at hnext₂
      obtain ⟨input₂', hdecode₂, hrest₂⟩ := h.decode_of_complete hnext₂ message₂ error₂
      exact ⟨input₂', m, hdecode₂, hrest₂⟩
    · cases hresult
    · cases hresult

end Follows

/-- **Both decoders are incremental.** Once a header is in, the verdict does not change with how
much of the body has arrived. -/
theorem decode_incremental :
    Incremental decodeRequest requestHeaderSize maxRequestFrameSize
      ∧ Incremental decodeResponse responseHeaderSize maxResponseFrameSize :=
  ⟨decodeRequest_follows.incremental, decodeResponse_follows.incremental⟩

end Protocol

end HighCache
