import HighCache.Protocol.Frames

/-!
# Responses

The second format, from the server to the client: a header of 20 bytes and the value. It is a
`Framing` like that of the requests, `responseFraming`; `decode_response` finds its frames
(`decodeResponse_follows`), and they are what `encode_response` writes (`next_encodeResponse`,
`encode_nextResponse`).

The benchmark client reads responses in a loop until its buffer is empty. The loop is
`decodeResponses`; frames that were written one after another are read one after another.
-/

namespace HighCache

namespace Protocol

/-! ## Headers

The same plan as for requests: fields, bytes, what is valid, and the first problem. A response has
no key, so its frame is the header and the value. -/

/-- The fields of a response header, in their order. -/
structure ResponseHeader where
  magic : UInt32
  version : UInt8
  status : UInt8
  reserved : UInt16
  requestId : UInt64
  valueLength : UInt32
  deriving DecidableEq, Repr

namespace ResponseHeader

/-- The header at the front of some bytes. -/
def read (bytes : Bytes) : ResponseHeader where
  magic := readU32 bytes 0
  version := readU8 bytes 4
  status := readU8 bytes 5
  reserved := readU16 bytes 6
  requestId := readU64 bytes 8
  valueLength := readU32 bytes 16

/-- The bytes of a header. -/
def bytes (h : ResponseHeader) : Bytes :=
  let output := appendU32 [] h.magic
  let output := appendU8 output h.version
  let output := appendU8 output h.status
  let output := appendU16 output h.reserved
  let output := appendU64 output h.requestId
  appendU32 output h.valueLength

/-- The header of a response. -/
def ofResponse (r : Response) : ResponseHeader where
  magic := Protocol.magic
  version := Protocol.version
  status := r.status.value
  reserved := 0
  requestId := r.requestId
  valueLength := UInt32.ofNat r.value.length

/-- What a header has to satisfy. -/
structure Valid (h : ResponseHeader) : Prop where
  magic : h.magic = Protocol.magic
  version : h.version = Protocol.version
  reserved : h.reserved = 0
  status : isValidStatus h.status = true
  valueLength : h.valueLength.toNat ≤ Cache.maxValueLength

/-- The first thing that is wrong with a header, in the order the decoder looks for it. -/
def problem (h : ResponseHeader) : Option String :=
  if h.magic ≠ Protocol.magic then some "invalid response magic"
  else if h.version ≠ Protocol.version then some "unsupported response version"
  else if h.reserved ≠ 0 then some "response reserved field must be zero"
  else if !isValidStatus h.status then some "unknown response status"
  else if h.valueLength.toNat > Cache.maxValueLength then
    some "response value length exceeds maximum"
  else none

/-- The length of the frame with a header. -/
def frameLength (h : ResponseHeader) : ℕ := responseHeaderSize + h.valueLength.toNat

/-- The response with a header and a body. -/
def response (h : ResponseHeader) (body : Bytes) : Response where
  requestId := h.requestId
  status := ⟨h.status⟩
  value := body.take h.valueLength.toNat

/-- A header that was written is read back. -/
theorem read_bytes (h : ResponseHeader) (rest : Bytes) : read (h.bytes ++ rest) = h := by
  obtain ⟨magic, version, status, reserved, requestId, valueLength⟩ := h
  simp only [read, bytes, readU64, readU32, readU16, readU8, appendU64, appendU32, appendU16,
    appendU8, List.nil_append, List.cons_append, List.getD_cons_zero, List.getD_cons_succ,
    Nat.reduceAdd, uint16_bytes, uint32_bytes, uint64_words]

/-- A header that was read is written back. -/
theorem bytes_read {data : Bytes} (h : responseHeaderSize ≤ data.length) :
    (read data).bytes = data.take responseHeaderSize := by
  rw [take_eq_map_range h]
  simp only [read, bytes, appendU64_readU64, appendU32_readU32, appendU16_readU16, appendU8,
    List.cons_append, List.nil_append, Nat.reduceAdd]
  rfl

@[simp] theorem length_bytes (h : ResponseHeader) : h.bytes.length = responseHeaderSize := by
  simp only [bytes, appendU64, appendU32, appendU16, appendU8, List.nil_append, List.cons_append]
  rfl

theorem read_take {n : ℕ} (h : responseHeaderSize ≤ n) (data : Bytes) :
    read (data.take n) = read data := by
  unfold responseHeaderSize at h
  simp (disch := omega) only [read, readU64, readU32, readU16, readU8_take]

theorem problem_eq_none_iff (h : ResponseHeader) : h.problem = none ↔ h.Valid := by
  unfold problem
  rw [ite_some_eq_none, ite_some_eq_none, ite_some_eq_none, ite_some_eq_none, ite_some_eq_none]
  constructor
  · rintro ⟨h₁, h₂, h₃, h₄, h₅, -⟩
    exact ⟨not_not.mp h₁, not_not.mp h₂, not_not.mp h₃, by simpa using h₄, Nat.not_lt.mp h₅⟩
  · intro hvalid
    exact ⟨not_not.mpr hvalid.magic, not_not.mpr hvalid.version, not_not.mpr hvalid.reserved,
      by simp [hvalid.status], Nat.not_lt.mpr hvalid.valueLength, rfl⟩

theorem headerSize_le_frameLength (h : ResponseHeader) : responseHeaderSize ≤ h.frameLength :=
  Nat.le_add_right _ _

theorem frameLength_le {h : ResponseHeader} (hvalid : h.Valid) :
    h.frameLength ≤ maxResponseFrameSize :=
  Nat.add_le_add_left hvalid.valueLength _

end ResponseHeader

/-! ## The format

The decoder of responses follows its format as the one of requests does, so everything about frames
that arrive in pieces holds of it too. -/

/-- The format of responses. -/
def responseFraming : Framing UInt8 ProtocolError Response where
  headerSize := responseHeaderSize
  maxLength := maxResponseFrameSize
  problem header := (ResponseHeader.read header).problem.map fun message ↦
    ⟨true, (ResponseHeader.read header).requestId, message⟩
  frameLength header := (ResponseHeader.read header).frameLength
  message frame := (ResponseHeader.read frame).response (frame.drop responseHeaderSize)
  headerSize_le header := (ResponseHeader.read header).headerSize_le_frameLength
  frameLength_le _ h := ResponseHeader.frameLength_le
    ((ResponseHeader.problem_eq_none_iff _).mp (Option.map_eq_none_iff.mp h))

theorem responseFraming_next (bytes : Bytes) :
    responseFraming.next bytes
      = if bytes.length < responseHeaderSize then .incomplete
        else match (ResponseHeader.read bytes).problem with
          | some message => .invalid ⟨true, (ResponseHeader.read bytes).requestId, message⟩
          | none =>
            if bytes.length < (ResponseHeader.read bytes).frameLength then .incomplete
            else .complete ((ResponseHeader.read bytes).response (bytes.drop responseHeaderSize))
              (bytes.drop (ResponseHeader.read bytes).frameLength) := by
  have hread : ResponseHeader.read (responseFraming.header bytes) = ResponseHeader.read bytes :=
    ResponseHeader.read_take (le_refl _) bytes
  have hproblem : responseFraming.problem (responseFraming.header bytes)
      = (ResponseHeader.read bytes).problem.map fun message ↦
        ⟨true, (ResponseHeader.read bytes).requestId, message⟩ := by
    rw [← hread]
    rfl
  have hlength : responseFraming.frameLength (responseFraming.header bytes)
      = (ResponseHeader.read bytes).frameLength := by
    rw [← hread]
    rfl
  have hmessage : responseFraming.message (bytes.take (ResponseHeader.read bytes).frameLength)
      = (ResponseHeader.read bytes).response (bytes.drop responseHeaderSize) := by
    show (ResponseHeader.read (bytes.take _)).response _ = _
    rw [ResponseHeader.read_take (ResponseHeader.headerSize_le_frameLength _),
      ResponseHeader.response, ResponseHeader.response, List.drop_take,
      ResponseHeader.frameLength, Nat.add_sub_cancel_left, List.take_take, Nat.min_self]
  unfold Framing.next
  rw [hproblem, hlength, hmessage, show responseFraming.headerSize = responseHeaderSize from rfl]
  split
  · rfl
  cases (ResponseHeader.read bytes).problem with
  | some message => rfl
  | none => rfl

theorem decodeResponse_eq {input : Buffer} (h : ¬input.readableBytes < responseHeaderSize)
    (response : Response) (error : ProtocolError) :
    decodeResponse input response error
      = match (ResponseHeader.read input.readableView).problem with
        | some message => .ok ⟨.error, input, response,
            ⟨true, (ResponseHeader.read input.readableView).requestId, message⟩⟩
        | none =>
          if input.readableBytes < (ResponseHeader.read input.readableView).frameLength then
            .ok ⟨.incomplete, input, response, error⟩
          else input.retrieve (ResponseHeader.read input.readableView).frameLength >>= fun rest ↦
            .ok ⟨.complete, rest, (ResponseHeader.read input.readableView).response
              (input.readableView.drop responseHeaderSize), .none⟩ := by
  unfold decodeResponse
  rw [if_neg h]
  dsimp only
  rw [show readU32 input.readableView 0 = (ResponseHeader.read input.readableView).magic from rfl,
    show readU8 input.readableView 4 = (ResponseHeader.read input.readableView).version from rfl,
    show readU8 input.readableView 5 = (ResponseHeader.read input.readableView).status from rfl,
    show readU16 input.readableView 6 = (ResponseHeader.read input.readableView).reserved from rfl,
    show readU64 input.readableView 8 = (ResponseHeader.read input.readableView).requestId from rfl,
    show readU32 input.readableView 16 = (ResponseHeader.read input.readableView).valueLength
      from rfl]
  generalize ResponseHeader.read input.readableView = header
  unfold ResponseHeader.problem
  by_cases h₁ : header.magic ≠ magic
  · rw [if_pos h₁, if_pos h₁]
  rw [if_neg h₁, if_neg h₁]
  by_cases h₂ : header.version ≠ version
  · rw [if_pos h₂, if_pos h₂]
  rw [if_neg h₂, if_neg h₂]
  by_cases h₃ : header.reserved ≠ 0
  · rw [if_pos h₃, if_pos h₃]
  rw [if_neg h₃, if_neg h₃]
  by_cases h₄ : (!isValidStatus header.status) = true
  · rw [if_pos h₄, if_pos h₄]
  rw [if_neg h₄, if_neg h₄]
  by_cases h₅ : header.valueLength.toNat > Cache.maxValueLength
  · rw [if_pos h₅, if_pos h₅]
  rw [if_neg h₅, if_neg h₅]
  rfl

/-- **`decode_response` finds the frame at the front of its buffer.** -/
theorem decodeResponse_follows : Follows decodeResponse responseFraming := by
  intro input response error
  rw [responseFraming_next, Buffer.length_readableView]
  by_cases hshort : input.readableBytes < responseHeaderSize
  · rw [if_pos hshort]
    exact if_pos hshort
  rw [if_neg hshort, decodeResponse_eq hshort]
  cases (ResponseHeader.read input.readableView).problem with
  | some message => rfl
  | none =>
    dsimp only
    by_cases hincomplete :
        input.readableBytes < (ResponseHeader.read input.readableView).frameLength
    · rw [if_pos hincomplete, if_pos hincomplete]
    · rw [if_neg hincomplete, if_neg hincomplete]
      obtain ⟨input', hretrieve, hview, -⟩ := Buffer.retrieve_eq (Nat.not_lt.mp hincomplete)
      rw [hretrieve]
      exact ⟨input', rfl, hview⟩

/-! ## The decoder accepts what the encoder writes

As for requests, in both directions. -/

/-- **What `encode_response` accepts**, and what it writes. -/
theorem encodeResponse_eq_ok_iff (r : Response) (frame : Bytes) :
    encodeResponse r = .ok frame
      ↔ (isValidStatus r.status.value = true ∧ r.value.length ≤ Cache.maxValueLength)
        ∧ frame = (ResponseHeader.ofResponse r).bytes ++ r.value := by
  unfold encodeResponse
  rw [ite_error_eq_ok, ite_error_eq_ok, Except.ok.injEq, Nat.not_lt, eq_comm (b := frame),
    and_assoc]
  simp only [Bool.not_eq_true, Bool.not_eq_false']
  rfl

theorem valueLength_ofResponse {r : Response} (h : r.value.length ≤ Cache.maxValueLength) :
    (ResponseHeader.ofResponse r).valueLength.toNat = r.value.length :=
  toNat_ofNat_length h (by decide)

theorem next_encodeResponse {r : Response} {frame : Bytes} (h : encodeResponse r = .ok frame)
    (rest : Bytes) : responseFraming.next (frame ++ rest) = .complete r rest := by
  obtain ⟨⟨hstatus, hvalue⟩, hframe⟩ := (encodeResponse_eq_ok_iff r frame).mp h
  rw [hframe]
  have hread : ResponseHeader.read ((ResponseHeader.ofResponse r).bytes ++ r.value ++ rest)
      = ResponseHeader.ofResponse r := by
    rw [List.append_assoc, ResponseHeader.read_bytes]
  have hlength : ((ResponseHeader.ofResponse r).bytes ++ r.value).length
      = (ResponseHeader.ofResponse r).frameLength := by
    rw [List.length_append, ResponseHeader.length_bytes, ResponseHeader.frameLength,
      valueLength_ofResponse hvalue]
  have hbody : ((ResponseHeader.ofResponse r).bytes ++ r.value ++ rest).drop responseHeaderSize
      = r.value ++ rest := by
    rw [List.append_assoc]
    exact List.drop_left' (ResponseHeader.length_bytes _)
  have hlong : (ResponseHeader.ofResponse r).frameLength
      ≤ ((ResponseHeader.ofResponse r).bytes ++ r.value ++ rest).length := by
    rw [List.length_append, hlength]
    exact Nat.le_add_right _ _
  have hvalid : (ResponseHeader.ofResponse r).Valid :=
    ⟨rfl, rfl, rfl, hstatus, (valueLength_ofResponse hvalue).trans_le hvalue⟩
  rw [responseFraming_next, hread, (ResponseHeader.problem_eq_none_iff _).mpr hvalid,
    if_neg (Nat.not_lt.mpr ((ResponseHeader.headerSize_le_frameLength _).trans hlong))]
  dsimp only
  rw [if_neg (Nat.not_lt.mpr hlong), hbody, ← hlength, List.drop_left, ResponseHeader.response,
    valueLength_ofResponse hvalue, List.take_left]
  rfl

theorem encode_nextResponse {bytes : Bytes} {r : Response} {rest : Bytes}
    (h : responseFraming.next bytes = .complete r rest) :
    ∃ frame, encodeResponse r = .ok frame ∧ bytes = frame ++ rest := by
  rw [responseFraming_next] at h
  by_cases hshort : bytes.length < responseHeaderSize
  · rw [if_pos hshort] at h
    cases h
  rw [if_neg hshort] at h
  have hread := ResponseHeader.bytes_read (Nat.not_lt.mp hshort)
  generalize ResponseHeader.read bytes = header at *
  cases hproblem : header.problem with
  | some message =>
    rw [hproblem] at h
    cases h
  | none =>
    rw [hproblem] at h
    dsimp only at h
    by_cases hincomplete : bytes.length < header.frameLength
    · rw [if_pos hincomplete] at h
      cases h
    rw [if_neg hincomplete] at h
    have hvalid := (ResponseHeader.problem_eq_none_iff header).mp hproblem
    unfold ResponseHeader.frameLength at hincomplete h
    obtain ⟨hr, hrest⟩ := Framing.Front.complete.inj h
    have hvalue : r.value.length = header.valueLength.toNat := by
      rw [← hr, ResponseHeader.response, List.length_take, List.length_drop]
      omega
    have hheader : ResponseHeader.ofResponse r = header := by
      rw [ResponseHeader.ofResponse, hvalue, UInt32.ofNat_toNat, ← hvalid.magic, ← hvalid.version,
        ← hvalid.reserved, ← hr]
      rfl
    refine ⟨_, (encodeResponse_eq_ok_iff r _).mpr ⟨⟨?_, ?_⟩, rfl⟩, ?_⟩
    · rw [← hr]
      exact hvalid.status
    · exact hvalue.trans_le hvalid.valueLength
    · rw [hheader, hread, ← hrest, ← hr]
      dsimp only [ResponseHeader.response]
      rw [List.append_assoc, ← List.drop_drop, List.take_append_drop, List.take_append_drop]

/-! ## Reading responses

The loop ends where a frame is unfinished and throws where a header is wrong. Its fuel is the number
of bytes, since no frame is empty. -/

/-- The loop of `decode_responses` in the benchmark client, with the responses it hands to its
tracker. A response takes a byte at least, so their number is fuel enough. -/
def decodeResponsesLoop : ℕ → Buffer → Except Fault (List Response × Buffer)
  | 0, input => .ok ([], input)
  | fuel + 1, input =>
    if input.empty then .ok ([], input)
    else do
      let decoded ← decodeResponse input ⟨0, .ok, []⟩ .none
      match decoded.result with
      | .incomplete => .ok ([], decoded.input)
      | .error => .error (.exception ("invalid benchmark response: " ++ decoded.error.message))
      | .complete => do
        let (responses, input) ← decodeResponsesLoop fuel decoded.input
        .ok (decoded.message :: responses, input)

/-- `decode_responses`. -/
def decodeResponses (input : Buffer) : Except Fault (List Response × Buffer) :=
  decodeResponsesLoop input.readableBytes input

private theorem decodeResponse_of_encode {r : Response} {frame : Bytes}
    (h : encodeResponse r = .ok frame)
    {input : Buffer} {rest : Bytes} (hview : input.readableView = frame ++ rest)
    (response : Response) (error : ProtocolError) :
    ∃ input', decodeResponse input response error = .ok ⟨.complete, input', r, .none⟩
      ∧ input'.readableView = rest := by
  have hfollows := decodeResponse_follows input response error
  rw [hview, next_encodeResponse h] at hfollows
  exact hfollows

theorem length_encodeResponse_pos {r : Response} {frame : Bytes}
    (h : encodeResponse r = .ok frame) : 0 < frame.length := by
  obtain ⟨-, hframe⟩ := (encodeResponse_eq_ok_iff r frame).mp h
  rw [hframe, List.length_append, ResponseHeader.length_bytes]
  exact Nat.lt_add_right _ (by decide)

private theorem decodeResponsesLoop_encode (responses : List Response) : ∀ (frames : List Bytes),
    responses.map encodeResponse = frames.map .ok → ∀ (fuel : ℕ) (input : Buffer),
    input.readableView = frames.flatten → input.readableBytes ≤ fuel →
    ∃ input', decodeResponsesLoop fuel input = .ok (responses, input')
      ∧ input'.readableView = [] := by
  induction responses with
  | nil =>
    intro frames hframes fuel input hview _
    obtain rfl : frames = [] := List.map_eq_nil_iff.mp hframes.symm
    have hempty : input.empty = true := (Buffer.empty_iff input).mpr hview
    refine ⟨input, ?_, hview⟩
    cases fuel with
    | zero => rfl
    | succ fuel => rw [decodeResponsesLoop, if_pos hempty]
  | cons r responses ih =>
    intro frames hframes fuel input hview hfuel
    cases frames with
    | nil => cases hframes
    | cons frame frames =>
      rw [List.map_cons, List.map_cons, List.cons.injEq] at hframes
      obtain ⟨hencode, hframes⟩ := hframes
      rw [List.flatten_cons] at hview
      have hpos := length_encodeResponse_pos hencode
      have hlength : input.readableBytes = frame.length + frames.flatten.length := by
        rw [← Buffer.length_readableView, hview, List.length_append]
      obtain ⟨fuel, rfl⟩ : ∃ k, fuel = k + 1 := ⟨fuel - 1, by omega⟩
      have hnonempty : ¬input.empty = true := by
        rw [Buffer.empty, decide_eq_true_iff]
        omega
      obtain ⟨input₁, hdecode, hview₁⟩ := decodeResponse_of_encode hencode hview ⟨0, .ok, []⟩ .none
      have hlength₁ : input₁.readableBytes = frames.flatten.length := by
        rw [← Buffer.length_readableView, hview₁]
      obtain ⟨input', hloop, hview'⟩ := ih frames hframes fuel input₁ hview₁ (by omega)
      refine ⟨input', ?_, hview'⟩
      rw [decodeResponsesLoop, if_neg hnonempty, hdecode]
      simp only [Except.ok_bind_eq, hloop]

/-- **Responses are read as they were written.** A frame that was written is decoded to the response
it was written for, whatever comes after it; the bytes a decoded response took off the buffer are
what the encoder writes for it; and a list of responses written one after another is read back by
the loop of a client, which leaves nothing. -/
theorem decodeResponse_encodeResponse :
    (∀ r frame rest input response error, encodeResponse r = .ok frame →
      input.readableView = frame ++ rest →
      ∃ input', decodeResponse input response error = .ok ⟨.complete, input', r, .none⟩
        ∧ input'.readableView = rest)
    ∧ (∀ input response error input' r e,
      decodeResponse input response error = .ok ⟨.complete, input', r, e⟩ →
      ∃ frame, encodeResponse r = .ok frame ∧ input.readableView = frame ++ input'.readableView)
    ∧ ∀ (responses : List Response) (frames : List Bytes) input,
      responses.map encodeResponse = frames.map .ok → input.readableView = frames.flatten →
      ∃ input', decodeResponses input = .ok (responses, input') ∧ input'.empty = true := by
  refine ⟨?_, ?_, ?_⟩
  · intro r frame rest input response error hencode hview
    exact decodeResponse_of_encode hencode hview response error
  · intro input response error input' r e hdecode
    exact encode_nextResponse (decodeResponse_follows.next_of_complete hdecode)
  · intro responses frames input hframes hview
    obtain ⟨input', hloop, hview'⟩ :=
      decodeResponsesLoop_encode responses frames hframes _ input hview (le_refl _)
    exact ⟨input', hloop, (Buffer.empty_iff input').mpr hview'⟩

/-- A hit whose value looks like the beginning of a header, and a miss after it. -/
theorem decodeResponse_encodeResponse_two :
    let hit : Response := ⟨7, .ok, [72, 67, 65, 67, 1, 0]⟩
    let miss : Response := ⟨8, .notFound, []⟩
    let frames : List Bytes := [
      [72, 67, 65, 67, 1, 0, 0, 0, 0, 0, 0, 0, 0, 0, 0, 7, 0, 0, 0, 6, 72, 67, 65, 67, 1, 0],
      [72, 67, 65, 67, 1, 1, 0, 0, 0, 0, 0, 0, 0, 0, 0, 8, 0, 0, 0, 0]]
    let input : Buffer := ⟨frames.flatten, 64, 0, by decide, by decide⟩
    [hit, miss].map encodeResponse = frames.map .ok
      ∧ ∃ input', decodeResponses input = .ok ([hit, miss], input') ∧ input'.empty = true :=
  ⟨rfl, decodeResponse_encodeResponse.2.2 _ _ _ rfl rfl⟩

end Protocol

end HighCache
