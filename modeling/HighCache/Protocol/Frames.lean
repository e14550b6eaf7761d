import HighCache.Lib.Framing
import HighCache.Protocol.ProtocolCodec

/-!
# Frames

What a byte stream says, without the buffer it is in: `nextFrame` finds a whole request at the
front of it, or a header that is wrong, or neither yet. `decode_request` is `nextFrame` on the
unread bytes of its buffer (`decodeRequest_spec`), and a request that is found is one that
`encode_request` writes with exactly the bytes it was found in (`nextFrame_encode`,
`encode_nextFrame`). Requests are one format of frames in the sense of `Framing`, and `nextFrame`
is `Framing.next` for it (`nextFrame_eq`).

## One description for two pieces of code

The encoder checks a message before it writes, the decoder checks a header after it has read one,
and neither knows of the other. A round trip in one direction alone would let them agree on too
little: an encoder that refuses almost everything decodes back perfectly. So both are compared with
`Valid`, in both directions, and what the one writes is what the other accepts.
-/

namespace HighCache

namespace Protocol

/-! ## Chains of checks

A function that tests one thing after another and stops at the first that fails goes through exactly
if none fails. -/

theorem ite_some_eq_none {c : Prop} [Decidable c] {a : String} {x : Option String} :
    (if c then some a else x) = none ↔ ¬c ∧ x = none := by
  by_cases h : c
  · simp [h]
  · simp [h]

theorem ite_error_eq_ok {c : Prop} [Decidable c] {e : InvalidArgument} {frame : Bytes}
    {x : Except InvalidArgument Bytes} :
    (if c then .error e else x) = .ok frame ↔ ¬c ∧ x = .ok frame := by
  by_cases h : c
  · simp [h]
  · simp [h]

/-! ## Reading and writing integers -/

theorem uint16_bytes (v : UInt16) :
    (v >>> 8).toUInt8.toUInt16 <<< 8 ||| v.toUInt8.toUInt16 = v := by
  rw [← UInt16.toNat_inj, BigEndian.toNat_or_uint16, BigEndian.bytes_uint16,
    BigEndian.decode_encode v.toNat_lt]

theorem uint32_bytes (v : UInt32) :
    (v >>> 24).toUInt8.toUInt32 <<< 24 ||| (v >>> 16).toUInt8.toUInt32 <<< 16
      ||| (v >>> 8).toUInt8.toUInt32 <<< 8 ||| v.toUInt8.toUInt32 = v := by
  rw [← UInt32.toNat_inj, BigEndian.toNat_or_uint32, BigEndian.bytes_uint32,
    BigEndian.decode_encode v.toNat_lt]

theorem uint64_words (v : UInt64) :
    (v >>> 32).toUInt32.toUInt64 <<< 32 ||| v.toUInt32.toUInt64 = v := by
  have hv := v.toNat_lt
  rw [← UInt64.toNat_inj, BigEndian.toNat_or_uint64]
  simp only [UInt64.toNat_toUInt32, UInt64.toNat_shiftRight, Nat.shiftRight_eq_div_pow,
    UInt64.reduceToNat, Nat.reduceMod, Nat.reducePow]
  omega

private theorem bytes_uint16 (b₀ b₁ : UInt8) :
    [((b₀.toUInt16 <<< 8 ||| b₁.toUInt16) >>> 8).toUInt8,
        (b₀.toUInt16 <<< 8 ||| b₁.toUInt16).toUInt8]
      = [b₀, b₁] := by
  rw [BigEndian.bytes_uint16, BigEndian.toNat_or_uint16]
  exact BigEndian.encode_decode [b₀, b₁]

private theorem bytes_uint32 (b₀ b₁ b₂ b₃ : UInt8) {v : UInt32}
    (hv : v = b₀.toUInt32 <<< 24 ||| b₁.toUInt32 <<< 16 ||| b₂.toUInt32 <<< 8 ||| b₃.toUInt32) :
    [(v >>> 24).toUInt8, (v >>> 16).toUInt8, (v >>> 8).toUInt8, v.toUInt8] = [b₀, b₁, b₂, b₃] := by
  rw [BigEndian.bytes_uint32, hv, BigEndian.toNat_or_uint32]
  exact BigEndian.encode_decode [b₀, b₁, b₂, b₃]

private theorem words_uint64 (high low : UInt32) :
    ((high.toUInt64 <<< 32 ||| low.toUInt64) >>> 32).toUInt32 = high
      ∧ (high.toUInt64 <<< 32 ||| low.toUInt64).toUInt32 = low := by
  have hhigh := high.toNat_lt
  have hlow := low.toNat_lt
  have hor := BigEndian.toNat_or_uint64 high low
  generalize high.toUInt64 <<< 32 ||| low.toUInt64 = v at *
  rw [← UInt32.toNat_inj, ← UInt32.toNat_inj]
  simp only [UInt64.toNat_toUInt32, UInt64.toNat_shiftRight, Nat.shiftRight_eq_div_pow,
    UInt64.reduceToNat, Nat.reduceMod, Nat.reducePow] at *
  omega

theorem appendU16_readU16 (output data : Bytes) (o : ℕ) :
    appendU16 output (readU16 data o) = output ++ [readU8 data o, readU8 data (o + 1)] := by
  rw [← bytes_uint16]
  simp only [appendU16, appendU8, readU16, List.append_assoc, List.cons_append, List.nil_append]

theorem appendU32_readU32 (output data : Bytes) (o : ℕ) :
    appendU32 output (readU32 data o) = output ++ [readU8 data o, readU8 data (o + 1),
      readU8 data (o + 2), readU8 data (o + 3)] := by
  rw [← bytes_uint32 _ _ _ _ (rfl : readU32 data o = _)]
  simp only [appendU32, appendU8, List.append_assoc, List.cons_append, List.nil_append]

theorem appendU64_readU64 (output data : Bytes) (o : ℕ) :
    appendU64 output (readU64 data o)
      = appendU32 (appendU32 output (readU32 data o)) (readU32 data (o + 4)) := by
  obtain ⟨hhigh, hlow⟩ := words_uint64 (readU32 data o) (readU32 data (o + 4))
  rw [appendU64, readU64, hhigh, hlow]

theorem take_eq_map_range {data : Bytes} {n : ℕ} (h : n ≤ data.length) :
    data.take n = (List.range n).map (readU8 data) := by
  refine List.ext_getElem (by simp [h]) fun i h₁ h₂ ↦ ?_
  rw [List.length_take] at h₁
  rw [List.getElem_take, List.getElem_map, List.getElem_range, readU8,
    List.getD_eq_getElem _ _ (by omega)]

theorem readU8_take {data : Bytes} {n o : ℕ} (h : o < n) :
    readU8 (data.take n) o = readU8 data o := by
  rw [readU8, readU8, List.getD_eq_getElem?_getD, List.getElem?_take_of_lt h,
    ← List.getD_eq_getElem?_getD]

/-! ## Headers

A header as its fields. `problem` is the first check of the decoder that fails, with its message. -/

/-- The fields of a request header, in their order. -/
structure RequestHeader where
  magic : UInt32
  version : UInt8
  opcode : UInt8
  reserved : UInt16
  requestId : UInt64
  keyLength : UInt32
  valueLength : UInt32
  ttlMs : UInt64
  deriving DecidableEq, Repr

namespace RequestHeader

/-- The header at the front of some bytes. -/
def read (bytes : Bytes) : RequestHeader where
  magic := readU32 bytes 0
  version := readU8 bytes 4
  opcode := readU8 bytes 5
  reserved := readU16 bytes 6
  requestId := readU64 bytes 8
  keyLength := readU32 bytes 16
  valueLength := readU32 bytes 20
  ttlMs := readU64 bytes 24

/-- The bytes of a header. -/
def bytes (h : RequestHeader) : Bytes :=
  let output := appendU32 [] h.magic
  let output := appendU8 output h.version
  let output := appendU8 output h.opcode
  let output := appendU16 output h.reserved
  let output := appendU64 output h.requestId
  let output := appendU32 output h.keyLength
  let output := appendU32 output h.valueLength
  appendU64 output h.ttlMs

/-- The header of a request. -/
def ofRequest (r : Request) : RequestHeader where
  magic := Protocol.magic
  version := Protocol.version
  opcode := r.opcode.value
  reserved := 0
  requestId := r.requestId
  keyLength := UInt32.ofNat r.key.length
  valueLength := UInt32.ofNat r.value.length
  ttlMs := r.ttlMs

/-- What a header has to satisfy. -/
structure Valid (h : RequestHeader) : Prop where
  magic : h.magic = Protocol.magic
  version : h.version = Protocol.version
  reserved : h.reserved = 0
  opcode : isValidOpcode ⟨h.opcode⟩ = true
  keyLength : h.keyLength.toNat ≤ Cache.maxKeyLength
  valueLength : h.valueLength.toNat ≤ Cache.maxValueLength
  body : (⟨h.opcode⟩ : Opcode) = .get ∨ (⟨h.opcode⟩ : Opcode) = .erase →
    h.valueLength = 0 ∧ h.ttlMs = 0
  ttlMs : h.ttlMs ≤ maxTtl

/-- The first thing that is wrong with a header, in the order the decoder looks for it. -/
def problem (h : RequestHeader) : Option String :=
  if h.magic ≠ Protocol.magic then some "invalid request magic"
  else if h.version ≠ Protocol.version then some "unsupported protocol version"
  else if h.reserved ≠ 0 then some "request reserved field must be zero"
  else if h.opcode < Opcode.get.value ∨ h.opcode > Opcode.erase.value then
    some "unknown request opcode"
  else if h.keyLength.toNat > Cache.maxKeyLength then some "request key length exceeds maximum"
  else if h.valueLength.toNat > Cache.maxValueLength then
    some "request value length exceeds maximum"
  else if ((⟨h.opcode⟩ : Opcode) = .get ∨ (⟨h.opcode⟩ : Opcode) = .erase)
      ∧ h.valueLength.toNat ≠ 0 then
    some "GET and DELETE cannot carry a value"
  else if ((⟨h.opcode⟩ : Opcode) = .get ∨ (⟨h.opcode⟩ : Opcode) = .erase) ∧ h.ttlMs ≠ 0 then
    some "GET and DELETE cannot carry a TTL"
  else if h.ttlMs > maxTtl then some "request TTL exceeds supported range"
  else none

/-- The length of the frame with a header. -/
def frameLength (h : RequestHeader) : ℕ :=
  requestHeaderSize + h.keyLength.toNat + h.valueLength.toNat

/-! ### Reading and writing are inverse -/

/-- A header that was written is read back. -/
theorem read_bytes (h : RequestHeader) (rest : Bytes) : read (h.bytes ++ rest) = h := by
  obtain ⟨magic, version, opcode, reserved, requestId, keyLength, valueLength, ttlMs⟩ := h
  simp only [read, bytes, readU64, readU32, readU16, readU8, appendU64, appendU32, appendU16,
    appendU8, List.nil_append, List.cons_append, List.getD_cons_zero, List.getD_cons_succ,
    Nat.reduceAdd, uint16_bytes, uint32_bytes, uint64_words]

/-- A header that was read is written back. -/
theorem bytes_read {data : Bytes} (h : requestHeaderSize ≤ data.length) :
    (read data).bytes = data.take requestHeaderSize := by
  rw [take_eq_map_range h]
  simp only [read, bytes, appendU64_readU64, appendU32_readU32, appendU16_readU16, appendU8,
    List.cons_append, List.nil_append, Nat.reduceAdd]
  rfl

@[simp] theorem length_bytes (h : RequestHeader) : h.bytes.length = requestHeaderSize := by
  simp only [bytes, appendU64, appendU32, appendU16, appendU8, List.nil_append, List.cons_append]
  rfl

theorem read_take {n : ℕ} (h : requestHeaderSize ≤ n) (data : Bytes) :
    read (data.take n) = read data := by
  unfold requestHeaderSize at h
  simp (disch := omega) only [read, readU64, readU32, readU16, readU8_take]

/-! ### Validity

Validity is a conjunction and has no order, while a decoder reports the first problem. The two meet
in whether there is one. -/

private theorem isValidOpcode_iff (value : UInt8) :
    isValidOpcode ⟨value⟩ = true ↔ ¬(value < Opcode.get.value ∨ value > Opcode.erase.value) := by
  simp only [isValidOpcode, Bool.or_eq_true, decide_eq_true_eq, Opcode.get, Opcode.set,
    Opcode.erase, Opcode.mk.injEq, ← UInt8.toNat_inj, UInt8.lt_iff_toNat_lt, gt_iff_lt,
    UInt8.reduceToNat]
  omega

theorem problem_eq_none_iff (h : RequestHeader) : h.problem = none ↔ h.Valid := by
  have hzero : h.valueLength.toNat = 0 ↔ h.valueLength = 0 := by
    rw [← UInt32.toNat_inj, UInt32.toNat_zero]
  unfold problem
  rw [ite_some_eq_none, ite_some_eq_none, ite_some_eq_none, ite_some_eq_none, ite_some_eq_none,
    ite_some_eq_none, ite_some_eq_none, ite_some_eq_none, ite_some_eq_none]
  constructor
  · rintro ⟨h₁, h₂, h₃, h₄, h₅, h₆, h₇, h₈, h₉, -⟩
    exact ⟨not_not.mp h₁, not_not.mp h₂, not_not.mp h₃, (isValidOpcode_iff _).mpr h₄,
      Nat.not_lt.mp h₅, Nat.not_lt.mp h₆,
      fun hop ↦ ⟨hzero.mp (not_not.mp (not_and.mp h₇ hop)), not_not.mp (not_and.mp h₈ hop)⟩,
      UInt64.not_lt.mp h₉⟩
  · intro hvalid
    exact ⟨not_not.mpr hvalid.magic, not_not.mpr hvalid.version, not_not.mpr hvalid.reserved,
      (isValidOpcode_iff _).mp hvalid.opcode, Nat.not_lt.mpr hvalid.keyLength,
      Nat.not_lt.mpr hvalid.valueLength, fun hop ↦ hop.2 (hzero.mpr (hvalid.body hop.1).1),
      fun hop ↦ hop.2 (hvalid.body hop.1).2, UInt64.not_lt.mpr hvalid.ttlMs, rfl⟩

theorem headerSize_le_frameLength (h : RequestHeader) : requestHeaderSize ≤ h.frameLength :=
  (Nat.le_add_right _ _).trans (Nat.le_add_right _ _)

theorem frameLength_le {h : RequestHeader} (hvalid : h.Valid) :
    h.frameLength ≤ maxRequestFrameSize := by
  have hkey := hvalid.keyLength
  have hvalue := hvalid.valueLength
  unfold frameLength maxRequestFrameSize
  omega

end RequestHeader

/-- A request has a frame if its header is valid and its lengths fit into it. -/
structure Encodable (r : Request) : Prop where
  valid : (RequestHeader.ofRequest r).Valid
  key_length : r.key.length ≤ Cache.maxKeyLength
  value_length : r.value.length ≤ Cache.maxValueLength

theorem toNat_ofNat_length {n m : ℕ} (h : n ≤ m) (hm : m < 2 ^ 32) : (UInt32.ofNat n).toNat = n :=
  UInt32.toNat_ofNat_of_lt' (lt_of_le_of_lt h hm)

theorem Encodable.keyLength {r : Request} (h : Encodable r) :
    (RequestHeader.ofRequest r).keyLength.toNat = r.key.length :=
  toNat_ofNat_length h.key_length (by decide)

theorem Encodable.valueLength {r : Request} (h : Encodable r) :
    (RequestHeader.ofRequest r).valueLength.toNat = r.value.length :=
  toNat_ofNat_length h.value_length (by decide)

/-- **What `encode_request` accepts**, and what it writes. -/
theorem encodeRequest_eq_ok_iff (r : Request) (frame : Bytes) :
    encodeRequest r = .ok frame
      ↔ Encodable r ∧ frame = (RequestHeader.ofRequest r).bytes ++ r.key ++ r.value := by
  unfold encodeRequest
  rw [ite_error_eq_ok, ite_error_eq_ok, ite_error_eq_ok, ite_error_eq_ok, Except.ok.injEq]
  constructor
  · rintro ⟨hopcode, hlength, hbody, httl, rfl⟩
    obtain ⟨hkey, hvalue⟩ := not_or.mp hlength
    have hkey' := Nat.not_lt.mp hkey
    have hvalue' := Nat.not_lt.mp hvalue
    have hopcode' : isValidOpcode r.opcode = true := by simpa using hopcode
    refine ⟨⟨⟨rfl, rfl, rfl, hopcode', ?_, ?_, ?_, UInt64.not_lt.mp httl⟩, hkey', hvalue'⟩, rfl⟩
    · exact (toNat_ofNat_length hkey' (by decide)).trans_le hkey'
    · exact (toNat_ofNat_length hvalue' (by decide)).trans_le hvalue'
    · intro hop
      obtain ⟨hempty, hzero⟩ := not_or.mp (not_and.mp hbody hop)
      refine ⟨?_, not_not.mp hzero⟩
      show UInt32.ofNat r.value.length = 0
      rw [not_not.mp hempty]
      rfl
  · intro h
    obtain ⟨h, hframe⟩ := h
    have hopcode : isValidOpcode r.opcode = true := h.valid.opcode
    have httl : ¬r.ttlMs > maxTtl := UInt64.not_lt.mpr h.valid.ttlMs
    refine ⟨by simp [hopcode], ?_, ?_, httl, hframe.symm⟩
    · exact not_or.mpr ⟨Nat.not_lt.mpr h.key_length, Nat.not_lt.mpr h.value_length⟩
    · rintro ⟨hop, hbody⟩
      obtain ⟨hlength, hzero⟩ := h.valid.body hop
      rcases hbody with hvalue | httl
      · refine hvalue (List.length_eq_zero_iff.mp ?_)
        rw [← h.valueLength, hlength]
        rfl
      · exact httl hzero

theorem length_encodeRequest_le {r : Request} {frame : Bytes} (h : encodeRequest r = .ok frame) :
    frame.length ≤ maxRequestFrameSize := by
  obtain ⟨hencodable, hframe⟩ := (encodeRequest_eq_ok_iff r frame).mp h
  have hkey := hencodable.key_length
  have hvalue := hencodable.value_length
  rw [hframe, List.length_append, List.length_append, RequestHeader.length_bytes,
    maxRequestFrameSize]
  omega

/-! ## The frame at the front of a stream

The decoder looks at a buffer; what it finds depends on the unread bytes only. From here on a stream
of requests is a list of bytes. -/

/-- What is at the front of some bytes. -/
inductive Frame where
  /-- Nothing that can be told yet. -/
  | incomplete
  /-- A header that is wrong. -/
  | invalid (error : ProtocolError)
  /-- A request, and what comes after it. -/
  | complete (request : Request) (rest : Bytes)
  deriving DecidableEq, Repr

/-- The request with a header and a body. -/
def RequestHeader.request (h : RequestHeader) (body : Bytes) : Request where
  opcode := ⟨h.opcode⟩
  requestId := h.requestId
  key := body.take h.keyLength.toNat
  value := (body.drop h.keyLength.toNat).take h.valueLength.toNat
  ttlMs := h.ttlMs

/-- The frame at the front of some bytes. -/
def nextFrame (bytes : Bytes) : Frame :=
  if bytes.length < requestHeaderSize then .incomplete
  else
    let header := RequestHeader.read bytes
    match header.problem with
    | some message => .invalid ⟨true, header.requestId, message⟩
    | none =>
      if bytes.length < header.frameLength then .incomplete
      else .complete (header.request (bytes.drop requestHeaderSize))
        (bytes.drop header.frameLength)

/-- The format of requests. -/
def requestFraming : Framing UInt8 ProtocolError Request where
  headerSize := requestHeaderSize
  maxLength := maxRequestFrameSize
  problem header := (RequestHeader.read header).problem.map fun message ↦
    ⟨true, (RequestHeader.read header).requestId, message⟩
  frameLength header := (RequestHeader.read header).frameLength
  message frame := (RequestHeader.read frame).request (frame.drop requestHeaderSize)
  headerSize_le header := (RequestHeader.read header).headerSize_le_frameLength
  frameLength_le _ h :=
    RequestHeader.frameLength_le
      ((RequestHeader.problem_eq_none_iff _).mp (Option.map_eq_none_iff.mp h))

/-- What a format of requests finds, as a `Frame`. -/
def Frame.ofFront : Framing.Front UInt8 ProtocolError Request → Frame
  | .incomplete => .incomplete
  | .invalid error => .invalid error
  | .complete request rest => .complete request rest

theorem Frame.ofFront_injective : Function.Injective Frame.ofFront := by
  rintro (_ | _ | _) (_ | _ | _) h <;> cases h <;> rfl

private theorem RequestHeader.request_take (h : RequestHeader) (bytes : Bytes) :
    h.request ((bytes.take h.frameLength).drop requestHeaderSize)
      = h.request (bytes.drop requestHeaderSize) := by
  have hlength : h.frameLength - requestHeaderSize = h.keyLength.toNat + h.valueLength.toNat := by
    rw [frameLength, Nat.add_assoc, Nat.add_sub_cancel_left]
  rw [List.drop_take, hlength, request, request, List.take_take,
    Nat.min_eq_left (Nat.le_add_right _ _), List.drop_take, Nat.add_sub_cancel_left,
    List.take_take, Nat.min_self]

/-- **`nextFrame` looks for a frame of the format.** -/
theorem nextFrame_eq (bytes : Bytes) : nextFrame bytes = .ofFront (requestFraming.next bytes) := by
  have hread : RequestHeader.read (requestFraming.header bytes) = RequestHeader.read bytes :=
    RequestHeader.read_take (le_refl _) bytes
  have hproblem : requestFraming.problem (requestFraming.header bytes)
      = (RequestHeader.read bytes).problem.map fun message ↦
        ⟨true, (RequestHeader.read bytes).requestId, message⟩ := by
    rw [← hread]
    rfl
  have hlength : requestFraming.frameLength (requestFraming.header bytes)
      = (RequestHeader.read bytes).frameLength := by
    rw [← hread]
    rfl
  have hmessage : requestFraming.message (bytes.take (RequestHeader.read bytes).frameLength)
      = (RequestHeader.read bytes).request (bytes.drop requestHeaderSize) := by
    rw [← RequestHeader.request_take]
    show (RequestHeader.read (bytes.take _)).request _ = _
    rw [RequestHeader.read_take (RequestHeader.headerSize_le_frameLength _)]
  unfold nextFrame Framing.next
  rw [hproblem, hlength, hmessage, show requestFraming.headerSize = requestHeaderSize from rfl]
  dsimp only
  split
  · rfl
  cases (RequestHeader.read bytes).problem with
  | some message => rfl
  | none =>
    dsimp only [Option.map_none]
    split
    · rfl
    · rfl

/-- The checks of `decode_request` are those of `problem`; the one on the length of the frame is
never the first to fail. -/
theorem decodeRequest_eq {input : Buffer} (h : ¬input.readableBytes < requestHeaderSize)
    (request : Request) (error : ProtocolError) :
    decodeRequest input request error
      = match (RequestHeader.read input.readableView).problem with
        | some message => .ok ⟨.error, input, request,
            ⟨true, (RequestHeader.read input.readableView).requestId, message⟩⟩
        | none =>
          if input.readableBytes < (RequestHeader.read input.readableView).frameLength then
            .ok ⟨.incomplete, input, request, error⟩
          else input.retrieve (RequestHeader.read input.readableView).frameLength >>= fun rest ↦
            .ok ⟨.complete, rest, (RequestHeader.read input.readableView).request
              (input.readableView.drop requestHeaderSize), .none⟩ := by
  unfold decodeRequest
  rw [if_neg h]
  dsimp only
  rw [show readU32 input.readableView 0 = (RequestHeader.read input.readableView).magic from rfl,
    show readU8 input.readableView 4 = (RequestHeader.read input.readableView).version from rfl,
    show readU8 input.readableView 5 = (RequestHeader.read input.readableView).opcode from rfl,
    show readU16 input.readableView 6 = (RequestHeader.read input.readableView).reserved from rfl,
    show readU64 input.readableView 8 = (RequestHeader.read input.readableView).requestId from rfl,
    show readU32 input.readableView 16 = (RequestHeader.read input.readableView).keyLength from rfl,
    show readU32 input.readableView 20 = (RequestHeader.read input.readableView).valueLength
      from rfl,
    show readU64 input.readableView 24 = (RequestHeader.read input.readableView).ttlMs from rfl]
  generalize RequestHeader.read input.readableView = header
  unfold RequestHeader.problem
  by_cases h₁ : header.magic ≠ magic
  · rw [if_pos h₁, if_pos h₁]
  rw [if_neg h₁, if_neg h₁]
  by_cases h₂ : header.version ≠ version
  · rw [if_pos h₂, if_pos h₂]
  rw [if_neg h₂, if_neg h₂]
  by_cases h₃ : header.reserved ≠ 0
  · rw [if_pos h₃, if_pos h₃]
  rw [if_neg h₃, if_neg h₃]
  by_cases h₄ : header.opcode < Opcode.get.value ∨ header.opcode > Opcode.erase.value
  · rw [if_pos h₄, if_pos h₄]
  rw [if_neg h₄, if_neg h₄]
  by_cases h₅ : header.keyLength.toNat > Cache.maxKeyLength
  · rw [if_pos h₅, if_pos h₅]
  rw [if_neg h₅, if_neg h₅]
  by_cases h₆ : header.valueLength.toNat > Cache.maxValueLength
  · rw [if_pos h₆, if_pos h₆]
  rw [if_neg h₆, if_neg h₆]
  -- the lengths are within their own limits, so this check never fails
  have hover : ¬(header.keyLength.toNat > maxRequestFrameSize - requestHeaderSize
      ∨ header.valueLength.toNat
        > maxRequestFrameSize - requestHeaderSize - header.keyLength.toNat) := by
    unfold maxRequestFrameSize
    omega
  rw [if_neg hover]
  by_cases h₇ : ((⟨header.opcode⟩ : Opcode) = .get ∨ (⟨header.opcode⟩ : Opcode) = .erase)
      ∧ header.valueLength.toNat ≠ 0
  · rw [if_pos h₇, if_pos h₇]
  rw [if_neg h₇, if_neg h₇]
  by_cases h₈ : ((⟨header.opcode⟩ : Opcode) = .get ∨ (⟨header.opcode⟩ : Opcode) = .erase)
      ∧ header.ttlMs ≠ 0
  · rw [if_pos h₈, if_pos h₈]
  rw [if_neg h₈, if_neg h₈]
  by_cases h₉ : header.ttlMs > maxTtl
  · rw [if_pos h₉, if_pos h₉]
  rw [if_neg h₉, if_neg h₉]
  unfold RequestHeader.frameLength RequestHeader.request
  rw [List.drop_drop]

/-- **`decode_request` finds the frame at the front of its buffer.** -/
theorem decodeRequest_spec (input : Buffer) (request : Request) (error : ProtocolError) :
    match nextFrame input.readableView with
    | .incomplete => decodeRequest input request error = .ok ⟨.incomplete, input, request, error⟩
    | .invalid e => decodeRequest input request error = .ok ⟨.error, input, request, e⟩
    | .complete r rest => ∃ input', decodeRequest input request error
        = .ok ⟨.complete, input', r, .none⟩ ∧ input'.readableView = rest := by
  unfold nextFrame
  rw [Buffer.length_readableView]
  by_cases hshort : input.readableBytes < requestHeaderSize
  · rw [if_pos hshort]
    exact if_pos hshort
  rw [if_neg hshort, decodeRequest_eq hshort]
  dsimp only
  cases (RequestHeader.read input.readableView).problem with
  | some message => rfl
  | none =>
    dsimp only
    by_cases hincomplete : input.readableBytes < (RequestHeader.read input.readableView).frameLength
    · rw [if_pos hincomplete, if_pos hincomplete]
    · rw [if_neg hincomplete, if_neg hincomplete]
      obtain ⟨input', hretrieve, hview, -⟩ := Buffer.retrieve_eq (Nat.not_lt.mp hincomplete)
      rw [hretrieve]
      exact ⟨input', rfl, hview⟩

/-- A decoder that finds the frames of a format at the front of its buffer: it takes a whole frame
off, and leaves the buffer and the message alone otherwise. -/
def Follows {α : Type} (decode : Buffer → α → ProtocolError → Except Fault (Decoded α))
    (F : Framing UInt8 ProtocolError α) : Prop :=
  ∀ input message error,
    match F.next input.readableView with
    | .incomplete => decode input message error = .ok ⟨.incomplete, input, message, error⟩
    | .invalid e => decode input message error = .ok ⟨.error, input, message, e⟩
    | .complete m rest => ∃ input', decode input message error = .ok ⟨.complete, input', m, .none⟩
        ∧ input'.readableView = rest

theorem decodeRequest_follows : Follows decodeRequest requestFraming := by
  intro input request error
  have hspec := decodeRequest_spec input request error
  rw [nextFrame_eq] at hspec
  cases hnext : requestFraming.next input.readableView with
  | incomplete =>
    rw [hnext] at hspec
    exact hspec
  | invalid e =>
    rw [hnext] at hspec
    exact hspec
  | complete r rest =>
    rw [hnext] at hspec
    exact hspec

theorem Follows.next_of_complete {α : Type}
    {decode : Buffer → α → ProtocolError → Except Fault (Decoded α)}
    {F : Framing UInt8 ProtocolError α} (h : Follows decode F) {input input' : Buffer}
    {message m : α} {error e : ProtocolError}
    (hdecode : decode input message error = .ok ⟨.complete, input', m, e⟩) :
    F.next input.readableView = .complete m input'.readableView := by
  have hspec := h input message error
  cases hnext : F.next input.readableView with
  | incomplete =>
    rw [hnext, hdecode] at hspec
    cases hspec
  | invalid e' =>
    rw [hnext, hdecode] at hspec
    cases hspec
  | complete m' rest =>
    rw [hnext] at hspec
    obtain ⟨input'', hdecode', hview⟩ := hspec
    rw [hdecode] at hdecode'
    cases hdecode'
    rw [hview]

/-! ## The decoder accepts what the encoder writes

A frame that was written is found, whatever follows it, and a frame that is found was written: with
the very bytes it was found in, since each field is determined by its bytes. -/

theorem nextFrame_encode {r : Request} {frame : Bytes} (h : encodeRequest r = .ok frame)
    (rest : Bytes) : nextFrame (frame ++ rest) = .complete r rest := by
  obtain ⟨hr, hframe⟩ := (encodeRequest_eq_ok_iff r frame).mp h
  rw [hframe]
  have hread : RequestHeader.read ((RequestHeader.ofRequest r).bytes ++ r.key ++ r.value ++ rest)
      = RequestHeader.ofRequest r := by
    rw [List.append_assoc, List.append_assoc, RequestHeader.read_bytes]
  have hlength : ((RequestHeader.ofRequest r).bytes ++ r.key ++ r.value).length
      = (RequestHeader.ofRequest r).frameLength := by
    rw [List.length_append, List.length_append, RequestHeader.length_bytes,
      RequestHeader.frameLength, hr.keyLength, hr.valueLength]
  have hbody : ((RequestHeader.ofRequest r).bytes ++ r.key ++ r.value ++ rest).drop
      requestHeaderSize = r.key ++ (r.value ++ rest) := by
    rw [List.append_assoc, List.append_assoc]
    exact List.drop_left' (RequestHeader.length_bytes _)
  have hlong : (RequestHeader.ofRequest r).frameLength
      ≤ ((RequestHeader.ofRequest r).bytes ++ r.key ++ r.value ++ rest).length := by
    rw [List.length_append, hlength]
    exact Nat.le_add_right _ _
  have hshort := (RequestHeader.ofRequest r).headerSize_le_frameLength
  unfold nextFrame
  rw [if_neg (Nat.not_lt.mpr (hshort.trans hlong))]
  dsimp only
  rw [hread, (RequestHeader.problem_eq_none_iff _).mpr hr.valid]
  dsimp only
  rw [if_neg (Nat.not_lt.mpr hlong), hbody, ← hlength, List.drop_left, RequestHeader.request,
    hr.keyLength, hr.valueLength, List.take_left, List.drop_left, List.take_left]
  rfl

theorem encode_nextFrame {bytes : Bytes} {r : Request} {rest : Bytes}
    (h : nextFrame bytes = .complete r rest) :
    ∃ frame, encodeRequest r = .ok frame ∧ bytes = frame ++ rest := by
  unfold nextFrame at h
  by_cases hshort : bytes.length < requestHeaderSize
  · rw [if_pos hshort] at h
    cases h
  rw [if_neg hshort] at h
  dsimp only at h
  have hread := RequestHeader.bytes_read (Nat.not_lt.mp hshort)
  generalize RequestHeader.read bytes = header at *
  cases hproblem : header.problem with
  | some message =>
    rw [hproblem] at h
    cases h
  | none =>
    rw [hproblem] at h
    dsimp only at h
    by_cases hincomplete : bytes.length < header.frameLength
    · rw [if_pos hincomplete] at h
      cases h
    rw [if_neg hincomplete] at h
    have hvalid := (RequestHeader.problem_eq_none_iff header).mp hproblem
    unfold RequestHeader.frameLength at hincomplete h
    obtain ⟨hr, hrest⟩ := Frame.complete.inj h
    have hkey : r.key.length = header.keyLength.toNat := by
      rw [← hr, RequestHeader.request, List.length_take, List.length_drop]
      omega
    have hvalue : r.value.length = header.valueLength.toNat := by
      rw [← hr, RequestHeader.request, List.length_take, List.length_drop, List.length_drop]
      omega
    have hheader : RequestHeader.ofRequest r = header := by
      rw [RequestHeader.ofRequest, hkey, hvalue, UInt32.ofNat_toNat, UInt32.ofNat_toNat,
        ← hvalid.magic, ← hvalid.version, ← hvalid.reserved, ← hr]
      rfl
    refine ⟨_, (encodeRequest_eq_ok_iff r _).mpr ⟨⟨hheader ▸ hvalid, ?_, ?_⟩, rfl⟩, ?_⟩
    · exact hkey.trans_le hvalid.keyLength
    · exact hvalue.trans_le hvalid.valueLength
    · rw [hheader, hread, ← hrest, ← hr]
      dsimp only [RequestHeader.request]
      rw [List.append_assoc, List.append_assoc, ← List.drop_drop, ← List.drop_drop,
        List.take_append_drop, List.take_append_drop, List.take_append_drop]

theorem nextFrame_of_complete {input input' : Buffer} {request r : Request}
    {error e : ProtocolError}
    (h : decodeRequest input request error = .ok ⟨.complete, input', r, e⟩) :
    nextFrame input.readableView = .complete r input'.readableView := by
  rw [nextFrame_eq, decodeRequest_follows.next_of_complete h]
  rfl

/-- **The decoder accepts exactly what the encoder writes.** A frame that was written is decoded to
the request it was written for and taken off the buffer, whatever comes after it; the bytes a
decoded request took off the buffer are what the encoder writes for it. So one request has one
frame, and the frames that are accepted are those that are written. -/
theorem decodeRequest_encodeRequest :
    (∀ r frame rest input request error, encodeRequest r = .ok frame →
      input.readableView = frame ++ rest →
      ∃ input', decodeRequest input request error = .ok ⟨.complete, input', r, .none⟩
        ∧ input'.readableView = rest)
    ∧ (∀ input request error input' r e,
      decodeRequest input request error = .ok ⟨.complete, input', r, e⟩ →
      ∃ frame, encodeRequest r = .ok frame ∧ input.readableView = frame ++ input'.readableView)
    ∧ (∀ input₁ input₂ request error input₁' input₂' r e,
      decodeRequest input₁ request error = .ok ⟨.complete, input₁', r, e⟩ →
      decodeRequest input₂ request error = .ok ⟨.complete, input₂', r, e⟩ →
      ∃ frame, input₁.readableView = frame ++ input₁'.readableView
        ∧ input₂.readableView = frame ++ input₂'.readableView)
    ∧ ∀ input request error, (∃ r, encodeRequest r = .ok input.readableView)
      ↔ ∃ r input', decodeRequest input request error = .ok ⟨.complete, input', r, .none⟩
        ∧ input'.readableView = [] := by
  have hfound : ∀ r frame rest input request error, encodeRequest r = .ok frame →
      input.readableView = frame ++ rest →
      ∃ input', decodeRequest input request error = .ok ⟨.complete, input', r, .none⟩
        ∧ input'.readableView = rest := by
    intro r frame rest input request error hencode hview
    have hspec := decodeRequest_spec input request error
    rw [hview, nextFrame_encode hencode] at hspec
    exact hspec
  refine ⟨hfound, fun input request error input' r e h ↦ encode_nextFrame (nextFrame_of_complete h),
    ?_, fun input request error ↦ ⟨?_, ?_⟩⟩
  · intro input₁ input₂ request error input₁' input₂' r e h₁ h₂
    obtain ⟨frame, hencode, hview₁⟩ := encode_nextFrame (nextFrame_of_complete h₁)
    obtain ⟨frame', hencode', hview₂⟩ := encode_nextFrame (nextFrame_of_complete h₂)
    rw [hencode, Except.ok.injEq] at hencode'
    exact ⟨frame, hview₁, hencode' ▸ hview₂⟩
  · rintro ⟨r, hencode⟩
    exact ⟨r, hfound r _ [] input request error hencode (List.append_nil _).symm⟩
  · rintro ⟨r, input', hdecode, hempty⟩
    obtain ⟨frame, hencode, hview⟩ := encode_nextFrame (nextFrame_of_complete hdecode)
    rw [hempty, List.append_nil] at hview
    exact ⟨r, hview ▸ hencode⟩

/-- A SET with a binary value, and one byte of the next frame. -/
theorem decodeRequest_encodeRequest_set :
    let r : Request := ⟨.set, 0x0102030405060708, [107], [0, 255], 1500⟩
    let frame : Bytes := [72, 67, 65, 67, 1, 2, 0, 0, 1, 2, 3, 4, 5, 6, 7, 8, 0, 0, 0, 1, 0, 0, 0,
      2, 0, 0, 0, 0, 0, 0, 5, 220, 107, 0, 255]
    let input : Buffer := ⟨frame ++ [72], 64, 0, by decide, by decide⟩
    encodeRequest r = .ok frame
      ∧ ∃ input', decodeRequest input ⟨.get, 0, [], [], 0⟩ .none
          = .ok ⟨.complete, input', r, .none⟩
        ∧ input'.readableView = [72] :=
  ⟨rfl, decodeRequest_encodeRequest.1 _ _ [72] _ _ _ rfl rfl⟩

end Protocol

end HighCache
