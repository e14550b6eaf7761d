import HighCache.Cache.Cache
import HighCache.Lib.BigEndian
import HighCache.Net.Buffer

/-!
# The wire format

`protocol_codec.cpp`: requests and responses as frames of a fixed header and a body. The encoders
throw `std::invalid_argument` on what has no frame; the decoders read a frame off the front of a
`Buffer`, or find it incomplete, or find its header wrong.

An enumeration with a fixed underlying type can hold any value of that type, so `Opcode` and
`WireStatus` are bytes with names for some of them.

The encoder and the decoder check a request independently of one another. Both are compared with
one description of a frame here: the eight fields of `RequestHeader`, their bytes, and `Valid`,
which says what a header has to satisfy.
-/

namespace HighCache

namespace Protocol

/-! ## Bytes

A reader at an offset does not check the length of the data; the decoders have done so before they
call one. In the model what lies beyond the data reads as zero, and no result depends on it. -/

/-- `append_u8`. -/
def appendU8 (output : Bytes) (value : UInt8) : Bytes := output ++ [value]

/-- `append_u16`. -/
def appendU16 (output : Bytes) (value : UInt16) : Bytes :=
  let output := appendU8 output (value >>> 8).toUInt8
  appendU8 output value.toUInt8

/-- `append_u32`. -/
def appendU32 (output : Bytes) (value : UInt32) : Bytes :=
  let output := appendU8 output (value >>> 24).toUInt8
  let output := appendU8 output (value >>> 16).toUInt8
  let output := appendU8 output (value >>> 8).toUInt8
  appendU8 output value.toUInt8

/-- `append_u64`. -/
def appendU64 (output : Bytes) (value : UInt64) : Bytes :=
  let output := appendU32 output (value >>> 32).toUInt32
  appendU32 output value.toUInt32

/-- `read_u8`, at an offset from the start of the data. -/
def readU8 (data : Bytes) (offset : ℕ) : UInt8 := data.getD offset 0

/-- `read_u16`. -/
def readU16 (data : Bytes) (offset : ℕ) : UInt16 :=
  (readU8 data offset).toUInt16 <<< 8 ||| (readU8 data (offset + 1)).toUInt16

/-- `read_u32`. -/
def readU32 (data : Bytes) (offset : ℕ) : UInt32 :=
  (readU8 data offset).toUInt32 <<< 24 ||| (readU8 data (offset + 1)).toUInt32 <<< 16
    ||| (readU8 data (offset + 2)).toUInt32 <<< 8 ||| (readU8 data (offset + 3)).toUInt32

/-- `read_u64`. -/
def readU64 (data : Bytes) (offset : ℕ) : UInt64 :=
  (readU32 data offset).toUInt64 <<< 32 ||| (readU32 data (offset + 4)).toUInt64

/-! ## Messages

The sizes and limits of the format, the codes, and the two kinds of message. A code without a name
is a value of its type all the same; the decoders test for it. -/

/-- `magic`. -/
def magic : UInt32 := 0x48434143

/-- `version`. -/
def version : UInt8 := 1

/-- `request_header_size`. -/
def requestHeaderSize : ℕ := 32

/-- `response_header_size`. -/
def responseHeaderSize : ℕ := 20

/-- `max_request_frame_size`. -/
def maxRequestFrameSize : ℕ := requestHeaderSize + Cache.maxKeyLength + Cache.maxValueLength

/-- `max_response_frame_size`. -/
def maxResponseFrameSize : ℕ := responseHeaderSize + Cache.maxValueLength

/-- `std::numeric_limits<std::int64_t>::max()`. -/
def maxTtl : UInt64 := 0x7fffffffffffffff

/-- `Opcode`. -/
structure Opcode where
  value : UInt8
  deriving DecidableEq, Repr

namespace Opcode

/-- `Opcode::get`. -/
def get : Opcode := ⟨1⟩

/-- `Opcode::set`. -/
def set : Opcode := ⟨2⟩

/-- `Opcode::erase`. -/
def erase : Opcode := ⟨3⟩

end Opcode

/-- `WireStatus`. -/
structure WireStatus where
  value : UInt8
  deriving DecidableEq, Repr

namespace WireStatus

/-- `WireStatus::ok`. -/
def ok : WireStatus := ⟨0⟩

/-- `WireStatus::not_found`. -/
def notFound : WireStatus := ⟨1⟩

/-- `WireStatus::invalid_key`. -/
def invalidKey : WireStatus := ⟨2⟩

/-- `WireStatus::key_too_large`. -/
def keyTooLarge : WireStatus := ⟨3⟩

/-- `WireStatus::value_too_large`. -/
def valueTooLarge : WireStatus := ⟨4⟩

/-- `WireStatus::item_too_large`. -/
def itemTooLarge : WireStatus := ⟨5⟩

/-- `WireStatus::invalid_ttl`. -/
def invalidTtl : WireStatus := ⟨6⟩

/-- `WireStatus::protocol_error`. -/
def protocolError : WireStatus := ⟨7⟩

/-- `WireStatus::internal_error`. -/
def internalError : WireStatus := ⟨8⟩

end WireStatus

/-- `Request`. -/
structure Request where
  opcode : Opcode
  requestId : UInt64
  key : Bytes
  value : Bytes
  ttlMs : UInt64
  deriving DecidableEq, Repr

/-- `Response`. -/
structure Response where
  requestId : UInt64
  status : WireStatus
  value : Bytes
  deriving DecidableEq, Repr

/-- `ProtocolError`. -/
structure ProtocolError where
  hasRequestId : Bool
  requestId : UInt64
  message : String
  deriving DecidableEq, Repr

/-- `ProtocolError{}`. -/
def ProtocolError.none : ProtocolError := ⟨false, 0, ""⟩

/-- `DecodeResult`. -/
inductive DecodeResult where
  | incomplete
  | complete
  | error
  deriving DecidableEq, Repr

/-- `std::invalid_argument`. -/
structure InvalidArgument where
  what : String
  deriving DecidableEq, Repr

/-- `is_valid_opcode`. -/
def isValidOpcode (opcode : Opcode) : Bool :=
  opcode = .get || opcode = .set || opcode = .erase

/-- `is_valid_status`. -/
def isValidStatus (value : UInt8) : Bool := value ≤ WireStatus.internalError.value

/-- `to_wire_status`. -/
def toWireStatus : CacheStatus → WireStatus
  | .ok => .ok
  | .notFound => .notFound
  | .invalidKey => .invalidKey
  | .keyTooLarge => .keyTooLarge
  | .valueTooLarge => .valueTooLarge
  | .itemTooLarge => .itemTooLarge
  | .invalidTtl => .invalidTtl

/-! ## Encoding

The checks come in the order of the source, since the first of them that fails names the error. -/

/-- `encode_request`. -/
def encodeRequest (request : Request) : Except InvalidArgument Bytes :=
  if !isValidOpcode request.opcode then .error ⟨"request has unknown opcode"⟩
  else if request.key.length > Cache.maxKeyLength
      ∨ request.value.length > Cache.maxValueLength then
    .error ⟨"request exceeds protocol length limit"⟩
  else if (request.opcode = .get ∨ request.opcode = .erase)
      ∧ (request.value ≠ [] ∨ request.ttlMs ≠ 0) then
    .error ⟨"GET and DELETE cannot carry value or TTL"⟩
  else if request.ttlMs > maxTtl then .error ⟨"request TTL exceeds signed millisecond range"⟩
  else
    let output := appendU32 [] magic
    let output := appendU8 output version
    let output := appendU8 output request.opcode.value
    let output := appendU16 output 0
    let output := appendU64 output request.requestId
    let output := appendU32 output (UInt32.ofNat request.key.length)
    let output := appendU32 output (UInt32.ofNat request.value.length)
    let output := appendU64 output request.ttlMs
    .ok (output ++ request.key ++ request.value)

/-- `encode_response`. -/
def encodeResponse (response : Response) : Except InvalidArgument Bytes :=
  if !isValidStatus response.status.value then .error ⟨"response has unknown status"⟩
  else if response.value.length > Cache.maxValueLength then
    .error ⟨"response exceeds protocol length limit"⟩
  else
    let output := appendU32 [] magic
    let output := appendU8 output version
    let output := appendU8 output response.status.value
    let output := appendU16 output 0
    let output := appendU64 output response.requestId
    let output := appendU32 output (UInt32.ofNat response.value.length)
    .ok (output ++ response.value)

/-! ## Decoding

A decoder is handed the message and the error to fill in, and gives both back. On an unfinished
frame it has consumed nothing and the two are as they were. -/

/-- What a decoder leaves: its result, the buffer, and the two objects it may have written to. -/
structure Decoded (α : Type) where
  result : DecodeResult
  input : Buffer
  message : α
  error : ProtocolError

/-- `decode_request`. -/
def decodeRequest (input : Buffer) (request : Request) (error : ProtocolError) :
    Except Fault (Decoded Request) :=
  if input.readableBytes < requestHeaderSize then .ok ⟨.incomplete, input, request, error⟩
  else
    let header := input.readableView
    let requestId := readU64 header 8
    -- `fail(error, request_id, message)`
    let fail (message : String) : Except Fault (Decoded Request) :=
      .ok ⟨.error, input, request, ⟨true, requestId, message⟩⟩
    if readU32 header 0 ≠ magic then fail "invalid request magic"
    else if readU8 header 4 ≠ version then fail "unsupported protocol version"
    else if readU16 header 6 ≠ 0 then fail "request reserved field must be zero"
    else
      let opcodeValue := readU8 header 5
      if opcodeValue < Opcode.get.value ∨ opcodeValue > Opcode.erase.value then
        fail "unknown request opcode"
      else
        let keyLength := (readU32 header 16).toNat
        let valueLength := (readU32 header 20).toNat
        let ttlMs := readU64 header 24
        if keyLength > Cache.maxKeyLength then fail "request key length exceeds maximum"
        else if valueLength > Cache.maxValueLength then
          fail "request value length exceeds maximum"
        else if keyLength > maxRequestFrameSize - requestHeaderSize
            ∨ valueLength > maxRequestFrameSize - requestHeaderSize - keyLength then
          fail "request frame length overflow"
        else
          let opcode : Opcode := ⟨opcodeValue⟩
          if (opcode = .get ∨ opcode = .erase) ∧ valueLength ≠ 0 then
            fail "GET and DELETE cannot carry a value"
          else if (opcode = .get ∨ opcode = .erase) ∧ ttlMs ≠ 0 then
            fail "GET and DELETE cannot carry a TTL"
          else if ttlMs > maxTtl then fail "request TTL exceeds supported range"
          else
            let frameLength := requestHeaderSize + keyLength + valueLength
            if input.readableBytes < frameLength then
              .ok ⟨.incomplete, input, request, error⟩
            else do
              let request : Request := {
                opcode := opcode
                requestId := requestId
                key := (header.drop requestHeaderSize).take keyLength
                value := (header.drop (requestHeaderSize + keyLength)).take valueLength
                ttlMs := ttlMs }
              let input ← input.retrieve frameLength
              .ok ⟨.complete, input, request, .none⟩

/-- `decode_response`. -/
def decodeResponse (input : Buffer) (response : Response) (error : ProtocolError) :
    Except Fault (Decoded Response) :=
  if input.readableBytes < responseHeaderSize then .ok ⟨.incomplete, input, response, error⟩
  else
    let header := input.readableView
    let requestId := readU64 header 8
    -- `fail(error, request_id, message)`
    let fail (message : String) : Except Fault (Decoded Response) :=
      .ok ⟨.error, input, response, ⟨true, requestId, message⟩⟩
    if readU32 header 0 ≠ magic then fail "invalid response magic"
    else if readU8 header 4 ≠ version then fail "unsupported response version"
    else if readU16 header 6 ≠ 0 then fail "response reserved field must be zero"
    else
      let statusValue := readU8 header 5
      if !isValidStatus statusValue then fail "unknown response status"
      else
        let valueLength := (readU32 header 16).toNat
        if valueLength > Cache.maxValueLength then fail "response value length exceeds maximum"
        else
          let frameLength := responseHeaderSize + valueLength
          if input.readableBytes < frameLength then .ok ⟨.incomplete, input, response, error⟩
          else do
            let response : Response := {
              requestId := requestId
              status := ⟨statusValue⟩
              value := (header.drop responseHeaderSize).take valueLength }
            let input ← input.retrieve frameLength
            .ok ⟨.complete, input, response, .none⟩

end Protocol

end HighCache
