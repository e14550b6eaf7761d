import HighCache.Protocol.Frames

/-!
# The contents of a stream

A stream of bytes from a client is a sequence of frames. `contents` reads it off from the front:
the requests of the whole frames, then either a header that is wrong, where reading ends for good,
or the beginning of a frame whose end has not arrived.

Reading does not depend on how much has arrived. A frame that was found stays found and a wrong
header stays wrong, whatever comes after it, so the contents of a longer stream continue those of a
shorter one (`contents_append`): it is enough to keep the unfinished frame and read on from there.
-/

namespace HighCache

namespace Protocol

/-! ## One frame

The facts about formats, for requests, and what is said about a header that is wrong: the texts of
the decoder all fit into a response. -/

theorem next_of_nextFrame {bytes : Bytes}
    {front : Framing.Front UInt8 ProtocolError Request} (h : nextFrame bytes = .ofFront front) :
    requestFraming.next bytes = front :=
  Frame.ofFront_injective ((nextFrame_eq bytes).symm.trans h)

theorem nextFrame_append_of_complete {bytes : Bytes} {request : Request} {rest : Bytes}
    (h : nextFrame bytes = .complete request rest) (more : Bytes) :
    nextFrame (bytes ++ more) = .complete request (rest ++ more) := by
  have hnext : requestFraming.next bytes = .complete request rest := next_of_nextFrame h
  rw [nextFrame_eq, Framing.next_append_of_complete hnext more]
  rfl

theorem length_rest_lt {bytes : Bytes} {request : Request} {rest : Bytes}
    (h : nextFrame bytes = .complete request rest) : rest.length < bytes.length := by
  have hnext : requestFraming.next bytes = .complete request rest := next_of_nextFrame h
  exact (Nat.lt_add_of_pos_right (by decide)).trans_le (Framing.length_rest_of_complete hnext)

theorem length_lt_of_incomplete {bytes : Bytes} (h : nextFrame bytes = .incomplete) :
    bytes.length < maxRequestFrameSize := by
  have hnext : requestFraming.next bytes = .incomplete := next_of_nextFrame h
  exact Framing.length_lt_of_next_incomplete (by decide) hnext

theorem ite_some_forall {P : String → Prop} {c : Prop} [Decidable c] {a : String}
    {x : Option String} (ha : P a) (hx : ∀ m, x = some m → P m) :
    ∀ m, (if c then some a else x) = some m → P m := by
  intro m hm
  by_cases h : c
  · rw [if_pos h, Option.some.injEq] at hm
    exact hm ▸ ha
  · rw [if_neg h] at hm
    exact hx m hm

/-- Every message about a header is short, and none says that the frame is too long. -/
theorem RequestHeader.message_of_problem (h : RequestHeader) : ∀ message,
    h.problem = some message → message.toUTF8.data.toList.length ≤ 64
      ∧ message ≠ "request frame length overflow" := by
  unfold RequestHeader.problem
  refine ite_some_forall (by decide) (ite_some_forall (by decide) (ite_some_forall (by decide)
    (ite_some_forall (by decide) (ite_some_forall (by decide) (ite_some_forall (by decide)
      (ite_some_forall (by decide) (ite_some_forall (by decide)
        (ite_some_forall (by decide) ?_))))))))
  intro message hmessage
  cases hmessage

theorem problem_of_invalid {bytes : Bytes} {error : ProtocolError}
    (h : nextFrame bytes = .invalid error) :
    ∃ message, (RequestHeader.read bytes).problem = some message
      ∧ error = ⟨true, (RequestHeader.read bytes).requestId, message⟩ := by
  have hnext : requestFraming.next bytes = .invalid error := next_of_nextFrame h
  obtain ⟨-, hproblem⟩ := Framing.next_eq_invalid_iff.mp hnext
  obtain ⟨message, hmessage, herror⟩ := Option.map_eq_some_iff.mp hproblem
  have hread : RequestHeader.read (requestFraming.header bytes) = RequestHeader.read bytes :=
    RequestHeader.read_take (le_refl _) bytes
  rw [hread] at hmessage herror
  exact ⟨message, hmessage, herror.symm⟩

theorem error_of_invalid {bytes : Bytes} {error : ProtocolError}
    (h : nextFrame bytes = .invalid error) :
    error.hasRequestId = true ∧ error.requestId = (RequestHeader.read bytes).requestId
      ∧ error.message.toUTF8.data.toList.length ≤ 64 := by
  obtain ⟨message, hmessage, rfl⟩ := problem_of_invalid h
  exact ⟨rfl, rfl, (RequestHeader.message_of_problem _ message hmessage).1⟩

/-! ## The whole stream

Reading a stream is a recursion on what is left after a frame, which is shorter. The induction rule
has the three cases of `nextFrame`. -/

/-- What a stream contains. -/
structure Contents where
  /-- The requests of the whole frames. -/
  requests : List Request
  /-- What is wrong with the header after them. -/
  error : Option ProtocolError
  /-- The frame that is not finished. -/
  rest : Bytes
  deriving DecidableEq, Repr

/-- The contents of a stream. -/
def contents (bytes : Bytes) : Contents :=
  match h : nextFrame bytes with
  | .incomplete => ⟨[], none, bytes⟩
  | .invalid error => ⟨[], some error, []⟩
  | .complete request rest =>
    have := length_rest_lt h
    { contents rest with requests := request :: (contents rest).requests }
termination_by bytes.length

theorem contents_of_incomplete {bytes : Bytes} (h : nextFrame bytes = .incomplete) :
    contents bytes = ⟨[], none, bytes⟩ := by
  rw [contents]
  split
  · rfl
  · rename_i heq
    rw [h] at heq
    cases heq
  · rename_i heq
    rw [h] at heq
    cases heq

theorem contents_of_invalid {bytes : Bytes} {error : ProtocolError}
    (h : nextFrame bytes = .invalid error) : contents bytes = ⟨[], some error, []⟩ := by
  rw [contents]
  split
  · rename_i heq
    rw [h] at heq
    cases heq
  · rename_i heq
    rw [h] at heq
    cases heq
    rfl
  · rename_i heq
    rw [h] at heq
    cases heq

theorem contents_of_complete {bytes : Bytes} {request : Request} {rest : Bytes}
    (h : nextFrame bytes = .complete request rest) :
    contents bytes = { contents rest with requests := request :: (contents rest).requests } := by
  rw [contents]
  split
  · rename_i heq
    rw [h] at heq
    cases heq
  · rename_i heq
    rw [h] at heq
    cases heq
  · rename_i heq
    rw [h] at heq
    cases heq
    rfl

@[simp] theorem contents_nil : contents [] = ⟨[], none, []⟩ := contents_of_incomplete rfl

/-- Induction over the frames of a stream. -/
theorem frames_induction {P : Bytes → Prop}
    (incomplete : ∀ bytes, nextFrame bytes = .incomplete → P bytes)
    (invalid : ∀ bytes error, nextFrame bytes = .invalid error → P bytes)
    (complete : ∀ bytes request rest, nextFrame bytes = .complete request rest → P rest → P bytes)
    (bytes : Bytes) : P bytes := by
  induction hn : bytes.length using Nat.strong_induction_on generalizing bytes with
  | _ n ih =>
    cases h : nextFrame bytes with
    | incomplete => exact incomplete bytes h
    | invalid error => exact invalid bytes error h
    | complete request rest =>
      exact complete bytes request rest h (ih _ (hn ▸ length_rest_lt h) rest rfl)

/-- What is left where nothing is wrong is an unfinished frame. -/
theorem nextFrame_rest {bytes : Bytes} (h : (contents bytes).error = none) :
    nextFrame (contents bytes).rest = .incomplete := by
  induction bytes using frames_induction with
  | incomplete bytes hframe =>
    rw [contents_of_incomplete hframe]
    exact hframe
  | invalid bytes error hframe =>
    rw [contents_of_invalid hframe] at h
    cases h
  | complete bytes request rest hframe ih =>
    rw [contents_of_complete hframe] at h ⊢
    exact ih h

/-- **Reading goes on where it stopped.** -/
theorem contents_append {bytes : Bytes} (h : (contents bytes).error = none) (more : Bytes) :
    contents (bytes ++ more)
      = { contents ((contents bytes).rest ++ more) with
          requests := (contents bytes).requests
            ++ (contents ((contents bytes).rest ++ more)).requests } := by
  induction bytes using frames_induction with
  | incomplete bytes hframe =>
    rw [contents_of_incomplete hframe]
    rfl
  | invalid bytes error hframe =>
    rw [contents_of_invalid hframe] at h
    cases h
  | complete bytes request rest hframe ih =>
    rw [contents_of_complete hframe] at h ⊢
    rw [contents_of_complete (nextFrame_append_of_complete hframe more), ih h]
    rfl

end Protocol

end HighCache
