import HighCache.Lib.StdVector
import HighCache.Net.Buffer

/-!
# The buffer in memory

`buffer.cpp` once more, with the vector as memory: what `memmove` and `memcpy` write, what is asked
of the allocator, and sizes as 64-bit words. The allocator may answer with more memory than it was
asked for, or throw. An exception leaves the buffer as it is at that point, and the caller may go on
using it.

Whatever the calls were, the unread bytes are those of a queue, so which of the three ways of
`prepare_append` was taken before cannot be seen.

## Two models of one class

Connections are modelled with a buffer that is a list with a capacity, because nothing they do
depends on where the bytes are. That this is the same buffer is proved here and not assumed: the
last part compares the two, call by call.
-/

namespace HighCache

/-! ## The buffer and its calls -/

/-- `std::vector<char>`. -/
abbrev CharVector : Type := StdVector UInt8 Buffer.maxSize

/-- What a buffer throws. -/
inductive BufferException where
  | invalidArgument (what : String)
  | lengthError (what : String)
  | vector (exception : StdVector.Exception)
  deriving DecidableEq, Repr

/-- `Buffer`, with its vector in memory. -/
structure BufferStorage where
  storage : CharVector
  readerIndex : ℕ

/-- What an `append` is given: bytes, or a null pointer with a length. -/
inductive BufferSource where
  | bytes (bytes : Bytes)
  | null (length : ℕ)

/-- The number of bytes an `append` is told about. -/
def BufferSource.length : BufferSource → ℕ
  | .bytes data => data.length
  | .null length => length

/-- The answers of the allocator during one call, for any number of bytes. -/
abbrev Allocator : Type := (n : ℕ) → StdVector.Allocation UInt8 Buffer.maxSize n

/-- The allocator that never throws and answers with no more than it was asked for. -/
def Allocator.exact : Allocator := fun n ↦
  if h : n ≤ Buffer.maxSize then
    some ⟨List.replicate n 0, List.length_replicate.ge, List.length_replicate.trans_le h⟩
  else none

namespace BufferStorage

/-- `Buffer::Buffer(initial_capacity)`. -/
def new (allocator : Allocator) (initialCapacity : ℕ) : Except StdVector.Exception BufferStorage :=
  do
  let storage ← StdVector.empty.reserve initialCapacity (allocator initialCapacity)
  .ok ⟨storage, 0⟩

/-- `Buffer::readable_bytes`. -/
def readableBytes (b : BufferStorage) : Except Fault ℕ := Checked.sub b.storage.size b.readerIndex

/-- `Buffer::writable_bytes`. -/
def writableBytes (b : BufferStorage) : Except Fault ℕ :=
  Checked.sub b.storage.capacity b.storage.size

/-- `Buffer::empty`. -/
def empty (b : BufferStorage) : Except Fault Bool := do
  let readable ← b.readableBytes
  .ok (readable = 0)

/-- `Buffer::readable_view`. -/
def readableView (b : BufferStorage) : Except Fault Bytes := do
  if ← b.empty then .ok []
  else
    let readable ← b.readableBytes
    .ok ((b.storage.contents.drop b.readerIndex).take readable)

/-- `Buffer::retrieve_all`. -/
def retrieveAll (b : BufferStorage) : BufferStorage := ⟨b.storage.shrink 0, 0⟩

/-- `Buffer::retrieve`. -/
def retrieve (length : ℕ) (b : BufferStorage) : Except Fault BufferStorage := do
  let readable ← b.readableBytes
  Checked.assert (length ≤ readable)
  if length = readable then .ok b.retrieveAll
  else
    let readerIndex ← Checked.add b.readerIndex length
    .ok { b with readerIndex := readerIndex }

/-- The last part of `Buffer::prepare_append`: a larger vector takes the unread bytes over. -/
def replace (allocator : Allocator) (capacity : ℕ) (b : BufferStorage) :
    Option BufferException × BufferStorage :=
  match StdVector.empty.reserve capacity (allocator capacity) with
  | .error exception => (some (.vector exception), b)
  | .ok replacement =>
    match replacement.extend (b.storage.contents.drop b.readerIndex) (allocator _) with
    | .error exception => (some (.vector exception), b)
    | .ok replacement => (none, ⟨replacement, 0⟩)

/-- `Buffer::prepare_append`. -/
def prepareAppend (allocator : Allocator) (length : ℕ) (b : BufferStorage) :
    Except Fault (Option BufferException × BufferStorage) := do
  let readable ← b.readableBytes
  let room ← Checked.sub Buffer.maxSize readable
  if length > room then
    .ok (some (.lengthError "buffer size exceeds vector maximum"), b)
  else
    let writable ← b.writableBytes
    if length ≤ writable then .ok (none, b)
    else
      let slack ← Checked.add b.readerIndex writable
      if length ≤ slack then
        let storage ← b.storage.memmove 0 b.readerIndex readable
        match storage.resize 0 readable (allocator _) with
        | .error exception => .ok (some (.vector exception), { b with storage := storage })
        | .ok storage => .ok (none, ⟨storage, 0⟩)
      else
        let required ← Checked.add readable length
        let doubled ← if b.storage.capacity ≤ (Checked.wordSize - 1) / 2
          then Checked.mul b.storage.capacity 2 else .ok Buffer.maxSize
        .ok (b.replace allocator (max required doubled))

/-- `Buffer::append(data, length)` from the null check on. -/
def appendBytes (allocator : Allocator) (bytes : Bytes) (b : BufferStorage) :
    Except Fault (Option BufferException × BufferStorage) := do
  let (exception, b) ← b.prepareAppend allocator bytes.length
  match exception with
  | some exception => .ok (some exception, b)
  | none =>
    let oldSize := b.storage.size
    let newSize ← Checked.add oldSize bytes.length
    match b.storage.resize 0 newSize (allocator _) with
    | .error exception => .ok (some (.vector exception), b)
    | .ok storage =>
      let storage ← storage.store oldSize bytes
      .ok (none, { b with storage := storage })

/-- `Buffer::append(data, length)`. -/
def append (allocator : Allocator) (source : BufferSource) (b : BufferStorage) :
    Except Fault (Option BufferException × BufferStorage) :=
  if source.length = 0 then .ok (none, b)
  else
    match source with
    | .null _ => .ok (some (.invalidArgument "buffer append data must not be null"), b)
    | .bytes bytes => b.appendBytes allocator bytes

/-- A call of one of the three operations that change a buffer. -/
inductive Call where
  | append (allocator : Allocator) (source : BufferSource)
  | retrieve (length : ℕ)
  | retrieveAll

/-- One call; the output is the exception, if it throws one. -/
def step (b : BufferStorage) : Call → Except Fault (Option BufferException × BufferStorage)
  | .append allocator source => b.append allocator source
  | .retrieve length => do
    let b ← b.retrieve length
    .ok (none, b)
  | .retrieveAll => .ok (none, b.retrieveAll)

/-- What a caller may ask for. -/
def Permitted (b : BufferStorage) : Call → Prop
  | .retrieve length => ∃ readable, b.readableBytes = .ok readable ∧ length ≤ readable
  | _ => True

/-- There is memory for `length` more bytes: the vector has it, or the allocator gives it. The
vector is replaced by one of at least twice its capacity, or not at all. -/
def Affords (b : BufferStorage) (allocator : Allocator) (length : ℕ) : Prop :=
  b.storage.size - b.readerIndex + length ≤ b.storage.capacity
    ∨ max (b.storage.size - b.readerIndex + length) (b.storage.capacity * 2) ≤ Buffer.maxSize
      ∧ (allocator (max (b.storage.size - b.readerIndex + length)
        (b.storage.capacity * 2))).isSome = true

/-! ## A queue of bytes

The specification is a list. An exception leaves it as it was, whatever it was thrown for. -/

/-- What a call does to a queue of bytes, by the exception it threw, if any. -/
def queueAfter (q : Bytes) : Call → Option BufferException → Bytes
  | .append _ (.bytes bytes), none => q ++ bytes
  | .append _ (.null _), none => q
  | .append _ _, some _ => q
  | .retrieve length, _ => q.drop length
  | .retrieveAll, _ => []

/-- The queue after calls and the exceptions they threw. -/
def queueAfterAll : Bytes → List Call → List (Option BufferException) → Bytes
  | q, call :: calls, exception :: exceptions =>
    queueAfterAll (queueAfter q call exception) calls exceptions
  | q, _, _ => q

/-! ## The unread bytes

The invariant: the unread bytes are the end of the vector, from the reader index on, and a buffer
that has been read to its end has an empty vector, so that the index is never at the end of a full
one. -/

theorem writableBytes_eq (b : BufferStorage) :
    b.writableBytes = .ok (b.storage.capacity - b.storage.size) :=
  Checked.sub_eq b.storage.size_le

private theorem appendBytes_of_room {allocator : Allocator} {bytes : Bytes} {b b₁ : BufferStorage}
    (hprepare : b.prepareAppend allocator bytes.length = .ok (none, b₁))
    (hfits : b₁.storage.size + bytes.length ≤ b₁.storage.capacity) :
    ∃ stored, b.appendBytes allocator bytes = .ok (none, { b₁ with storage := stored })
      ∧ stored.contents = b₁.storage.contents ++ bytes
      ∧ stored.capacity = b₁.storage.capacity := by
  have hcapacity : b₁.storage.capacity ≤ Buffer.maxSize := b₁.storage.capacity_le
  have hword : Buffer.maxSize < Checked.wordSize := by decide
  obtain ⟨grown, hresize, hsize, hcapacity', hcontents⟩ :=
    StdVector.resize_of_room (Nat.le_add_right _ _) hfits (allocator _)
  have hin : b₁.storage.size + bytes.length ≤ grown.size := hsize.ge
  obtain ⟨stored, hstore, -, hcapacity'', hcontents'⟩ := StdVector.store_eq hin
  refine ⟨stored, ?_, ?_, hcapacity''.trans hcapacity'⟩
  · unfold appendBytes
    rw [hprepare, Except.ok_bind_eq]
    dsimp only
    rw [Checked.add_eq (by omega), Except.ok_bind_eq, hresize]
    dsimp only
    rw [hstore]
    rfl
  · have hdrop : grown.contents.drop (b₁.storage.size + bytes.length) = [] := by
      rw [List.drop_eq_nil_iff, StdVector.length_contents, hsize]
    rw [hcontents', hdrop, List.append_nil, hcontents, ← b₁.storage.length_contents,
      List.take_left]

/-- The buffer holds the bytes `q` unread. -/
structure Holds (b : BufferStorage) (q : Bytes) : Prop where
  reader_le : b.readerIndex ≤ b.storage.size
  view : b.storage.contents.drop b.readerIndex = q
  /-- A buffer that has been read to its end starts over. -/
  restart : b.readerIndex = b.storage.size → b.storage.size = 0

private theorem holds_retrieveAll (b : BufferStorage) : b.retrieveAll.Holds [] where
  reader_le := Nat.zero_le _
  view := by
    show (b.storage.shrink 0).contents.drop 0 = []
    rw [StdVector.contents_shrink, List.take_zero, List.drop_nil]
  restart := fun hzero ↦ hzero.symm

namespace Holds

variable {b : BufferStorage} {q : Bytes} (h : b.Holds q)
include h

theorem length_eq : q.length = b.storage.size - b.readerIndex := by
  rw [← h.view, List.length_drop, StdVector.length_contents]

theorem readableBytes_eq : b.readableBytes = .ok q.length := by
  rw [readableBytes, Checked.sub_eq h.reader_le, h.length_eq]

theorem readableView_eq : b.readableView = .ok q := by
  rw [readableView, empty, h.readableBytes_eq]
  simp only [Except.ok_bind_eq]
  split
  · rename_i hzero
    rw [decide_eq_true_iff, List.length_eq_zero_iff] at hzero
    rw [hzero]
  · rw [h.view, List.take_length]

theorem retrieve {length : ℕ} (hlength : length ≤ q.length) :
    ∃ b', b.retrieve length = .ok b' ∧ b'.Holds (q.drop length) := by
  have hq := h.length_eq
  have hmax := b.storage.size_le_maxSize
  have hword : Buffer.maxSize < Checked.wordSize := by decide
  rw [BufferStorage.retrieve, h.readableBytes_eq, Except.ok_bind_eq,
    Checked.assert_eq (decide_eq_true hlength), Except.ok_bind_eq]
  split
  · rename_i hall
    rw [hall, List.drop_length]
    exact ⟨_, rfl, b.holds_retrieveAll⟩
  · have := h.reader_le
    rw [Checked.add_eq (by omega), Except.ok_bind_eq]
    refine ⟨_, rfl, ?_, ?_, ?_⟩
    · show b.readerIndex + length ≤ b.storage.size
      omega
    · show b.storage.contents.drop (b.readerIndex + length) = _
      rw [← h.view, List.drop_drop]
    · show b.readerIndex + length = b.storage.size → _
      omega

/-- A larger vector takes the unread bytes over, or nothing changes. It is there if the allocator
gives its memory. -/
theorem replace (allocator : Allocator) {capacity : ℕ} (hcapacity : q.length ≤ capacity)
    (hpos : 0 < capacity) :
    (b.replace allocator capacity).2.Holds q
      ∧ ((b.replace allocator capacity).1 = none →
        (b.replace allocator capacity).2.storage.size = q.length
          ∧ capacity ≤ (b.replace allocator capacity).2.storage.capacity)
      ∧ ((b.replace allocator capacity).1 = none
        ↔ capacity ≤ Buffer.maxSize ∧ (allocator capacity).isSome = true) := by
  have hreserve := StdVector.reserve_ensures capacity StdVector.empty (allocator capacity)
  have hiff := @StdVector.exists_reserve_iff _ _ _ StdVector.empty (allocator capacity)
  have hnone : ¬ capacity ≤ (StdVector.empty : CharVector).capacity := Nat.not_le.mpr hpos
  simp only [hnone, false_or] at hiff
  unfold BufferStorage.replace
  cases hreserved :
      (StdVector.empty : CharVector).reserve capacity (allocator capacity) with
  | error exception =>
    rw [hreserved] at hiff
    refine ⟨h, by rintro ⟨⟩, by rintro ⟨⟩, fun hgiven ↦ ?_⟩
    obtain ⟨v, ⟨⟩⟩ := hiff.mpr hgiven
  | ok replacement =>
    have hgiven := hiff.mp ⟨replacement, hreserved⟩
    rw [hreserved] at hreserve
    obtain ⟨hcontents, hsize, hroom⟩ := hreserve
    have hempty : replacement.contents = [] := hcontents
    have hzero : replacement.size = 0 := hsize
    rw [h.view]
    have hfits : replacement.size + q.length ≤ replacement.capacity := by omega
    obtain ⟨v, hextend, hcontents', hsize', hcapacity'⟩ :=
      StdVector.extend_of_room hfits (allocator _)
    dsimp only
    rw [hextend]
    rw [hempty, List.nil_append] at hcontents'
    rw [hzero, Nat.zero_add] at hsize'
    refine ⟨⟨Nat.zero_le _, hcontents', fun hall ↦ hall.symm⟩, fun _ ↦ ⟨hsize', ?_⟩,
      iff_of_true rfl hgiven⟩
    exact hroom.trans_eq hcapacity'.symm

private theorem compact (allocator : Allocator) :
    ∃ storage, b.storage.memmove 0 b.readerIndex q.length = .ok storage
      ∧ storage.resize 0 q.length (allocator _) = .ok (storage.shrink q.length)
      ∧ (BufferStorage.mk (storage.shrink q.length) 0).Holds q
      ∧ (storage.shrink q.length).size = q.length
      ∧ (storage.shrink q.length).capacity = b.storage.capacity := by
  have hq := h.length_eq
  have hle := h.reader_le
  obtain ⟨storage, hmove, hsize, hcapacity, hfront⟩ :=
    StdVector.memmove_front (show b.readerIndex + q.length ≤ b.storage.size by omega)
  have hshrunk : (storage.shrink q.length).size = q.length := by
    show min q.length storage.size = q.length
    omega
  refine ⟨storage, hmove, ?_, ⟨Nat.zero_le _, ?_, fun hall ↦ hall.symm⟩, hshrunk, hcapacity⟩
  · rw [StdVector.resize, if_pos (by omega)]
  · show (storage.shrink q.length).contents.drop 0 = q
    rw [List.drop_zero, StdVector.contents_shrink, hfront, h.view, List.take_length]

/-- **Making room keeps the unread bytes and makes enough of it**, in each of the three ways; it
throws where there is no memory for it, and then the unread bytes are kept as well. -/
theorem prepareAppend (allocator : Allocator) (length : ℕ) :
    ∃ exception b', b.prepareAppend allocator length = .ok (exception, b') ∧ b'.Holds q
      ∧ (exception = none → b'.storage.size + length ≤ b'.storage.capacity)
      ∧ (exception = none ↔ b.Affords allocator length) := by
  have hq := h.length_eq
  have hle := h.reader_le
  have hsize := b.storage.size_le_maxSize
  have hfits : b.storage.size ≤ b.storage.capacity := b.storage.size_le
  have hcapacity : b.storage.capacity ≤ Buffer.maxSize := b.storage.capacity_le
  have hmax : Buffer.maxSize = 2 ^ 63 - 1 := rfl
  have hword : Checked.wordSize = 2 ^ 64 := rfl
  have hfits' : q.length + length ≤ b.storage.capacity → b.Affords allocator length :=
    fun hroom ↦ Or.inl (by omega)
  unfold BufferStorage.prepareAppend
  rw [h.readableBytes_eq, Except.ok_bind_eq, Checked.sub_eq (by omega), Except.ok_bind_eq]
  split
  · -- the largest vector is too small, whatever the allocator would give
    refine ⟨_, b, rfl, h, by rintro ⟨⟩, by rintro ⟨⟩, ?_⟩
    rintro (hroom | ⟨hroom, -⟩) <;> omega
  rw [writableBytes_eq, Except.ok_bind_eq]
  split
  · exact ⟨none, b, rfl, h, fun _ ↦ by omega, iff_of_true rfl (hfits' (by omega))⟩
  rw [Checked.add_eq (by omega), Except.ok_bind_eq]
  split
  · obtain ⟨storage, hmove, hresize, hholds, hlength, hroom⟩ := h.compact allocator
    rw [hmove, Except.ok_bind_eq, hresize]
    refine ⟨none, _, rfl, hholds, fun _ ↦ ?_, iff_of_true rfl (hfits' (by omega))⟩
    show (storage.shrink q.length).size + length ≤ (storage.shrink q.length).capacity
    omega
  · have henough := le_max_left (q.length + length) (b.storage.capacity * 2)
    obtain ⟨hholds, hroom, hiff⟩ := h.replace allocator ((Nat.le_add_right _ _).trans henough)
      (by omega)
    rw [Checked.add_eq (by omega), Except.ok_bind_eq, if_pos (by omega),
      Checked.mul_eq (by omega), Except.ok_bind_eq]
    dsimp only
    cases hreplaced : b.replace allocator (max (q.length + length) (b.storage.capacity * 2)) with
    | mk exception b' =>
      rw [hreplaced] at hholds hroom hiff
      refine ⟨exception, b', rfl, hholds, fun hnone ↦ ?_, hiff.trans ?_⟩
      · obtain ⟨hlength, hcap⟩ := hroom hnone
        dsimp only at hlength hcap
        omega
      · rw [Affords, ← hq, or_iff_right (by omega)]

theorem appendBytes (allocator : Allocator) (bytes : Bytes) :
    ∃ exception b', b.appendBytes allocator bytes = .ok (exception, b')
      ∧ b'.Holds (if exception = none then q ++ bytes else q)
      ∧ (exception = none ↔ b.Affords allocator bytes.length) := by
  obtain ⟨exception, b₁, hprepare, h₁, hroom, hiff⟩ := h.prepareAppend allocator bytes.length
  cases exception with
  | some exception =>
    refine ⟨some exception, b₁, ?_, h₁, hiff⟩
    rw [BufferStorage.appendBytes, hprepare]
    rfl
  | none =>
    obtain ⟨stored, happend, hcontents, -⟩ := appendBytes_of_room hprepare (hroom rfl)
    have hsize := congrArg List.length hcontents
    rw [List.length_append, StdVector.length_contents, StdVector.length_contents] at hsize
    have hle := h₁.reader_le
    refine ⟨none, _, happend, ⟨?_, ?_, ?_⟩, hiff⟩
    · show b₁.readerIndex ≤ stored.size
      omega
    · show stored.contents.drop b₁.readerIndex = q ++ bytes
      rw [hcontents, List.drop_append_of_le_length
        (hle.trans_eq b₁.storage.length_contents.symm), h₁.view]
    · show b₁.readerIndex = stored.size → stored.size = 0
      have := h₁.restart
      omega

theorem append (allocator : Allocator) (source : BufferSource) :
    ∃ exception b', b.append allocator source = .ok (exception, b')
      ∧ b'.Holds (queueAfter q (.append allocator source) exception)
      ∧ (exception = none ↔ source.length = 0
        ∨ ∃ bytes, source = .bytes bytes ∧ b.Affords allocator bytes.length) := by
  unfold BufferStorage.append
  cases source with
  | null length =>
    split
    · rename_i hzero
      exact ⟨none, b, rfl, h, iff_of_true rfl (Or.inl hzero)⟩
    · rename_i hzero
      refine ⟨_, b, rfl, h, iff_of_false (by rintro ⟨⟩) ?_⟩
      rintro (hlength | ⟨bytes, ⟨⟩, -⟩)
      exact hzero hlength
  | bytes bytes =>
    split
    · rename_i hzero
      refine ⟨none, b, rfl, ?_, iff_of_true rfl (Or.inl hzero)⟩
      have hnil : bytes = [] := List.length_eq_zero_iff.mp hzero
      rw [queueAfter, hnil, List.append_nil]
      exact h
    · rename_i hzero
      obtain ⟨exception, b', hcode, h', hiff⟩ := h.appendBytes allocator bytes
      refine ⟨exception, b', hcode, ?_, hiff.trans ?_⟩
      · cases exception with
        | none => exact h'
        | some exception => exact h'
      · constructor
        · exact fun haffords ↦ Or.inr ⟨bytes, rfl, haffords⟩
        · rintro (hlength | ⟨_, ⟨⟩, haffords⟩)
          · exact absurd hlength hzero
          · exact haffords

/-- **One call.** -/
theorem step {call : Call} (hpermitted : b.Permitted call) :
    ∃ exception b', b.step call = .ok (exception, b') ∧ b'.Holds (queueAfter q call exception) := by
  cases call with
  | append allocator source =>
    obtain ⟨exception, b', hcode, h', -⟩ := h.append allocator source
    exact ⟨exception, b', hcode, h'⟩
  | retrieve length =>
    obtain ⟨readable, hreadable, hle⟩ := hpermitted
    rw [h.readableBytes_eq, Except.ok.injEq] at hreadable
    obtain ⟨b', hcode, h'⟩ := h.retrieve (hle.trans_eq hreadable.symm)
    refine ⟨none, b', ?_, h'⟩
    rw [BufferStorage.step, hcode]
    rfl
  | retrieveAll => exact ⟨none, _, rfl, b.holds_retrieveAll⟩

end Holds

/-! ## Every sequence of calls -/

theorem Holds.run : ∀ (calls : List Call) {b : BufferStorage} {q : Bytes}, b.Holds q →
    Transition.Permits Permitted BufferStorage.step b calls →
    ∃ exceptions b', Transition.run BufferStorage.step b calls = .ok (exceptions, b')
      ∧ b'.Holds (queueAfterAll q calls exceptions) := by
  intro calls
  induction calls with
  | nil => intro b q h _; exact ⟨[], b, rfl, h⟩
  | cons call calls ih =>
    intro b q h hpermits
    obtain ⟨exception, b', hstep, h'⟩ := h.step hpermits.1
    obtain ⟨exceptions, b'', hrun, h''⟩ := ih h' (hpermits.2 exception b' hstep)
    exact ⟨exception :: exceptions, b'', by rw [Transition.run_cons hstep, hrun]; rfl, h''⟩

theorem holds_new {allocator : Allocator} {initialCapacity : ℕ} {b : BufferStorage}
    (h : new allocator initialCapacity = .ok b) : b.Holds [] := by
  obtain ⟨storage, hreserve, hb⟩ := Except.bind_eq_ok_iff.mp h
  cases hb
  have hensures :=
    StdVector.reserve_ensures initialCapacity StdVector.empty (allocator initialCapacity)
  rw [hreserve] at hensures
  obtain ⟨hcontents, hsize, -⟩ := hensures
  have hnil : storage.contents = [] := hcontents
  refine ⟨Nat.zero_le _, ?_, fun _ ↦ hsize⟩
  rw [hnil, List.drop_nil]

/-- **A buffer is a queue of bytes.** After any permitted calls on a new buffer no size has wrapped
and no memory outside the vector was touched; the unread bytes are those of the queue; the reader
index is within the vector, and at its end only where the vector is empty. From there, making room
for any number of bytes keeps the unread bytes and gives that much room, or throws; and this and
`append` throw only where there is no memory to be had, or for a null pointer. -/
theorem run_queue {allocator : Allocator} {initialCapacity : ℕ} {b : BufferStorage}
    (hnew : new allocator initialCapacity = .ok b) (calls : List Call)
    (hpermits : Transition.Permits Permitted step b calls) :
    ∃ exceptions b', Transition.run step b calls = .ok (exceptions, b')
      ∧ b'.readableView = .ok (queueAfterAll [] calls exceptions)
      ∧ b'.readerIndex ≤ b'.storage.size
      ∧ (b'.readerIndex = b'.storage.size → b'.readerIndex = 0 ∧ b'.storage.size = 0)
      ∧ (∀ allocator length, ∃ exception b'',
        b'.prepareAppend allocator length = .ok (exception, b'')
          ∧ b''.readableView = b'.readableView
          ∧ (exception = none → b''.storage.size + length ≤ b''.storage.capacity)
          ∧ (exception = none ↔ b'.Affords allocator length))
      ∧ ∀ allocator source, ∃ exception b'', b'.append allocator source = .ok (exception, b'')
        ∧ (exception = none ↔ source.length = 0
          ∨ ∃ bytes, source = .bytes bytes ∧ b'.Affords allocator bytes.length) := by
  obtain ⟨exceptions, b', hrun, h⟩ := (holds_new hnew).run calls hpermits
  refine ⟨exceptions, b', hrun, h.readableView_eq, h.reader_le, fun hall ↦ ?_,
    fun allocator length ↦ ?_, fun allocator source ↦ ?_⟩
  · have hzero := h.restart hall
    exact ⟨hall.trans hzero, hzero⟩
  · obtain ⟨exception, b'', hprepare, h'', hroom, hiff⟩ := h.prepareAppend allocator length
    exact ⟨exception, b'', hprepare, by rw [h''.readableView_eq, h.readableView_eq], hroom, hiff⟩
  · obtain ⟨exception, b'', happend, -, hiff⟩ := h.append allocator source
    exact ⟨exception, b'', happend, hiff⟩

/-- Appending to a buffer that has been read in part: first there is room once the unread byte is
moved, and then there is none. -/
private def partlyRead : List Call :=
  [.append .exact (.bytes [49, 50, 51]), .retrieve 2, .append .exact (.bytes [97, 98, 99]),
    .append .exact (.bytes [100])]

/-- The vector of four bytes is replaced by one of eight. -/
theorem run_queue_replaced :
    ∃ b, new .exact 4 = .ok b ∧ Transition.Permits Permitted step b partlyRead
      ∧ ∃ exceptions b', Transition.run step b partlyRead = .ok (exceptions, b')
        ∧ exceptions = [none, none, none, none] ∧ b'.storage.capacity = 8
        ∧ b'.readableView = .ok [51, 97, 98, 99, 100]
        ∧ b'.readerIndex ≤ b'.storage.size
        ∧ (b'.readerIndex = b'.storage.size → b'.readerIndex = 0 ∧ b'.storage.size = 0)
        ∧ (∀ allocator length, ∃ exception b'',
          b'.prepareAppend allocator length = .ok (exception, b'')
            ∧ b''.readableView = b'.readableView
            ∧ (exception = none → b''.storage.size + length ≤ b''.storage.capacity)
            ∧ (exception = none ↔ b'.Affords allocator length))
        ∧ ∀ allocator source, ∃ exception b'', b'.append allocator source = .ok (exception, b'')
          ∧ (exception = none ↔ source.length = 0
            ∨ ∃ bytes, source = .bytes bytes ∧ b'.Affords allocator bytes.length) := by
  obtain ⟨b, hnew⟩ : ∃ b, new .exact 4 = .ok b := ⟨_, rfl⟩
  have hpermits : Transition.Permits Permitted step b partlyRead := by
    refine ⟨trivial, fun exception b₁ hstep ↦ ⟨?_, fun _ _ _ ↦ ⟨trivial, fun _ _ _ ↦
      ⟨trivial, fun _ _ _ ↦ trivial⟩⟩⟩⟩
    cases hnew
    cases hstep
    exact ⟨3, rfl, by decide⟩
  have hvalues : (Transition.run step b partlyRead).toOption.map
      (fun r ↦ (r.1, r.2.storage.capacity)) = some ([none, none, none, none], 8) := by
    cases hnew
    decide +kernel
  obtain ⟨exceptions, b', hrun, hview, hrest⟩ := run_queue hnew partlyRead hpermits
  rw [hrun] at hvalues
  obtain ⟨hnone, hcapacity⟩ := Prod.mk.inj (Option.some.inj hvalues)
  dsimp only at hnone hcapacity
  refine ⟨b, hnew, hpermits, exceptions, b', hrun, hnone, hcapacity, ?_, hrest⟩
  rw [hview, hnone]
  rfl

/-! ## The buffer without memory

With an allocator that answers what it is asked for, a buffer in memory is the `Buffer` that
connections are modelled with. -/

/-- The elements of the vector, its capacity and the reader index agree. -/
structure Represents (b : BufferStorage) (c : Buffer) : Prop where
  contents : c.storage = b.storage.contents
  capacity : c.capacity = b.storage.capacity
  readerIndex : c.readerIndex = b.readerIndex

/-- Both returned, or both threw and nothing changed. -/
def Agrees (b : BufferStorage) (r : Except Fault (Option BufferException × BufferStorage))
    (r' : Except Fault Buffer) : Prop :=
  (∃ b' c', r = .ok (none, b') ∧ r' = .ok c' ∧ Represents b' c')
    ∨ ∃ exception what, r = .ok (some exception, b) ∧ r' = .error (.exception what)

private theorem reserve_exact {n : ℕ} (h : n ≤ Buffer.maxSize) :
    ∃ v : CharVector, StdVector.empty.reserve n (Allocator.exact n) = .ok v ∧ v.contents = []
      ∧ v.size = 0 ∧ v.capacity = n := by
  unfold StdVector.reserve Allocator.exact
  rw [if_neg (Nat.not_lt.mpr h), dif_pos h]
  split
  · rename_i hzero
    exact ⟨_, rfl, rfl, rfl, (Nat.le_zero.mp hzero).symm⟩
  · refine ⟨_, rfl, ?_, rfl, ?_⟩
    · rw [StdVector.contents_fill]
      rfl
    · rw [StdVector.capacity_fill, List.length_replicate]

private theorem Holds.replace_exact {b : BufferStorage} {q : Bytes} (h : b.Holds q) {n : ℕ}
    (hle : q.length ≤ n) :
    (n ≤ Buffer.maxSize ∧ ∃ v, b.replace .exact n = (none, ⟨v, 0⟩) ∧ v.contents = q
        ∧ v.capacity = n)
      ∨ Buffer.maxSize < n ∧ ∃ exception, b.replace .exact n = (some exception, b) := by
  unfold BufferStorage.replace
  by_cases hmax : n ≤ Buffer.maxSize
  · obtain ⟨v, hreserve, hcontents, hsize, hcapacity⟩ := reserve_exact hmax
    have hfits : v.size + q.length ≤ v.capacity := by omega
    obtain ⟨v', hextend, hcontents', -, hcapacity'⟩ :=
      StdVector.extend_of_room hfits (Allocator.exact _)
    refine Or.inl ⟨hmax, v', ?_, ?_, hcapacity'.trans hcapacity⟩
    · rw [hreserve, h.view]
      dsimp only
      rw [hextend]
    · rw [hcontents', hcontents, List.nil_append]
  · refine Or.inr ⟨Nat.not_le.mp hmax, .vector .lengthError, ?_⟩
    rw [StdVector.reserve, if_pos (Nat.not_le.mp hmax)]

private theorem Holds.agrees_prepareAppend {b : BufferStorage} {q : Bytes} (h : b.Holds q)
    {c : Buffer} (hc : Represents b c) (length : ℕ) :
    Agrees b (b.prepareAppend .exact length) (c.prepareAppend length) := by
  have hq := h.length_eq
  have hle := h.reader_le
  have hsize := b.storage.size_le_maxSize
  have hfits : b.storage.size ≤ b.storage.capacity := b.storage.size_le
  have hcapacity : b.storage.capacity ≤ Buffer.maxSize := b.storage.capacity_le
  have hmax : Buffer.maxSize = 2 ^ 63 - 1 := rfl
  have hword : Checked.wordSize = 2 ^ 64 := rfl
  have hlength : c.storage.length = b.storage.size := by
    rw [hc.contents, StdVector.length_contents]
  have hreadable : c.readableBytes = q.length := by
    rw [Buffer.readableBytes, hlength, hc.readerIndex, hq]
  have hwritable : c.writableBytes = b.storage.capacity - b.storage.size := by
    rw [Buffer.writableBytes, hlength, hc.capacity]
  have hview : c.readableView = q := by
    rw [Buffer.readableView, hc.contents, hc.readerIndex, h.view]
  have hgrown : c.grownCapacity length
      = max (q.length + length) (b.storage.capacity * 2) := by
    rw [Buffer.grownCapacity, hreadable, hc.capacity, if_pos (by omega)]
  have hgrows : q.length ≤ max (q.length + length) (b.storage.capacity * 2) :=
    (Nat.le_add_right _ _).trans (le_max_left _ _)
  have hreader := hc.readerIndex
  -- the cases are those of the buffer without a vector, and the tests below follow them
  have hprepares := c.prepares length
  unfold BufferStorage.prepareAppend
  rw [h.readableBytes_eq, Except.ok_bind_eq, Checked.sub_eq (by omega), Except.ok_bind_eq]
  generalize c.prepareAppend length = result at hprepares ⊢
  cases hprepares with
  | tooLong hlong =>
    rw [if_pos (by omega)]
    exact Or.inr ⟨_, _, rfl, rfl⟩
  | inPlace hfits hroom =>
    rw [if_neg (by omega), writableBytes_eq, Except.ok_bind_eq, if_pos (by omega)]
    exact Or.inl ⟨b, c, rfl, rfl, hc⟩
  | moved hfits hfull hroom hstorage hcapacity' hreader =>
    rw [if_neg (by omega), writableBytes_eq, Except.ok_bind_eq, if_neg (by omega),
      Checked.add_eq (by omega), Except.ok_bind_eq, if_pos (by omega)]
    obtain ⟨storage, hmove, hresize, hholds, -, hroom'⟩ := h.compact .exact
    rw [hmove, Except.ok_bind_eq, hresize]
    have hfront := hholds.view
    rw [List.drop_zero] at hfront
    exact Or.inl ⟨_, _, rfl, rfl, hstorage.trans (hview.trans hfront.symm),
      hcapacity'.trans (hc.capacity.trans hroom'.symm), hreader⟩
  | tooLarge hfits hnone hlarge =>
    rw [if_neg (by omega), writableBytes_eq, Except.ok_bind_eq, if_neg (by omega),
      Checked.add_eq (by omega), Except.ok_bind_eq, if_neg (by omega), Checked.add_eq (by omega),
      Except.ok_bind_eq, if_pos (by omega), Checked.mul_eq (by omega), Except.ok_bind_eq]
    rw [hgrown] at hlarge
    rcases h.replace_exact hgrows with ⟨hn, -⟩ | ⟨-, exception, hreplace⟩
    · exact absurd hlarge (Nat.not_lt.mpr hn)
    · dsimp only
      rw [hreplace]
      exact Or.inr ⟨_, _, rfl, rfl⟩
  | replaced hfits hnone hsmall hstorage hcapacity' hreader =>
    rw [if_neg (by omega), writableBytes_eq, Except.ok_bind_eq, if_neg (by omega),
      Checked.add_eq (by omega), Except.ok_bind_eq, if_neg (by omega), Checked.add_eq (by omega),
      Except.ok_bind_eq, if_pos (by omega), Checked.mul_eq (by omega), Except.ok_bind_eq]
    rw [hgrown] at hsmall hcapacity'
    rcases h.replace_exact hgrows with ⟨-, v, hreplace, hcontents, hroom⟩ | ⟨hn, -⟩
    · dsimp only
      rw [hreplace]
      exact Or.inl ⟨_, _, rfl, rfl, hstorage.trans (hview.trans hcontents.symm),
        hcapacity'.trans hroom.symm, hreader⟩
    · exact absurd hn (Nat.not_lt.mpr hsmall)

/-- **Appending in memory is appending to the buffer of the connections.** -/
theorem Holds.agrees_append {b : BufferStorage} {q : Bytes} (h : b.Holds q) {c : Buffer}
    (hc : Represents b c) (bytes : Bytes) :
    Agrees b (b.append .exact (.bytes bytes)) (c.append bytes) := by
  unfold BufferStorage.append Buffer.append
  show Agrees b (if bytes.length = 0 then _ else _) _
  split
  · exact Or.inl ⟨b, c, rfl, rfl, hc⟩
  rcases h.agrees_prepareAppend hc bytes.length with
    ⟨b₁, c₁, hprepare, hprepare', hc₁⟩ | ⟨exception, what, hprepare, hprepare'⟩
  · obtain ⟨exception, b₂, hprepared, -, hroom, -⟩ := h.prepareAppend .exact bytes.length
    obtain ⟨rfl, rfl⟩ := Except.ok_unique hprepare hprepared
    have hfits := hroom rfl
    obtain ⟨stored, happend, hcontents, hcapacity⟩ := appendBytes_of_room hprepare hfits
    rw [hprepare', Except.ok_bind_eq]
    refine Or.inl ⟨_, _, happend, rfl, ?_, ?_, hc₁.readerIndex⟩
    · show c₁.storage ++ bytes = stored.contents
      rw [hc₁.contents, hcontents]
    · show max c₁.capacity (c₁.storage.length + bytes.length) = stored.capacity
      rw [hc₁.capacity, hc₁.contents, StdVector.length_contents, max_eq_left hfits, hcapacity]
  · refine Or.inr ⟨exception, what, ?_, by rw [hprepare']; rfl⟩
    show b.appendBytes .exact bytes = _
    rw [BufferStorage.appendBytes, hprepare]
    rfl

theorem Represents.retrieveAll {b : BufferStorage} {c : Buffer} (hc : Represents b c) :
    Represents b.retrieveAll c.retrieveAll where
  contents := by
    show [] = (b.storage.shrink 0).contents
    rw [StdVector.contents_shrink, List.take_zero]
  capacity := hc.capacity
  readerIndex := rfl

theorem Holds.represents_retrieve {b : BufferStorage} {q : Bytes} (h : b.Holds q) {c : Buffer}
    (hc : Represents b c) {length : ℕ} (hlength : length ≤ q.length) :
    ∃ b' c', b.retrieve length = .ok b' ∧ c.retrieve length = .ok c' ∧ Represents b' c' := by
  have hq := h.length_eq
  have hle := h.reader_le
  have hmax := b.storage.size_le_maxSize
  have hword : Buffer.maxSize < Checked.wordSize := by decide
  have hreadable : c.readableBytes = q.length := by
    rw [Buffer.readableBytes, hc.contents, StdVector.length_contents, hc.readerIndex, hq]
  rw [BufferStorage.retrieve, Buffer.retrieve, h.readableBytes_eq, Except.ok_bind_eq,
    Checked.assert_eq (decide_eq_true hlength), Except.ok_bind_eq,
    dif_pos (hlength.trans_eq hreadable.symm)]
  by_cases hall : length = q.length
  · rw [if_pos hall, if_pos (hall.trans hreadable.symm)]
    exact ⟨_, _, rfl, rfl, hc.retrieveAll⟩
  · rw [if_neg hall, if_neg (fun heq ↦ hall (heq.trans hreadable)), Checked.add_eq (by omega)]
    exact ⟨_, _, rfl, rfl, hc.contents, hc.capacity, congrArg (· + length) hc.readerIndex⟩

end BufferStorage

end HighCache
