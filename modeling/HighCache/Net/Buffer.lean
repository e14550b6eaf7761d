import HighCache.Lib.Execution
import Mathlib.Order.Lattice

/-!
# The buffer

`Buffer` keeps its unread bytes at the end of one vector, behind a reader index that moves forward
as they are retrieved. Appending makes room in one of three ways: there is room already, there is
room once the unread bytes are moved to the front, or a larger vector takes them over. All of that
is invisible to a caller, who sees a queue of bytes: `append` puts bytes at its end and `retrieve`
takes them from its front.

The vector is a list with a capacity. Allocating one is taken to succeed for any size up to
`max_size()`, which throws beyond it, and `reserve` to allocate what it is asked for.
-/

namespace HighCache

/-! ## The functions -/

/-- `Buffer`. -/
structure Buffer where
  storage : Bytes
  capacity : ℕ
  readerIndex : ℕ
  reader_le : readerIndex ≤ storage.length
  size_le : storage.length ≤ capacity

namespace Buffer

/-- `std::vector<char>::max_size()`. -/
def maxSize : ℕ := 2 ^ 63 - 1

/-- `Buffer::Buffer(initial_capacity)`. -/
def new (initialCapacity : ℕ) : Buffer := ⟨[], initialCapacity, 0, Nat.le_refl _, Nat.zero_le _⟩

/-- `Buffer::readable_view`: the unread bytes. -/
def readableView (b : Buffer) : Bytes := b.storage.drop b.readerIndex

/-- `Buffer::readable_bytes`. -/
def readableBytes (b : Buffer) : ℕ := b.storage.length - b.readerIndex

/-- `Buffer::writable_bytes`. -/
def writableBytes (b : Buffer) : ℕ := b.capacity - b.storage.length

/-- `Buffer::empty`. -/
def empty (b : Buffer) : Bool := b.readableBytes = 0

/-- `Buffer::retrieve_all`. -/
def retrieveAll (b : Buffer) : Buffer := ⟨[], b.capacity, 0, Nat.le_refl _, Nat.zero_le _⟩

/-- `Buffer::retrieve`. -/
def retrieve (length : ℕ) (b : Buffer) : Except Fault Buffer :=
  if h : length ≤ b.readableBytes then
    if length = b.readableBytes then .ok b.retrieveAll
    else .ok { b with
      readerIndex := b.readerIndex + length
      reader_le := by
        have := b.reader_le
        unfold readableBytes at h
        omega }
  else .error .assertion

/-- The unread bytes alone, in a vector of some capacity. -/
private def compacted (b : Buffer) (capacity : ℕ) (h : b.readableBytes ≤ capacity) : Buffer where
  storage := b.readableView
  capacity := capacity
  readerIndex := 0
  reader_le := Nat.zero_le _
  size_le := by
    rw [readableView, List.length_drop]
    exact h

private theorem readableBytes_le_capacity (b : Buffer) : b.readableBytes ≤ b.capacity :=
  (Nat.sub_le _ _).trans b.size_le

/-- `Buffer::prepare_append`. -/
def prepareAppend (length : ℕ) (b : Buffer) : Except Fault Buffer :=
  let readable := b.readableBytes
  if length > maxSize - readable then
    .error (.exception "buffer size exceeds vector maximum")
  else if length ≤ b.writableBytes then .ok b
  else if length ≤ b.readerIndex + b.writableBytes then
    .ok (b.compacted b.capacity b.readableBytes_le_capacity)
  else
    let required := readable + length
    let doubled := if b.capacity ≤ (Checked.wordSize - 1) / 2 then b.capacity * 2 else maxSize
    -- `replacement.reserve(std::max(required, doubled))`
    if max required doubled > maxSize then .error (.exception "vector::reserve")
    else .ok (b.compacted (max required doubled)
      ((Nat.le_add_right _ _).trans (le_max_left required doubled)))

/-- `Buffer::append`. The vector is resized within its capacity, or would have to grow. -/
def append (data : Bytes) (b : Buffer) : Except Fault Buffer :=
  if data.length = 0 then .ok b
  else do
    let b ← b.prepareAppend data.length
    .ok {
      storage := b.storage ++ data
      capacity := max b.capacity (b.storage.length + data.length)
      readerIndex := b.readerIndex
      reader_le := by
        rw [List.length_append]
        exact b.reader_le.trans (Nat.le_add_right _ _)
      size_le := by
        rw [List.length_append]
        exact le_max_right _ _ }

/-! ## A queue of bytes

What is appended comes out in the same order. The capacity is part of the statements only because
room is made by at least doubling it, which is too much to ask for when the buffer is beyond any
memory. -/

@[simp] theorem length_readableView (b : Buffer) : b.readableView.length = b.readableBytes :=
  List.length_drop

theorem empty_iff (b : Buffer) : b.empty = true ↔ b.readableView = [] := by
  rw [empty, decide_eq_true_iff, ← length_readableView, List.length_eq_zero_iff]

theorem retrieve_eq {length : ℕ} {b : Buffer} (h : length ≤ b.readableBytes) :
    ∃ b', b.retrieve length = .ok b' ∧ b'.readableView = b.readableView.drop length
      ∧ b'.capacity = b.capacity := by
  rw [retrieve, dif_pos h]
  split
  · rename_i hall
    refine ⟨b.retrieveAll, rfl, ?_, rfl⟩
    rw [hall, ← length_readableView, List.drop_length]
    rfl
  · refine ⟨_, rfl, ?_, rfl⟩
    rw [readableView, readableView, List.drop_drop]

/-! ### Making room

The cases of `prepare_append`, each with the condition under which the source takes it. Everything
about appending is read off from them. -/

/-- The capacity `prepare_append` asks for where the unread bytes have to move to another vector. -/
def grownCapacity (length : ℕ) (b : Buffer) : ℕ :=
  max (b.readableBytes + length)
    (if b.capacity ≤ (Checked.wordSize - 1) / 2 then b.capacity * 2 else maxSize)

/-- What `prepare_append` can do. -/
inductive Prepares (length : ℕ) (b : Buffer) : Except Fault Buffer → Prop where
  | tooLong (hlong : maxSize - b.readableBytes < length) :
      Prepares length b (.error (.exception "buffer size exceeds vector maximum"))
  | inPlace (hfits : length ≤ maxSize - b.readableBytes) (hroom : length ≤ b.writableBytes) :
      Prepares length b (.ok b)
  | moved {b' : Buffer} (hfits : length ≤ maxSize - b.readableBytes)
      (hfull : b.writableBytes < length) (hroom : length ≤ b.readerIndex + b.writableBytes)
      (hstorage : b'.storage = b.readableView) (hcapacity : b'.capacity = b.capacity)
      (hreader : b'.readerIndex = 0) : Prepares length b (.ok b')
  | tooLarge (hfits : length ≤ maxSize - b.readableBytes)
      (hnone : b.readerIndex + b.writableBytes < length)
      (hlarge : maxSize < b.grownCapacity length) :
      Prepares length b (.error (.exception "vector::reserve"))
  | replaced {b' : Buffer} (hfits : length ≤ maxSize - b.readableBytes)
      (hnone : b.readerIndex + b.writableBytes < length)
      (hsmall : b.grownCapacity length ≤ maxSize) (hstorage : b'.storage = b.readableView)
      (hcapacity : b'.capacity = b.grownCapacity length) (hreader : b'.readerIndex = 0) :
      Prepares length b (.ok b')

theorem prepares (length : ℕ) (b : Buffer) : Prepares length b (b.prepareAppend length) := by
  unfold prepareAppend
  dsimp only
  split
  · rename_i hlong
    exact .tooLong hlong
  rename_i hfits
  rw [gt_iff_lt, Nat.not_lt] at hfits
  split
  · rename_i hroom
    exact .inPlace hfits hroom
  rename_i hfull
  split
  · rename_i hroom
    exact .moved hfits (Nat.not_le.mp hfull) hroom rfl rfl rfl
  rename_i hnone
  by_cases hlarge : maxSize < b.grownCapacity length
  · rw [if_pos (show max _ _ > maxSize from hlarge)]
    exact .tooLarge hfits (Nat.not_le.mp hnone) hlarge
  · rw [if_neg (show ¬max _ _ > maxSize from hlarge)]
    exact .replaced hfits (Nat.not_le.mp hnone) (Nat.not_lt.mp hlarge) rfl rfl rfl

theorem readableView_of_moved {b b' : Buffer} (hstorage : b'.storage = b.readableView)
    (hreader : b'.readerIndex = 0) : b'.readableView = b.readableView := by
  rw [readableView, hreader, List.drop_zero, hstorage]

/-- Making room keeps the unread bytes and makes enough of it. Up to `2 ^ 62` bytes, twice the
capacity is not too much to ask for. -/
theorem prepareAppend_eq {length : ℕ} {b : Buffer} (h : b.readableBytes + length ≤ 2 ^ 62) :
    ∃ b', b.prepareAppend length = .ok b' ∧ b'.readableView = b.readableView
      ∧ b'.storage.length + length ≤ b'.capacity
      ∧ b'.capacity ≤ max b.capacity (2 * (b.readableBytes + length)) := by
  have hreader := b.reader_le
  have hsize := b.size_le
  have hreadable : b.readableBytes + b.readerIndex = b.storage.length := Nat.sub_add_cancel hreader
  have hwritable : b.writableBytes + b.storage.length = b.capacity := Nat.sub_add_cancel hsize
  have hlen := b.length_readableView
  have hword : Checked.wordSize = 2 ^ 64 := rfl
  have hmaxSize : maxSize = 2 ^ 63 - 1 := rfl
  have hprepares := b.prepares length
  cases hresult : b.prepareAppend length with
  | error fault =>
    rw [hresult] at hprepares
    cases hprepares with
    | tooLong hlong => omega
    | tooLarge hfits hnone hlarge =>
      unfold grownCapacity at hlarge
      split at hlarge <;> omega
  | ok b' =>
    rw [hresult] at hprepares
    refine ⟨b', rfl, ?_⟩
    cases hprepares with
    | inPlace hfits hroom => exact ⟨rfl, by omega, le_max_left _ _⟩
    | moved hfits hfull hroom hstorage hcapacity hreader' =>
      refine ⟨readableView_of_moved hstorage hreader', ?_, hcapacity.trans_le (le_max_left _ _)⟩
      rw [hstorage, hlen]
      omega
    | replaced hfits hnone hsmall hstorage hcapacity hreader' =>
      refine ⟨readableView_of_moved hstorage hreader', ?_, ?_⟩
      · rw [hstorage, hlen, hcapacity]
        exact le_max_left _ _
      · rw [hcapacity]
        unfold grownCapacity
        split <;> omega

/-- **Appending puts bytes at the end**, and the vector grows to at most twice what it holds. -/
theorem append_eq {data : Bytes} {b : Buffer} (h : b.readableBytes + data.length ≤ 2 ^ 62) :
    ∃ b', b.append data = .ok b' ∧ b'.readableView = b.readableView ++ data
      ∧ b'.capacity ≤ max b.capacity (2 * (b.readableBytes + data.length)) := by
  rw [append]
  split
  · rename_i hnil
    rw [List.length_eq_zero_iff] at hnil
    exact ⟨b, rfl, by rw [hnil, List.append_nil], le_max_left _ _⟩
  · obtain ⟨b', hprepare, hview, hroom, hcapacity⟩ := prepareAppend_eq h
    rw [hprepare]
    refine ⟨_, rfl, ?_, ?_⟩
    · show (b'.storage ++ data).drop b'.readerIndex = _
      rw [List.drop_append_of_le_length b'.reader_le, ← hview]
      rfl
    · show max _ _ ≤ _
      rw [max_eq_left hroom]
      exact hcapacity

/-! ### Buffers that cannot grow -/

/-- The exceptions of a buffer that cannot grow. -/
def Full (fault : Fault) : Prop :=
  fault = .exception "buffer size exceeds vector maximum" ∨ fault = .exception "vector::reserve"

private theorem prepareAppend_ensures (length : ℕ) (b : Buffer) :
    (b.prepareAppend length).Ensures (fun b' ↦ b'.readableView = b.readableView) Full := by
  have hprepares := b.prepares length
  cases hresult : b.prepareAppend length with
  | error fault =>
    rw [hresult] at hprepares
    cases hprepares with
    | tooLong => exact Or.inl rfl
    | tooLarge => exact Or.inr rfl
  | ok b' =>
    rw [hresult] at hprepares
    cases hprepares with
    | inPlace => exact rfl
    | moved hfits hfull hroom hstorage hcapacity hreader =>
      exact readableView_of_moved hstorage hreader
    | replaced hfits hnone hsmall hstorage hcapacity hreader =>
      exact readableView_of_moved hstorage hreader

theorem append_ensures (data : Bytes) (b : Buffer) :
    (b.append data).Ensures (fun b' ↦ b'.readableView = b.readableView ++ data)
      fun fault ↦ 2 ^ 62 < b.readableBytes + data.length ∧ Full fault := by
  by_cases h : b.readableBytes + data.length ≤ 2 ^ 62
  · obtain ⟨b', happend, hview, -⟩ := append_eq h
    rw [happend]
    exact hview
  rw [append]
  split
  · rename_i hnil
    rw [List.length_eq_zero_iff] at hnil
    rw [hnil, List.append_nil]
    exact rfl
  · have hprepare := prepareAppend_ensures data.length b
    cases hresult : b.prepareAppend data.length with
    | error fault =>
      rw [hresult] at hprepare
      exact ⟨Nat.not_le.mp h, hprepare⟩
    | ok b' =>
      rw [hresult] at hprepare
      show (b'.storage ++ data).drop b'.readerIndex = _
      rw [List.drop_append_of_le_length b'.reader_le, ← hprepare]
      rfl

theorem Full.exception {fault : Fault} (h : Full fault) : ∃ what, fault = .exception what := by
  rcases h with rfl | rfl
  · exact ⟨_, rfl⟩
  · exact ⟨_, rfl⟩

end Buffer

end HighCache
