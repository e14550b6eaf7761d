import HighCache.Lib.Execution

/-!
# A vector with a capacity

`std::vector` as the memory it owns and the number of elements in use. The memory beyond them may
hold anything. Growing asks an allocator for memory: the answer to a request for `n` elements is
that it throws, or memory for at least `n` of them. What the standard promises about `reserve`,
`resize` and `insert` is stated about `contents`, the elements in use; `memcpy` and `memmove` write
to the memory, and outside the elements in use they are faults.

## The answers of the allocator

`reserve` and `insert` may be given more memory than they ask for, and how much more is left open by
the standard. So the allocator answers with the memory itself, of at least the size that was asked
for and at most `maxSize`. A theorem that holds for every answer holds for every growth policy.
-/

/-! ## The vector and its functions -/

/-- `std::vector`. -/
structure StdVector (α : Type) (maxSize : ℕ) where
  /-- The memory, as long as `capacity()`. -/
  cells : List α
  size : ℕ
  size_le : size ≤ cells.length
  capacity_le : cells.length ≤ maxSize

namespace StdVector

variable {α : Type} {maxSize : ℕ}

/-- The answer to a request for memory for `n` elements, `none` where it throws. -/
abbrev Allocation (α : Type) (maxSize n : ℕ) : Type :=
  Option { cells : List α // n ≤ cells.length ∧ cells.length ≤ maxSize }

/-- What a vector throws. -/
inductive Exception where
  | lengthError
  | badAlloc
  deriving DecidableEq, Repr

/-- A vector without memory. -/
def empty : StdVector α maxSize := ⟨[], 0, le_refl _, Nat.zero_le _⟩

/-- `capacity()`. -/
def capacity (v : StdVector α maxSize) : ℕ := v.cells.length

/-- The elements in use. -/
def contents (v : StdVector α maxSize) : List α := v.cells.take v.size

/-- `clear()`, and the half of `resize(n)` that drops elements. -/
def shrink (n : ℕ) (v : StdVector α maxSize) : StdVector α maxSize :=
  { v with size := min n v.size, size_le := (min_le_right _ _).trans v.size_le }

/-- Other memory with the elements in use and then `xs`. -/
def fill (xs cells : List α) (v : StdVector α maxSize) (h : v.size + xs.length ≤ cells.length)
    (hmax : cells.length ≤ maxSize) : StdVector α maxSize where
  cells := v.contents ++ xs ++ cells.drop (v.size + xs.length)
  size := v.size + xs.length
  size_le := by
    have := v.size_le
    simp only [List.length_append, List.length_drop, contents, List.length_take]
    omega
  capacity_le := by
    have := v.size_le
    simp only [List.length_append, List.length_drop, contents, List.length_take]
    omega

/-- Appending elements, in place where there is room: `insert(end(), ...)` and the half of
`resize(n)` that adds elements. -/
def extend (xs : List α) (v : StdVector α maxSize)
    (allocation : Allocation α maxSize (v.size + xs.length)) :
    Except Exception (StdVector α maxSize) :=
  if maxSize < v.size + xs.length then .error .lengthError
  else if h : v.size + xs.length ≤ v.capacity then .ok (v.fill xs v.cells h v.capacity_le)
  else
    match allocation with
    | none => .error .badAlloc
    | some block => .ok (v.fill xs block.1 block.2.1 block.2.2)

/-- `reserve(n)`. -/
def reserve (n : ℕ) (v : StdVector α maxSize) (allocation : Allocation α maxSize n) :
    Except Exception (StdVector α maxSize) :=
  if maxSize < n then .error .lengthError
  else if h : n ≤ v.capacity then .ok v
  else
    match allocation with
    | none => .error .badAlloc
    | some block => .ok (v.fill [] block.1
        ((v.size_le.trans (Nat.le_of_not_le h)).trans block.2.1) block.2.2)

/-- `resize(n)`; elements that are added are `zero`. -/
def resize (zero : α) (n : ℕ) (v : StdVector α maxSize)
    (allocation : Allocation α maxSize (v.size + (List.replicate (n - v.size) zero).length)) :
    Except Exception (StdVector α maxSize) :=
  if n ≤ v.size then .ok (v.shrink n) else v.extend (List.replicate (n - v.size) zero) allocation

/-- Overwriting elements in use. -/
def store (offset : ℕ) (xs : List α) (v : StdVector α maxSize) :
    Except Fault (StdVector α maxSize) :=
  if h : offset + xs.length ≤ v.size then
    .ok { v with
      cells := v.cells.take offset ++ xs ++ v.cells.drop (offset + xs.length)
      size_le := by
        have := v.size_le
        simp only [List.length_append, List.length_drop, List.length_take]
        omega
      capacity_le := by
        have := v.size_le
        have := v.capacity_le
        simp only [List.length_append, List.length_drop, List.length_take]
        omega }
  else .error .invalidIterator

/-- `std::memmove(data() + target, data() + source, count)`. What is written is what the source
held before, also where the two overlap. -/
def memmove (target source count : ℕ) (v : StdVector α maxSize) :
    Except Fault (StdVector α maxSize) :=
  if source + count ≤ v.size then v.store target ((v.contents.drop source).take count)
  else .error .invalidIterator

/-! ## The elements in use

The memory behind the elements in use is not described: no function may read it, and `resize` gives
it a value before it counts. -/

@[simp] theorem length_contents (v : StdVector α maxSize) : v.contents.length = v.size := by
  rw [contents, List.length_take]
  exact min_eq_left v.size_le

theorem size_le_maxSize (v : StdVector α maxSize) : v.size ≤ maxSize :=
  v.size_le.trans v.capacity_le

@[simp] theorem contents_shrink (n : ℕ) (v : StdVector α maxSize) :
    (v.shrink n).contents = v.contents.take n := by
  rw [contents, contents, List.take_take]
  rfl

@[simp] theorem contents_fill (xs cells : List α) (v : StdVector α maxSize)
    (h : v.size + xs.length ≤ cells.length) (hmax : cells.length ≤ maxSize) :
    (v.fill xs cells h hmax).contents = v.contents ++ xs := by
  have hlength : (v.contents ++ xs).length = v.size + xs.length := by
    rw [List.length_append, length_contents]
  show ((v.contents ++ xs) ++ _).take (v.size + xs.length) = _
  rw [← hlength, List.take_left]

@[simp] theorem capacity_fill (xs cells : List α) (v : StdVector α maxSize)
    (h : v.size + xs.length ≤ cells.length) (hmax : cells.length ≤ maxSize) :
    (v.fill xs cells h hmax).capacity = cells.length := by
  show (v.contents ++ xs ++ _).length = _
  rw [List.length_append, List.length_append, length_contents, List.length_drop]
  omega

/-! ## Growing -/

theorem extend_of_room {xs : List α} {v : StdVector α maxSize} (h : v.size + xs.length ≤ v.capacity)
    (allocation : Allocation α maxSize (v.size + xs.length)) :
    ∃ v', v.extend xs allocation = .ok v' ∧ v'.contents = v.contents ++ xs
      ∧ v'.size = v.size + xs.length ∧ v'.capacity = v.capacity := by
  refine ⟨v.fill xs v.cells h v.capacity_le, ?_, contents_fill _ _ _ _ _, rfl,
    capacity_fill _ _ _ _ _⟩
  unfold extend
  rw [if_neg (Nat.not_lt.mpr (h.trans v.capacity_le)), dif_pos h]

theorem resize_of_room {zero : α} {n : ℕ} {v : StdVector α maxSize} (h : v.size ≤ n)
    (hroom : n ≤ v.capacity)
    (allocation : Allocation α maxSize (v.size + (List.replicate (n - v.size) zero).length)) :
    ∃ v', v.resize zero n allocation = .ok v' ∧ v'.size = n ∧ v'.capacity = v.capacity
      ∧ v'.contents = v.contents ++ List.replicate (n - v.size) zero := by
  unfold resize
  by_cases hle : n ≤ v.size
  · rw [if_pos hle]
    have heq : n = v.size := Nat.le_antisymm hle h
    refine ⟨_, rfl, ?_, rfl, ?_⟩
    · exact min_eq_left hle
    · rw [contents_shrink, heq, Nat.sub_self, List.replicate_zero, List.append_nil,
        List.take_of_length_le v.length_contents.le]
  · rw [if_neg hle]
    have hlength : v.size + (List.replicate (n - v.size) zero).length = n := by
      rw [List.length_replicate]
      omega
    obtain ⟨v', hextend, hcontents, hsize, hcapacity⟩ :=
      extend_of_room (hlength.trans_le hroom) allocation
    exact ⟨v', hextend, hsize.trans hlength, hcapacity, hcontents⟩

/-- A vector that has reserved has room, and its elements as before. -/
theorem reserve_ensures (n : ℕ) (v : StdVector α maxSize) (allocation : Allocation α maxSize n) :
    (v.reserve n allocation).Ensures (fun v' ↦ v'.contents = v.contents ∧ v'.size = v.size
      ∧ n ≤ v'.capacity) fun _ ↦ True := by
  unfold reserve
  split
  · trivial
  split
  · rename_i hroom
    exact ⟨rfl, rfl, hroom⟩
  · cases allocation with
    | none => trivial
    | some block =>
      refine ⟨?_, rfl, ?_⟩
      · rw [contents_fill, List.append_nil]
      · rw [capacity_fill]
        exact block.2.1

theorem exists_reserve_iff {n : ℕ} {v : StdVector α maxSize} {allocation : Allocation α maxSize n} :
    (∃ v', v.reserve n allocation = .ok v')
      ↔ n ≤ maxSize ∧ (n ≤ v.capacity ∨ allocation.isSome = true) := by
  unfold reserve
  split
  · rename_i hlarge
    exact ⟨by rintro ⟨_, ⟨⟩⟩, fun h ↦ absurd h.1 (Nat.not_le.mpr hlarge)⟩
  rename_i hfits
  split
  · rename_i hroom
    exact ⟨fun _ ↦ ⟨Nat.not_lt.mp hfits, Or.inl hroom⟩, fun _ ↦ ⟨_, rfl⟩⟩
  rename_i hfull
  cases allocation with
  | none => exact ⟨by rintro ⟨_, ⟨⟩⟩, fun h ↦ absurd h.2 (by simp [hfull])⟩
  | some block => exact ⟨fun _ ↦ ⟨Nat.not_lt.mp hfits, Or.inr rfl⟩, fun _ ↦ ⟨_, rfl⟩⟩

/-! ## Writing in place -/

theorem store_eq {offset : ℕ} {xs : List α} {v : StdVector α maxSize}
    (h : offset + xs.length ≤ v.size) :
    ∃ v', v.store offset xs = .ok v' ∧ v'.size = v.size ∧ v'.capacity = v.capacity
      ∧ v'.contents = v.contents.take offset ++ xs ++ v.contents.drop (offset + xs.length) := by
  have hsize := v.size_le
  rw [store, dif_pos h]
  refine ⟨_, rfl, rfl, ?_, ?_⟩
  · show (v.cells.take offset ++ xs ++ v.cells.drop (offset + xs.length)).length = v.cells.length
    simp only [List.length_append, List.length_drop, List.length_take]
    omega
  · have hlength : (v.cells.take offset ++ xs).length = offset + xs.length := by
      rw [List.length_append, List.length_take, min_eq_left (by omega)]
    show (v.cells.take offset ++ xs ++ v.cells.drop (offset + xs.length)).take v.size = _
    rw [List.take_append, hlength, List.take_of_length_le (hlength.trans_le h), contents,
      List.take_take, min_eq_left (by omega), List.drop_take]

/-- Moving to the front is a prefix of what is kept. -/
theorem memmove_front {source count : ℕ} {v : StdVector α maxSize} (h : source + count ≤ v.size) :
    ∃ v', v.memmove 0 source count = .ok v' ∧ v'.size = v.size ∧ v'.capacity = v.capacity
      ∧ v'.contents.take count = (v.contents.drop source).take count := by
  have hlength : ((v.contents.drop source).take count).length = count := by
    rw [List.length_take, List.length_drop, length_contents]
    omega
  have hfits : 0 + ((v.contents.drop source).take count).length ≤ v.size := by
    rw [hlength]
    omega
  obtain ⟨v', hstore, hsize, hcapacity, hcontents⟩ := store_eq hfits
  refine ⟨v', by rw [memmove, if_pos h, hstore], hsize, hcapacity, ?_⟩
  rw [hcontents, List.take_zero, List.nil_append, List.take_append, hlength, Nat.sub_self,
    List.take_zero, List.append_nil, List.take_take, Nat.min_self]

end StdVector
