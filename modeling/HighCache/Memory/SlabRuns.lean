import HighCache.Memory.SlabSafety

/-!
# Runs of a slab allocator

Requests, which of them a caller may make, and what holds after any sequence of them: no assertion
fails and no counter wraps, the free lists partition the blocks with the live allocations, and the
counters are the sums they should be.

A caller may deallocate what is live with its own size, and write inside a block it holds. What it
relies on is that `::operator new` answers with memory that is not null, lies in the address space
and does not overlap anything got from it before and not given back.
-/

namespace HighCache

open Function SlabAllocator Families

namespace SlabHeap

/-! ## Requests

What a caller owes is `Admits`, and it is a condition on the state the request is made in: which
allocations are live is for the caller to know. A write is a request too, because the free lists
live in the same memory. -/

/-- A request to the heap. -/
inductive Request where
  | allocate (size : ℕ) (fresh : Option Pointer)
  | deallocate (pointer : Pointer) (size : ℕ)
  | write (r : Region) (offset : ℕ) (bytes : Bytes)

/-- The heap of a new allocator. -/
def start (memory : Memory) : SlabHeap := ⟨memory, .new, []⟩

/-- The bytes `::operator new` is asked for, if it is asked. -/
def freshSize (size : ℕ) : ℕ := if size > largestClass then size else slabSize

/-- `::operator new` answered with memory that is free. -/
def Fresh (s : SlabHeap) (size p : ℕ) : Prop :=
  0 < p ∧ p + freshSize size ≤ Checked.wordSize
    ∧ ∀ r ∈ s.owned, Region.Apart ⟨p, freshSize size⟩ r

/-- The requests a caller may make. -/
def Admits (s : SlabHeap) : Request → Prop
  | .allocate size fresh => ∀ p, fresh = some p → s.Fresh size p
  | .deallocate pointer size => pointer = 0 ∧ size = 0 ∨ ⟨pointer, size⟩ ∈ s.live
  | .write r offset bytes => r ∈ s.live ∧ offset + bytes.length ≤ blockSize r.size

/-- One request; the output is the pointer `allocate` returns, `none` where it throws. -/
def step (s : SlabHeap) : Request → Except Fault (Option Pointer × SlabHeap)
  | .allocate size fresh => do
    match ← s.allocator.allocate size fresh s.memory with
    | none => .ok (none, s)
    | some (p, memory, allocator) =>
      .ok (some p, ⟨memory, allocator, if size = 0 then s.live else ⟨p, size⟩ :: s.live⟩)
  | .deallocate pointer size => do
    let (memory, allocator) ← s.allocator.deallocate pointer size s.memory
    .ok (none, ⟨memory, allocator, s.live.erase ⟨pointer, size⟩⟩)
  | .write r offset bytes =>
    .ok (none, { s with memory := s.memory.write (r.base + offset) bytes })

/-- Every request of a sequence is admitted when its turn comes. -/
def AdmitsAll : SlabHeap → List Request → Prop
  | _, [] => True
  | s, request :: requests =>
    s.Admits request ∧ ∀ output s', s.step request = .ok (output, s') → AdmitsAll s' requests

/-- The invariant and the counters. -/
def Sound (s : SlabHeap) : Prop := ∃ free, s.Inv free ∧ s.Metered free

theorem sound_start (memory : Memory) : (start memory).Sound := by
  have hslabs : SlabAllocator.new.slabRegions = [] := by
    simp [slabRegions, SlabAllocator.new]
  refine ⟨fun _ ↦ [], ⟨fun _ ↦ rfl, fun _ ↦ .nil, fun _ ↦ .refl _, ?_, ?_, ?_⟩,
    ⟨rfl, rfl, ?_, ?_, ?_, ?_⟩⟩
  · rw [owned, show (start memory).allocator = .new from rfl, hslabs]
    exact List.Pairwise.nil
  · rw [owned, show (start memory).allocator = .new from rfl, hslabs]
    exact fun r hr ↦ by cases hr
  · exact fun r hr ↦ by cases hr
  · simp [start, SlabAllocator.new, ValueAllocatorMetrics.zero]
  · simp [start, SlabAllocator.new, ValueAllocatorMetrics.zero]
  · simp [start, SlabAllocator.new, ValueAllocatorMetrics.zero, large]
  · simp [start, SlabAllocator.new, ValueAllocatorMetrics.zero]

/-! ## Counting the moves

The same moves as those on the invariant, for the counters. None of the checked operations stops: a
sum is bounded by the address space, and what is subtracted is one of the terms of the sum. -/

section Counting

variable {s : SlabHeap} {free : Fin 8 → List ℕ} (h : s.Inv free) (hm : s.Metered free)

include hm in
theorem Metered.grow {i : Fin 8} {data : ℕ} (hfree : free i = []) {m : Memory} {k : SlabClass}
    (hslabs : k.slabs = (s.allocator.classes i).slabs ++ [data])
    (hgrown : ∀ metrics, (SlabHeap.mk m ⟨update s.allocator.classes i k, metrics⟩ s.live).Inv
      (update free i (blocksOf i data).reverse)) (h : s.Inv free) :
    ∃ metrics, addSlabMetrics s.allocator.metrics = .ok metrics
      ∧ (SlabHeap.mk m ⟨update s.allocator.classes i k, metrics⟩ s.live).Metered
        (update free i (blocksOf i data).reverse) := by
  have hcount := sum_update (f := fun j ↦ (s.allocator.classes j).slabs.length)
    (g := fun j ↦ (update s.allocator.classes i k j).slabs.length) (i := i)
    fun j hj ↦ by simp only [update_of_ne hj]
  have hfreeSum := sum_update (f := fun j ↦ (free j).length * sizeClasses j)
    (g := fun j ↦ (update free i (blocksOf i data).reverse j).length * sizeClasses j) (i := i)
    fun j hj ↦ by simp only [update_of_ne hj]
  simp only [update_self, hslabs, List.length_append, List.length_singleton] at hcount
  simp only [update_self, hfree, List.length_reverse, length_blocksOf, List.length_nil,
    Nat.zero_mul] at hfreeSum
  -- all slabs lie in one address space, so their sizes together do not wrap
  have hlt := (hgrown s.allocator.metrics).sum_lt
  have hcount' : ∑ j, (update s.allocator.classes i k j).slabs.length
      = s.allocator.metrics.slabCount + 1 := by
    rw [hm.slabCount]
    omega
  simp only [hcount'] at hlt
  have hbalance := hm.balance h
  have hallocated := hm.allocated
  rw [Nat.succ_mul] at hlt
  have hslab : 0 < slabSize := by decide
  have hle : s.allocator.metrics.slabCount ≤ s.allocator.metrics.slabCount * slabSize :=
    Nat.le_mul_of_pos_right _ hslab
  refine ⟨{ s.allocator.metrics with
    allocatedBytes := s.allocator.metrics.allocatedBytes + slabSize
    freeBytes := s.allocator.metrics.freeBytes + slabSize
    slabCount := s.allocator.metrics.slabCount + 1 }, ?_, ?_⟩
  · rw [addSlabMetrics, Checked.add_eq (by omega), Checked.add_eq (by omega),
      Checked.add_eq (by omega)]
    rfl
  · refine ⟨hm.used, hm.fragmentation, ?_, ?_, ?_, hm.count⟩
    · show s.allocator.metrics.freeBytes + slabSize = _
      rw [hm.freeBytes]
      omega
    · exact hcount'.symm
    · show s.allocator.metrics.allocatedBytes + slabSize
        = (s.allocator.metrics.slabCount + 1) * slabSize + ((large s.live).map Region.size).sum
      rw [hallocated, Nat.succ_mul]
      omega

include h hm in
theorem Metered.take {i : Fin 8} {p size : ℕ} {rest : List ℕ} (hfree : free i = p :: rest)
    (hsize : classOf size = some i) :
    ∃ metrics, takeMetrics size (sizeClasses i) s.allocator.metrics = .ok metrics
      ∧ (SlabHeap.mk s.memory ⟨update s.allocator.classes i
          ((s.allocator.classes i).withHead (s.memory.loadWord p)), metrics⟩
        (⟨p, size⟩ :: s.live)).Metered (update free i rest) := by
  obtain ⟨-, hle, hfits⟩ := classOf_bounds hsize
  have hfreeSum := sum_update (f := fun j ↦ (free j).length * sizeClasses j)
    (g := fun j ↦ (update free i rest j).length * sizeClasses j) (i := i)
    fun j hj ↦ by simp only [update_of_ne hj]
  simp only [update_self, hfree, List.length_cons, Nat.succ_mul] at hfreeSum
  have hbalance := hm.balance h
  have hlt := hm.allocated_lt h
  have hfreeBytes := hm.freeBytes
  have hwaste : blockSize size - size = sizeClasses i - size := by rw [blockSize_eq hsize]
  refine ⟨{ s.allocator.metrics with
    usedBytes := s.allocator.metrics.usedBytes + size
    freeBytes := s.allocator.metrics.freeBytes - sizeClasses i
    internalFragmentation := s.allocator.metrics.internalFragmentation + (sizeClasses i - size)
    allocationCount := s.allocator.metrics.allocationCount + 1 }, ?_, ?_⟩
  · rw [takeMetrics, Checked.add_eq (by omega), Checked.sub_eq (by omega), Checked.sub_eq hfits]
    simp only [Except.ok_bind_eq]
    rw [Checked.add_eq (by omega)]
    rfl
  · refine ⟨?_, ?_, ?_, ?_, ?_, ?_⟩
    · show s.allocator.metrics.usedBytes + size = _
      rw [hm.used, List.map_cons, List.sum_cons, Nat.add_comm]
    · show s.allocator.metrics.internalFragmentation + _ = _
      rw [small_cons_self hle, List.map_cons, List.sum_cons, hm.fragmentation, hwaste,
        Nat.add_comm]
    · show s.allocator.metrics.freeBytes - sizeClasses i = _
      rw [hfreeBytes]
      omega
    · show s.allocator.metrics.slabCount = _
      simp only [slabs_withHead]
      exact hm.slabCount
    · show s.allocator.metrics.allocatedBytes = _
      rw [large_cons_of_small hle]
      exact hm.allocated
    · show s.allocator.metrics.allocationCount + 1 - s.allocator.metrics.deallocationCount = _
      have hcount := hm.count
      rw [List.length_cons, UInt64.ofNat_add]
      grind

include hm in
/-- The counters do not depend on the order of the live allocations. -/
private theorem Metered.perm_live {live : List Region} (hlive : s.live.Perm live) :
    (SlabHeap.mk s.memory s.allocator live).Metered free where
  used := hm.used.trans (hlive.map _).sum_eq
  fragmentation := hm.fragmentation.trans ((small_perm hlive).map _).sum_eq
  freeBytes := hm.freeBytes
  slabCount := hm.slabCount
  allocated := by
    rw [hm.allocated, ((large_perm hlive).map _).sum_eq]
  count := hm.count.trans (congrArg UInt64.ofNat hlive.length_eq)

include h hm in
theorem Metered.give {i : Fin 8} {r : Region} {live : List Region}
    (hlive : s.live.Perm (r :: live)) (hsize : classOf r.size = some i) (m : Memory) :
    r.size ≤ s.allocator.metrics.usedBytes
      ∧ sizeClasses i - r.size ≤ s.allocator.metrics.internalFragmentation
      ∧ ∃ metrics, giveMetrics r.size (sizeClasses i) (sizeClasses i - r.size) s.allocator.metrics
          = .ok metrics
        ∧ (SlabHeap.mk m
          ⟨update s.allocator.classes i ((s.allocator.classes i).withHead r.base), metrics⟩
          live).Metered (update free i (r.base :: free i)) := by
  obtain ⟨-, hle, hfits⟩ := classOf_bounds hsize
  have hmp := hm.perm_live hlive
  -- every counter contains what is taken from it, so nothing wraps
  have hused : s.allocator.metrics.usedBytes = r.size + (live.map Region.size).sum := by
    rw [hmp.used, List.map_cons, List.sum_cons]
  have hfrag : s.allocator.metrics.internalFragmentation = sizeClasses i - r.size
      + ((small live).map fun r ↦ blockSize r.size - r.size).sum := by
    rw [hmp.fragmentation, small_cons_self hle, List.map_cons, List.sum_cons, blockSize_eq hsize]
  have hfreeSum := sum_update (f := fun j ↦ (free j).length * sizeClasses j)
    (g := fun j ↦ (update free i (r.base :: free i) j).length * sizeClasses j) (i := i)
    fun j hj ↦ by simp only [update_of_ne hj]
  simp only [update_self, List.length_cons, Nat.succ_mul] at hfreeSum
  have hbalance := hm.balance h
  have hlt := hm.allocated_lt h
  have hfreeBytes := hm.freeBytes
  refine ⟨by omega, by omega, { s.allocator.metrics with
    usedBytes := s.allocator.metrics.usedBytes - r.size
    freeBytes := s.allocator.metrics.freeBytes + sizeClasses i
    internalFragmentation :=
      s.allocator.metrics.internalFragmentation - (sizeClasses i - r.size)
    deallocationCount := s.allocator.metrics.deallocationCount + 1 }, ?_, ?_⟩
  · rw [giveMetrics, Checked.sub_eq (by omega), Checked.add_eq (by omega),
      Checked.sub_eq (by omega)]
    rfl
  · refine ⟨?_, ?_, ?_, ?_, ?_, ?_⟩
    · show s.allocator.metrics.usedBytes - r.size = (live.map Region.size).sum
      omega
    · show s.allocator.metrics.internalFragmentation - (sizeClasses i - r.size)
        = ((small live).map fun r ↦ blockSize r.size - r.size).sum
      omega
    · show s.allocator.metrics.freeBytes + sizeClasses i = _
      rw [hfreeBytes]
      omega
    · show s.allocator.metrics.slabCount = _
      simp only [slabs_withHead]
      exact hm.slabCount
    · show s.allocator.metrics.allocatedBytes = _
      rw [hmp.allocated, large_cons_of_small hle]
    · show s.allocator.metrics.allocationCount - (s.allocator.metrics.deallocationCount + 1) = _
      have hcount := hmp.count
      rw [List.length_cons, UInt64.ofNat_add] at hcount
      grind

include h hm in
theorem Metered.addLarge {p size : ℕ} (hlarge : size > largestClass)
    (hadded : ∀ metrics, (SlabHeap.mk s.memory ⟨s.allocator.classes, metrics⟩
      (⟨p, size⟩ :: s.live)).Inv free) :
    ∃ metrics, s.allocator.metrics.addLarge size = .ok metrics
      ∧ (SlabHeap.mk s.memory ⟨s.allocator.classes, metrics⟩ (⟨p, size⟩ :: s.live)).Metered
        free := by
  have hsum : ((large (⟨p, size⟩ :: s.live)).map Region.size).sum
      = size + ((large s.live).map Region.size).sum := by
    rw [large_cons_self (show (Region.mk p size).size > largestClass from hlarge), List.map_cons,
      List.sum_cons]
  have hlt := (hadded s.allocator.metrics).sum_lt
  dsimp only at hlt
  rw [hsum] at hlt
  have hbalance := hm.balance h
  have hallocated := hm.allocated
  rw [← hm.slabCount] at hlt
  refine ⟨{ s.allocator.metrics with
    allocatedBytes := s.allocator.metrics.allocatedBytes + size
    usedBytes := s.allocator.metrics.usedBytes + size
    allocationCount := s.allocator.metrics.allocationCount + 1 }, ?_, ?_⟩
  · rw [ValueAllocatorMetrics.addLarge, Checked.add_eq (by omega), Checked.add_eq (by omega)]
    rfl
  · refine ⟨?_, ?_, hm.freeBytes, hm.slabCount, ?_, ?_⟩
    · show s.allocator.metrics.usedBytes + size = _
      rw [hm.used, List.map_cons, List.sum_cons, Nat.add_comm]
    · show s.allocator.metrics.internalFragmentation = _
      rw [small_cons_of_large hlarge]
      exact hm.fragmentation
    · show s.allocator.metrics.allocatedBytes + size = s.allocator.metrics.slabCount * slabSize
        + ((large (⟨p, size⟩ :: s.live)).map Region.size).sum
      omega
    · show s.allocator.metrics.allocationCount + 1 - s.allocator.metrics.deallocationCount = _
      have hcount := hm.count
      rw [List.length_cons, UInt64.ofNat_add]
      grind

include hm in
theorem Metered.subLarge {r : Region} {live : List Region} (hlive : s.live.Perm (r :: live))
    (hlarge : r.size > largestClass) :
    r.size ≤ s.allocator.metrics.usedBytes ∧ r.size ≤ s.allocator.metrics.allocatedBytes
      ∧ ∃ metrics, s.allocator.metrics.subLarge r.size = .ok metrics
        ∧ (SlabHeap.mk s.memory ⟨s.allocator.classes, metrics⟩ live).Metered free := by
  have hmp := hm.perm_live hlive
  have hused : s.allocator.metrics.usedBytes = r.size + (live.map Region.size).sum := by
    rw [hmp.used, List.map_cons, List.sum_cons]
  have hallocated : s.allocator.metrics.allocatedBytes = s.allocator.metrics.slabCount * slabSize
      + (r.size + ((large live).map Region.size).sum) := by
    rw [hmp.allocated, large_cons_self hlarge, List.map_cons, List.sum_cons]
  refine ⟨by omega, by omega, { s.allocator.metrics with
    allocatedBytes := s.allocator.metrics.allocatedBytes - r.size
    usedBytes := s.allocator.metrics.usedBytes - r.size
    deallocationCount := s.allocator.metrics.deallocationCount + 1 }, ?_, ?_⟩
  · rw [ValueAllocatorMetrics.subLarge, Checked.sub_eq (by omega), Checked.sub_eq (by omega)]
    rfl
  · refine ⟨?_, ?_, hm.freeBytes, hm.slabCount, ?_, ?_⟩
    · show s.allocator.metrics.usedBytes - r.size = (live.map Region.size).sum
      omega
    · show s.allocator.metrics.internalFragmentation = _
      rw [hmp.fragmentation, small_cons_of_large hlarge]
    · show s.allocator.metrics.allocatedBytes - r.size
        = s.allocator.metrics.slabCount * slabSize + ((large live).map Region.size).sum
      omega
    · show s.allocator.metrics.allocationCount - (s.allocator.metrics.deallocationCount + 1) = _
      have hcount := hmp.count
      rw [List.length_cons, UInt64.ofNat_add] at hcount
      grind

end Counting

/-! ## Allocating and deallocating

A request that a class serves takes a block, after a new slab where there is none. A larger one is a
region of its own. Both say which bytes of other live blocks they change, namely none. -/

/-- The bytes of the live blocks are as before. -/
def Keeps (s : SlabHeap) (m : Memory) : Prop :=
  ∀ r ∈ s.live, ∀ k < blockSize r.size, m (r.base + k) = s.memory (r.base + k)

theorem Sound.pop {s : SlabHeap} {free : Fin 8 → List ℕ} (h : s.Inv free) (hm : s.Metered free)
    {i : Fin 8} {p size : ℕ} {rest : List ℕ} (hfree : free i = p :: rest)
    (hsize : classOf size = some i) :
    (s.allocator.classes i).freeHead = p ∧ p ≠ 0
      ∧ ∃ metrics, takeMetrics size (sizeClasses i) s.allocator.metrics = .ok metrics
        ∧ (SlabHeap.mk s.memory ⟨update s.allocator.classes i
            ((s.allocator.classes i).withHead (s.memory.loadWord p)), metrics⟩
          (⟨p, size⟩ :: s.live)).Sound := by
  have hchain := h.chain i
  rw [hfree] at hchain
  obtain ⟨hhead, hne, -⟩ := hchain.tail
  obtain ⟨metrics, hmetrics, hm'⟩ := Metered.take h hm hfree hsize
  exact ⟨hhead, hne, metrics, hmetrics, _, h.take metrics hfree hsize, hm'⟩

section Small

variable {s : SlabHeap} {free : Fin 8 → List ℕ} {size : ℕ} {i : Fin 8}

private theorem allocate_none_of_class {fresh : Option Pointer} (hsize : classOf size = some i)
    (h : SlabClass.allocate fresh (s.memory, s.allocator.classes i) = .ok none) :
    s.allocator.allocate size fresh s.memory = .ok none := by
  obtain ⟨hne, hle, -⟩ := classOf_bounds hsize
  unfold SlabAllocator.allocate
  rw [if_neg hne, if_neg (Nat.not_lt.mpr hle), classIndex_eq hsize]
  show (SlabClass.allocate fresh (s.memory, s.allocator.classes i) >>= _) = _
  rw [h]
  rfl

private theorem allocate_some_of_class {fresh : Option Pointer} (hsize : classOf size = some i)
    {pointer : Pointer} {m : Memory} {k : SlabClass}
    (h : SlabClass.allocate fresh (s.memory, s.allocator.classes i)
      = .ok (some (pointer, m, k))) :
    s.allocator.allocate size fresh s.memory = (do
      let metrics ← if k.slabs.length ≠ (s.allocator.classes i).slabs.length
        then addSlabMetrics s.allocator.metrics else .ok s.allocator.metrics
      let metrics ← takeMetrics size (sizeClasses i) metrics
      .ok (some (pointer, m, ⟨update s.allocator.classes i k, metrics⟩))) := by
  obtain ⟨hne, hle, -⟩ := classOf_bounds hsize
  unfold SlabAllocator.allocate
  rw [if_neg hne, if_neg (Nat.not_lt.mpr hle), classIndex_eq hsize]
  show (SlabClass.allocate fresh (s.memory, s.allocator.classes i) >>= _) = _
  rw [h]
  rfl

private theorem Sound.allocate_reused (h : s.Inv free) (hm : s.Metered free)
    (fresh : Option Pointer) (hsize : classOf size = some i) {p : ℕ} {rest : List ℕ}
    (hfree : free i = p :: rest) :
    ∃ a, s.allocator.allocate size fresh s.memory = .ok (some (p, s.memory, a))
      ∧ (SlabHeap.mk s.memory a (⟨p, size⟩ :: s.live)).Sound := by
  obtain ⟨hhead, hp, metrics, hmetrics, hsound⟩ := Sound.pop h hm hfree hsize
  refine ⟨_, ?_, hsound⟩
  have hclass : SlabClass.allocate fresh (s.memory, s.allocator.classes i)
      = .ok (some (p, s.memory,
        (s.allocator.classes i).withHead (s.memory.loadWord p))) := by
    rw [SlabClass.allocate]
    simp only [hhead, hp, if_false]
    rfl
  rw [allocate_some_of_class hsize hclass]
  simp only [SlabClass.withHead_slabs, ne_eq, not_true_eq_false, if_false, Except.ok_bind_eq,
    hmetrics]

private theorem Inv.live_within_owned (h : s.Inv free) {r : Region} (hr : r ∈ s.live) :
    ∃ o ∈ s.owned, (block r).Within o := by
  rcases h.class_or_large hr with ⟨l, hl⟩ | hlarge
  · obtain ⟨base, hbase, hmem⟩ := exists_slab_of_mem_blocks (h.live_mem_blocks hr hl)
    refine ⟨_, List.mem_append_left _ (mem_slabRegions hbase), ?_⟩
    rw [block, blockSize_eq hl]
    exact blocksOf_within hmem
  · refine ⟨r, List.mem_append_right _ (mem_large hr hlarge), ?_⟩
    rw [block, blockSize_of_large hlarge]
    exact ⟨le_refl _, le_refl _⟩

/-- A new slab has a block to hand out. -/
private theorem exists_blocksOf_reverse (i : Fin 8) (data : Pointer) :
    ∃ p rest, (blocksOf i data).reverse = p :: rest := by
  refine List.exists_cons_of_ne_nil fun hnil ↦ ?_
  have hlen := length_blocksOf i data
  rw [List.reverse_eq_nil_iff.mp hnil, List.length_nil, Nat.zero_mul] at hlen
  exact absurd hlen (by decide)

private theorem Sound.allocate_grown (h : s.Inv free) (hm : s.Metered free)
    (hsize : classOf size = some i) {data : Pointer} (hfresh : s.Fresh size data)
    (hfree : free i = []) :
    ∃ p m a, s.allocator.allocate size (some data) s.memory = .ok (some (p, m, a))
      ∧ (SlabHeap.mk m a (⟨p, size⟩ :: s.live)).Sound ∧ s.Keeps m := by
  have hhead : (s.allocator.classes i).freeHead = 0 := by
    rw [(h.chain i).head_eq, hfree]
    rfl
  rw [Fresh, freshSize, if_neg (Nat.not_lt.mpr (classOf_bounds hsize).2.1)] at hfresh
  obtain ⟨hdata, hbound, hapart⟩ := hfresh
  cases hadd : SlabClass.addSlab data (s.memory, s.allocator.classes i) with
  | mk m k =>
    obtain ⟨-, hslabs, hframe⟩ := h.grow s.allocator.metrics hfree hdata hbound hapart hadd
    have hgrown := fun metrics ↦ (h.grow metrics hfree hdata hbound hapart hadd).1
    obtain ⟨metrics, hmetrics, hm'⟩ := hm.grow hfree hslabs hgrown h
    obtain ⟨p, rest, hblocks⟩ := exists_blocksOf_reverse i data
    obtain ⟨hhead', hp, metrics', hmetrics', hsound⟩ := Sound.pop (hgrown metrics) hm'
      ((update_self i _ _).trans hblocks) hsize
    dsimp only at hhead' hmetrics' hsound
    rw [update_self] at hhead' hsound
    rw [update_idem] at hsound
    refine ⟨p, m, _, ?_, hsound, fun r hr j hj ↦ hframe _ ?_⟩
    · have hclass : SlabClass.allocate (some data) (s.memory, s.allocator.classes i)
          = .ok (some (p, m, k.withHead (m.loadWord p))) := by
        rw [SlabClass.allocate]
        simp only [hhead, if_true, Option.map_some, hadd, hhead', hp, if_false]
        rfl
      have hgrew : (k.withHead (m.loadWord p)).slabs.length
          ≠ (s.allocator.classes i).slabs.length := by
        rw [SlabClass.withHead_slabs, hslabs, List.length_append, List.length_singleton]
        omega
      rw [allocate_some_of_class hsize hclass]
      simp only [hgrew, ne_eq, not_false_eq_true, if_true, hmetrics, Except.ok_bind_eq, hmetrics']
    · obtain ⟨o, ho, hwithin⟩ := h.live_within_owned hr
      have hapart' := hapart o ho
      unfold Region.Apart at hapart'
      unfold Region.Within block at hwithin
      dsimp only at hapart' hwithin
      omega

theorem Sound.allocate_small (h : s.Inv free) (hm : s.Metered free) {fresh : Option Pointer}
    (hsize : classOf size = some i) (hfresh : ∀ p, fresh = some p → s.Fresh size p) :
    s.allocator.allocate size fresh s.memory = .ok none
      ∨ ∃ p m a, s.allocator.allocate size fresh s.memory = .ok (some (p, m, a))
        ∧ (SlabHeap.mk m a (⟨p, size⟩ :: s.live)).Sound ∧ s.Keeps m := by
  cases hfree : free i with
  | cons p rest =>
    obtain ⟨a, hcode, hsound⟩ := Sound.allocate_reused h hm fresh hsize hfree
    exact Or.inr ⟨p, s.memory, a, hcode, hsound, fun _ _ _ _ ↦ rfl⟩
  | nil =>
    cases fresh with
    | none =>
      have hhead : (s.allocator.classes i).freeHead = 0 := by
        rw [(h.chain i).head_eq, hfree]
        rfl
      refine Or.inl (allocate_none_of_class hsize ?_)
      rw [SlabClass.allocate]
      simp only [hhead, if_true, Option.map_none]
    | some data => exact Or.inr (Sound.allocate_grown h hm hsize (hfresh data rfl) hfree)

end Small

/-! ### Any size -/

/-- **Every allocation keeps the heap sound** and the live blocks as they are. -/
theorem Sound.allocate {s : SlabHeap} (h : s.Sound) (size : ℕ) {fresh : Option Pointer}
    (hfresh : ∀ p, fresh = some p → s.Fresh size p) :
    s.allocator.allocate size fresh s.memory = .ok none
      ∨ (size = 0 ∧ s.allocator.allocate size fresh s.memory
          = .ok (some (0, s.memory, s.allocator)))
      ∨ ∃ p m a, size ≠ 0 ∧ s.allocator.allocate size fresh s.memory = .ok (some (p, m, a))
        ∧ (SlabHeap.mk m a (⟨p, size⟩ :: s.live)).Sound ∧ s.Keeps m := by
  obtain ⟨free, hinv, hm⟩ := h
  by_cases hzero : size = 0
  · exact Or.inr (Or.inl ⟨hzero, if_pos hzero⟩)
  by_cases hlarge : size > largestClass
  · cases fresh with
    | none =>
      refine Or.inl ?_
      unfold SlabAllocator.allocate
      rw [if_neg hzero, if_pos hlarge]
    | some p =>
      right
      right
      have hf := hfresh p rfl
      rw [Fresh, freshSize, if_pos hlarge] at hf
      obtain ⟨hp, hbound, hapart⟩ := hf
      have hadded := fun metrics ↦ hinv.addLarge metrics hlarge hp hbound hapart
      obtain ⟨metrics, hmetrics, hm'⟩ := Metered.addLarge hinv hm hlarge hadded
      refine ⟨p, s.memory, _, hzero, ?_, ⟨free, hadded metrics, hm'⟩, fun _ _ _ _ ↦ rfl⟩
      unfold SlabAllocator.allocate
      rw [if_neg hzero, if_pos hlarge]
      simp only [hmetrics, Except.ok_bind_eq]
  · obtain ⟨i, hi⟩ := exists_classOf hzero (Nat.not_lt.mp hlarge)
    rcases Sound.allocate_small hinv hm hi hfresh with hnone | ⟨p, m, a, hcode, hsound, hkeeps⟩
    · exact Or.inl hnone
    · exact Or.inr (Or.inr ⟨p, m, a, hzero, hcode, hsound, hkeeps⟩)

/-- **Every deallocation of something live keeps the heap sound** and the other live blocks as
they are. -/
theorem Sound.deallocate {s : SlabHeap} (h : s.Sound) {r : Region} (hr : r ∈ s.live) :
    ∃ m a, s.allocator.deallocate r.base r.size s.memory = .ok (m, a)
      ∧ (SlabHeap.mk m a (s.live.erase r)).Sound
      ∧ ∀ x ∈ s.live, x ≠ r → ∀ k < blockSize x.size, m (x.base + k) = s.memory (x.base + k) := by
  obtain ⟨free, hinv, hm⟩ := h
  have hlive := List.perm_cons_erase hr
  have hsize := hinv.size_ne_zero r hr
  have hbase := hinv.live_base_ne_zero hr
  by_cases hlarge : r.size > largestClass
  · obtain ⟨hused, hallocated, metrics, hmetrics, hm'⟩ := hm.subLarge hlive hlarge
    refine ⟨s.memory, _, ?_, ⟨free, hinv.subLarge metrics hlive hlarge, hm'⟩,
      fun _ _ _ _ _ ↦ rfl⟩
    rw [SlabAllocator.deallocate, if_neg hbase, Checked.assert_eq (decide_eq_true hsize),
      Checked.assert_eq (decide_eq_true hused)]
    simp only [Except.ok_bind_eq, hlarge, if_true, ge_iff_le, hallocated, decide_true,
      Checked.assert_eq, hmetrics]
  · obtain ⟨i, hi⟩ := exists_classOf hsize (Nat.not_lt.mp hlarge)
    have hfits := (classOf_bounds hi).2.2
    obtain ⟨hused, hfrag, metrics, hmetrics, hm'⟩ := Metered.give hinv hm hlive hi
      (s.memory.storeWord r.base (s.allocator.classes i).freeHead)
    refine ⟨_, _, ?_, ⟨_, hinv.give metrics hlive hi, hm'⟩, ?_⟩
    · rw [SlabAllocator.deallocate, if_neg hbase, Checked.assert_eq (decide_eq_true hsize),
        Checked.assert_eq (decide_eq_true hused)]
      simp only [Except.ok_bind_eq, hlarge, if_false, classIndex_eq hi, Checked.sub_eq hfits,
        ge_iff_le, hfrag, decide_true, Checked.assert_eq, SlabClass.deallocate, hmetrics,
        SlabClass.withHead]
    · intro x hx hne k hk
      refine s.memory.storeWord_apply_of_outside ?_
      have hapart := hinv.live_apart hx hr hne
      have hword : Memory.wordBytes ≤ blockSize r.size := by
        rw [blockSize_eq hi]
        exact le_trans (by decide) (sizeClasses_bounds i).1
      unfold Region.Apart block at hapart
      dsimp only at hapart
      omega

theorem Sound.write {s : SlabHeap} (h : s.Sound) {r : Region} (hr : r ∈ s.live) {offset : ℕ}
    {bytes : List UInt8} (hin : offset + bytes.length ≤ blockSize r.size) :
    (SlabHeap.mk (s.memory.write (r.base + offset) bytes) s.allocator s.live).Sound
      ∧ ∀ x ∈ s.live, x ≠ r → ∀ k < blockSize x.size,
        s.memory.write (r.base + offset) bytes (x.base + k) = s.memory (x.base + k) := by
  obtain ⟨free, hinv, hm⟩ := h
  refine ⟨⟨free, hinv.write hr hin, hm.used, hm.fragmentation, hm.freeBytes, hm.slabCount,
    hm.allocated, hm.count⟩, fun x hx hne k hk ↦ s.memory.write_apply_of_outside ?_⟩
  have hapart := hinv.live_apart hx hr hne
  unfold Region.Apart block at hapart
  dsimp only at hapart
  omega

/-! ## Requests and runs

An empty allocation is the null pointer and changes nothing; what it hands out is never live. -/

/-- The blocks that stay live through a request and are not written by it keep their bytes. -/
def Undisturbed (s : SlabHeap) (request : Request) (s' : SlabHeap) : Prop :=
  ∀ r ∈ s.live, r ∈ s'.live → (∀ offset bytes, request ≠ .write r offset bytes) →
    ∀ k < blockSize r.size, s'.memory (r.base + k) = s.memory (r.base + k)

/-- **One request.** -/
theorem Sound.step {s : SlabHeap} (h : s.Sound) {request : Request} (hadmits : s.Admits request) :
    ∃ output s', s.step request = .ok (output, s') ∧ s'.Sound ∧ s.Undisturbed request s' := by
  cases request with
  | allocate size fresh =>
    rcases h.allocate size hadmits with hcode | ⟨hzero, hcode⟩ |
      ⟨p, m, a, hsize, hcode, hsound, hkeeps⟩
    · refine ⟨none, s, ?_, h, fun _ _ _ _ _ _ ↦ rfl⟩
      rw [SlabHeap.step, hcode]
      rfl
    · refine ⟨some 0, s, ?_, h, fun _ _ _ _ _ _ ↦ rfl⟩
      rw [SlabHeap.step, hcode]
      simp only [Except.ok_bind_eq, hzero, if_true]
    · refine ⟨some p, _, ?_, hsound, fun r hr _ _ ↦ hkeeps r hr⟩
      rw [SlabHeap.step, hcode]
      simp only [Except.ok_bind_eq, hsize, if_false]
  | deallocate pointer size =>
    rcases hadmits with ⟨rfl, rfl⟩ | hmem
    · have herase : s.live.erase ⟨0, 0⟩ = s.live := by
        obtain ⟨free, hinv, -⟩ := h
        exact List.erase_of_not_mem fun hmem ↦ hinv.size_ne_zero _ hmem rfl
      refine ⟨none, s, ?_, h, fun _ _ _ _ _ _ ↦ rfl⟩
      rw [SlabHeap.step, SlabAllocator.deallocate, if_pos rfl, Checked.assert_eq (by decide)]
      simp only [Except.ok_bind_eq, herase]
    · obtain ⟨m, a, hcode, hsound, hkeeps⟩ := h.deallocate hmem
      refine ⟨none, _, ?_, hsound, fun r hr hr' _ ↦ hkeeps r hr ?_⟩
      · rw [SlabHeap.step, hcode]
        rfl
      · rintro rfl
        obtain ⟨free, hinv, -⟩ := h
        exact (hinv.live_nodup.not_mem_erase) hr'
  | write r offset bytes =>
    obtain ⟨hr, hin⟩ := hadmits
    obtain ⟨hsound, hkeeps⟩ := h.write hr hin
    refine ⟨none, _, rfl, hsound, fun x hx _ hwrite ↦ hkeeps x hx ?_⟩
    rintro rfl
    exact hwrite offset bytes rfl

theorem Sound.run : ∀ (requests : List Request) {s : SlabHeap}, s.Sound → s.AdmitsAll requests →
    ∃ outputs s', Transition.run SlabHeap.step s requests = .ok (outputs, s') ∧ s'.Sound := by
  intro requests
  induction requests with
  | nil => intro s h _; exact ⟨[], s, rfl, h⟩
  | cons request requests ih =>
    intro s h hadmits
    obtain ⟨output, s', hstep, h', -⟩ := h.step hadmits.1
    obtain ⟨outputs, s'', hrun, h''⟩ := ih h' (hadmits.2 output s' hstep)
    exact ⟨output :: outputs, s'', by rw [Transition.run_cons hstep, hrun]; rfl, h''⟩

/-! ## What soundness means

`Partitioned` mentions no chain and no witness of one: it is what the free lists in memory are,
block by block. The invariant gives it, and it is the form in which the result can be read. -/

/-- The free lists and the live allocations share out the slabs. -/
structure Partitioned (s : SlabHeap) : Prop where
  /-- Every class has a free list without repetitions, and every block of every slab is in it once
  and not handed out, or handed out to one live allocation and not in it. -/
  classes : ∀ i, ∃ free, Chain s.memory (s.allocator.classes i).freeHead free ∧ free.Nodup
    ∧ ∀ base ∈ (s.allocator.classes i).slabs,
      ∀ index < slabSize / (s.allocator.classes i).objectSize,
        let b := base + index * (s.allocator.classes i).objectSize
        free.count b = 1 ∧ s.live.countP (fun r ↦ r.base = b) = 0
          ∨ free.count b = 0 ∧ s.live.countP (fun r ↦ r.base = b) = 1
  /-- Live allocations do not overlap, not even in the bytes set aside for them. -/
  apart : (s.live.map block).Pairwise Region.Apart
  /-- A live allocation has room for what was requested. -/
  room : ∀ r ∈ s.live, r.Within (block r)
  /-- A live allocation up to the largest class lies in one slab. -/
  inside : ∀ r ∈ s.live, r.size ≤ largestClass →
    ∃ i, ∃ base ∈ (s.allocator.classes i).slabs, (block r).Within ⟨base, slabSize⟩

namespace Inv

variable {s : SlabHeap} {free : Fin 8 → List ℕ} (h : s.Inv free)
include h

theorem within_block {r : Region} (hr : r ∈ s.live) : r.Within (block r) := by
  rcases h.class_or_large hr with ⟨i, hi⟩ | hlarge
  · rw [block, blockSize_eq hi]
    exact ⟨le_refl _, Nat.add_le_add_left (classOf_bounds hi).2.2 _⟩
  · rw [block, blockSize_of_large hlarge]
    exact ⟨le_refl _, le_refl _⟩

/-- The address identifies a live allocation. -/
theorem eq_of_base_eq {r r' : Region} (hr : r ∈ s.live) (hr' : r' ∈ s.live)
    (hbase : r.base = r'.base) : r = r' := by
  by_contra hne
  have hapart := h.live_apart hr hr' hne
  have h₁ := h.within_block hr
  have h₂ := h.within_block hr'
  have hpos := h.size_ne_zero r hr
  have hpos' := h.size_ne_zero r' hr'
  unfold Region.Apart block at hapart
  unfold Region.Within block at h₁ h₂
  dsimp only at hapart h₁ h₂
  omega

private theorem countP_base_le (b : ℕ) : s.live.countP (fun r ↦ r.base = b) ≤ 1 := by
  rw [List.countP_eq_length_filter]
  have hnd := h.live_nodup.filter fun r ↦ decide (r.base = b)
  cases hfilter : s.live.filter fun r ↦ decide (r.base = b) with
  | nil => exact Nat.zero_le _
  | cons x xs =>
    cases xs with
    | nil => exact le_refl _
    | cons y ys =>
      rw [hfilter, List.nodup_cons] at hnd
      have hx : x ∈ s.live.filter fun r ↦ decide (r.base = b) := by simp [hfilter]
      have hy : y ∈ s.live.filter fun r ↦ decide (r.base = b) := by simp [hfilter]
      rw [List.mem_filter, decide_eq_true_iff] at hx hy
      have heq := h.eq_of_base_eq hx.1 hy.1 (hx.2.trans hy.2.symm)
      exact absurd (heq ▸ List.mem_cons_self) hnd.1

/-- A block is free or handed out. -/
theorem block_cases {i : Fin 8} {b : ℕ} (hb : b ∈ s.allocator.blocks i) :
    (free i).count b = 1 ∧ s.live.countP (fun r ↦ r.base = b) = 0
      ∨ (free i).count b = 0 ∧ s.live.countP (fun r ↦ r.base = b) = 1 := by
  have hmem := (h.partition i).symm.subset hb
  have hdisj := (List.nodup_append.mp (h.append_nodup i)).2.2
  rcases List.mem_append.mp hmem with hfree | hlive
  · refine Or.inl ⟨List.count_eq_one_of_mem (h.free_nodup i) hfree, ?_⟩
    rw [List.countP_eq_zero]
    intro r hr hbase
    rw [decide_eq_true_iff] at hbase
    have hapart := h.free_apart_live hfree hr
    have hpos := (sizeClasses_bounds i).1
    have hroom := h.within_block hr
    have hsize := h.size_ne_zero r hr
    unfold Region.Apart block at hapart
    unfold Region.Within block at hroom
    dsimp only at hapart hroom
    omega
  · refine Or.inr ⟨List.count_eq_zero.mpr fun hfree ↦ hdisj b hfree b hlive rfl, ?_⟩
    obtain ⟨r, hr, hbase⟩ := List.mem_map.mp hlive
    have hpos : 0 < s.live.countP fun r ↦ r.base = b :=
      List.countP_pos_iff.mpr ⟨r, List.mem_of_mem_filter hr, decide_eq_true hbase⟩
    have := h.countP_base_le b
    omega

private theorem partitioned : s.Partitioned := by
  refine ⟨fun i ↦ ⟨free i, h.chain i, h.free_nodup i, fun base hbase index hindex ↦ ?_⟩, ?_,
    fun r hr ↦ h.within_block hr, fun r hr hle ↦ ?_⟩
  · rw [h.objectSize i] at hindex ⊢
    exact h.block_cases (List.mem_flatMap.mpr ⟨base, hbase,
      List.mem_map.mpr ⟨index, List.mem_range.mpr hindex, rfl⟩⟩)
  · rw [List.pairwise_map]
    exact h.live_nodup.pairwise_of_forall_ne fun r hr r' hr' hne ↦ h.live_apart hr hr' hne
  · obtain ⟨i, hi⟩ := exists_classOf (h.size_ne_zero r hr) hle
    obtain ⟨base, hbase, hmem⟩ := exists_slab_of_mem_blocks (h.live_mem_blocks hr hi)
    refine ⟨i, base, hbase, ?_⟩
    rw [block, blockSize_eq hi]
    exact blocksOf_within hmem

end Inv

/-- **Free lists, live blocks and bytes in every run.** After any admitted sequence of requests the
blocks are shared out between the free lists and the live allocations, and any further admitted
request leaves the bytes of every other live block alone. -/
theorem run_partitioned (memory : Memory) (requests : List Request)
    (hadmits : (start memory).AdmitsAll requests) :
    ∃ outputs s, Transition.run step (start memory) requests = .ok (outputs, s) ∧ s.Partitioned
      ∧ ∀ request, s.Admits request →
        ∃ output s', s.step request = .ok (output, s') ∧ s.Undisturbed request s' := by
  obtain ⟨outputs, s, hrun, hsound⟩ := Sound.run requests (sound_start memory) hadmits
  obtain ⟨free, hinv, hm⟩ := id hsound
  refine ⟨outputs, s, hrun, hinv.partitioned, fun request hrequest ↦ ?_⟩
  obtain ⟨output, s', hstep, -, hkeeps⟩ := hsound.step hrequest
  exact ⟨output, s', hstep, hkeeps⟩

/-- An allocation ends no other. -/
private theorem live_of_step_allocate {s s' : SlabHeap} {size : ℕ} {fresh output : Option Pointer}
    (h : s.step (.allocate size fresh) = .ok (output, s')) {r : Region} (hr : r ∈ s.live) :
    r ∈ s'.live := by
  rw [SlabHeap.step] at h
  cases halloc : s.allocator.allocate size fresh s.memory with
  | error fault =>
    rw [halloc] at h
    cases h
  | ok result =>
    rw [halloc] at h
    cases result with
    | none =>
      cases h
      exact hr
    | some result =>
      cases h
      dsimp only
      split
      · exact hr
      · exact List.mem_cons_of_mem _ hr

private theorem slabRegions_new : SlabAllocator.new.slabRegions = [] := by
  simp [slabRegions, SlabAllocator.new]

theorem fresh_start (memory : Memory) {size p : ℕ} (hp : 0 < p)
    (hbound : p + freshSize size ≤ Checked.wordSize) : (start memory).Fresh size p := by
  refine ⟨hp, hbound, fun r hr ↦ ?_⟩
  rw [owned, show (start memory).allocator = .new from rfl, slabRegions_new] at hr
  cases hr

private theorem admitsAll_mixed (memory : Memory) :
    (start memory).AdmitsAll [.allocate 10000 (some 65536), .allocate 100 (some 131072),
      .deallocate 65536 10000] := by
  have hfirst : (start memory).step (.allocate 10000 (some 65536))
      = .ok (some 65536, ⟨memory, ⟨SlabAllocator.new.classes, ⟨10000, 10000, 0, 1, 0, 0, 0⟩⟩,
        [⟨65536, 10000⟩]⟩) := by
    simp [SlabHeap.step, start, SlabAllocator.allocate, SlabAllocator.new, largestClass,
      ValueAllocatorMetrics.addLarge, ValueAllocatorMetrics.zero, Checked.add, Checked.wordSize]
  refine ⟨fun p hp ↦ ?_, fun output s hstep ↦ ?_⟩
  · obtain rfl := Option.some.inj hp
    exact fresh_start memory (by decide) (by decide)
  obtain ⟨-, rfl⟩ := Except.ok_unique hfirst hstep
  refine ⟨fun p hp ↦ ?_, fun output' s' hstep' ↦ ⟨Or.inr ?_, fun _ _ _ ↦ trivial⟩⟩
  · obtain rfl := Option.some.inj hp
    refine ⟨by decide, by decide, fun r hr ↦ ?_⟩
    have hr' : r ∈ SlabAllocator.new.slabRegions ++ large [⟨65536, 10000⟩] := hr
    rw [slabRegions_new] at hr'
    rw [List.mem_singleton.mp hr']
    decide
  · exact live_of_step_allocate hstep' List.mem_cons_self

theorem run_partitioned_mixed :
    ∃ outputs s, Transition.run step (start fun _ ↦ 0) [.allocate 10000 (some 65536),
        .allocate 100 (some 131072), .deallocate 65536 10000] = .ok (outputs, s) ∧ s.Partitioned
      ∧ ∀ request, s.Admits request →
        ∃ output s', s.step request = .ok (output, s') ∧ s.Undisturbed request s' :=
  run_partitioned _ _ (admitsAll_mixed _)

/-! ## The counters of every run

The two counts of calls are machine words and wrap after `2 ^ 64` calls. All others are exact. -/

/-- What the counters of a heap say, with the free list of each class. -/
structure Accounted (s : SlabHeap) (free : Fin 8 → List Pointer) : Prop where
  chain : ∀ i, Chain s.memory (s.allocator.classes i).freeHead (free i)
  used : s.allocator.metrics.usedBytes = (s.live.map Region.size).sum
  fragmentation : s.allocator.metrics.internalFragmentation
    = ((small s.live).map fun r ↦ blockSize r.size - r.size).sum
  freeBytes : s.allocator.metrics.freeBytes = ∑ i, (free i).length * sizeClasses i
  slabCount : s.allocator.metrics.slabCount = ∑ i, (s.allocator.classes i).slabs.length
  allocated : s.allocator.metrics.allocatedBytes
    = s.allocator.metrics.slabCount * (1024 * 1024) + ((large s.live).map Region.size).sum
  count : (s.allocator.metrics.allocationCount - s.allocator.metrics.deallocationCount).toNat
    = s.live.length
  balance : s.allocator.metrics.allocatedBytes = s.allocator.metrics.usedBytes
    + s.allocator.metrics.freeBytes + s.allocator.metrics.internalFragmentation

private theorem Inv.length_live_lt {s : SlabHeap} {free : Fin 8 → List ℕ} (h : s.Inv free)
    (hm : s.Metered free) : s.live.length < Checked.wordSize := by
  have hle : ∀ live : List Region, (∀ r ∈ live, r.size ≠ 0) →
      live.length ≤ (live.map Region.size).sum := by
    intro live
    induction live with
    | nil => exact fun _ ↦ le_refl _
    | cons r live ih =>
      intro hpos
      obtain ⟨hr, hrest⟩ := List.forall_mem_cons.mp hpos
      have := ih hrest
      rw [List.length_cons, List.map_cons, List.sum_cons]
      omega
  have hlive := hle s.live h.size_ne_zero
  have hlt := hm.allocated_lt h
  rw [hm.balance h, hm.used] at hlt
  omega

theorem Inv.accounted {s : SlabHeap} {free : Fin 8 → List ℕ} (h : s.Inv free)
    (hm : s.Metered free) : s.Accounted free where
  chain := h.chain
  used := hm.used
  fragmentation := hm.fragmentation
  freeBytes := hm.freeBytes
  slabCount := hm.slabCount
  allocated := hm.allocated
  count := by
    rw [hm.count]
    exact UInt64.toNat_ofNat_of_lt' (h.length_live_lt hm)
  balance := hm.balance h

/-- **The counters in every run.** After any admitted sequence of requests each counter is the sum
it stands for and the books balance, and no further admitted request trips an assertion or makes a
counter wrap. -/
theorem run_accounted (memory : Memory) (requests : List Request)
    (hadmits : (start memory).AdmitsAll requests) :
    ∃ outputs s free, Transition.run step (start memory) requests = .ok (outputs, s)
      ∧ s.Accounted free
      ∧ ∀ request, s.Admits request → ∃ output s', s.step request = .ok (output, s') := by
  obtain ⟨outputs, s, hrun, hsound⟩ := Sound.run requests (sound_start memory) hadmits
  obtain ⟨free, hinv, hm⟩ := id hsound
  refine ⟨outputs, s, free, hrun, hinv.accounted hm, fun request hrequest ↦ ?_⟩
  obtain ⟨output, s', hstep, -, -⟩ := hsound.step hrequest
  exact ⟨output, s', hstep⟩

theorem run_accounted_mixed :
    ∃ outputs s free, Transition.run step (start fun _ ↦ 0) [.allocate 10000 (some 65536),
        .allocate 100 (some 131072), .deallocate 65536 10000] = .ok (outputs, s)
      ∧ s.Accounted free
      ∧ ∀ request, s.Admits request → ∃ output s', s.step request = .ok (output, s') :=
  run_accounted _ _ (admitsAll_mixed _)

end SlabHeap

end HighCache
