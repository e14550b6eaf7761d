import HighCache.Memory.SlabRuns

/-!
# The value allocators

A cache keeps its values in blocks of a `ValueAllocator`, which is one of two backends: the slab
allocator, or a thin layer over `::operator new`. Both are put under one contract here, on a `Heap`
that also has the memory and the live allocations: an allocation adds one live region apart from
the others, a deallocation of a live region removes it, neither touches the bytes of the others,
and the counters are the sums over what is live.

## Two invariants under one contract

The two backends keep different invariants, and `Heap.Sound` is the one of the backend at hand. What
the cache relies on is only the contract below, so nothing above this file distinguishes them.
-/

namespace HighCache

/-! ## The system backend

A layer that counts. It has no blocks of its own, and its live allocations are regions that came
from `::operator new` one by one. -/

/-- `SystemAllocator`. -/
structure SystemAllocator where
  metrics : ValueAllocatorMetrics

namespace SystemAllocator

/-- `SystemAllocator::allocate`, or `none` where `::operator new` throws. -/
def allocate (size : ℕ) (fresh : Option Pointer) (a : SystemAllocator) :
    Except Fault (Option (Pointer × SystemAllocator)) :=
  if size = 0 then .ok (some (0, a))
  else
    match fresh with
    | none => .ok none
    | some pointer => do
      let metrics ← a.metrics.addLarge size
      .ok (some (pointer, ⟨metrics⟩))

/-- `SystemAllocator::deallocate`. -/
def deallocate (pointer : Pointer) (size : ℕ) (a : SystemAllocator) :
    Except Fault SystemAllocator :=
  if pointer = 0 then do
    Checked.assert (size = 0)
    .ok a
  else do
    Checked.assert (size ≠ 0)
    Checked.assert (a.metrics.allocatedBytes ≥ size)
    Checked.assert (a.metrics.usedBytes ≥ size)
    let metrics ← a.metrics.subLarge size
    .ok ⟨metrics⟩

/-- What holds of the system backend and its live allocations. -/
structure Sound (a : SystemAllocator) (live : List Region) : Prop where
  apart : live.Pairwise Region.Apart
  bounds : ∀ r ∈ live, 0 < r.base ∧ r.base + r.size ≤ Checked.wordSize
  size_ne_zero : ∀ r ∈ live, r.size ≠ 0
  used : a.metrics.usedBytes = (live.map Region.size).sum
  allocated : a.metrics.allocatedBytes = (live.map Region.size).sum
  fragmentation : a.metrics.internalFragmentation = 0
  count : a.metrics.allocationCount - a.metrics.deallocationCount = UInt64.ofNat live.length

theorem Sound.bases_nodup {a : SystemAllocator} {live : List Region} (h : a.Sound live) :
    (live.map Region.base).Nodup := by
  rw [List.Nodup, List.pairwise_map]
  refine h.apart.imp_of_mem fun {r r'} hr hr' hapart heq ↦ ?_
  have hr₀ := h.size_ne_zero r hr
  have hr₁ := h.size_ne_zero r' hr'
  unfold Region.Apart at hapart
  omega

theorem Sound.allocate {a : SystemAllocator} {live : List Region} (h : a.Sound live) {size p : ℕ}
    (hsize : size ≠ 0) (hp : 0 < p) (hbound : p + size ≤ Checked.wordSize)
    (hfresh : ∀ r ∈ live, Region.Apart ⟨p, size⟩ r) :
    ∃ a', a.allocate size (some p) = .ok (some (p, a')) ∧ a'.Sound (⟨p, size⟩ :: live) := by
  have hapart : (⟨p, size⟩ :: live).Pairwise Region.Apart :=
    List.pairwise_cons.mpr ⟨hfresh, h.apart⟩
  have hbounds : ∀ r ∈ (⟨p, size⟩ :: live : List Region),
      0 < r.base ∧ r.base + r.size ≤ Checked.wordSize :=
    List.forall_mem_cons.mpr ⟨⟨hp, hbound⟩, h.bounds⟩
  -- live blocks are apart from each other, so their sizes together do not wrap
  have hlt := Region.sum_size_lt (by decide) hapart hbounds
  rw [List.map_cons, List.sum_cons] at hlt
  dsimp only at hlt
  have hused := h.used
  have hallocated := h.allocated
  refine ⟨⟨{ a.metrics with
    allocatedBytes := a.metrics.allocatedBytes + size
    usedBytes := a.metrics.usedBytes + size
    allocationCount := a.metrics.allocationCount + 1 }⟩, ?_, hapart, hbounds,
    List.forall_mem_cons.mpr ⟨hsize, h.size_ne_zero⟩, ?_, ?_, h.fragmentation, ?_⟩
  · rw [SystemAllocator.allocate, if_neg hsize, ValueAllocatorMetrics.addLarge,
      Checked.add_eq (by omega), Checked.add_eq (by omega)]
    rfl
  · rw [List.map_cons, List.sum_cons]
    show a.metrics.usedBytes + size = size + _
    omega
  · rw [List.map_cons, List.sum_cons]
    show a.metrics.allocatedBytes + size = size + _
    omega
  · show a.metrics.allocationCount + 1 - a.metrics.deallocationCount = _
    have hcount := h.count
    rw [List.length_cons, UInt64.ofNat_add]
    grind

theorem Sound.deallocate {a : SystemAllocator} {live : List Region} (h : a.Sound live)
    {r : Region} (hr : r ∈ live) :
    ∃ a', a.deallocate r.base r.size = .ok a' ∧ a'.Sound (live.erase r) := by
  have hperm := List.perm_cons_erase hr
  have hsum := (hperm.map Region.size).sum_eq
  rw [List.map_cons, List.sum_cons] at hsum
  have hused := h.used
  have hallocated := h.allocated
  refine ⟨⟨{ a.metrics with
    allocatedBytes := a.metrics.allocatedBytes - r.size
    usedBytes := a.metrics.usedBytes - r.size
    deallocationCount := a.metrics.deallocationCount + 1 }⟩, ?_,
    h.apart.sublist List.erase_sublist, fun x hx ↦ h.bounds x (List.mem_of_mem_erase hx),
    fun x hx ↦ h.size_ne_zero x (List.mem_of_mem_erase hx), ?_, ?_, h.fragmentation, ?_⟩
  · rw [SystemAllocator.deallocate, if_neg (h.bounds r hr).1.ne',
      Checked.assert_eq (decide_eq_true (h.size_ne_zero r hr)),
      Checked.assert_eq (decide_eq_true (by omega)), Checked.assert_eq (decide_eq_true (by omega)),
      ValueAllocatorMetrics.subLarge, Checked.sub_eq (by omega), Checked.sub_eq (by omega)]
    rfl
  · show a.metrics.usedBytes - r.size = _
    omega
  · show a.metrics.allocatedBytes - r.size = _
    omega
  · show a.metrics.allocationCount - (a.metrics.deallocationCount + 1) = _
    have hcount := h.count
    rw [hperm.length_eq, List.length_cons, UInt64.ofNat_add] at hcount
    grind

end SystemAllocator

/-! ## Either backend

The virtual calls of the interface, by cases on the backend. -/

/-- `AllocatorBackend`. -/
inductive AllocatorBackend where
  | system
  | slab
  deriving DecidableEq, Repr

/-- A `ValueAllocator` of either backend. -/
inductive ValueAllocator where
  | system (a : SystemAllocator)
  | slab (a : SlabAllocator)

namespace ValueAllocator

/-- `make_value_allocator`. -/
def make : AllocatorBackend → ValueAllocator
  | .system => .system ⟨.zero⟩
  | .slab => .slab .new

/-- `ValueAllocator::allocate`. -/
def allocate (size : ℕ) (fresh : Option Pointer) (m : Memory) :
    ValueAllocator → Except Fault (Option (Pointer × Memory × ValueAllocator))
  | .system a => do
    match ← a.allocate size fresh with
    | none => .ok none
    | some (pointer, a) => .ok (some (pointer, m, .system a))
  | .slab a => do
    match ← a.allocate size fresh m with
    | none => .ok none
    | some (pointer, m, a) => .ok (some (pointer, m, .slab a))

/-- `ValueAllocator::deallocate`. -/
def deallocate (pointer : Pointer) (size : ℕ) (m : Memory) :
    ValueAllocator → Except Fault (Memory × ValueAllocator)
  | .system a => do
    let a ← a.deallocate pointer size
    .ok (m, .system a)
  | .slab a => do
    let (m, a) ← a.deallocate pointer size m
    .ok (m, .slab a)

/-- `ValueAllocator::metrics`. -/
def metrics : ValueAllocator → ValueAllocatorMetrics
  | .system a => a.metrics
  | .slab a => a.metrics

end ValueAllocator

/-! ## The contract -/

/-- An allocator of either backend, the memory it shares with its callers, and the live
allocations. -/
structure Heap where
  memory : Memory
  allocator : ValueAllocator
  live : List Region

namespace Heap

/-- The heap of a new allocator. -/
def start (backend : AllocatorBackend) (memory : Memory) : Heap := ⟨memory, .make backend, []⟩

/-- The invariant of the backend. -/
def Sound (h : Heap) : Prop :=
  match h.allocator with
  | .system a => a.Sound h.live
  | .slab a => (SlabHeap.mk h.memory a h.live).Sound

/-- `::operator new` answered a request of `size` bytes with memory that is free. -/
def Fresh (h : Heap) (size p : ℕ) : Prop :=
  match h.allocator with
  | .system _ => 0 < p ∧ p + size ≤ Checked.wordSize ∧ ∀ r ∈ h.live, Region.Apart ⟨p, size⟩ r
  | .slab a => (SlabHeap.mk h.memory a h.live).Fresh size p

theorem sound_start (backend : AllocatorBackend) (memory : Memory) :
    (start backend memory).Sound := by
  cases backend with
  | system =>
    refine ⟨List.Pairwise.nil, ?_, ?_, rfl, rfl, rfl, ?_⟩
    · exact fun r hr ↦ by cases hr
    · exact fun r hr ↦ by cases hr
    · simp [start, ValueAllocatorMetrics.zero]
  | slab => exact SlabHeap.sound_start memory

theorem allocate_null (h : Heap) (fresh : Option Pointer) :
    h.allocator.allocate 0 fresh h.memory = .ok (some (0, h.memory, h.allocator)) := by
  obtain ⟨memory, allocator, live⟩ := h
  cases allocator <;> rfl

/-- **The contract of `allocate`.** -/
theorem Sound.allocate {h : Heap} (hs : h.Sound) {size : ℕ} (hsize : size ≠ 0)
    {fresh : Option Pointer} (hfresh : ∀ p, fresh = some p → h.Fresh size p) :
    h.allocator.allocate size fresh h.memory = .ok none
      ∨ ∃ p m v, h.allocator.allocate size fresh h.memory = .ok (some (p, m, v))
        ∧ (Heap.mk m v (⟨p, size⟩ :: h.live)).Sound
        ∧ ∀ r ∈ h.live, ∀ k < r.size, m (r.base + k) = h.memory (r.base + k) := by
  obtain ⟨memory, allocator, live⟩ := h
  cases allocator with
  | system a =>
    dsimp only [ValueAllocator.allocate]
    cases fresh with
    | none =>
      refine Or.inl ?_
      unfold SystemAllocator.allocate
      rw [if_neg hsize]
      rfl
    | some p =>
      obtain ⟨hp, hbound, hapart⟩ := hfresh p rfl
      obtain ⟨a', hcode, hsound⟩ := SystemAllocator.Sound.allocate hs hsize hp hbound hapart
      refine Or.inr ⟨p, memory, .system a', ?_, hsound, fun _ _ _ _ ↦ rfl⟩
      rw [hcode]
      rfl
  | slab a =>
    have hs' : (SlabHeap.mk memory a live).Sound := hs
    dsimp only [ValueAllocator.allocate]
    rcases hs'.allocate size hfresh with hcode | ⟨hzero, -⟩ | ⟨p, m, a', -, hcode, hsound, hkeeps⟩
    · refine Or.inl ?_
      rw [show a.allocate size fresh memory = _ from hcode]
      rfl
    · exact absurd hzero hsize
    · refine Or.inr ⟨p, m, .slab a', ?_, hsound, fun r hr k hk ↦ ?_⟩
      · rw [show a.allocate size fresh memory = _ from hcode]
        rfl
      · obtain ⟨free, hinv, -⟩ := hs'
        have hroom := (hinv.within_block hr).2
        unfold SlabHeap.block at hroom
        dsimp only at hroom
        exact hkeeps r hr k (by omega)

/-- **The contract of `deallocate`.** -/
theorem Sound.deallocate {h : Heap} (hs : h.Sound) {r : Region} (hr : r ∈ h.live) :
    ∃ m v, h.allocator.deallocate r.base r.size h.memory = .ok (m, v)
      ∧ (Heap.mk m v (h.live.erase r)).Sound
      ∧ ∀ x ∈ h.live, x ≠ r → ∀ k < x.size, m (x.base + k) = h.memory (x.base + k) := by
  obtain ⟨memory, allocator, live⟩ := h
  cases allocator with
  | system a =>
    obtain ⟨a', hcode, hsound⟩ := SystemAllocator.Sound.deallocate hs hr
    refine ⟨memory, .system a', ?_, hsound, fun _ _ _ _ _ ↦ rfl⟩
    dsimp only [ValueAllocator.deallocate]
    rw [hcode]
    rfl
  | slab a =>
    have hs' : (SlabHeap.mk memory a live).Sound := hs
    obtain ⟨m, a', hcode, hsound, hkeeps⟩ := hs'.deallocate hr
    refine ⟨m, .slab a', ?_, hsound, fun x hx hne k hk ↦ ?_⟩
    · dsimp only [ValueAllocator.deallocate]
      rw [show a.deallocate r.base r.size memory = _ from hcode]
      rfl
    · obtain ⟨free, hinv, -⟩ := hs'
      have hroom := (hinv.within_block hx).2
      unfold SlabHeap.block at hroom
      dsimp only at hroom
      exact hkeeps x hx hne k (by omega)

theorem deallocate_null (h : Heap) :
    h.allocator.deallocate 0 0 h.memory = .ok (h.memory, h.allocator) := by
  obtain ⟨memory, allocator, live⟩ := h
  cases allocator <;> rfl

theorem Sound.write {h : Heap} (hs : h.Sound) {r : Region} (hr : r ∈ h.live)
    {bytes : List UInt8} (hin : bytes.length ≤ r.size) :
    (Heap.mk (h.memory.write r.base bytes) h.allocator h.live).Sound
      ∧ ∀ x ∈ h.live, x ≠ r → ∀ k < x.size,
        h.memory.write r.base bytes (x.base + k) = h.memory (x.base + k) := by
  obtain ⟨memory, allocator, live⟩ := h
  cases allocator with
  | system a =>
    refine ⟨hs, fun x hx hne k hk ↦ memory.write_apply_of_outside ?_⟩
    have hs' : a.Sound live := hs
    have hapart := hs'.apart.forall hx hr hne
    unfold Region.Apart at hapart
    omega
  | slab a =>
    have hs' : (SlabHeap.mk memory a live).Sound := hs
    obtain ⟨free, hinv, -⟩ := id hs'
    have hroom := (hinv.within_block hr).2
    unfold SlabHeap.block at hroom
    dsimp only at hroom
    have hfits : 0 + bytes.length ≤ SlabAllocator.blockSize r.size := by omega
    obtain ⟨hsound, hkeeps⟩ := hs'.write hr hfits
    refine ⟨hsound, fun x hx hne k hk ↦ ?_⟩
    have hroom' := (hinv.within_block hx).2
    unfold SlabHeap.block at hroom'
    dsimp only at hroom'
    exact hkeeps x hx hne k (by omega)

/-! ## What holds of the metrics -/

/-- **What the counters and the live regions say.** -/
structure Facts (h : Heap) : Prop where
  bases_nodup : (h.live.map Region.base).Nodup
  size_ne_zero : ∀ r ∈ h.live, r.size ≠ 0
  base_ne_zero : ∀ r ∈ h.live, r.base ≠ 0
  used : h.allocator.metrics.usedBytes = (h.live.map Region.size).sum
  count : (h.allocator.metrics.allocationCount - h.allocator.metrics.deallocationCount).toNat
    = h.live.length
  fragmentation : h.live = [] → h.allocator.metrics.internalFragmentation = 0

private theorem length_lt {live : List Region} (hsize : ∀ r ∈ live, r.size ≠ 0)
    (hlt : (live.map Region.size).sum < Checked.wordSize) : live.length < Checked.wordSize := by
  refine lt_of_le_of_lt ?_ hlt
  clear hlt
  induction live with
  | nil => exact le_refl _
  | cons r live ih =>
    obtain ⟨hr, hrest⟩ := List.forall_mem_cons.mp hsize
    have := ih hrest
    rw [List.length_cons, List.map_cons, List.sum_cons]
    omega

theorem Sound.facts {h : Heap} (hs : h.Sound) : h.Facts := by
  obtain ⟨memory, allocator, live⟩ := h
  cases allocator with
  | system a =>
    have hs' : a.Sound live := hs
    refine ⟨hs'.bases_nodup, hs'.size_ne_zero, fun r hr ↦ (hs'.bounds r hr).1.ne', hs'.used, ?_,
      fun _ ↦ hs'.fragmentation⟩
    show (a.metrics.allocationCount - a.metrics.deallocationCount).toNat = _
    rw [hs'.count]
    exact UInt64.toNat_ofNat_of_lt' (length_lt hs'.size_ne_zero
      (Region.sum_size_lt (by decide) hs'.apart hs'.bounds))
  | slab a =>
    obtain ⟨free, hinv, hm⟩ := (show (SlabHeap.mk memory a live).Sound from hs)
    have hacc := hinv.accounted hm
    refine ⟨hinv.live_nodup.map_on fun r hr r' hr' ↦ hinv.eq_of_base_eq hr hr',
      hinv.size_ne_zero, fun r hr ↦ hinv.live_base_ne_zero hr, hacc.used, hacc.count,
      fun hlive ↦ ?_⟩
    have hfrag := hacc.fragmentation
    rw [show (SlabHeap.mk memory a live).live = [] from hlive] at hfrag
    exact hfrag

/-- No more is used than was got from `::operator new`. -/
theorem Sound.used_le {h : Heap} (hs : h.Sound) :
    h.allocator.metrics.usedBytes ≤ h.allocator.metrics.allocatedBytes := by
  obtain ⟨memory, allocator, live⟩ := h
  cases allocator with
  | system a =>
    have hs' : a.Sound live := hs
    exact (hs'.used.trans hs'.allocated.symm).le
  | slab a =>
    obtain ⟨free, hinv, hm⟩ := (show (SlabHeap.mk memory a live).Sound from hs)
    have hbalance : a.metrics.allocatedBytes
        = a.metrics.usedBytes + a.metrics.freeBytes + a.metrics.internalFragmentation :=
      hm.balance hinv
    show a.metrics.usedBytes ≤ a.metrics.allocatedBytes
    omega

end Heap

end HighCache
