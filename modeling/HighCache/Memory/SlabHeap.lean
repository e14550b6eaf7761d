import HighCache.Memory.SlabAllocator
import Mathlib.Data.List.Nodup

/-!
# The heap a slab allocator manages

The allocator together with what it cannot see: the memory its callers write to, and the
allocations that are live. `SlabHeap.Inv` is the invariant. Each class has a list of free blocks
that is the chain in memory from its head, and that list together with the live blocks of the class
is, up to order, all blocks of all its slabs. Slabs and large allocations are disjoint regions.
Everything claimed about free lists, overlap and leaks is read off from that permutation.

This file has the definitions and what follows from the invariant; `HighCache.Memory.SlabSafety`
shows that every request keeps it.

## Why one permutation

A free list could go wrong in many ways: it could hold a block twice, or a block that is live, or
lose one, or run into memory that is not a block. Each of these would be a separate invariant, and
each would have to be carried through every operation. That the free blocks and the live blocks
together are a rearrangement of all blocks excludes them at once, because the blocks themselves are
distinct and disjoint by construction.

The lists of free blocks are an argument of the invariant and not part of the state. They are
determined by memory, as the chain from the head of the class, but a proof wants to name them.
-/

namespace HighCache

namespace SlabAllocator

/-! ## Classes

The class of a size, and the blocks of a slab. Blocks of one slab are apart because they are
multiples of the block size away from each other. -/

/-- The class a request is served from, if it is served from a slab. -/
def classOf (size : ℕ) : Option (Fin 8) :=
  if size = 0 ∨ size > largestClass then none
  else (List.finRange 8).find? fun index ↦ size ≤ sizeClasses index

/-- The bytes set aside for a request. -/
def blockSize (size : ℕ) : ℕ :=
  match classOf size with
  | some i => sizeClasses i
  | none => size

theorem classOf_bounds {size : ℕ} {i : Fin 8} (h : classOf size = some i) :
    size ≠ 0 ∧ size ≤ largestClass ∧ size ≤ sizeClasses i := by
  rw [classOf] at h
  split at h
  · cases h
  · rename_i hsize
    have hfits := List.find?_some h
    rw [decide_eq_true_iff] at hfits
    omega

theorem classIndex_eq {size : ℕ} {i : Fin 8} (h : classOf size = some i) :
    classIndex size = .ok i := by
  obtain ⟨hpos, hle, -⟩ := classOf_bounds h
  rw [classOf, if_neg (by omega)] at h
  rw [classIndex, Checked.assert_eq (decide_eq_true (Nat.pos_of_ne_zero hpos)),
    Checked.assert_eq (decide_eq_true hle)]
  simp only [Except.ok_bind_eq, h]

theorem exists_classOf {size : ℕ} (hpos : size ≠ 0) (hle : size ≤ largestClass) :
    ∃ i, classOf size = some i := by
  rw [classOf, if_neg (by omega), ← Option.isSome_iff_exists, List.find?_isSome]
  exact ⟨7, List.mem_finRange 7, decide_eq_true hle⟩

theorem classOf_eq_none {size : ℕ} (h : size > largestClass) : classOf size = none :=
  if_pos (Or.inr h)

theorem blockSize_eq {size : ℕ} {i : Fin 8} (h : classOf size = some i) :
    blockSize size = sizeClasses i := by
  rw [blockSize, h]

theorem blockSize_of_large {size : ℕ} (h : size > largestClass) : blockSize size = size := by
  rw [blockSize, classOf_eq_none h]

theorem sizeClasses_bounds (i : Fin 8) :
    64 ≤ sizeClasses i ∧ sizeClasses i ≤ slabSize
      ∧ slabSize / sizeClasses i * sizeClasses i = slabSize := by
  revert i
  decide

/-- The blocks of a slab of class `i`. -/
def blocksOf (i : Fin 8) (base : Pointer) : List Pointer :=
  (List.range (slabSize / sizeClasses i)).map fun index : ℕ ↦ base + index * sizeClasses i

theorem length_blocksOf (i : Fin 8) (base : Pointer) :
    (blocksOf i base).length * sizeClasses i = slabSize := by
  rw [blocksOf, List.length_map, List.length_range]
  exact (sizeClasses_bounds i).2.2

theorem blocksOf_within {i : Fin 8} {base b : Pointer} (h : b ∈ blocksOf i base) :
    Region.Within ⟨b, sizeClasses i⟩ ⟨base, slabSize⟩ := by
  obtain ⟨index, hindex, rfl⟩ := List.mem_map.mp h
  rw [List.mem_range] at hindex
  have hle : (index + 1) * sizeClasses i ≤ slabSize := by
    rw [← (sizeClasses_bounds i).2.2]
    exact Nat.mul_le_mul_right _ hindex
  rw [Nat.succ_mul] at hle
  unfold Region.Within
  dsimp only
  omega

private theorem blocksOf_apart {i : Fin 8} {base b b' : Pointer} (h : b ∈ blocksOf i base)
    (h' : b' ∈ blocksOf i base) (hne : b ≠ b') :
    Region.Apart ⟨b, sizeClasses i⟩ ⟨b', sizeClasses i⟩ := by
  obtain ⟨x, -, rfl⟩ := List.mem_map.mp h
  obtain ⟨y, -, rfl⟩ := List.mem_map.mp h'
  unfold Region.Apart
  dsimp only
  rcases Nat.lt_trichotomy x y with hlt | rfl | hlt
  · have := Nat.mul_le_mul_right (sizeClasses i) hlt
    rw [Nat.succ_mul] at this
    omega
  · exact absurd rfl hne
  · have := Nat.mul_le_mul_right (sizeClasses i) hlt
    rw [Nat.succ_mul] at this
    omega

private theorem blocksOf_nodup (i : Fin 8) (base : Pointer) : (blocksOf i base).Nodup := by
  refine List.nodup_range.map_on fun x _ y _ heq ↦ ?_
  have hpos := (sizeClasses_bounds i).1
  exact Nat.eq_of_mul_eq_mul_right (by omega) (Nat.add_left_cancel heq)

/-! ## Slabs

What the slabs have been cut into. Two slabs of different classes are different, since they are
apart as regions. -/

/-- The regions of all slabs. -/
def slabRegions (a : SlabAllocator) : List Region :=
  (List.finRange 8).flatMap fun i ↦ (a.classes i).slabs.map fun base ↦ ⟨base, slabSize⟩

/-- The blocks of a class. -/
def blocks (a : SlabAllocator) (i : Fin 8) : List Pointer :=
  (a.classes i).slabs.flatMap (blocksOf i)

theorem mem_slabRegions {a : SlabAllocator} {i : Fin 8} {base : Pointer}
    (h : base ∈ (a.classes i).slabs) : (⟨base, slabSize⟩ : Region) ∈ a.slabRegions :=
  List.mem_flatMap.mpr ⟨i, List.mem_finRange i, List.mem_map_of_mem h⟩

theorem exists_slab_of_mem_blocks {a : SlabAllocator} {i : Fin 8} {b : Pointer}
    (h : b ∈ a.blocks i) : ∃ base ∈ (a.classes i).slabs, b ∈ blocksOf i base :=
  List.mem_flatMap.mp h

section Apart

variable {a : SlabAllocator} (hapart : a.slabRegions.Pairwise Region.Apart)
include hapart

private theorem slabs_apart {i j : Fin 8} {base base' : Pointer} (h : base ∈ (a.classes i).slabs)
    (h' : base' ∈ (a.classes j).slabs) (hne : i ≠ j ∨ base ≠ base') :
    Region.Apart ⟨base, slabSize⟩ ⟨base', slabSize⟩ := by
  obtain ⟨hsame, hother⟩ := List.pairwise_flatMap.mp hapart
  by_cases hij : i = j
  · subst hij
    have hbase : base ≠ base' := hne.resolve_left (not_not.mpr rfl)
    exact (hsame i (List.mem_finRange i)).forall (List.mem_map_of_mem h) (List.mem_map_of_mem h')
      fun heq ↦ hbase (congrArg Region.base heq)
  · have hsymm : Std.Symm fun x y : Fin 8 ↦
        ∀ r ∈ (a.classes x).slabs.map fun base ↦ (⟨base, slabSize⟩ : Region),
          ∀ s ∈ (a.classes y).slabs.map fun base ↦ (⟨base, slabSize⟩ : Region), r.Apart s :=
      ⟨fun x y hxy r hr s hs ↦ (hxy s hs r hr).symm⟩
    exact hother.forall (List.mem_finRange i) (List.mem_finRange j) hij _
      (List.mem_map_of_mem h) _ (List.mem_map_of_mem h')

private theorem blocks_apart {i j : Fin 8} {b b' : Pointer} (h : b ∈ a.blocks i)
    (h' : b' ∈ a.blocks j)
    (hne : i ≠ j ∨ b ≠ b') : Region.Apart ⟨b, sizeClasses i⟩ ⟨b', sizeClasses j⟩ := by
  obtain ⟨base, hbase, hb⟩ := exists_slab_of_mem_blocks h
  obtain ⟨base', hbase', hb'⟩ := exists_slab_of_mem_blocks h'
  by_cases hslab : i ≠ j ∨ base ≠ base'
  · exact (slabs_apart hapart hbase hbase' hslab).within (blocksOf_within hb)
      (blocksOf_within hb')
  · rw [not_or, not_not, not_not] at hslab
    obtain ⟨rfl, rfl⟩ := hslab
    exact blocksOf_apart hb hb' (hne.resolve_left (not_not.mpr rfl))

private theorem blocks_nodup (i : Fin 8) : (a.blocks i).Nodup := by
  have hslabs := (List.pairwise_flatMap.mp hapart).1 i (List.mem_finRange i)
  rw [List.pairwise_map] at hslabs
  rw [blocks, List.nodup_flatMap]
  refine ⟨fun base _ ↦ blocksOf_nodup i base, hslabs.imp fun {base base'} hbases ↦ ?_⟩
  rw [Function.onFun, List.disjoint_left]
  intro b hb hb'
  have h₁ := blocksOf_within hb
  have h₂ := blocksOf_within hb'
  have hpos := (sizeClasses_bounds i).1
  unfold Region.Apart at hbases
  unfold Region.Within at h₁ h₂
  dsimp only at *
  omega

end Apart

end SlabAllocator

open SlabAllocator

/-! ## The heap and its invariant -/

/-- The allocator, the memory it shares with its callers, and the live allocations, each with the
size it was requested with. -/
structure SlabHeap where
  memory : Memory
  allocator : SlabAllocator
  live : List Region

namespace SlabHeap

/-- The live allocations that came from `::operator new` directly. -/
def large (live : List Region) : List Region := live.filter fun r ↦ r.size > largestClass

/-- The live allocations that came from a slab. -/
def small (live : List Region) : List Region := live.filter fun r ↦ ¬r.size > largestClass

/-- The blocks of a class that are handed out. -/
def liveIn (i : Fin 8) (live : List Region) : List Pointer :=
  (live.filter fun r ↦ classOf r.size = some i).map Region.base

/-- The regions got from `::operator new` and not given back. -/
def owned (s : SlabHeap) : List Region := s.allocator.slabRegions ++ large s.live

/-- The bytes set aside for a live allocation. -/
def block (r : Region) : Region := ⟨r.base, blockSize r.size⟩

/-- The invariant, with the free list of each class. -/
structure Inv (s : SlabHeap) (free : Fin 8 → List Pointer) : Prop where
  objectSize : ∀ i, (s.allocator.classes i).objectSize = sizeClasses i
  /-- Following the links from the head of a class meets its free blocks. -/
  chain : ∀ i, Chain s.memory (s.allocator.classes i).freeHead (free i)
  /-- Every block is free or handed out, and not both. -/
  partition : ∀ i, (free i ++ liveIn i s.live).Perm (s.allocator.blocks i)
  /-- What came from `::operator new` does not overlap. -/
  apart : s.owned.Pairwise Region.Apart
  bounds : ∀ r ∈ s.owned, 0 < r.base ∧ r.base + r.size ≤ Checked.wordSize
  size_ne_zero : ∀ r ∈ s.live, r.size ≠ 0

/-! ## Reading the invariant

What a caller wants to know: where the live allocations are, that they keep apart from the free
blocks and from one another, and that no address is null. -/

private theorem mem_liveIn {live : List Region} {r : Region} {i : Fin 8} (hr : r ∈ live)
    (hi : classOf r.size = some i) : r.base ∈ liveIn i live :=
  List.mem_map_of_mem (List.mem_filter.mpr ⟨hr, decide_eq_true hi⟩)

theorem mem_large {live : List Region} {r : Region} (hr : r ∈ live)
    (hlarge : r.size > largestClass) : r ∈ large live :=
  List.mem_filter.mpr ⟨hr, decide_eq_true hlarge⟩

namespace Inv

variable {s : SlabHeap} {free : Fin 8 → List Pointer} (h : s.Inv free)
include h

theorem slabs_pairwise : s.allocator.slabRegions.Pairwise Region.Apart :=
  (List.pairwise_append.mp h.apart).1

theorem free_mem_blocks {i : Fin 8} {p : Pointer} (hp : p ∈ free i) : p ∈ s.allocator.blocks i :=
  (h.partition i).subset (List.mem_append_left _ hp)

theorem live_mem_blocks {i : Fin 8} {r : Region} (hr : r ∈ s.live)
    (hi : classOf r.size = some i) : r.base ∈ s.allocator.blocks i :=
  (h.partition i).subset (List.mem_append_right _ (mem_liveIn hr hi))

theorem append_nodup (i : Fin 8) : (free i ++ liveIn i s.live).Nodup :=
  (h.partition i).nodup_iff.mpr (blocks_nodup h.slabs_pairwise i)

theorem free_nodup (i : Fin 8) : (free i).Nodup := (h.append_nodup i).of_append_left

theorem class_or_large {r : Region} (hr : r ∈ s.live) :
    (∃ i, classOf r.size = some i) ∨ r.size > largestClass := by
  by_cases hlarge : r.size > largestClass
  · exact Or.inr hlarge
  · exact Or.inl (exists_classOf (h.size_ne_zero r hr) (Nat.not_lt.mp hlarge))

/-- A block lies in a slab, which is apart from every large allocation. -/
theorem block_apart_large {i : Fin 8} {p : Pointer} (hp : p ∈ s.allocator.blocks i) {r : Region}
    (hr : r ∈ s.live) (hlarge : r.size > largestClass) :
    Region.Apart ⟨p, sizeClasses i⟩ (block r) := by
  obtain ⟨base, hbase, hmem⟩ := exists_slab_of_mem_blocks hp
  have hapart := (List.pairwise_append.mp h.apart).2.2 _ (mem_slabRegions hbase) r
    (mem_large hr hlarge)
  refine hapart.within (blocksOf_within hmem) ?_
  rw [block, blockSize_of_large hlarge]
  exact ⟨le_refl _, le_refl _⟩

theorem free_apart_live {i : Fin 8} {p : Pointer} (hp : p ∈ free i) {r : Region}
    (hr : r ∈ s.live) : Region.Apart ⟨p, sizeClasses i⟩ (block r) := by
  have hblock := h.free_mem_blocks hp
  rcases h.class_or_large hr with ⟨j, hj⟩ | hlarge
  · rw [block, blockSize_eq hj]
    refine blocks_apart h.slabs_pairwise hblock (h.live_mem_blocks hr hj) ?_
    by_cases hij : i = j
    · subst hij
      refine Or.inr fun heq ↦ ?_
      exact (List.nodup_append.mp (h.append_nodup i)).2.2 p hp _ (mem_liveIn hr hj) heq
    · exact Or.inl hij
  · exact h.block_apart_large hblock hr hlarge

/-- Different live allocations are apart. -/
theorem live_apart {r r' : Region} (hr : r ∈ s.live) (hr' : r' ∈ s.live) (hne : r ≠ r') :
    (block r).Apart (block r') := by
  rcases h.class_or_large hr with ⟨i, hi⟩ | hlarge
  · have hblock := h.live_mem_blocks hr hi
    rcases h.class_or_large hr' with ⟨j, hj⟩ | hlarge'
    · rw [block, block, blockSize_eq hi, blockSize_eq hj]
      refine blocks_apart h.slabs_pairwise hblock (h.live_mem_blocks hr' hj) ?_
      by_cases hij : i = j
      · subst hij
        refine Or.inr fun heq ↦ hne ?_
        -- within a class, the address identifies the allocation
        exact List.inj_on_of_nodup_map (h.append_nodup i).of_append_right
          (List.mem_filter.mpr ⟨hr, decide_eq_true hi⟩)
          (List.mem_filter.mpr ⟨hr', decide_eq_true hj⟩) heq
      · exact Or.inl hij
    · rw [block, blockSize_eq hi]
      exact h.block_apart_large hblock hr' hlarge'
  · rcases h.class_or_large hr' with ⟨j, hj⟩ | hlarge'
    · refine Region.Apart.symm ?_
      rw [show block r' = ⟨r'.base, sizeClasses j⟩ by rw [block, blockSize_eq hj]]
      exact h.block_apart_large (h.live_mem_blocks hr' hj) hr hlarge
    · rw [block, block, blockSize_of_large hlarge, blockSize_of_large hlarge']
      exact (List.pairwise_append.mp h.apart).2.1.forall (mem_large hr hlarge)
        (mem_large hr' hlarge') hne

theorem live_nodup : s.live.Nodup := by
  rw [List.nodup_iff_count_le_one]
  intro r
  by_cases hr : r ∈ s.live
  · rcases h.class_or_large hr with ⟨i, hi⟩ | hlarge
    · have hnd := List.Nodup.of_map _ (h.append_nodup i).of_append_right
      rw [← List.count_filter (p := fun r ↦ decide (classOf r.size = some i)) (by simpa using hi)]
      exact List.nodup_iff_count_le_one.mp hnd r
    · have hpair := (List.pairwise_append.mp h.apart).2.1
      have hnd : (large s.live).Nodup := hpair.imp_of_mem fun {r r'} hmem _ hapart heq ↦ by
        have hsize := (List.mem_filter.mp hmem).2
        rw [decide_eq_true_iff] at hsize
        subst heq
        unfold Region.Apart at hapart
        omega
      rw [← List.count_filter (p := fun r ↦ decide (r.size > largestClass)) (by simpa using hlarge)]
      exact List.nodup_iff_count_le_one.mp hnd r
  · rw [List.count_eq_zero_of_not_mem hr]
    exact Nat.zero_le 1

/-- Every block is a proper address. -/
private theorem block_bounds {i : Fin 8} {p : ℕ} (hp : p ∈ s.allocator.blocks i) :
    p ≠ 0 ∧ p < Checked.wordSize := by
  obtain ⟨base, hbase, hmem⟩ := exists_slab_of_mem_blocks hp
  have hbounds := h.bounds _ (List.mem_append_left _ (mem_slabRegions hbase))
  have hwithin := blocksOf_within hmem
  have hpos := (sizeClasses_bounds i).1
  unfold Region.Within at hwithin
  dsimp only at *
  omega

theorem freeHead_lt (i : Fin 8) : (s.allocator.classes i).freeHead < Checked.wordSize := by
  rw [(h.chain i).head_eq]
  cases hfree : free i with
  | nil => decide
  | cons p ps => exact (h.block_bounds (h.free_mem_blocks (hfree ▸ List.mem_cons_self))).2

theorem live_base_ne_zero {r : Region} (hr : r ∈ s.live) : r.base ≠ 0 := by
  rcases h.class_or_large hr with ⟨i, hi⟩ | hlarge
  · exact (h.block_bounds (h.live_mem_blocks hr hi)).1
  · exact (h.bounds r (List.mem_append_right _ (mem_large hr hlarge))).1.ne'

end Inv

end SlabHeap

end HighCache
