import HighCache.Lib.Families
import HighCache.Memory.SlabHeap

/-!
# Requests keep the heap sound

Every request is composed of moves on the invariant: `grow` adds a slab to a class that has run
out, `take` hands out the first free block of a class, `give` takes a block back; a large
allocation adds or removes a region; a caller's write changes bytes that no chain reads. Each move
is shown once, with the bytes it can change.

The counters follow the same moves. `Metered` states each of them as a sum over the live
allocations, the free lists or the slabs, and `Metered.balance` is the identity that ties them
together: the bytes owned are the bytes used, free and wasted.
-/

namespace HighCache

open Function SlabAllocator Families

/-! ## Changing one class

The moves replace one class of the eight. The other classes have the blocks and the slabs they had,
and moving the head of a free list changes neither. -/

/-- A class with another head of its free list. -/
def SlabClass.withHead (p : ℕ) (k : SlabClass) : SlabClass := { k with freeHead := p }

private theorem SlabClass.withHead_objectSize (p : ℕ) (k : SlabClass) :
    (k.withHead p).objectSize = k.objectSize := rfl

theorem SlabClass.withHead_slabs (p : ℕ) (k : SlabClass) : (k.withHead p).slabs = k.slabs := rfl

private theorem SlabClass.withHead_freeHead (p : ℕ) (k : SlabClass) :
    (k.withHead p).freeHead = p := rfl

namespace SlabAllocator

variable {a : SlabAllocator} {i : Fin 8} {k : SlabClass} {metrics : ValueAllocatorMetrics}

theorem slabs_withHead (p : ℕ) (j : Fin 8) :
    (update a.classes i ((a.classes i).withHead p) j).slabs = (a.classes j).slabs := by
  by_cases hj : j = i
  · subst hj
    rw [update_self, SlabClass.withHead_slabs]
  · rw [update_of_ne hj]

theorem slabRegions_withHead (p : ℕ) :
    (SlabAllocator.mk (update a.classes i ((a.classes i).withHead p)) metrics).slabRegions
      = a.slabRegions := by
  unfold slabRegions
  congr 1
  funext j
  rw [slabs_withHead]

private theorem blocks_withHead (p : ℕ) (j : Fin 8) :
    (SlabAllocator.mk (update a.classes i ((a.classes i).withHead p)) metrics).blocks j
      = a.blocks j := by
  unfold blocks
  rw [slabs_withHead]

private theorem slabRegions_grow {data : ℕ} (h : k.slabs = (a.classes i).slabs ++ [data]) :
    (SlabAllocator.mk (update a.classes i k) metrics).slabRegions.Perm
      (⟨data, slabSize⟩ :: a.slabRegions) := by
  refine flatMap_perm_cons (i := i) (fun j hj ↦ ?_) ?_
  · simp only [update_of_ne hj]
  · simp only [update_self, h, List.map_append, List.map_cons, List.map_nil]

private theorem blocks_grow {data : ℕ} (h : k.slabs = (a.classes i).slabs ++ [data]) :
    (SlabAllocator.mk (update a.classes i k) metrics).blocks i = a.blocks i ++ blocksOf i data := by
  unfold blocks
  simp only [update_self, h, List.flatMap_append, List.flatMap_cons, List.flatMap_nil,
    List.append_nil]

private theorem blocks_grow_of_ne {j : Fin 8} (hj : j ≠ i) :
    (SlabAllocator.mk (update a.classes i k) metrics).blocks j = a.blocks j := by
  unfold blocks
  simp only [update_of_ne hj]

end SlabAllocator

/-! ## Threading a slab

By induction on the blocks that are still to be linked. The chain grows at its front, and what has
been linked before is not written to again. -/

/-- Threading links the blocks of a slab in front of a chain, and writes nowhere else. -/
theorem SlabClass.threadBlocks_spec (data : ℕ) : ∀ (indices : List ℕ) (s : Memory × SlabClass)
    (ps : List ℕ), Chain s.1 s.2.freeHead ps → s.2.freeHead < Checked.wordSize →
    8 ≤ s.2.objectSize → indices.Nodup → data ≠ 0 →
    (∀ index ∈ indices, data + index * s.2.objectSize < Checked.wordSize) →
    (∀ index ∈ indices, ∀ p ∈ ps,
      Region.Apart ⟨data + index * s.2.objectSize, s.2.objectSize⟩ ⟨p, s.2.objectSize⟩) →
    Chain (threadBlocks data indices s).1 (threadBlocks data indices s).2.freeHead
        ((indices.map fun index : ℕ ↦ data + index * s.2.objectSize).reverse ++ ps)
      ∧ (threadBlocks data indices s).2.objectSize = s.2.objectSize
      ∧ (threadBlocks data indices s).2.slabs = s.2.slabs
      ∧ ∀ addr : ℕ, (∀ index ∈ indices, addr < data + index * s.2.objectSize
          ∨ data + index * s.2.objectSize + s.2.objectSize ≤ addr) →
        (threadBlocks data indices s).1 addr = s.1 addr := by
  intro indices
  induction indices with
  | nil =>
    intro s ps hchain _ _ _ _ _ _
    exact ⟨hchain, rfl, rfl, fun _ _ ↦ rfl⟩
  | cons index indices ih =>
    intro s ps hchain hhead hsize hnd hdata hbound hapart
    rw [List.nodup_cons] at hnd
    have hpush : Chain (deallocate (data + index * s.2.objectSize) s).1
        (data + index * s.2.objectSize) ((data + index * s.2.objectSize) :: ps) := by
      refine hchain.push hhead (by omega) fun p hp ↦ ?_
      refine (hapart index List.mem_cons_self p hp).within ?_ ?_ <;>
        exact ⟨le_refl _, Nat.add_le_add_left hsize _⟩
    -- blocks of different index do not overlap
    have hothers : ∀ index' ∈ indices, ∀ p ∈ (data + index * s.2.objectSize) :: ps,
        Region.Apart ⟨data + index' * s.2.objectSize, s.2.objectSize⟩ ⟨p, s.2.objectSize⟩ := by
      intro index' hindex' p hp
      rcases List.mem_cons.mp hp with rfl | hp
      · have hne : index' ≠ index := fun heq ↦ hnd.1 (heq ▸ hindex')
        unfold Region.Apart
        dsimp only
        rcases Nat.lt_or_gt_of_ne hne with hlt | hlt
        · have := Nat.mul_le_mul_right s.2.objectSize hlt
          rw [Nat.succ_mul] at this
          omega
        · have := Nat.mul_le_mul_right s.2.objectSize hlt
          rw [Nat.succ_mul] at this
          omega
      · exact hapart index' (List.mem_cons_of_mem _ hindex') p hp
    obtain ⟨hchain', hsize', hslabs', hframe⟩ := ih (deallocate (data + index * s.2.objectSize) s)
      _ hpush (hbound index List.mem_cons_self) hsize hnd.2 hdata
      (fun index' hindex' ↦ hbound index' (List.mem_cons_of_mem _ hindex')) hothers
    refine ⟨?_, hsize', hslabs', fun addr haddr ↦ ?_⟩
    · rw [List.map_cons, List.reverse_cons, List.append_assoc]
      exact hchain'
    · rw [threadBlocks, hframe addr fun index' hindex' ↦
        haddr index' (List.mem_cons_of_mem _ hindex')]
      refine s.1.storeWord_apply_of_outside ?_
      have := haddr index List.mem_cons_self
      unfold Memory.wordBytes
      omega

namespace SlabHeap

/-! ## The lists of live allocations

The live allocations are one list, read as the blocks of each class and the large ones. One more
allocation is one more element in one of these readings. -/

theorem liveIn_cons_self {i : Fin 8} {r : Region} {live : List Region}
    (h : classOf r.size = some i) : liveIn i (r :: live) = r.base :: liveIn i live := by
  rw [liveIn, List.filter_cons_of_pos (by simpa using h), List.map_cons, liveIn]

theorem liveIn_cons_of_ne {i : Fin 8} {r : Region} {live : List Region}
    (h : classOf r.size ≠ some i) : liveIn i (r :: live) = liveIn i live := by
  rw [liveIn, List.filter_cons_of_neg (by simpa using h), liveIn]

theorem large_cons_self {r : Region} {live : List Region} (h : r.size > largestClass) :
    large (r :: live) = r :: large live :=
  List.filter_cons_of_pos (by simpa using h)

theorem large_cons_of_small {r : Region} {live : List Region} (h : r.size ≤ largestClass) :
    large (r :: live) = large live :=
  List.filter_cons_of_neg (by simpa using h)

theorem small_cons_self {r : Region} {live : List Region} (h : r.size ≤ largestClass) :
    small (r :: live) = r :: small live :=
  List.filter_cons_of_pos (by simpa using h)

theorem small_cons_of_large {r : Region} {live : List Region} (h : r.size > largestClass) :
    small (r :: live) = small live :=
  List.filter_cons_of_neg (by simpa using h)

private theorem liveIn_perm {live live' : List Region} (h : live.Perm live') (i : Fin 8) :
    (liveIn i live).Perm (liveIn i live') :=
  (h.filter _).map _

theorem large_perm {live live' : List Region} (h : live.Perm live') :
    (large live).Perm (large live') :=
  h.filter _

theorem small_perm {live live' : List Region} (h : live.Perm live') :
    (small live).Perm (small live') :=
  h.filter _

/-! ## Moves

Each move takes the invariant of the state before to that of the state after. What the move may
assume is what the code has tested when it makes it: that the list is empty, that it has a first
block, that the block was live. -/

section Moves

variable {s : SlabHeap} {free : Fin 8 → List ℕ} (h : s.Inv free)
  (metrics : ValueAllocatorMetrics)
include h

/-- The blocks of a new slab are threaded onto the empty list of their class, in memory that was
not in use. -/
private theorem Inv.addSlab {i : Fin 8} {data : ℕ} (hfree : free i = []) (hdata : 0 < data)
    (hbound : data + slabSize ≤ Checked.wordSize) {m : Memory} {k : SlabClass}
    (hadd : SlabClass.addSlab data (s.memory, s.allocator.classes i) = (m, k)) :
    Chain m k.freeHead (blocksOf i data).reverse ∧ k.objectSize = sizeClasses i
      ∧ k.slabs = (s.allocator.classes i).slabs ++ [data]
      ∧ ∀ addr : ℕ, addr < data ∨ data + slabSize ≤ addr → m addr = s.memory addr := by
  have hsize := h.objectSize i
  have hbounds := sizeClasses_bounds i
  have hchain := h.chain i
  rw [hfree] at hchain
  have hwithin : ∀ index ∈ List.range (slabSize / sizeClasses i),
      data + index * sizeClasses i + sizeClasses i ≤ data + slabSize := fun index hindex ↦
    (blocksOf_within (List.mem_map.mpr ⟨index, hindex, rfl⟩)).2
  obtain ⟨hthread, hksize, hkslabs, hframe⟩ := SlabClass.threadBlocks_spec data
    (List.range (slabSize / sizeClasses i))
    (s.memory, { s.allocator.classes i with slabs := (s.allocator.classes i).slabs ++ [data] }) []
    hchain (h.freeHead_lt i) (by dsimp only; omega) List.nodup_range (by omega)
    (fun index hindex ↦ by
      have := hwithin index hindex
      dsimp only
      rw [hsize]
      omega)
    (fun _ _ p hp ↦ by cases hp)
  rw [SlabClass.addSlab] at hadd
  dsimp only at hadd hthread hksize hkslabs hframe
  rw [hsize] at hadd hthread hksize hkslabs hframe
  rw [hadd] at hthread hksize hkslabs hframe
  rw [List.append_nil, ← blocksOf] at hthread
  refine ⟨hthread, hksize, hkslabs, fun addr haddr ↦ hframe addr fun index hindex ↦ ?_⟩
  have := hwithin index hindex
  omega

theorem Inv.grow {i : Fin 8} {data : ℕ} (hfree : free i = []) (hdata : 0 < data)
    (hbound : data + slabSize ≤ Checked.wordSize)
    (hfresh : ∀ r ∈ s.owned, Region.Apart ⟨data, slabSize⟩ r) {m : Memory} {k : SlabClass}
    (hadd : SlabClass.addSlab data (s.memory, s.allocator.classes i) = (m, k)) :
    (SlabHeap.mk m ⟨update s.allocator.classes i k, metrics⟩ s.live).Inv
        (update free i (blocksOf i data).reverse)
      ∧ k.slabs = (s.allocator.classes i).slabs ++ [data]
      ∧ ∀ addr : ℕ, addr < data ∨ data + slabSize ≤ addr → m addr = s.memory addr := by
  obtain ⟨hthread, hksize, hkslabs, hframe⟩ := h.addSlab hfree hdata hbound hadd
  refine ⟨⟨?_, ?_, ?_, ?_, ?_, h.size_ne_zero⟩, hkslabs, hframe⟩
  · intro j
    by_cases hj : j = i
    · subst hj
      simp only [update_self]
      exact hksize
    · simp only [update_of_ne hj]
      exact h.objectSize j
  · intro j
    by_cases hj : j = i
    · subst hj
      simp only [update_self]
      exact hthread
    · simp only [update_of_ne hj]
      -- the free blocks of other classes lie in slabs apart from the new one
      refine (h.chain j).congr fun q hq index hindex ↦ hframe _ ?_
      obtain ⟨base, hbase, hmem⟩ := exists_slab_of_mem_blocks (h.free_mem_blocks hq)
      have hapart := hfresh _ (List.mem_append_left _ (mem_slabRegions hbase))
      have hin := blocksOf_within hmem
      have hj := (sizeClasses_bounds j).1
      unfold Region.Apart at hapart
      unfold Region.Within at hin
      unfold Memory.wordBytes at hindex
      dsimp only at *
      omega
  · intro j
    by_cases hj : j = i
    · subst hj
      have hpart := h.partition j
      rw [hfree, List.nil_append] at hpart
      rw [update_self, blocks_grow hkslabs]
      exact ((List.reverse_perm _).append hpart).trans List.perm_append_comm
    · rw [update_of_ne hj, blocks_grow_of_ne hj]
      exact h.partition j
  · refine Region.pairwise_apart_of_perm ((slabRegions_grow hkslabs).append_right _).symm ?_
    rw [List.cons_append, List.pairwise_cons]
    exact ⟨hfresh, h.apart⟩
  · intro r hr
    have hmem := ((slabRegions_grow hkslabs).append_right _).subset hr
    rw [List.cons_append] at hmem
    rcases List.mem_cons.mp hmem with rfl | hmem
    · exact ⟨hdata, hbound⟩
    · exact h.bounds r hmem

theorem Inv.take {i : Fin 8} {p size : ℕ} {rest : List ℕ} (hfree : free i = p :: rest)
    (hsize : classOf size = some i) :
    (SlabHeap.mk s.memory ⟨update s.allocator.classes i
        ((s.allocator.classes i).withHead (s.memory.loadWord p)), metrics⟩
      (⟨p, size⟩ :: s.live)).Inv (update free i rest) := by
  obtain ⟨hne, hle, -⟩ := classOf_bounds hsize
  refine ⟨?_, ?_, ?_, ?_, ?_, ?_⟩
  · intro j
    by_cases hj : j = i
    · subst hj
      simp only [update_self, SlabClass.withHead_objectSize]
      exact h.objectSize j
    · simp only [update_of_ne hj]
      exact h.objectSize j
  · intro j
    by_cases hj : j = i
    · subst hj
      have hchain := h.chain j
      rw [hfree] at hchain
      simp only [update_self, SlabClass.withHead_freeHead]
      exact hchain.tail.2.2
    · simp only [update_of_ne hj]
      exact h.chain j
  · intro j
    rw [blocks_withHead]
    by_cases hj : j = i
    · subst hj
      have hpart := h.partition j
      rw [hfree, List.cons_append] at hpart
      rw [update_self, liveIn_cons_self hsize]
      exact List.perm_middle.trans hpart
    · rw [update_of_ne hj, liveIn_cons_of_ne fun hc ↦ hj (Option.some.inj (hc.symm.trans hsize))]
      exact h.partition j
  · rw [owned, slabRegions_withHead, large_cons_of_small hle]
    exact h.apart
  · rw [owned, slabRegions_withHead, large_cons_of_small hle]
    exact h.bounds
  · exact List.forall_mem_cons.mpr ⟨hne, h.size_ne_zero⟩

/-- The word at the base of a live block is apart from every free block of every class. -/
private theorem Inv.word_apart_free {r : Region} (hr : r ∈ s.live)
    (hword : Memory.wordBytes ≤ blockSize r.size) {j : Fin 8} {q : ℕ} (hq : q ∈ free j) :
    Region.Apart ⟨r.base, Memory.wordBytes⟩ ⟨q, Memory.wordBytes⟩ := by
  refine (h.free_apart_live hq hr).symm.within ?_ ?_
  · exact ⟨le_refl _, Nat.add_le_add_left hword _⟩
  · have hword' : Memory.wordBytes ≤ sizeClasses j :=
      le_trans (by decide) (sizeClasses_bounds j).1
    exact ⟨le_refl _, Nat.add_le_add_left hword' _⟩

theorem Inv.give {i : Fin 8} {r : Region} {live : List Region} (hlive : s.live.Perm (r :: live))
    (hsize : classOf r.size = some i) :
    (SlabHeap.mk (s.memory.storeWord r.base (s.allocator.classes i).freeHead)
      ⟨update s.allocator.classes i ((s.allocator.classes i).withHead r.base), metrics⟩
      live).Inv (update free i (r.base :: free i)) := by
  have hr : r ∈ s.live := hlive.symm.subset List.mem_cons_self
  have hword : Memory.wordBytes ≤ blockSize r.size := by
    rw [blockSize_eq hsize]
    exact le_trans (by decide) (sizeClasses_bounds i).1
  have hle := (classOf_bounds hsize).2.1
  have hlarge : (large live).Perm (large s.live) := by
    rw [← large_cons_of_small hle]
    exact large_perm hlive.symm
  refine ⟨?_, ?_, ?_, ?_, ?_, ?_⟩
  · intro j
    by_cases hj : j = i
    · subst hj
      simp only [update_self, SlabClass.withHead_objectSize]
      exact h.objectSize j
    · simp only [update_of_ne hj]
      exact h.objectSize j
  · intro j
    by_cases hj : j = i
    · subst hj
      simp only [update_self, SlabClass.withHead_freeHead]
      exact (h.chain j).push (h.freeHead_lt j) (h.live_base_ne_zero hr) fun q hq ↦
        h.word_apart_free hr hword hq
    · simp only [update_of_ne hj]
      -- the link is written into the block, which is apart from the free blocks of other classes
      refine (h.chain j).congr fun q hq index hindex ↦ s.memory.storeWord_apply_of_outside ?_
      have := h.word_apart_free hr hword hq
      unfold Region.Apart at this
      dsimp only at this
      omega
  · intro j
    rw [blocks_withHead]
    have hpart := ((liveIn_perm hlive j).symm.append_left (free j)).trans (h.partition j)
    by_cases hj : j = i
    · subst hj
      rw [liveIn_cons_self hsize] at hpart
      rw [update_self, List.cons_append]
      exact List.perm_middle.symm.trans hpart
    · rw [liveIn_cons_of_ne fun hc ↦ hj (Option.some.inj (hc.symm.trans hsize))] at hpart
      rw [update_of_ne hj]
      exact hpart
  · rw [owned, slabRegions_withHead]
    exact Region.pairwise_apart_of_perm (hlarge.symm.append_left _) h.apart
  · rw [owned, slabRegions_withHead]
    exact fun x hx ↦ h.bounds x ((hlarge.append_left _).subset hx)
  · exact fun x hx ↦ h.size_ne_zero x (hlive.symm.subset (List.mem_cons_of_mem _ hx))

theorem Inv.addLarge {p size : ℕ} (hlarge : size > largestClass) (hp : 0 < p)
    (hbound : p + size ≤ Checked.wordSize)
    (hfresh : ∀ r ∈ s.owned, Region.Apart ⟨p, size⟩ r) :
    (SlabHeap.mk s.memory ⟨s.allocator.classes, metrics⟩ (⟨p, size⟩ :: s.live)).Inv free := by
  have howned : (⟨p, size⟩ :: s.owned).Perm (SlabHeap.mk s.memory
      ⟨s.allocator.classes, metrics⟩ (⟨p, size⟩ :: s.live)).owned := by
    rw [owned, owned, large_cons_self hlarge]
    exact List.perm_middle.symm
  refine ⟨h.objectSize, h.chain, fun i ↦ ?_, ?_, ?_, ?_⟩
  · rw [liveIn_cons_of_ne (by rw [classOf_eq_none hlarge]; simp)]
    exact h.partition i
  · exact Region.pairwise_apart_of_perm howned (List.pairwise_cons.mpr ⟨hfresh, h.apart⟩)
  · intro r hr
    rcases List.mem_cons.mp (howned.symm.subset hr) with rfl | hr
    · exact ⟨hp, hbound⟩
    · exact h.bounds r hr
  · exact List.forall_mem_cons.mpr ⟨by dsimp only; omega, h.size_ne_zero⟩

theorem Inv.subLarge {r : Region} {live : List Region} (hlive : s.live.Perm (r :: live))
    (hlarge : r.size > largestClass) :
    (SlabHeap.mk s.memory ⟨s.allocator.classes, metrics⟩ live).Inv free := by
  have hsub : (s.allocator.slabRegions ++ large live).Sublist
      (s.allocator.slabRegions ++ large (r :: live)) := by
    rw [large_cons_self hlarge]
    exact (List.Sublist.refl _).append (List.sublist_cons_self _ _)
  have hperm := (large_perm hlive).append_left s.allocator.slabRegions
  refine ⟨h.objectSize, h.chain, fun i ↦ ?_, ?_, ?_, ?_⟩
  · have hpart := ((liveIn_perm hlive i).symm.append_left (free i)).trans (h.partition i)
    rw [liveIn_cons_of_ne (by rw [classOf_eq_none hlarge]; simp)] at hpart
    exact hpart
  · exact (Region.pairwise_apart_of_perm hperm h.apart).sublist hsub
  · exact fun x hx ↦ h.bounds x (hperm.symm.subset (hsub.subset hx))
  · exact fun x hx ↦ h.size_ne_zero x (hlive.symm.subset (List.mem_cons_of_mem _ hx))

theorem Inv.write {r : Region} (hr : r ∈ s.live) {offset : ℕ} {bytes : List UInt8}
    (hin : offset + bytes.length ≤ blockSize r.size) :
    (SlabHeap.mk (s.memory.write (r.base + offset) bytes) s.allocator s.live).Inv free := by
  refine ⟨h.objectSize, fun i ↦ ?_, h.partition, h.apart, h.bounds, h.size_ne_zero⟩
  refine (h.chain i).congr fun q hq index hindex ↦ s.memory.write_apply_of_outside ?_
  have hapart := h.free_apart_live hq hr
  have hpos := (sizeClasses_bounds i).1
  unfold Region.Apart block at hapart
  unfold Memory.wordBytes at hindex
  dsimp only at hapart
  omega

end Moves

/-! ## Counters

The counters are stated against the lists and never against one another. `Metered.balance` then
follows from the permutation of the invariant, summed up. -/

/-- What each counter counts. -/
structure Metered (s : SlabHeap) (free : Fin 8 → List ℕ) : Prop where
  used : s.allocator.metrics.usedBytes = (s.live.map Region.size).sum
  fragmentation : s.allocator.metrics.internalFragmentation
    = ((small s.live).map fun r ↦ blockSize r.size - r.size).sum
  freeBytes : s.allocator.metrics.freeBytes = ∑ i, (free i).length * sizeClasses i
  slabCount : s.allocator.metrics.slabCount = ∑ i, (s.allocator.classes i).slabs.length
  allocated : s.allocator.metrics.allocatedBytes
    = s.allocator.metrics.slabCount * slabSize + ((large s.live).map Region.size).sum
  count : s.allocator.metrics.allocationCount - s.allocator.metrics.deallocationCount
    = UInt64.ofNat s.live.length

theorem length_blocks (a : SlabAllocator) (i : Fin 8) :
    (a.blocks i).length * sizeClasses i = (a.classes i).slabs.length * slabSize := by
  unfold blocks
  induction (a.classes i).slabs with
  | nil => simp
  | cons base bases ih =>
    rw [List.flatMap_cons, List.length_append, Nat.add_mul, ih, length_blocksOf, List.length_cons,
      Nat.succ_mul, Nat.add_comm]

private theorem sum_blockSize {live : List Region} (hpos : ∀ r ∈ live, r.size ≠ 0) :
    ((small live).map fun r ↦ blockSize r.size).sum
      = ∑ i, (liveIn i live).length * sizeClasses i := by
  induction live with
  | nil => simp [small, liveIn]
  | cons r live ih =>
    obtain ⟨hr, hrest⟩ := List.forall_mem_cons.mp hpos
    by_cases hlarge : r.size > largestClass
    · rw [small_cons_of_large hlarge, ih hrest]
      refine Finset.sum_congr rfl fun i _ ↦ ?_
      rw [liveIn_cons_of_ne (by rw [classOf_eq_none hlarge]; simp)]
    · obtain ⟨i, hi⟩ := exists_classOf hr (Nat.not_lt.mp hlarge)
      have hsum := sum_update (f := fun j ↦ (liveIn j live).length * sizeClasses j)
        (g := fun j ↦ (liveIn j (r :: live)).length * sizeClasses j) (i := i) fun j hj ↦ by
          rw [liveIn_cons_of_ne fun hc ↦ hj (Option.some.inj (hc.symm.trans hi))]
      rw [liveIn_cons_self hi, List.length_cons, Nat.succ_mul] at hsum
      rw [small_cons_self (Nat.not_lt.mp hlarge), List.map_cons, List.sum_cons, ih hrest,
        blockSize_eq hi]
      omega

/-- Requested bytes and wasted bytes make up the blocks. -/
private theorem sum_small (live : List Region) :
    (live.map Region.size).sum + ((small live).map fun r ↦ blockSize r.size - r.size).sum
      = ((small live).map fun r ↦ blockSize r.size).sum + ((large live).map Region.size).sum := by
  induction live with
  | nil => rfl
  | cons r live ih =>
    by_cases hlarge : r.size > largestClass
    · rw [small_cons_of_large hlarge, large_cons_self hlarge]
      simp only [List.map_cons, List.sum_cons]
      omega
    · have hle := Nat.not_lt.mp hlarge
      have hfits : r.size ≤ blockSize r.size := by
        by_cases hzero : r.size = 0
        · rw [hzero]
          exact Nat.zero_le _
        · obtain ⟨i, hi⟩ := exists_classOf hzero hle
          rw [blockSize_eq hi]
          exact (classOf_bounds hi).2.2
      rw [small_cons_self hle, large_cons_of_small hle]
      simp only [List.map_cons, List.sum_cons]
      omega

private theorem sum_owned (s : SlabHeap) :
    (s.owned.map Region.size).sum
      = (∑ i, (s.allocator.classes i).slabs.length) * slabSize
        + ((large s.live).map Region.size).sum := by
  have hslabs : (s.allocator.slabRegions.map Region.size).sum
      = (∑ i, (s.allocator.classes i).slabs.length) * slabSize := by
    rw [slabRegions, List.map_flatMap, List.flatMap_def, List.sum_flatten, List.map_map,
      ← Fin.sum_univ_def, Finset.sum_mul]
    refine Finset.sum_congr rfl fun i _ ↦ ?_
    rw [Function.comp_apply, List.map_map]
    simp [Function.comp_def]
  rw [owned, List.map_append, List.sum_append, hslabs]

section Counters

variable {s : SlabHeap} {free : Fin 8 → List ℕ} (h : s.Inv free)
include h

theorem Inv.sum_lt : (∑ i, (s.allocator.classes i).slabs.length) * slabSize
    + ((large s.live).map Region.size).sum < Checked.wordSize := by
  rw [← sum_owned]
  exact Region.sum_size_lt (by decide) h.apart h.bounds

/-- **The books balance**: the bytes owned are used, free or wasted. -/
theorem Metered.balance (hm : s.Metered free) :
    s.allocator.metrics.allocatedBytes
      = s.allocator.metrics.usedBytes + s.allocator.metrics.freeBytes
        + s.allocator.metrics.internalFragmentation := by
  have hclasses : ∑ i, (free i).length * sizeClasses i
      + ∑ i, (liveIn i s.live).length * sizeClasses i
      = (∑ i, (s.allocator.classes i).slabs.length) * slabSize := by
    rw [← Finset.sum_add_distrib, Finset.sum_mul]
    refine Finset.sum_congr rfl fun i _ ↦ ?_
    rw [← Nat.add_mul, ← List.length_append, (h.partition i).length_eq, length_blocks]
  have hblocks := sum_blockSize h.size_ne_zero
  have hsmall := sum_small s.live
  rw [hm.allocated, hm.slabCount, hm.used, hm.freeBytes, hm.fragmentation]
  omega

theorem Metered.allocated_lt (hm : s.Metered free) :
    s.allocator.metrics.allocatedBytes < Checked.wordSize := by
  rw [hm.allocated, hm.slabCount]
  exact h.sum_lt

end Counters

end SlabHeap

end HighCache
