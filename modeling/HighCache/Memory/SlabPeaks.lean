import HighCache.Memory.SlabRuns
import Mathlib.Algebra.Order.Floor.Div

/-!
# How many slabs a class has

A slab is never given back, so the number of slabs of a class says something about the past: it is
the number needed for the largest number of allocations of the class that were live at one time. A
class takes a new slab only where all its blocks are handed out, and a block that came back is
handed out before that.

## The condition to carry

That the number of slabs is the rounded quotient of the largest number of live allocations is not
kept by a step as it stands, because a step knows the state and not the past. What is carried is the
pair of inequalities that determines the quotient, against the largest number so far. Both are kept
where a slab is added only when all blocks are live: then the number of live allocations, and with
it the largest so far, is at least the number of blocks there are.
-/

namespace HighCache

open Function SlabAllocator

/-! ## What a call does to the slabs

First for one class, then for the allocator: which of the classes gets a slab, and when. -/

namespace SlabClass

theorem threadBlocks_slabs (data : Pointer) : ∀ (indices : List ℕ) (s : Memory × SlabClass),
    (threadBlocks data indices s).2.slabs = s.2.slabs := by
  intro indices
  induction indices with
  | nil => exact fun _ ↦ rfl
  | cons index indices ih => exact fun s ↦ (ih _).trans rfl

theorem addSlab_slabs (data : Pointer) (s : Memory × SlabClass) :
    (addSlab data s).2.slabs = s.2.slabs ++ [data] := by
  rw [addSlab, threadBlocks_slabs]

theorem allocate_slabs {fresh : Option Pointer} {s : Memory × SlabClass} {p : Pointer} {m : Memory}
    {k : SlabClass} (h : allocate fresh s = .ok (some (p, m, k))) :
    s.2.freeHead ≠ 0 ∧ p = s.2.freeHead ∧ k.slabs = s.2.slabs
      ∨ s.2.freeHead = 0 ∧ ∃ data, fresh = some data ∧ k.slabs = s.2.slabs ++ [data] := by
  unfold allocate at h
  by_cases hhead : s.2.freeHead = 0
  · rw [if_pos hhead] at h
    cases fresh with
    | none => cases h
    | some data =>
      refine Or.inr ⟨hhead, data, rfl, ?_⟩
      dsimp only [Option.map_some] at h
      split at h
      · cases h
      · cases h
        exact addSlab_slabs data s
  · rw [if_neg hhead] at h
    dsimp only at h
    rw [if_neg hhead] at h
    cases h
    exact Or.inl ⟨hhead, rfl, rfl⟩

/-- A class throws where its free list is empty and there is no memory for a slab. -/
private theorem allocate_none {fresh : Option Pointer} {s : Memory × SlabClass}
    (h : allocate fresh s = .ok none) : s.2.freeHead = 0 ∧ fresh = none := by
  unfold allocate at h
  by_cases hhead : s.2.freeHead = 0
  · rw [if_pos hhead] at h
    cases fresh with
    | none => exact ⟨hhead, rfl⟩
    | some data =>
      dsimp only [Option.map_some] at h
      split at h
      · cases h
      · cases h
  · rw [if_neg hhead] at h
    dsimp only at h
    rw [if_neg hhead] at h
    cases h

end SlabClass

namespace SlabAllocator

theorem allocate_of_class {size : ℕ} {i : Fin 8} (hclass : classOf size = some i)
    {fresh : Option Pointer} {m : Memory} {a : SlabAllocator}
    {r : Option (Pointer × Memory × SlabAllocator)} (h : a.allocate size fresh m = .ok r) :
    r = none ∧ SlabClass.allocate fresh (m, a.classes i) = .ok none
      ∨ ∃ p m' k metrics, r = some (p, m', ⟨update a.classes i k, metrics⟩)
        ∧ SlabClass.allocate fresh (m, a.classes i) = .ok (some (p, m', k)) := by
  obtain ⟨hne, hle, -⟩ := classOf_bounds hclass
  unfold allocate at h
  rw [if_neg hne, if_neg (Nat.not_lt.mpr hle), classIndex_eq hclass, Except.ok_bind_eq] at h
  obtain ⟨served, hserved, h⟩ := Except.bind_eq_ok_iff.mp h
  cases served with
  | none =>
    cases h
    exact Or.inl ⟨rfl, hserved⟩
  | some served =>
    obtain ⟨p, m', k⟩ := served
    dsimp only at h
    split at h
    · obtain ⟨grown, -, h⟩ := Except.bind_eq_ok_iff.mp h
      obtain ⟨metrics, -, h⟩ := Except.bind_eq_ok_iff.mp h
      cases h
      exact Or.inr ⟨p, m', k, metrics, rfl, hserved⟩
    · obtain ⟨same, -, h⟩ := Except.bind_eq_ok_iff.mp h
      obtain ⟨metrics, -, h⟩ := Except.bind_eq_ok_iff.mp h
      cases h
      exact Or.inr ⟨p, m', k, metrics, rfl, hserved⟩

theorem allocate_of_no_class {size : ℕ} (hclass : classOf size = none) {fresh : Option Pointer}
    {m m' : Memory} {a a' : SlabAllocator} {p : Pointer}
    (h : a.allocate size fresh m = .ok (some (p, m', a'))) : a'.classes = a.classes := by
  unfold allocate at h
  by_cases hzero : size = 0
  · rw [if_pos hzero] at h
    cases h
    rfl
  by_cases hlarge : size > largestClass
  · rw [if_neg hzero, if_pos hlarge] at h
    cases fresh with
    | none => cases h
    | some pointer =>
      obtain ⟨metrics, -, h⟩ := Except.bind_eq_ok_iff.mp h
      cases h
      rfl
  · obtain ⟨i, hi⟩ := exists_classOf hzero (Nat.not_lt.mp hlarge)
    rw [hi] at hclass
    cases hclass

theorem deallocate_slabs {pointer : Pointer} {size : ℕ} {m m' : Memory} {a a' : SlabAllocator}
    (h : a.deallocate pointer size m = .ok (m', a')) (i : Fin 8) :
    (a'.classes i).slabs = (a.classes i).slabs := by
  unfold deallocate at h
  by_cases hnull : pointer = 0
  · rw [if_pos hnull] at h
    obtain ⟨-, -, h⟩ := Except.bind_eq_ok_iff.mp h
    cases h
    rfl
  rw [if_neg hnull] at h
  obtain ⟨-, -, h⟩ := Except.bind_eq_ok_iff.mp h
  obtain ⟨-, -, h⟩ := Except.bind_eq_ok_iff.mp h
  by_cases hlarge : size > largestClass
  · rw [if_pos hlarge] at h
    obtain ⟨-, -, h⟩ := Except.bind_eq_ok_iff.mp h
    obtain ⟨metrics, -, h⟩ := Except.bind_eq_ok_iff.mp h
    cases h
    rfl
  · rw [if_neg hlarge] at h
    obtain ⟨index, -, h⟩ := Except.bind_eq_ok_iff.mp h
    obtain ⟨fragmentation, -, h⟩ := Except.bind_eq_ok_iff.mp h
    obtain ⟨-, -, h⟩ := Except.bind_eq_ok_iff.mp h
    obtain ⟨metrics, -, h⟩ := Except.bind_eq_ok_iff.mp h
    cases h
    exact slabs_withHead pointer i

end SlabAllocator

namespace SlabHeap

/-! ### The four kinds of request

Seen from one class, a request takes a block that came back, takes one from a new slab, fails
because there is no memory for a slab, or leaves the slabs of the class as they are. -/

/-- The slabs of a class. -/
def slabs (i : Fin 8) (s : SlabHeap) : List Pointer := (s.allocator.classes i).slabs

/-- The number of live allocations of a class. -/
def liveCount (i : Fin 8) (s : SlabHeap) : ℕ := (liveIn i s.live).length

/-- The number of blocks in a slab of a class. -/
def perSlab (i : Fin 8) : ℕ := slabSize / sizeClasses i

/-- Every block of a class is handed out. -/
def Exhausted (i : Fin 8) (s : SlabHeap) : Prop := (liveIn i s.live).Perm (s.allocator.blocks i)

/-- What a request means for a class. -/
inductive Supplies (i : Fin 8) (s : SlabHeap) : Request → Option Pointer → SlabHeap → Prop where
  /-- A block that was free is handed out. -/
  | reused {size : ℕ} {fresh : Option Pointer} {p : Pointer} {s' : SlabHeap}
      (hclass : classOf size = some i) (hblock : p ∈ s.allocator.blocks i)
      (hfree : p ∉ liveIn i s.live) (hslabs : s'.slabs i = s.slabs i)
      (hlive : liveIn i s'.live = p :: liveIn i s.live) :
      Supplies i s (.allocate size fresh) (some p) s'
  /-- No block was free, and a new slab has been added. -/
  | grown {size : ℕ} {data p : Pointer} {s' : SlabHeap} (hclass : classOf size = some i)
      (hfull : s.Exhausted i) (hslabs : s'.slabs i = s.slabs i ++ [data])
      (hlive : liveIn i s'.live = p :: liveIn i s.live) :
      Supplies i s (.allocate size (some data)) (some p) s'
  /-- No block was free, and there was no memory for a slab. -/
  | refused {size : ℕ} (hclass : classOf size = some i) (hfull : s.Exhausted i) :
      Supplies i s (.allocate size none) none s
  /-- The request is not an allocation from the class. -/
  | other {request : Request} {output : Option Pointer} {s' : SlabHeap}
      (hother : ∀ size fresh, request = .allocate size fresh → classOf size ≠ some i)
      (hslabs : s'.slabs i = s.slabs i) (hlive : s'.liveCount i ≤ s.liveCount i) :
      Supplies i s request output s'

private theorem Inv.free_eq_nil_iff {s : SlabHeap} {free : Fin 8 → List Pointer} (h : s.Inv free)
    (i : Fin 8) : free i = [] ↔ (s.allocator.classes i).freeHead = 0 := by
  rw [(h.chain i).head_eq]
  cases hfree : free i with
  | nil => exact iff_of_true rfl rfl
  | cons p rest =>
    have hchain := h.chain i
    rw [hfree] at hchain
    exact iff_of_false (by simp) hchain.tail.2.1

theorem Inv.exhausted {s : SlabHeap} {free : Fin 8 → List Pointer} (h : s.Inv free) {i : Fin 8}
    (hhead : (s.allocator.classes i).freeHead = 0) : s.Exhausted i := by
  have hpartition := h.partition i
  rw [(h.free_eq_nil_iff i).mpr hhead] at hpartition
  exact hpartition

theorem Inv.supplies_allocate {s s' : SlabHeap} {free : Fin 8 → List Pointer} (h : s.Inv free)
    {i : Fin 8} {size : ℕ} (hclass : classOf size = some i) {fresh output : Option Pointer}
    (hstep : s.step (.allocate size fresh) = .ok (output, s')) :
    Supplies i s (.allocate size fresh) output s' := by
  obtain ⟨hne, -, -⟩ := classOf_bounds hclass
  obtain ⟨r, hcode, hdone⟩ := Except.bind_eq_ok_iff.mp hstep
  rcases allocate_of_class hclass hcode with ⟨rfl, hserved⟩ | ⟨p, m, k, metrics, rfl, hserved⟩
  · obtain ⟨hhead, rfl⟩ := SlabClass.allocate_none hserved
    cases hdone
    exact .refused hclass (h.exhausted hhead)
  · dsimp only at hdone
    rw [if_neg hne] at hdone
    cases hdone
    have hlive : liveIn i (⟨p, size⟩ :: s.live) = p :: liveIn i s.live := liveIn_cons_self hclass
    rcases SlabClass.allocate_slabs hserved with ⟨hhead, rfl, hslabs⟩ |
      ⟨hhead, data, rfl, hslabs⟩
    · have hmem : (s.allocator.classes i).freeHead ∈ free i := by
        rw [(h.chain i).head_eq] at hhead ⊢
        cases hfree : free i with
        | nil =>
          rw [hfree] at hhead
          exact absurd rfl hhead
        | cons q rest => exact List.mem_cons_self
      have hdisjoint := (List.nodup_append.mp (h.append_nodup i)).2.2
      refine .reused hclass (h.free_mem_blocks hmem) (fun hmem' ↦ hdisjoint _ hmem _ hmem' rfl) ?_
        hlive
      show (update s.allocator.classes i k i).slabs = _
      rw [update_self]
      exact hslabs
    · refine .grown hclass (h.exhausted hhead) ?_ hlive
      show (update s.allocator.classes i k i).slabs = _
      rw [update_self]
      exact hslabs

/-- **Every request is one of the four.** -/
theorem Inv.supplies {s s' : SlabHeap} {free : Fin 8 → List Pointer} (h : s.Inv free) (i : Fin 8)
    {request : Request} {output : Option Pointer} (hstep : s.step request = .ok (output, s')) :
    Supplies i s request output s' := by
  cases request with
  | allocate size fresh =>
    by_cases hclass : classOf size = some i
    · exact h.supplies_allocate hclass hstep
    -- a request of another class, or of none: the slabs of this one stay
    have hother : ∀ size' fresh', Request.allocate size fresh = .allocate size' fresh' →
        classOf size' ≠ some i := by
      rintro _ _ ⟨⟩
      exact hclass
    obtain ⟨r, hcode, hstep⟩ := Except.bind_eq_ok_iff.mp hstep
    cases r with
    | none =>
      cases hstep
      exact .other hother rfl (le_refl _)
    | some r =>
      obtain ⟨p, m, a⟩ := r
      cases hstep
      refine .other hother ?_ ?_
      · show (a.classes i).slabs = (s.allocator.classes i).slabs
        cases hj : classOf size with
        | none => rw [allocate_of_no_class hj hcode]
        | some j =>
          have hij : i ≠ j := by
            rintro rfl
            exact hclass hj
          rcases allocate_of_class hj hcode with ⟨hnone, -⟩ | ⟨p', m', k, metrics, hsome, -⟩
          · cases hnone
          · cases hsome
            show (update s.allocator.classes j k i).slabs = _
            rw [update_of_ne hij]
      · show (liveIn i (if size = 0 then s.live else ⟨p, size⟩ :: s.live)).length ≤ _
        split
        · exact le_refl _
        · rw [liveIn_cons_of_ne hclass]
          exact le_refl _
  | deallocate pointer size =>
    obtain ⟨⟨m, a⟩, hcode, hstep⟩ := Except.bind_eq_ok_iff.mp hstep
    cases hstep
    refine .other (by rintro _ _ ⟨⟩) (deallocate_slabs hcode i) ?_
    show ((s.live.erase _).filter _ |>.map Region.base).length ≤ _
    rw [List.length_map, liveCount, liveIn, List.length_map]
    exact (List.erase_sublist.filter _).length_le
  | write r offset bytes =>
    cases hstep
    exact .other (by rintro _ _ ⟨⟩) rfl (le_refl _)

/-! ## The largest number of live allocations

The rule for peaks turns the step lemma into a statement about the largest value over all states
that the run has passed through. -/

theorem ceilDiv_eq_iff {q b n : ℕ} (hb : 0 < b) : q ⌈/⌉ b = n ↔ q ≤ n * b ∧ n * b < q + b := by
  rw [Nat.ceilDiv_eq_add_pred_div, Nat.div_eq_iff hb]
  omega

private theorem perSlab_pos (i : Fin 8) : 0 < perSlab i := by
  revert i
  decide

private theorem length_blocks_eq (s : SlabHeap) (i : Fin 8) :
    (s.allocator.blocks i).length = (s.slabs i).length * perSlab i := by
  have hpos : 0 < sizeClasses i := by
    have := (sizeClasses_bounds i).1
    omega
  have hlength := length_blocks s.allocator i
  rw [← (sizeClasses_bounds i).2.2, ← Nat.mul_assoc] at hlength
  exact Nat.eq_of_mul_eq_mul_right hpos hlength

/-- A free block leaves room for one more live allocation. -/
private theorem Inv.liveCount_lt {s : SlabHeap} {free : Fin 8 → List Pointer} (h : s.Inv free)
    {i : Fin 8} {p : Pointer} (hblock : p ∈ s.allocator.blocks i) (hfree : p ∉ liveIn i s.live) :
    s.liveCount i < (s.slabs i).length * perSlab i := by
  have hmem : p ∈ free i :=
    (List.mem_append.mp ((h.partition i).symm.subset hblock)).resolve_right hfree
  have hlength := (h.partition i).length_eq
  rw [List.length_append, length_blocks_eq] at hlength
  have hpos := List.length_pos_of_mem hmem
  unfold liveCount
  omega

/-- Enough slabs for the largest number of live allocations so far stay enough, and not more. -/
theorem Inv.peak_step {s s' : SlabHeap} {free : Fin 8 → List Pointer} (h : s.Inv free) {i : Fin 8}
    {request : Request} {output : Option Pointer} (hsupplies : Supplies i s request output s')
    {q : ℕ} (hle : s.liveCount i ≤ q) (hq : (s.slabs i).length = q ⌈/⌉ perSlab i) :
    (s'.slabs i).length = max q (s'.liveCount i) ⌈/⌉ perSlab i := by
  have hpos := perSlab_pos i
  obtain ⟨hroom, htight⟩ := (ceilDiv_eq_iff hpos).mp hq.symm
  cases hsupplies with
  | reused hclass hblock hfree hslabs hlive =>
    have hlt := h.liveCount_lt hblock hfree
    have hcount : s'.liveCount i = s.liveCount i + 1 := congrArg List.length hlive
    rw [hslabs]
    refine ((ceilDiv_eq_iff hpos).mpr ⟨?_, ?_⟩).symm <;> omega
  | grown hclass hfull hslabs hlive =>
    have hcount : s'.liveCount i = s.liveCount i + 1 := congrArg List.length hlive
    have hall : s.liveCount i = (s.slabs i).length * perSlab i :=
      hfull.length_eq.trans (length_blocks_eq s i)
    rw [hslabs, List.length_append, List.length_singleton]
    refine ((ceilDiv_eq_iff hpos).mpr ⟨?_, ?_⟩).symm <;> rw [Nat.succ_mul] <;> omega
  | refused hclass hfull => rw [max_eq_left hle, hq]
  | other hother hslabs hlive => rw [hslabs, max_eq_left (hlive.trans hle), hq]

theorem Sound.peak_step (i : Fin 8) (s : SlabHeap) (request : Request) (q : ℕ) (h : s.Sound)
    (hrequest : s.Admits request) (hle : s.liveCount i ≤ q)
    (hq : (s.slabs i).length = q ⌈/⌉ perSlab i) :
    ∃ output s', s.step request = .ok (output, s') ∧ s'.Sound
      ∧ (s'.slabs i).length = max q (s'.liveCount i) ⌈/⌉ perSlab i := by
  obtain ⟨output, s', hstep, hs', -⟩ := h.step hrequest
  obtain ⟨free, hinv, -⟩ := h
  exact ⟨output, s', hstep, hs', hinv.peak_step (hinv.supplies i hstep) hle hq⟩

private theorem permits_of_admitsAll :
    ∀ {requests : List Request} {s : SlabHeap}, s.AdmitsAll requests →
    Transition.Permits Admits SlabHeap.step s requests := by
  intro requests
  induction requests with
  | nil => exact fun _ ↦ trivial
  | cons request requests ih =>
    exact fun h ↦ ⟨h.1, fun output s' hstep ↦ ih (h.2 output s' hstep)⟩

/-- The numbers of live allocations of a class in the states that a run passes through. -/
def liveCounts (i : Fin 8) (memory : Memory) (requests : List Request) : Set ℕ :=
  {n | ∃ t, Transition.Visits step (start memory) requests t ∧ t.liveCount i = n}

/-- **A class has the slabs that its largest number of live allocations needed.** After any admitted
sequence of requests the number of slabs of each class is the quotient, rounded up, of the largest
number of its allocations that were live at one time and of the number of its blocks in a slab. A
further request adds a slab to the class only if it is an allocation from the class and all its
blocks are live; while one is not, an allocation gets such a block. -/
theorem run_slabs (memory : Memory) (requests : List Request)
    (hadmits : (start memory).AdmitsAll requests) :
    ∃ outputs s, Transition.run step (start memory) requests = .ok (outputs, s)
      ∧ ∀ i, (∃ peak, IsGreatest (liveCounts i memory requests) peak
          ∧ (s.slabs i).length = peak ⌈/⌉ perSlab i)
        ∧ ∀ request, s.Admits request →
          ∃ output s', s.step request = .ok (output, s') ∧ Supplies i s request output s' := by
  obtain ⟨outputs, s, hrun, hsound⟩ := Sound.run requests (sound_start memory) hadmits
  obtain ⟨free, hinv, -⟩ := id hsound
  refine ⟨outputs, s, hrun, fun i ↦ ⟨?_, fun request hrequest ↦ ?_⟩⟩
  · have hstart : (start memory).liveCount i ∈ liveCounts i memory requests :=
      ⟨start memory, ⟨0, [], rfl⟩, rfl⟩
    obtain ⟨outputs', s', peak, hrun', -, hslabs, hpeak⟩ := Transition.run_peak
      (Sound.peak_step i) requests (sound_start memory) (permits_of_admitsAll hadmits) (le_refl _)
      (zero_ceilDiv _).symm
    obtain ⟨-, rfl⟩ := Except.ok_unique hrun hrun'
    exact ⟨peak, Set.insert_eq_of_mem hstart ▸ hpeak, hslabs⟩
  · obtain ⟨output, s', hstep, -, -⟩ := hsound.step hrequest
    exact ⟨output, s', hstep, hinv.supplies i hstep⟩

/-- Two blocks of the largest class, one of which is given back and handed out again. -/
private def reuse : List Request :=
  [.allocate 8000 (some 1048576), .allocate 8000 none, .deallocate 2080768 8000,
    .allocate 8000 none]

private theorem admitsAll_reuse : (start fun _ ↦ 0).AdmitsAll reuse := by
  refine ⟨?_, fun _ s₁ hfirst ↦ ⟨?_, fun _ s₂ hsecond ↦ ⟨Or.inr ?_, fun _ _ _ ↦ ⟨?_, ?_⟩⟩⟩⟩
  · rintro p ⟨⟩
    exact fresh_start _ (by decide) (by decide)
  · rintro p ⟨⟩
  · have hlive : (Transition.run step (start fun _ ↦ 0) (reuse.take 2)).toOption.map
        (fun r ↦ r.2.live) = some [⟨2080768, 8000⟩, ⟨2088960, 8000⟩] := by decide +kernel
    rw [show reuse.take 2 = [.allocate 8000 (some 1048576), .allocate 8000 none] from rfl,
      Transition.run_cons hfirst, Transition.run_cons hsecond] at hlive
    rw [show s₂.live = _ from Option.some.inj hlive]
    exact List.mem_cons_self
  · rintro p ⟨⟩
  · exact fun _ _ _ ↦ trivial

/-- One slab is enough for them. -/
theorem run_slabs_reused :
    ∃ outputs s, Transition.run step (start fun _ ↦ 0) reuse = .ok (outputs, s)
      ∧ outputs = [some 2088960, some 2080768, none, some 2080768] ∧ (s.slabs 7).length = 1
      ∧ ∀ i, (∃ peak, IsGreatest (liveCounts i (fun _ ↦ 0) reuse) peak
          ∧ (s.slabs i).length = peak ⌈/⌉ perSlab i)
        ∧ ∀ request, s.Admits request →
          ∃ output s', s.step request = .ok (output, s') ∧ Supplies i s request output s' := by
  have heval : (Transition.run step (start fun _ ↦ 0) reuse).toOption.map
      (fun r ↦ (r.1, (r.2.slabs 7).length))
      = some ([some 2088960, some 2080768, none, some 2080768], 1) := by decide +kernel
  obtain ⟨outputs, s, hrun, hslabs⟩ := run_slabs (fun _ ↦ 0) reuse admitsAll_reuse
  rw [hrun] at heval
  obtain ⟨houtputs, hlength⟩ := Prod.mk.inj (Option.some.inj heval)
  exact ⟨outputs, s, hrun, houtputs, hlength, hslabs⟩

end SlabHeap

end HighCache
