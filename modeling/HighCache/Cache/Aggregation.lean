import HighCache.Cache.CacheEngine
import HighCache.Cache.CacheShard
import HighCache.Cache.Deadlines
import HighCache.Lib.Gather

/-!
# Statistics of an engine in use

`CacheEngine::memory_usage_bytes` and `allocator_metrics` go through the shards and lock them one at
a time, so other threads may call the engine between two reads. A run is any interleaving of steps
that each run under the mutex of one shard: calls of any threads on any shards, a `tick` of the
engine being one call for each shard, and the reads of any number of such loops.

The total a loop returns is not the state of the engine at any moment. It is bounded all the same:
each shard keeps within its own capacity at all times, and the capacities add up to that of the
engine (`aggregates_consistent`).

The memory of each shard is its own here. The shards of a process share one address space, in which
`::operator new` hands out memory that is free in all of them.
-/

namespace HighCache

open Gather

/-! ## The loops and the engine

A loop is a value: the shards still to visit, what has been read, and the total so far. It belongs
to a thread, and between two of its turns any steps of others may come. -/

/-- The counters as `CacheEngine::allocator_metrics` adds them up, in machine words. -/
structure MetricsTotal where
  allocatedBytes : UInt64
  usedBytes : UInt64
  freeBytes : UInt64
  allocationCount : UInt64
  deallocationCount : UInt64
  internalFragmentation : UInt64
  slabCount : UInt64
  deriving DecidableEq, Repr

namespace MetricsTotal

/-- All counters at zero. -/
def zero : MetricsTotal := ⟨0, 0, 0, 0, 0, 0, 0⟩

/-- The counters of one more shard. -/
def add (total : MetricsTotal) (metrics : ValueAllocatorMetrics) : MetricsTotal where
  allocatedBytes := total.allocatedBytes + UInt64.ofNat metrics.allocatedBytes
  usedBytes := total.usedBytes + UInt64.ofNat metrics.usedBytes
  freeBytes := total.freeBytes + UInt64.ofNat metrics.freeBytes
  allocationCount := total.allocationCount + metrics.allocationCount
  deallocationCount := total.deallocationCount + metrics.deallocationCount
  internalFragmentation := total.internalFragmentation + UInt64.ofNat metrics.internalFragmentation
  slabCount := total.slabCount + UInt64.ofNat metrics.slabCount

end MetricsTotal

/-- The usage of one more shard. -/
def addUsage (total : UInt64) (usage : ℕ) : UInt64 := total + UInt64.ofNat usage

private theorem addUsage_word (total : UInt64) (usage : ℕ) :
    id (addUsage total usage) = id total + UInt64.ofNat (id usage) := rfl

/-- The loops of `CacheEngine` over its shards. -/
inductive Aggregation (n : ℕ) where
  | memoryUsageBytes (loop : Loop n ℕ UInt64)
  | allocatorMetrics (loop : Loop n ValueAllocatorMetrics MetricsTotal)

/-- What a step hands to its thread. The totals come with the values they are made of. -/
inductive Outcome where
  | answer (answer : Answer)
  | nothing
  | memoryUsageBytes (reads : List ℕ) (total : UInt64)
  | allocatorMetrics (reads : List ValueAllocatorMetrics) (total : MetricsTotal)

/-- The steps of the threads: a call under the mutex of one shard, the entry to one of the loops,
and the next turn of the loop a thread is in. -/
inductive Turn (n : ℕ) (τ : Type) where
  | call (i : Fin n) (call : Call)
  | memoryUsageBytes (thread : τ)
  | allocatorMetrics (thread : τ)
  | visit (thread : τ)

/-- An engine whose shards have their allocators, and the loops its threads are in. -/
structure ConcurrentEngine (n : ℕ) (τ : Type) where
  capacityBytes : ℕ
  shards : Fin n → CacheShard
  loops : τ → Option (Aggregation n)

namespace ConcurrentEngine

variable {n : ℕ} {τ : Type}

/-- `CacheEngine::CacheEngine(capacity_bytes, shard_count, allocator_backend)`. -/
def new (backend : AllocatorBackend) (memory : Fin n → Memory) (capacityBytes : ℕ) :
    Except HighCacheError (ConcurrentEngine n τ) :=
  if n = 0 then
    .error ⟨.invalidArgument, "cache shard count must be greater than zero"⟩
  else
    .ok ⟨capacityBytes,
      fun i ↦ .new backend (memory i) (CacheEngine.shardCapacity capacityBytes n i), fun _ ↦ none⟩

variable [DecidableEq τ]

/-- A thread enters a loop, goes on in it or leaves it. -/
def turn (thread : τ) (loop : Option (Aggregation n)) (s : ConcurrentEngine n τ) :
    ConcurrentEngine n τ :=
  { s with loops := Function.update s.loops thread loop }

/-- The next turn of the loop a thread is in, if it is in one: it locks the next shard and reads, or
returns if there is none. -/
def visit (thread : τ) (s : ConcurrentEngine n τ) : Outcome × ConcurrentEngine n τ :=
  match s.loops thread with
  | none => (.nothing, s)
  | some (.memoryUsageBytes loop) =>
    match loop.rest with
    | [] => (.memoryUsageBytes loop.reads loop.total, s.turn thread none)
    | i :: _ =>
      let loop := loop.take addUsage (s.shards i).cache.memoryUsageBytes
      (.nothing, s.turn thread (some (.memoryUsageBytes loop)))
  | some (.allocatorMetrics loop) =>
    match loop.rest with
    | [] => (.allocatorMetrics loop.reads loop.total, s.turn thread none)
    | i :: _ =>
      let loop := loop.take MetricsTotal.add (s.shards i).heap.allocator.metrics
      (.nothing, s.turn thread (some (.allocatorMetrics loop)))

/-- One step. -/
def step (s : ConcurrentEngine n τ) : Turn n τ → Except Fault (Outcome × ConcurrentEngine n τ)
  | .call i call => do
    let (answer, shard) ← (s.shards i).call call
    .ok (.answer answer, { s with shards := Function.update s.shards i shard })
  | .memoryUsageBytes thread =>
    .ok (.nothing, s.turn thread (some (.memoryUsageBytes (.enter 0))))
  | .allocatorMetrics thread =>
    .ok (.nothing, s.turn thread (some (.allocatorMetrics (.enter .zero))))
  | .visit thread => .ok (s.visit thread)

/-- `::operator new` hands out free memory only. -/
def Admits (s : ConcurrentEngine n τ) : Turn n τ → Prop
  | .call i call => (s.shards i).Admits call
  | _ => True

/-! ## One shard at any moment

All that a loop can rely on: whatever the calls of others were, a shard is within its capacity and
its allocator has not handed out more than it owns. -/

/-- A shard within its capacity. -/
def Within (capacity : ℕ) (s : CacheShard) : Prop := ∃ a, s.Backed a ∧ a.capacity = capacity

theorem Within.call {capacity : ℕ} {s : CacheShard} (h : Within capacity s) {call : Call}
    (hadmits : s.Admits call) :
    ∃ answer s', s.call call = .ok (answer, s') ∧ Within capacity s' := by
  obtain ⟨a, hbacked, hcapacity⟩ := h
  obtain ⟨allocation, s', -, hcall, hbacked'⟩ := hbacked.call hadmits
  refine ⟨_, s', hcall, _, hbacked', ?_⟩
  rw [← hcapacity]
  exact ItemCache.capacity_call hbacked.simulates.1 _

theorem Within.usage_le {capacity : ℕ} {s : CacheShard} (h : Within capacity s) :
    s.cache.memoryUsageBytes ≤ capacity := by
  obtain ⟨a, hbacked, rfl⟩ := h
  obtain ⟨hwf, L, href⟩ := hbacked.simulates
  exact href.usage.le.trans hwf.usage_le

theorem Within.used_le {capacity : ℕ} {s : CacheShard} (h : Within capacity s) :
    s.heap.allocator.metrics.usedBytes ≤ s.heap.allocator.metrics.allocatedBytes := by
  obtain ⟨a, hbacked, -⟩ := h
  exact hbacked.holds.sound.used_le

/-! ## A loop at any moment

The values that were read are kept beside the total, each with the shard it came from, so that
bounds on the shards become bounds on the sum. The total itself is computed in 64-bit words. -/

/-- Every value a loop has read was within the capacity of its shard, or no more used than
allocated. -/
def Sane (capacity : Fin n → ℕ) : Aggregation n → Prop
  | .memoryUsageBytes loop => loop.Tracks (fun i usage ↦ usage ≤ capacity i) addUsage 0
  | .allocatorMetrics loop =>
    loop.Tracks (fun _ metrics ↦ metrics.usedBytes ≤ metrics.allocatedBytes) MetricsTotal.add .zero

/-- What holds of what a step hands out, for an engine of `n` shards. -/
def Consistent (n : ℕ) (capacityBytes : UInt64) : Outcome → Prop
  | .memoryUsageBytes reads total =>
    reads.length = n ∧ total.toNat = reads.sum ∧ total ≤ capacityBytes
  | .allocatorMetrics reads total =>
    reads.length = n ∧ ((reads.map ValueAllocatorMetrics.allocatedBytes).sum < Checked.wordSize →
      total.usedBytes ≤ total.allocatedBytes)
  | _ => True

private theorem consistent_usage {capacity : Fin n → ℕ} {capacityBytes : UInt64}
    (hcapacity : ∑ i, capacity i = capacityBytes.toNat) {loop : Loop n ℕ UInt64}
    (h : loop.Tracks (fun i usage ↦ usage ≤ capacity i) addUsage 0) (hrest : loop.rest = []) :
    Consistent n capacityBytes (.memoryUsageBytes loop.reads loop.total) := by
  have hall := h.complete hrest
  have hsum : loop.reads.sum ≤ capacityBytes.toNat := by
    have := sum_le_of_forall₂ (f := id) hall
    rwa [List.map_id, hcapacity] at this
  have htotal : loop.total = UInt64.ofNat loop.reads.sum := by
    have hfold := foldl_add_word (f := id) (w := id) addUsage_word loop.reads 0
    rw [List.map_id] at hfold
    rw [h.total]
    exact hfold.trans (UInt64.zero_add _)
  have hword : loop.total.toNat = loop.reads.sum := by
    rw [htotal]
    exact UInt64.toNat_ofNat_of_lt' (hsum.trans_lt capacityBytes.toNat_lt)
  refine ⟨?_, hword, ?_⟩
  · rw [← hall.length_eq, List.length_finRange]
  · rw [UInt64.le_iff_toNat_le, hword]
    exact hsum

private theorem consistent_metrics {capacityBytes : UInt64}
    {loop : Loop n ValueAllocatorMetrics MetricsTotal}
    (h : loop.Tracks (fun _ metrics ↦ metrics.usedBytes ≤ metrics.allocatedBytes)
      MetricsTotal.add .zero) (hrest : loop.rest = []) :
    Consistent n capacityBytes (.allocatorMetrics loop.reads loop.total) := by
  have hall := h.complete hrest
  refine ⟨?_, fun hlt ↦ ?_⟩
  · rw [← hall.length_eq, List.length_finRange]
  have hle := sum_le_sum_of_forall₂ hall
  have hallocated : loop.total.allocatedBytes
      = UInt64.ofNat (loop.reads.map ValueAllocatorMetrics.allocatedBytes).sum := by
    rw [h.total, foldl_add_word (w := MetricsTotal.allocatedBytes) (fun _ _ ↦ rfl)]
    exact UInt64.zero_add _
  have hused : loop.total.usedBytes
      = UInt64.ofNat (loop.reads.map ValueAllocatorMetrics.usedBytes).sum := by
    rw [h.total, foldl_add_word (w := MetricsTotal.usedBytes) (fun _ _ ↦ rfl)]
    exact UInt64.zero_add _
  rw [hallocated, hused, UInt64.le_iff_toNat_le, UInt64.toNat_ofNat_of_lt' hlt,
    UInt64.toNat_ofNat_of_lt' (hle.trans_lt hlt)]
  exact hle

/-! ## Every interleaving

A call changes one shard, and the values that the loops have already read stay as they are. -/

/-- Every shard is within its capacity, and every loop has read nothing else. -/
structure Orderly (capacity : Fin n → ℕ) (s : ConcurrentEngine n τ) : Prop where
  shards : ∀ i, Within (capacity i) (s.shards i)
  loops : ∀ thread loop, s.loops thread = some loop → Sane capacity loop

variable {capacity : Fin n → ℕ}

theorem Orderly.turn {s : ConcurrentEngine n τ} (h : s.Orderly capacity) (thread : τ)
    {loop : Option (Aggregation n)} (hloop : ∀ l, loop = some l → Sane capacity l) :
    (s.turn thread loop).Orderly capacity where
  shards := h.shards
  loops := by
    intro other l hl
    change Function.update s.loops thread loop other = some l at hl
    by_cases hother : other = thread
    · rw [hother, Function.update_self] at hl
      exact hloop l hl
    · rw [Function.update_of_ne hother] at hl
      exact h.loops other l hl

theorem Orderly.visit {capacityBytes : UInt64} (hcapacity : ∑ i, capacity i = capacityBytes.toNat)
    {s : ConcurrentEngine n τ} (h : s.Orderly capacity) (thread : τ) :
    Consistent n capacityBytes (s.visit thread).1 ∧ (s.visit thread).2.Orderly capacity := by
  unfold ConcurrentEngine.visit
  cases hloop : s.loops thread with
  | none => exact ⟨trivial, h⟩
  | some aggregation =>
    have hsane := h.loops thread aggregation hloop
    cases aggregation with
    | memoryUsageBytes loop =>
      dsimp only
      cases hrest : loop.rest with
      | nil =>
        refine ⟨consistent_usage hcapacity hsane hrest, h.turn thread fun _ hnone ↦ ?_⟩
        cases hnone
      | cons i is =>
        refine ⟨trivial, h.turn thread ?_⟩
        rintro _ ⟨⟩
        exact Loop.Tracks.take hsane hrest (h.shards i).usage_le
    | allocatorMetrics loop =>
      dsimp only
      cases hrest : loop.rest with
      | nil =>
        refine ⟨consistent_metrics hsane hrest, h.turn thread fun _ hnone ↦ ?_⟩
        cases hnone
      | cons i is =>
        refine ⟨trivial, h.turn thread ?_⟩
        rintro _ ⟨⟩
        exact Loop.Tracks.take hsane hrest (h.shards i).used_le

/-- **One step of any thread.** -/
theorem Orderly.step {capacityBytes : UInt64} (hcapacity : ∑ i, capacity i = capacityBytes.toNat)
    {s : ConcurrentEngine n τ} (h : s.Orderly capacity) {turn : Turn n τ}
    (hadmits : s.Admits turn) :
    ∃ outcome s', s.step turn = .ok (outcome, s') ∧ Consistent n capacityBytes outcome
      ∧ s'.Orderly capacity := by
  cases turn with
  | call i call =>
    obtain ⟨answer, shard, hcall, hwithin⟩ := (h.shards i).call hadmits
    refine ⟨.answer answer, { s with shards := Function.update s.shards i shard }, ?_, trivial,
      fun j ↦ ?_, h.loops⟩
    · rw [ConcurrentEngine.step, hcall]
      rfl
    · show Within (capacity j) (Function.update s.shards i shard j)
      by_cases hj : j = i
      · subst hj
        rwa [Function.update_self]
      · rw [Function.update_of_ne hj]
        exact h.shards j
  | memoryUsageBytes thread =>
    refine ⟨_, _, rfl, trivial, h.turn thread ?_⟩
    rintro _ ⟨⟩
    exact Loop.tracks_enter
  | allocatorMetrics thread =>
    refine ⟨_, _, rfl, trivial, h.turn thread ?_⟩
    rintro _ ⟨⟩
    exact Loop.tracks_enter
  | visit thread =>
    obtain ⟨hconsistent, horderly⟩ := h.visit hcapacity thread
    exact ⟨_, _, rfl, hconsistent, horderly⟩

private theorem shardCapacity_le_succ (capacityBytes i j : ℕ) :
    CacheEngine.shardCapacity capacityBytes n i
      ≤ CacheEngine.shardCapacity capacityBytes n j + 1 := by
  have hone : (if i < capacityBytes % n then 1 else 0) ≤ 1 := by
    split
    · exact le_refl _
    · exact Nat.zero_le _
  unfold CacheEngine.shardCapacity
  dsimp only
  omega

/-- **Totals are consistent in every interleaving.** For every capacity and every positive number of
shards, the capacities of the shards add up to the capacity of the engine and differ by at most one;
and in every run, with any number of threads, a usage that is returned has not wrapped and is within
the capacity, and metrics that are returned have no more bytes used than allocated, unless the
allocated bytes of the shards do not fit in a word. -/
theorem aggregates_consistent (backend : AllocatorBackend) (memory : Fin n → Memory)
    (capacityBytes : UInt64) (hn : 0 < n) :
    ∃ s : ConcurrentEngine n τ, new backend memory capacityBytes.toNat = .ok s
      ∧ ∑ i, (s.shards i).cache.capacityBytes = capacityBytes.toNat
      ∧ (∀ i j, (s.shards i).cache.capacityBytes ≤ (s.shards j).cache.capacityBytes + 1)
      ∧ ∀ turns, Transition.Permits Admits step s turns →
        ∃ outcomes s', Transition.run step s turns = .ok (outcomes, s')
          ∧ ∀ outcome ∈ outcomes, Consistent n capacityBytes outcome := by
  have hsum := CacheEngine.sum_shardCapacity capacityBytes.toNat hn
  refine ⟨_, if_neg hn.ne', hsum, fun i j ↦ shardCapacity_le_succ _ i j, fun turns hpermits ↦ ?_⟩
  have hword : ∀ i : Fin n, CacheEngine.shardCapacity capacityBytes.toNat n i < Checked.wordSize :=
    fun i ↦ (CacheEngine.shardCapacity_le hn i).trans_lt capacityBytes.toNat_lt
  have hstart : Orderly (fun i : Fin n ↦ CacheEngine.shardCapacity capacityBytes.toNat n i)
      (⟨capacityBytes.toNat, fun i ↦ .new backend (memory i)
        (CacheEngine.shardCapacity capacityBytes.toNat n i), fun _ ↦ none⟩
        : ConcurrentEngine n τ) :=
    ⟨fun i ↦ ⟨_, CacheShard.backed_new backend (memory i) (hword i), rfl⟩, by rintro _ _ ⟨⟩⟩
  obtain ⟨outcomes, s', hrun, houtcomes, -⟩ := Transition.run_permitted
    (fun s turn h hadmits ↦ h.step hsum hadmits) turns hstart hpermits
  exact ⟨outcomes, s', hrun, houtcomes⟩

/-- One thread adds up the usage of two shards and another the metrics, while keys with values come
to both shards. -/
private def writtenMeanwhile (first second : Fin 2) : List (Turn 2 Bool) :=
  [.memoryUsageBytes true, .visit true, .allocatorMetrics false,
    .call first (.set ⟨some 4096, fun _ ↦ false⟩ [107] [1] 0), .visit false,
    .call second (.set ⟨some 8192, fun _ ↦ false⟩ [108] [2, 2] 0), .visit true, .visit false,
    .visit true, .visit false]

/-- Each shard is new when its key comes. -/
private theorem permits_writtenMeanwhile {s : ConcurrentEngine 2 Bool}
    (hnew : new .system (fun _ _ ↦ 0) (8 : UInt64).toNat = .ok s) :
    Transition.Permits Admits step s (writtenMeanwhile 0 1) := by
  cases hnew
  refine ⟨trivial, ?_⟩
  rintro _ _ ⟨⟩
  refine ⟨trivial, ?_⟩
  rintro _ _ ⟨⟩
  refine ⟨trivial, ?_⟩
  rintro _ _ ⟨⟩
  refine ⟨?_, fun _ s₁ hfirst ↦ ⟨trivial, ?_⟩⟩
  · rintro p ⟨⟩ -
    exact CacheShard.fresh_new_system (by decide) (by decide)
  obtain ⟨⟨answer, shard⟩, -, hfirst⟩ := Except.bind_eq_ok_iff.mp hfirst
  cases hfirst
  rintro _ _ ⟨⟩
  refine ⟨?_, fun _ _ _ ↦ ⟨trivial, fun _ _ _ ↦ ⟨trivial, fun _ _ _ ↦
    ⟨trivial, fun _ _ _ ↦ ⟨trivial, fun _ _ _ ↦ trivial⟩⟩⟩⟩⟩
  rintro p ⟨⟩ -
  exact CacheShard.fresh_new_system (by decide) (by decide)

/-- The usage that is returned is that of no moment: the bytes in use were none, then two, then
five. -/
theorem aggregates_consistent_two_shards :
    ∃ s : ConcurrentEngine 2 Bool, new .system (fun _ _ ↦ 0) (8 : UInt64).toNat = .ok s
      ∧ (Transition.run step s (writtenMeanwhile 0 1)).toOption.map (fun r ↦ r.1.filterMap fun
        | .memoryUsageBytes reads total => some (reads, total)
        | .allocatorMetrics reads total =>
          some (reads.map ValueAllocatorMetrics.usedBytes, total.usedBytes)
        | _ => none) = some [([0, 3], 3), ([1, 2], 3)]
      ∧ ∃ outcomes s', Transition.run step s (writtenMeanwhile 0 1) = .ok (outcomes, s')
        ∧ ∀ outcome ∈ outcomes, Consistent 2 8 outcome := by
  have htwo : 0 < 2 := by decide
  obtain ⟨s, hnew, -, -, hruns⟩ := @aggregates_consistent 2 Bool _ .system (fun _ _ ↦ 0) 8 htwo
  refine ⟨s, hnew, ?_, hruns (writtenMeanwhile 0 1) (permits_writtenMeanwhile hnew)⟩
  cases hnew
  decide +kernel

end ConcurrentEngine

end HighCache
