import HighCache.Cache.Refinement
import Mathlib.Algebra.BigOperators.Group.Finset.Basic

/-!
# The representation invariant of the cache

What the three structures of a cache owe one another, in the terms of the source: the recency list
holds the keys of the map once each, every entry remembers the node of its own key, the memory in
use is the sum of the charges and within capacity, and generations do not repeat. It is
`Cache.Lists` and `ItemCache.WellFormed` read back without the list that connects them.

Faults are the other half. Every subtraction and addition on `memoryUsageBytes` is `Checked`, and
the two assertions of `evict_lru` are faults, so a run that reaches its last call has passed all
of them.
-/

namespace HighCache

namespace Cache

/-! ## The invariant

In the words of the source: no list of items is mentioned, and each clause is about the members of
the class. -/

/-- The bytes charged for a key, which is nothing if it is absent. -/
def chargeOf (c : Cache) (key : Bytes) : ℕ :=
  match c.entries.lookup key with
  | none => 0
  | some stored => entryCharge key stored.entry.value

/-- The representation invariant. -/
structure Invariant (c : Cache) : Prop where
  recency_nodup : c.recency.values.Nodup
  recency_keys : ∀ k, k ∈ c.recency.values ↔ k ∈ c.entries
  position : ∀ k s, c.entries.lookup k = some s → (s.recencyPosition, k) ∈ c.recency.nodes
  usage_eq : c.memoryUsageBytes = ∑ k ∈ c.entries.keys, c.chargeOf k
  usage_le : c.memoryUsageBytes ≤ c.capacityBytes
  key_length : ∀ k ∈ c.entries, 1 ≤ k.length ∧ k.length ≤ 250
  value_length : ∀ k s, c.entries.lookup k = some s → s.entry.value.length ≤ 1024 * 1024
  generation_ne : ∀ k k' s s', c.entries.lookup k = some s → c.entries.lookup k' = some s' →
    k ≠ k' → s.generation ≠ s'.generation
  generation_le : ∀ k s, c.entries.lookup k = some s → s.generation ≤ c.generationSource

namespace Lists

variable {c : Cache} {L : List (Bytes × StoredEntry)} (h : c.Lists L)
include h

theorem values_eq : c.recency.values = L.map Prod.fst := by
  rw [NodeList.values, h.nodes, List.map_map]
  rfl

private theorem sum_chargeOf :
    ∑ k ∈ c.entries.keys, c.chargeOf k = KeyedList.total storedCharge L := by
  rw [h.toListedBy.keys_eq, List.sum_toFinset _ h.nodup, List.map_map, KeyedList.total]
  congr 1
  refine List.map_congr_left fun x hx ↦ ?_
  rw [Function.comp_apply, chargeOf, (h.lookup x.1 x.2).mpr hx]
  rfl

end Lists

/-- A cache that stands for a well-formed list satisfies its representation invariant. -/
theorem Refines.invariant {c : Cache} {L : List (Bytes × StoredEntry)} {a : ItemCache}
    (h : c.Refines L a) (hwf : a.WellFormed) : c.Invariant := by
  have hkey : ∀ k ∈ c.entries, ∃ x ∈ a.items, x.key = k := by
    intro k hk
    obtain ⟨s, hs⟩ := Finmap.mem_iff.mp hk
    exact ⟨toItem (k, s), h.mem_items hs, rfl⟩
  constructor
  · rw [h.lists.values_eq]
    exact h.lists.nodup
  · intro k
    rw [h.lists.values_eq, ← Finmap.mem_keys, h.lists.toListedBy.keys_eq, List.mem_toFinset]
  · exact fun k s hs ↦ h.lists.position_mem ((h.lists.lookup k s).mp hs)
  · rw [h.lists.sum_chargeOf, h.total_eq]
  · rw [h.usage, h.capacity]
    exact hwf.usage_le
  · intro k hk
    obtain ⟨x, hx, rfl⟩ := hkey k hk
    exact ⟨hwf.key_pos x hx, hwf.key_le x hx⟩
  · exact fun k s hs ↦ hwf.value_le _ (h.mem_items hs)
  · intro k k' s s' hs hs' hne hgen
    have heq :=
      List.inj_on_of_nodup_map hwf.generations_nodup (h.mem_items hs) (h.mem_items hs') hgen
    exact hne (congrArg Item.key heq)
  · intro k s hs
    rw [h.source]
    exact hwf.generation_le _ (h.mem_items hs)

/-! ## Every run -/

/-- **Every run goes through and keeps the invariant**, whatever the capacity, the calls and the
failures injected into them, and so does any further call. -/
theorem run_keeps_invariant (capacity : UInt64) (calls : List Call) :
    ∃ outputs c, Transition.run step (new capacity.toNat) calls = .ok (outputs, c)
      ∧ c.Invariant ∧ ∀ call, ∃ answer c', c.call call = .ok (answer, c') ∧ c'.Invariant := by
  obtain ⟨c, hrun, hwf, L, href⟩ := (simulates_new capacity.toNat_lt).run calls
  refine ⟨_, c, hrun, href.invariant hwf, fun call ↦ ?_⟩
  obtain ⟨c', L', hcall, href'⟩ := href.call hwf call
  exact ⟨_, c', hcall, href'.invariant (hwf.call call)⟩

end Cache

end HighCache
