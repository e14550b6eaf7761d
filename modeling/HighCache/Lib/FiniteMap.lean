import HighCache.Lib.KeyedList
import Mathlib.Data.Finmap
import Mathlib.Algebra.BigOperators.Group.Finset.Basic

/-!
# Finite maps and the lists of their elements

`Finmap` is the finite map of Mathlib. Proofs about one are often proofs about a list of its
elements in some order that the map itself does not have: order of use, order of insertion.
`ListedBy m L` says that `L` is such a list. It turns the operations on the map into the list
operations of `KeyedList`, and counting and summing over the map into counting and summing over
the list.
-/

namespace FiniteMap

open KeyedList

variable {κ α : Type}

/-- `L` lists the elements of `m`, each once. -/
structure ListedBy [DecidableEq κ] (m : Finmap fun _ : κ ↦ α) (L : List (κ × α)) : Prop where
  /-- The elements of the map are those of the list. -/
  lookup : ∀ k a, m.lookup k = some a ↔ (k, a) ∈ L
  /-- No key occurs twice. -/
  nodup : (L.map Prod.fst).Nodup

/-- The number of elements. -/
def size (m : Finmap fun _ : κ ↦ α) : ℕ := Multiset.card m.entries

/-- The sum of a weight over the elements. -/
def weight (w : κ × α → ℕ) (m : Finmap fun _ : κ ↦ α) : ℕ :=
  (m.entries.map fun x ↦ w (x.1, x.2)).sum

/-- The elements that satisfy a predicate. -/
def filter (p : κ × α → Bool) (m : Finmap fun _ : κ ↦ α) : Finmap fun _ : κ ↦ α where
  entries := m.entries.filter fun x ↦ p (x.1, x.2) = true
  nodupKeys := by
    rw [← Multiset.nodup_keys]
    exact Multiset.nodup_of_le (Multiset.map_le_map (Multiset.filter_le _ _))
      (Multiset.nodup_keys.mpr m.nodupKeys)

namespace ListedBy

variable [DecidableEq κ]

theorem empty : ListedBy (∅ : Finmap fun _ : κ ↦ α) [] where
  lookup := by simp
  nodup := List.nodup_nil

variable {m : Finmap fun _ : κ ↦ α} {L : List (κ × α)} (h : ListedBy m L)
include h

/-! ## What the map says about the list

Everything that a finite map has to say without an order is said by its elements as a multiset, and
these are the elements of the list. -/

/-- Two lists of one map are equal up to order. -/
theorem perm_of_listed {L' : List (κ × α)} (h' : ListedBy m L') : L.Perm L' :=
  (List.perm_ext_iff_of_nodup (List.Nodup.of_map _ h.nodup) (List.Nodup.of_map _ h'.nodup)).mpr
    fun x ↦ (h.lookup x.1 x.2).symm.trans (h'.lookup x.1 x.2)

theorem entries_eq : m.entries = ((L.map fun x ↦ (⟨x.1, x.2⟩ : Σ _ : κ, α)) : Multiset _) := by
  have hinj : Function.Injective fun x : κ × α ↦ (⟨x.1, x.2⟩ : Σ _ : κ, α) := by
    rintro ⟨k, a⟩ ⟨k', a'⟩ heq
    cases heq
    rfl
  refine (Multiset.Nodup.ext m.nodup_entries ?_).mpr ?_
  · exact Multiset.coe_nodup.mpr ((List.Nodup.of_map _ h.nodup).map hinj)
  · rintro ⟨k, a⟩
    rw [Multiset.mem_coe, List.mem_map, ← Finmap.lookup_eq_some_iff, h.lookup]
    constructor
    · exact fun hmem ↦ ⟨(k, a), hmem, rfl⟩
    · rintro ⟨⟨k', a'⟩, hmem, heq⟩
      cases heq
      exact hmem

theorem size_eq : size m = L.length := by
  rw [size, h.entries_eq, Multiset.coe_card, List.length_map]

theorem weight_eq (w : κ × α → ℕ) : weight w m = total w L := by
  rw [weight, h.entries_eq, Multiset.map_coe, Multiset.sum_coe, List.map_map, total]
  rfl

theorem keys_eq : m.keys = (L.map Prod.fst).toFinset := by
  ext k
  rw [Finmap.mem_keys, Finmap.mem_iff, List.mem_toFinset, List.mem_map]
  constructor
  · rintro ⟨a, ha⟩
    exact ⟨(k, a), (h.lookup k a).mp ha, rfl⟩
  · rintro ⟨⟨k', a⟩, ha, rfl⟩
    exact ⟨a, (h.lookup k' a).mpr ha⟩

theorem lookup_eq (k : κ) : m.lookup k = (find Prod.fst k L).map Prod.snd := by
  cases hfind : find Prod.fst k L with
  | none =>
    rw [Option.map_none, Option.eq_none_iff_forall_ne_some]
    intro a ha
    exact find_eq_none.mp hfind _ ((h.lookup k a).mp ha) rfl
  | some x =>
    obtain ⟨k', a⟩ := x
    obtain rfl : k' = k := key_of_find hfind
    exact (h.lookup k' a).mpr (mem_of_find hfind)

/-! ## Changes

Each change of the map is a change of the list; where an element is inserted it comes to the front,
so that the list may stand for an order of use. -/

theorem erase (k : κ) : ListedBy (m.erase k) (without Prod.fst k L) where
  lookup := by
    intro k' a
    by_cases hk : k' = k
    · subst hk
      rw [Finmap.lookup_erase, mem_without]
      simp
    · rw [Finmap.lookup_erase_ne hk, h.lookup, mem_without]
      simp [hk]
  nodup := h.nodup.sublist ((without_sublist k L).map _)

theorem insert (k : κ) (a : α) : ListedBy (m.insert k a) ((k, a) :: without Prod.fst k L) where
  lookup := by
    intro k' a'
    by_cases hk : k' = k
    · subst hk
      rw [Finmap.lookup_insert, List.mem_cons, mem_without]
      simp [eq_comm]
    · rw [Finmap.lookup_insert_of_ne _ hk, h.lookup, List.mem_cons, mem_without]
      simp [hk]
  nodup := by
    rw [List.map_cons, List.nodup_cons]
    refine ⟨fun hmem ↦ ?_, h.nodup.sublist ((without_sublist k L).map _)⟩
    obtain ⟨x, hx, hxk⟩ := List.mem_map.mp hmem
    exact (mem_without.mp hx).2 hxk

theorem filter (p : κ × α → Bool) : ListedBy (filter p m) (L.filter p) where
  lookup := by
    intro k a
    rw [Finmap.lookup_eq_some_iff, FiniteMap.filter, Multiset.mem_filter,
      ← Finmap.lookup_eq_some_iff, h.lookup, List.mem_filter]
  nodup := h.nodup.sublist (List.filter_sublist.map _)

end ListedBy

end FiniteMap
