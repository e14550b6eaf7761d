import HighCache.Lib.KeyedList
import Mathlib.Algebra.BigOperators.Fin

/-!
# Families over a finite index

Three ways a family indexed by `Fin n` arises: as an array in which one place is changed at a time,
as a list cut into consecutive slices, and as a list taken apart by an index of its elements. For
the first, `sum_update` and `sum_eq_add` say what the change does to a sum. For the second,
`flatMap_slices` puts the slices together again. For the third, `fiber r i xs` is the part of `xs`
with index `i`, in the order of `xs`; the operations on lists of distinct keys act on the parts when
the index depends on the key alone, and `sum_total_fiber` puts every total together again.
-/

namespace Families

open KeyedList

variable {n : ℕ}

/-- Two families that differ at one index have sums that differ by what changed there. -/
theorem sum_update {f g : Fin n → ℕ} {i : Fin n} (h : ∀ j, j ≠ i → g j = f j) :
    ∑ j, g j + f i = ∑ j, f j + g i := by
  have hf := Finset.add_sum_erase Finset.univ f (Finset.mem_univ i)
  have hg := Finset.add_sum_erase Finset.univ g (Finset.mem_univ i)
  have hrest : ∑ j ∈ Finset.univ.erase i, g j = ∑ j ∈ Finset.univ.erase i, f j :=
    Finset.sum_congr rfl fun j hj ↦ h j (Finset.ne_of_mem_erase hj)
  omega

theorem sum_eq_add {M : Type} [AddCommMonoid M] {f g : Fin n → M} {i : Fin n} {x : M}
    (h : ∀ j, j ≠ i → g j = f j) (hi : g i = f i + x) : ∑ j, g j = ∑ j, f j + x := by
  rw [← Finset.add_sum_erase Finset.univ g (Finset.mem_univ i),
    ← Finset.add_sum_erase Finset.univ f (Finset.mem_univ i), hi,
    Finset.sum_congr rfl fun j hj ↦ h j (Finset.ne_of_mem_erase hj)]
  exact add_right_comm _ _ _

variable {α κ : Type}

/-- Two families of lists that differ by an element at one index concatenate to lists that differ
by that element. -/
theorem flatMap_perm_cons [DecidableEq α] {f g : Fin n → List α}
    {i : Fin n} {x : α} (h : ∀ j, j ≠ i → g j = f j) (hi : g i = f i ++ [x]) :
    ((List.finRange n).flatMap g).Perm (x :: (List.finRange n).flatMap f) := by
  rw [List.perm_iff_count]
  intro a
  rw [List.count_cons, List.count_flatMap, List.count_flatMap, ← Fin.sum_univ_def,
    ← Fin.sum_univ_def]
  have hsum := sum_update (f := List.count a ∘ f) (g := List.count a ∘ g) (i := i)
    fun j hj ↦ congrArg (List.count a) (h j hj)
  have hcount : (List.count a ∘ g) i = (List.count a ∘ f) i + if x == a then 1 else 0 := by
    rw [Function.comp_apply, hi, List.count_append, List.count_singleton]
    rfl
  omega

/-! ## Slices -/

section Slices

variable {b : ℕ → ℕ} (hmono : Monotone b)
include hmono

theorem existsUnique_between {m k : ℕ} (hzero : b 0 ≤ k) (hlast : k < b m) :
    ∃! i, i < m ∧ b i ≤ k ∧ k < b (i + 1) := by
  have hexists : ∃ i, i < m ∧ b i ≤ k ∧ k < b (i + 1) := by
    induction m with
    | zero => omega
    | succ m ih =>
      by_cases hm : k < b m
      · obtain ⟨i, hi, hbetween⟩ := ih hm
        exact ⟨i, by omega, hbetween⟩
      · exact ⟨m, by omega, by omega, hlast⟩
  obtain ⟨i, hi, hle, hlt⟩ := hexists
  refine ⟨i, ⟨hi, hle, hlt⟩, fun j ⟨_, hjle, hjlt⟩ ↦ ?_⟩
  -- of two indices the boundary after the smaller one is not above the larger
  by_contra hne
  rcases Nat.lt_or_gt_of_ne hne with hji | hij
  · have hbound : b (j + 1) ≤ b i := hmono hji
    omega
  · have hbound : b (i + 1) ≤ b j := hmono hij
    omega

/-- The slices between the boundaries make up the list to the last boundary. -/
theorem flatMap_slices (hzero : b 0 = 0) (xs : List α) (m : ℕ) :
    (List.range m).flatMap (fun i ↦ (xs.take (b (i + 1))).drop (b i)) = xs.take (b m) := by
  induction m with
  | zero => simp [hzero]
  | succ m ih =>
    rw [List.range_succ, List.flatMap_append, ih, List.flatMap_singleton]
    conv_lhs => rw [← min_eq_left (hmono (Nat.le_succ m)), ← List.take_take]
    rw [min_eq_left (hmono (Nat.le_succ m)), List.take_append_drop]

end Slices

/-! ## Fibers -/

variable (r : α → Fin n)

/-- The elements with index `i`. -/
def fiber (i : Fin n) (xs : List α) : List α := xs.filter fun x ↦ r x = i

theorem fiber_cons_self {i : Fin n} {x : α} (h : r x = i) (xs : List α) :
    fiber r i (x :: xs) = x :: fiber r i xs :=
  List.filter_cons_of_pos (by simpa using h)

theorem fiber_cons_of_ne {i : Fin n} {x : α} (h : r x ≠ i) (xs : List α) :
    fiber r i (x :: xs) = fiber r i xs :=
  List.filter_cons_of_neg (by simpa using h)

theorem fiber_filter (i : Fin n) (p : α → Bool) (xs : List α) :
    fiber r i (xs.filter p) = (fiber r i xs).filter p := by
  rw [fiber, fiber, List.filter_filter, List.filter_filter]
  exact List.filter_congr fun x _ ↦ Bool.and_comm _ _

theorem sum_total_fiber (w : α → ℕ) (xs : List α) : ∑ i, total w (fiber r i xs) = total w xs := by
  induction xs with
  | nil => exact Finset.sum_const_zero
  | cons x xs ih =>
    have hsum := sum_update (f := fun i ↦ total w (fiber r i xs))
      (g := fun i ↦ total w (fiber r i (x :: xs))) (i := r x) fun j hj ↦ by
        rw [fiber_cons_of_ne r hj.symm]
    rw [fiber_cons_self r rfl, total_cons, ih] at hsum
    rw [total_cons]
    omega

theorem length_eq_total (xs : List α) : xs.length = total (fun _ ↦ 1) xs := by
  rw [total, List.map_const', List.sum_replicate, smul_eq_mul, Nat.mul_one]

theorem countP_eq_total (p : α → Bool) (xs : List α) :
    xs.countP p = total (fun x ↦ if p x then 1 else 0) xs := by
  induction xs with
  | nil => rfl
  | cons x xs ih => rw [List.countP_cons, ih, total_cons, Nat.add_comm]

/-! ### Parts of a list with keys -/

variable [DecidableEq κ] {key : α → κ} (route : κ → Fin n)

theorem find_fiber (k : κ) (xs : List α) :
    find key k (fiber (route ∘ key) (route k) xs) = find key k xs := by
  induction xs with
  | nil => rfl
  | cons x xs ih =>
    by_cases hk : key x = k
    · subst hk
      have hroute : (route ∘ key) x = route (key x) := rfl
      rw [fiber_cons_self (route ∘ key) hroute, find_cons_self, find_cons_self]
    · have hskip : ∀ ys : List α, find key k (x :: ys) = find key k ys := fun ys ↦
        List.find?_cons_of_neg (by simpa using hk)
      by_cases hroute : route (key x) = route k
      · rw [fiber_cons_self (route ∘ key) hroute, hskip, hskip, ih]
      · rw [fiber_cons_of_ne (route ∘ key) hroute, hskip, ih]

/-- Removing a key removes it from the part its index names, … -/
theorem fiber_without (i : Fin n) (k : κ) (xs : List α) :
    fiber (route ∘ key) i (without key k xs) = without key k (fiber (route ∘ key) i xs) :=
  fiber_filter _ i _ xs

/-- … and leaves the other parts alone. -/
theorem fiber_without_of_ne {i : Fin n} {k : κ} (h : i ≠ route k) (xs : List α) :
    fiber (route ∘ key) i (without key k xs) = fiber (route ∘ key) i xs := by
  rw [fiber_without]
  refine without_of_forall_ne fun x hx hk ↦ h ?_
  have hroute : route (key x) = i := by simpa using List.of_mem_filter hx
  rw [← hroute, hk]

end Families
