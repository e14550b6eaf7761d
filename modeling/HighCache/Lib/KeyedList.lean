import Mathlib.Algebra.BigOperators.Group.List.Basic
import Mathlib.Algebra.Order.Group.Nat
import Mathlib.Algebra.Ring.Nat
import Mathlib.Data.List.Nodup
import Mathlib.Data.List.Perm.Basic
import Mathlib.Order.Nat

/-!
# Lists as ordered maps

A list whose elements have distinct keys is a finite map that also remembers an order. This file
has the operations such a list is used with — find a key, remove a key, keep the longest prefix
that fits a budget — over an arbitrary element type, with a function for the key and one for the
weight.

Removing a key is stated through one permutation, `perm_cons_without`, from which every sum and
count follows. The longest fitting prefix is computed from the front; `fitting_dropLast` says that
dropping elements from the back until the rest fits computes the same list.
-/

namespace KeyedList

variable {α κ : Type} [DecidableEq κ] (key : α → κ)

/-! ## Finding and removing a key -/

/-- The element with key `k`. -/
def find (k : κ) (xs : List α) : Option α := xs.find? fun x ↦ key x = k

/-- The elements with another key. -/
def without (k : κ) (xs : List α) : List α := xs.filter fun x ↦ key x ≠ k

variable {key}

theorem mem_of_find {k : κ} {xs : List α} {x : α} (h : find key k xs = some x) : x ∈ xs :=
  List.mem_of_find?_eq_some h

theorem key_of_find {k : κ} {xs : List α} {x : α} (h : find key k xs = some x) : key x = k := by
  simpa using List.find?_some h

theorem find_eq_none {k : κ} {xs : List α} : find key k xs = none ↔ ∀ x ∈ xs, key x ≠ k := by
  simp [find, List.find?_eq_none]

theorem find_eq_some_iff {k : κ} {xs : List α} (hnd : (xs.map key).Nodup) {x : α} :
    find key k xs = some x ↔ x ∈ xs ∧ key x = k := by
  constructor
  · exact fun h ↦ ⟨mem_of_find h, key_of_find h⟩
  · rintro ⟨hx, hk⟩
    cases hfind : find key k xs with
    | none => exact absurd hk (find_eq_none.mp hfind x hx)
    | some y =>
      have hkey : key y = key x := by rw [key_of_find hfind, hk]
      rw [List.inj_on_of_nodup_map hnd (mem_of_find hfind) hx hkey]

theorem mem_without {k : κ} {xs : List α} {x : α} :
    x ∈ without key k xs ↔ x ∈ xs ∧ key x ≠ k := by
  simp [without]

/-! ### What is left

A removed key leaves a sublist. Where the keys are distinct it takes exactly one element away, and
this is stated as a permutation: lengths, sums and counts are all read off it. -/

theorem without_of_forall_ne {k : κ} {xs : List α} (h : ∀ x ∈ xs, key x ≠ k) :
    without key k xs = xs :=
  List.filter_eq_self.mpr fun x hx ↦ by simpa using h x hx

theorem without_sublist (k : κ) (xs : List α) : (without key k xs).Sublist xs :=
  List.filter_sublist

@[simp] theorem without_cons_self (x : α) (xs : List α) :
    without key (key x) (x :: xs) = without key (key x) xs :=
  List.filter_cons_of_neg (by simp)

theorem find_cons_self (x : α) (xs : List α) : find key (key x) (x :: xs) = some x :=
  List.find?_cons_of_pos (by simp)

theorem perm_cons_without {xs : List α} (hnd : (xs.map key).Nodup) {x : α} (hx : x ∈ xs) :
    xs.Perm (x :: without key (key x) xs) := by
  induction xs with
  | nil => cases hx
  | cons y ys ih =>
    rw [List.map_cons, List.nodup_cons] at hnd
    rcases List.mem_cons.mp hx with rfl | hx'
    · rw [without_cons_self, without_of_forall_ne]
      intro z hz hkey
      exact hnd.1 (hkey ▸ List.mem_map_of_mem hz)
    · have hne : key y ≠ key x := fun hkey ↦ hnd.1 (hkey ▸ List.mem_map_of_mem hx')
      have hstep : without key (key x) (y :: ys) = y :: without key (key x) ys :=
        List.filter_cons_of_pos (by simpa using hne)
      rw [hstep]
      exact ((ih hnd.2 hx').cons y).trans (List.Perm.swap _ _ _)

theorem without_getLast {xs : List α} {x : α} (hnd : ((xs ++ [x]).map key).Nodup) :
    without key (key x) (xs ++ [x]) = xs := by
  rw [without, List.filter_append, List.filter_cons_of_neg (by simp), List.filter_nil,
    List.append_nil]
  refine without_of_forall_ne fun z hz hkey ↦ ?_
  rw [List.map_append, List.nodup_append] at hnd
  exact hnd.2.2 _ (List.mem_map_of_mem hz) _ (List.mem_map_of_mem List.mem_cons_self) hkey

/-! ## Changing the element type -/

section Map

variable {β : Type} {key' : β → κ} {f : α → β} (hf : ∀ x, key' (f x) = key x)
include hf

theorem find_map (k : κ) (xs : List α) : find key' k (xs.map f) = (find key k xs).map f := by
  rw [find, List.find?_map, find]
  congr 2
  funext x
  rw [Function.comp_apply, hf]

theorem without_map (k : κ) (xs : List α) :
    without key' k (xs.map f) = (without key k xs).map f := by
  rw [without, List.filter_map, without]
  congr 2
  funext x
  rw [Function.comp_apply, hf]

omit [DecidableEq κ] in
theorem map_key_map (xs : List α) : (xs.map f).map key' = xs.map key := by
  rw [List.map_map]
  exact List.map_congr_left fun x _ ↦ hf x

end Map

/-! ## Weights and budgets -/

section Weight

variable (w : α → ℕ)

/-- The total weight. -/
def total (xs : List α) : ℕ := (xs.map w).sum

@[simp] theorem total_nil : total w [] = 0 := rfl

@[simp] theorem total_cons (x : α) (xs : List α) : total w (x :: xs) = w x + total w xs := by
  rw [total, List.map_cons, List.sum_cons, total]

@[simp] theorem total_append (xs ys : List α) : total w (xs ++ ys) = total w xs + total w ys := by
  rw [total, List.map_append, List.sum_append, total, total]

theorem total_perm {xs ys : List α} (h : xs.Perm ys) : total w xs = total w ys :=
  (h.map w).sum_eq

theorem total_sublist_le {xs ys : List α} (h : xs.Sublist ys) : total w xs ≤ total w ys := by
  induction h with
  | slnil => exact le_refl _
  | cons y _ ih => rw [total_cons]; exact ih.trans (Nat.le_add_left _ _)
  | cons_cons y _ ih => rw [total_cons, total_cons]; exact Nat.add_le_add_left ih _

theorem total_without {xs : List α} (hnd : (xs.map key).Nodup) {x : α} (hx : x ∈ xs) :
    w x + total w (without key (key x) xs) = total w xs := by
  rw [total_perm w (perm_cons_without hnd hx), total_cons]

/-! ### The longest prefix that fits

The definition goes from the front and spends the budget. Code that evicts goes from the back and
stops when the rest fits; both find the same prefix, since a prefix that is too long stays too long
when more is added. -/

/-- The longest prefix whose total weight is within the budget. -/
def fitting : ℕ → List α → List α
  | _, [] => []
  | budget, x :: xs => if w x ≤ budget then x :: fitting (budget - w x) xs else []

theorem fitting_cons (budget : ℕ) (x : α) (xs : List α) :
    fitting w budget (x :: xs) = if w x ≤ budget then x :: fitting w (budget - w x) xs else [] :=
  rfl

theorem fitting_initial (xs : List α) : ∀ budget, fitting w budget xs <+: xs := by
  induction xs with
  | nil => intro budget; exact List.prefix_refl _
  | cons x xs ih =>
    intro budget
    rw [fitting]
    split
    · exact (List.prefix_cons_inj x).mpr (ih _)
    · exact List.nil_prefix

theorem total_fitting_le (xs : List α) : ∀ budget, total w (fitting w budget xs) ≤ budget := by
  induction xs with
  | nil => intro budget; exact Nat.zero_le _
  | cons x xs ih =>
    intro budget
    rw [fitting]
    split
    · rename_i hle
      have := ih (budget - w x)
      rw [total_cons]
      omega
    · exact Nat.zero_le _

theorem fitting_eq_self {xs : List α} : ∀ {budget : ℕ}, total w xs ≤ budget →
    fitting w budget xs = xs := by
  induction xs with
  | nil => intro budget _; rfl
  | cons x xs ih =>
    intro budget h
    rw [total_cons] at h
    rw [fitting, if_pos (by omega), ih (by omega)]

theorem fitting_dropLast {xs : List α} : ∀ {budget : ℕ}, budget < total w xs →
    fitting w budget xs = fitting w budget xs.dropLast := by
  induction xs with
  | nil => intro budget h; exact absurd h (Nat.not_lt_zero _)
  | cons x xs ih =>
    intro budget h
    rw [total_cons] at h
    cases xs with
    | nil =>
      rw [fitting, if_neg (by simpa using h)]
      rfl
    | cons y ys =>
      rw [List.dropLast_cons_cons, fitting_cons w budget x (y :: ys),
        fitting_cons w budget x (y :: ys).dropLast]
      by_cases hx : w x ≤ budget
      · rw [if_pos hx, if_pos hx, ih (by omega)]
      · rw [if_neg hx, if_neg hx]

/-- Nothing longer fits. -/
theorem prefix_fitting_of_total_le {xs : List α} : ∀ {budget : ℕ} {ys : List α}, ys <+: xs →
    total w ys ≤ budget → ys <+: fitting w budget xs := by
  induction xs with
  | nil => intro budget ys hpre _; rw [List.prefix_nil.mp hpre]; exact List.nil_prefix
  | cons x xs ih =>
    intro budget ys hpre htotal
    cases ys with
    | nil => exact List.nil_prefix
    | cons y ys =>
      obtain ⟨rfl, hpre'⟩ := List.cons_prefix_cons.mp hpre
      rw [total_cons] at htotal
      rw [fitting, if_pos (by omega)]
      exact (List.prefix_cons_inj y).mpr (ih hpre' (by omega))

/-- A prefix is within the budget exactly if it is one of the fitting prefix. -/
theorem total_le_iff {xs ys : List α} {budget : ℕ} (hpre : ys <+: xs) :
    total w ys ≤ budget ↔ ys <+: fitting w budget xs :=
  ⟨prefix_fitting_of_total_le w hpre, fun h ↦
    (total_sublist_le w h.sublist).trans (total_fitting_le w xs budget)⟩

/-! ### What does not fit -/

/-- What lies beyond the longest fitting prefix. -/
def overflow (budget : ℕ) (xs : List α) : List α := xs.drop (fitting w budget xs).length

theorem fitting_append_overflow (budget : ℕ) (xs : List α) :
    fitting w budget xs ++ overflow w budget xs = xs := by
  obtain ⟨rest, hrest⟩ := fitting_initial w xs budget
  rw [overflow]
  nth_rewrite 3 [← hrest]
  rw [List.drop_left, hrest]

theorem overflow_eq_nil {budget : ℕ} {xs : List α} (h : total w xs ≤ budget) :
    overflow w budget xs = [] := by
  rw [overflow, fitting_eq_self w h, List.drop_length]

theorem overflow_append_singleton {budget : ℕ} {xs : List α} {x : α}
    (h : budget < total w (xs ++ [x])) :
    overflow w budget (xs ++ [x]) = overflow w budget xs ++ [x] := by
  have hfit : fitting w budget (xs ++ [x]) = fitting w budget xs := by
    rw [fitting_dropLast w h, List.dropLast_concat]
  have hlen : (fitting w budget xs).length ≤ xs.length := (fitting_initial w xs budget).length_le
  rw [overflow, hfit, overflow, List.drop_append_of_le_length hlen]

section Map

variable {β : Type} {w' : β → ℕ} {f : α → β} (hf : ∀ x, w' (f x) = w x)
include hf

theorem total_map (xs : List α) : total w' (xs.map f) = total w xs := by
  rw [total, List.map_map, total]
  congr 1
  exact List.map_congr_left fun x _ ↦ hf x

theorem fitting_map (xs : List α) : ∀ budget,
    fitting w' budget (xs.map f) = (fitting w budget xs).map f := by
  induction xs with
  | nil => intro budget; rfl
  | cons x xs ih =>
    intro budget
    rw [List.map_cons, fitting_cons, fitting_cons, hf]
    split
    · rw [ih, List.map_cons]
    · rfl

theorem overflow_map (budget : ℕ) (xs : List α) :
    overflow w' budget (xs.map f) = (overflow w budget xs).map f := by
  rw [overflow, fitting_map w hf, List.length_map, overflow, List.map_drop]

end Map

end Weight

end KeyedList
