import Mathlib.Data.List.Nodup

/-!
# Things that move between places

A family of lists holds things, each list those at one place. The abstract state is a function that
says where each thing is, so that a thing cannot be at two places or twice at one; `Placed` relates
the lists to it. The lists keep to it when a thing comes in that was nowhere (`Placed.enter`), and
when some move from the list of one place to the list of another (`Placed.move`).
-/

/-! ## Places

Counting is what makes the relation one statement: a thing that is in two lists, or twice in one,
and a thing that has been lost all break the same equation. -/

namespace Placement

variable {α P : Type} [DecidableEq α] [DecidableEq P]

/-- Every thing is in the list of its place, once, and in no other list. -/
def Placed (lists : P → List α) (place : α → Option P) : Prop :=
  ∀ x p, (lists p).count x = if place x = some p then 1 else 0

variable {lists lists' : P → List α} {place : α → Option P}

theorem Placed.mem_iff (h : Placed lists place) {x : α} {p : P} :
    x ∈ lists p ↔ place x = some p := by
  rw [← List.count_pos_iff, h x p]
  split
  · exact iff_of_true Nat.one_pos ‹_›
  · exact iff_of_false (Nat.lt_irrefl 0) ‹_›

theorem Placed.nodup (h : Placed lists place) (p : P) : (lists p).Nodup := by
  rw [List.nodup_iff_count_le_one]
  intro x
  rw [h x p]
  split
  · exact Nat.le_refl 1
  · exact Nat.zero_le 1

theorem Placed.unique (h : Placed lists place) {x : α} {p : P} (hx : place x = some p) :
    (lists p).count x = 1 ∧ ∀ q, q ≠ p → x ∉ lists q := by
  refine ⟨by rw [h x p, if_pos hx], fun q hq hmem ↦ hq ?_⟩
  rw [h.mem_iff, hx, Option.some.injEq] at hmem
  exact hmem.symm

/-! ## Moves

Both rules leave the order of the lists open, so a queue and a stack are moved from alike. -/

theorem Placed.enter (h : Placed lists place) {x : α} (hx : place x = none) {p : P}
    (hp : lists' p = x :: lists p) (hrest : ∀ q, q ≠ p → lists' q = lists q) :
    Placed lists' (Function.update place x (some p)) := by
  intro y q
  by_cases hy : y = x
  · subst hy
    have hnone := h y q
    simp only [hx] at hnone
    rw [Function.update_self]
    by_cases hq : q = p
    · subst hq
      rw [hp, List.count_cons_self, hnone, if_neg (by rintro ⟨⟩), if_pos rfl]
    · rw [hrest q hq, hnone, if_neg (by rintro ⟨⟩), if_neg fun heq ↦ hq (Option.some.inj heq).symm]
  · rw [Function.update_of_ne hy, ← h y q]
    by_cases hq : q = p
    · subst hq
      rw [hp, List.count_cons_of_ne (Ne.symm hy)]
    · rw [hrest q hq]

/-- **Some things move from one place to another.** -/
theorem Placed.move (h : Placed lists place) {p q : P} (hpq : p ≠ q) {moved : List α}
    (hp : (lists p).Perm (moved ++ lists' p)) (hq : (lists' q).Perm (moved ++ lists q))
    (hrest : ∀ r, r ≠ p → r ≠ q → lists' r = lists r) :
    Placed lists' fun x ↦ if x ∈ moved then some q else place x := by
  intro x r
  have hfrom : (lists p).count x = moved.count x + (lists' p).count x := by
    rw [hp.count_eq, List.count_append]
  have hto : (lists' q).count x = moved.count x + (lists q).count x := by
    rw [hq.count_eq, List.count_append]
  by_cases hx : x ∈ moved
  · -- what moves was at `p`, hence there once and not at `q`
    have hpos : 0 < moved.count x := List.count_pos_iff.mpr hx
    have hplace : place x = some p := h.mem_iff.mp (List.count_pos_iff.mp (by omega))
    have hold := h x
    simp only [hplace, Option.some.injEq] at hold
    rw [hold, if_pos rfl] at hfrom
    rw [hold, if_neg hpq] at hto
    simp only [hx, if_true, Option.some.injEq]
    by_cases hr : r = q
    · subst hr
      rw [if_pos rfl]
      omega
    · rw [if_neg (Ne.symm hr)]
      by_cases hr' : r = p
      · subst hr'
        omega
      · rw [hrest r hr' hr, hold, if_neg (Ne.symm hr')]
  · have hzero : moved.count x = 0 := List.count_eq_zero.mpr hx
    have hsame : (lists' r).count x = (lists r).count x := by
      by_cases hr : r = q
      · subst hr
        omega
      · by_cases hr' : r = p
        · subst hr'
          omega
        · rw [hrest r hr' hr]
    simp only [hx, if_false]
    rw [hsame, h x r]

end Placement
