import Mathlib.Data.Nat.Basic
import Mathlib.Order.WellFounded
import Mathlib.Tactic.Common

/-!
# Fair runs

Threads that run side by side are a step function `σ → α → Option σ`: an action that a state does
not allow gives `none`. A `label` says whose action it is, and actions without a label are choices
of the surroundings, which need never be made. An infinite run is fair when a thread that could
always take an action from some time on does take one.

The rule `Progress.eventually` proves that a fair run arrives. It asks for a rank, and for each
state the thread whose turn it is: that thread can act, and every action of it lowers the rank,
while the actions of the others lower the rank too or leave both the rank and the turn as they are.

## Why the turn is part of the rule

The usual rule for progress under weak fairness has one helpful thread for each value of the rank.
Here the turn is a function of the state, and it may move from thread to thread while the rank
falls; what it may not do is change while the rank stays. A thread that has the turn is therefore
enabled until the rank changes, which is the premise of fairness.
-/

/-! ## Runs and fairness -/

namespace Fairness

variable {σ α κ β : Type} {step : σ → α → Option σ} {label : α → Option κ}

/-- An infinite run. At a time without an action nothing happens. -/
structure Trace (step : σ → α → Option σ) where
  state : ℕ → σ
  action : ℕ → Option α
  next : ∀ i, (action i).elim (some (state i)) (step (state i)) = some (state (i + 1))

/-- A thread can take an action. -/
def Enabled (step : σ → α → Option σ) (label : α → Option κ) (t : κ) (s : σ) : Prop :=
  ∃ a s', label a = some t ∧ step s a = some s'

/-- A thread that can take an action from some time on takes one. -/
def Trace.Fair (label : α → Option κ) (r : Trace step) : Prop :=
  ∀ t i, (∀ j, i ≤ j → Enabled step label t (r.state j)) →
    ∃ j, i ≤ j ∧ ∃ a, r.action j = some a ∧ label a = some t

/-! ## The rule -/

/-- From `Q` the steps lead towards `P`. -/
structure Progress [LT β] (step : σ → α → Option σ) (label : α → Option κ) (Q P : σ → Prop)
    (rank : σ → β) (turn : σ → κ) : Prop where
  enabled : ∀ s, Q s → Enabled step label (turn s) s
  advances : ∀ s a s', Q s → step s a = some s' → P s' ∨ Q s' ∧ (rank s' < rank s
    ∨ rank s' = rank s ∧ turn s' = turn s ∧ label a ≠ some (turn s))

namespace Progress

variable [Preorder β] {Q P : σ → Prop} {rank : σ → β} {turn : σ → κ}

theorem next (h : Progress step label Q P rank turn) (r : Trace step) {i : ℕ} (hQ : Q (r.state i)) :
    P (r.state (i + 1)) ∨ Q (r.state (i + 1)) ∧ (rank (r.state (i + 1)) < rank (r.state i)
      ∨ rank (r.state (i + 1)) = rank (r.state i) ∧ turn (r.state (i + 1)) = turn (r.state i)
        ∧ ∀ a, r.action i = some a → label a ≠ some (turn (r.state i))) := by
  have hnext := r.next i
  cases haction : r.action i with
  | none =>
    rw [haction] at hnext
    have hstate : r.state (i + 1) = r.state i := (Option.some.inj hnext).symm
    rw [hstate]
    exact Or.inr ⟨hQ, Or.inr ⟨rfl, rfl, fun a ha ↦ by cases ha⟩⟩
  | some a =>
    rw [haction] at hnext
    refine (h.advances _ a _ hQ hnext).imp id (And.imp id (Or.imp id ?_))
    rintro ⟨hrank, hturn, hlabel⟩
    refine ⟨hrank, hturn, fun a' ha' ↦ ?_⟩
    cases ha'
    exact hlabel

/-- As long as neither the goal nor a lower rank is reached, nothing changes. -/
theorem stays (h : Progress step label Q P rank turn) (r : Trace step) {i : ℕ} (hQ : Q (r.state i))
    (hgoal : ∀ j, i ≤ j → ¬ P (r.state j))
    (hrank : ∀ j, i ≤ j → Q (r.state j) → ¬ rank (r.state j) < rank (r.state i)) (d : ℕ) :
    Q (r.state (i + d)) ∧ rank (r.state (i + d)) = rank (r.state i)
      ∧ turn (r.state (i + d)) = turn (r.state i) := by
  induction d with
  | zero => exact ⟨hQ, rfl, rfl⟩
  | succ d ih =>
    obtain ⟨hQd, hrankd, hturnd⟩ := ih
    have hle : i ≤ i + d + 1 := Nat.le_add_right_of_le (Nat.le_add_right _ _)
    obtain ⟨hQ', hlt | ⟨heq, hturn, -⟩⟩ := (h.next r hQd).resolve_left (hgoal _ hle)
    · rw [hrankd] at hlt
      exact absurd hlt (hrank _ hle hQ')
    · exact ⟨hQ', heq.trans hrankd, hturn.trans hturnd⟩

/-- **A fair run that starts towards the goal arrives.** -/
theorem eventually [WellFoundedLT β] (h : Progress step label Q P rank turn) (r : Trace step)
    (hfair : r.Fair label) : ∀ i, Q (r.state i) → ∃ j, i ≤ j ∧ P (r.state j) := by
  suffices hall : ∀ b, ∀ i, rank (r.state i) = b → Q (r.state i) → ∃ j, i ≤ j ∧ P (r.state j) from
    fun i hQ ↦ hall _ i rfl hQ
  intro b
  induction b using WellFoundedLT.induction with
  | ind b ih =>
    intro i hb hQ
    by_contra hnot
    have hgoal : ∀ j, i ≤ j → ¬ P (r.state j) := fun j hj hP ↦ hnot ⟨j, hj, hP⟩
    have hrank : ∀ j, i ≤ j → Q (r.state j) → ¬ rank (r.state j) < rank (r.state i) := by
      intro j hj hQj hlt
      obtain ⟨k, hk, hP⟩ := ih _ (hb ▸ hlt) j rfl hQj
      exact hgoal k (hj.trans hk) hP
    have hstays := h.stays r hQ hgoal hrank
    -- so the thread whose turn it is can always act, and when it does the rank falls
    have henabled : ∀ j, i ≤ j → Enabled step label (turn (r.state i)) (r.state j) := by
      intro j hj
      obtain ⟨d, rfl⟩ := Nat.exists_eq_add_of_le hj
      obtain ⟨hQd, -, hturn⟩ := hstays d
      rw [← hturn]
      exact h.enabled _ hQd
    obtain ⟨j, hj, a, haction, hlabel⟩ := hfair _ i henabled
    obtain ⟨d, rfl⟩ := Nat.exists_eq_add_of_le hj
    obtain ⟨hQd, hrankd, hturn⟩ := hstays d
    have hle : i ≤ i + d + 1 := Nat.le_add_right_of_le (Nat.le_add_right _ _)
    obtain ⟨hQ', hlt | ⟨-, -, hother⟩⟩ := (h.next r hQd).resolve_left (hgoal _ hle)
    · rw [hrankd] at hlt
      exact hrank _ hle hQ' hlt
    · exact hother a haction (hturn ▸ hlabel)

end Progress

/-! ## Runs that end

A run that ends is fair only if no thread can go on in its last state. So a witness of a theorem
about fair runs may be finite, but not one that has been cut off. -/

/-- A finite run, after which nothing happens any more. -/
def Trace.ofList (step : σ → α → Option σ) (s s' : σ) (actions : List α)
    (h : actions.foldlM step s = some s') : Trace step where
  state i := ((actions.take i).foldlM step s).getD s'
  action i := actions[i]?
  next i := by
    have hstate : ∀ j, (actions.take j).foldlM step s ≠ none := by
      intro j hnone
      rw [← List.take_append_drop j actions, List.foldlM_append, hnone] at h
      cases h
    obtain ⟨t, ht⟩ := Option.ne_none_iff_exists'.mp (hstate i)
    obtain ⟨t', ht'⟩ := Option.ne_none_iff_exists'.mp (hstate (i + 1))
    rw [ht, ht', Option.getD_some, Option.getD_some]
    rw [List.take_add_one, List.foldlM_append, ht] at ht'
    cases haction : actions[i]? with
    | none =>
      rw [haction] at ht'
      exact ht'
    | some a =>
      rw [haction] at ht'
      simpa using ht'

theorem Trace.fair_ofList {s s' : σ} {actions : List α} (h : actions.foldlM step s = some s')
    (hend : ∀ t, ¬ Enabled step label t s') : (Trace.ofList step s s' actions h).Fair label := by
  intro t i henabled
  refine absurd (henabled (i + actions.length) (Nat.le_add_right _ _)) ?_
  have hstate : (Trace.ofList step s s' actions h).state (i + actions.length) = s' := by
    show ((actions.take (i + actions.length)).foldlM step s).getD s' = s'
    rw [List.take_of_length_le (Nat.le_add_left _ _), h, Option.getD_some]
  rw [hstate]
  exact hend t

end Fairness
