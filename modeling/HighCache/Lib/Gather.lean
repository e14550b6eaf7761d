import Mathlib.Algebra.BigOperators.Fin
import Mathlib.Algebra.Order.BigOperators.Group.List
import Mathlib.Algebra.Order.Ring.Nat

/-!
# Gathering from a family that changes

A loop goes through the cells of a family and adds up what it reads, one cell at a time, while
others may change the family between its steps. What it gathers never need have been in the family
all at once. Still each value was in its cell when it was read, so whatever holds of every cell at
all times holds of the values, cell by cell (`Tracks.complete`), and bounds on the cells add up to a
bound on the sum (`sum_le_of_forall₂`).
-/

/-! ## The loop -/

namespace Gather

variable {n : ℕ} {ρ ω : Type}

/-- The loop, with the cells still to visit, the values read so far and the total. -/
structure Loop (n : ℕ) (ρ ω : Type) where
  rest : List (Fin n)
  reads : List ρ
  total : ω

namespace Loop

/-- Before the first cell. -/
def enter (zero : ω) : Loop n ρ ω := ⟨List.finRange n, [], zero⟩

/-- The value of the next cell is read and added. -/
def take (add : ω → ρ → ω) (value : ρ) (l : Loop n ρ ω) : Loop n ρ ω :=
  ⟨l.rest.tail, l.reads ++ [value], add l.total value⟩

/-- The values read satisfy `P`, each with its cell, and the total is made of them. -/
structure Tracks (P : Fin n → ρ → Prop) (add : ω → ρ → ω) (zero : ω) (l : Loop n ρ ω) : Prop where
  visited : ∃ done, done ++ l.rest = List.finRange n ∧ List.Forall₂ P done l.reads
  total : l.total = l.reads.foldl add zero

variable {P : Fin n → ρ → Prop} {add : ω → ρ → ω} {zero : ω}

theorem tracks_enter : (enter zero : Loop n ρ ω).Tracks P add zero :=
  ⟨⟨[], rfl, .nil⟩, rfl⟩

/-- One step of the loop, at a moment when the value in the cell satisfies `P`. -/
theorem Tracks.take {l : Loop n ρ ω} (h : l.Tracks P add zero) {i : Fin n} {is : List (Fin n)}
    (hrest : l.rest = i :: is) {value : ρ} (hvalue : P i value) :
    (l.take add value).Tracks P add zero := by
  obtain ⟨⟨done, hdone, hP⟩, htotal⟩ := h
  refine ⟨⟨done ++ [i], ?_, ?_⟩, ?_⟩
  · rw [← hdone, Loop.take, hrest, List.append_assoc]
    rfl
  · exact List.rel_append hP (.cons hvalue .nil)
  · show add l.total value = (l.reads ++ [value]).foldl add zero
    rw [List.foldl_append, ← htotal]
    rfl

/-- **When the loop is over it has a value of every cell.** -/
theorem Tracks.complete {l : Loop n ρ ω} (h : l.Tracks P add zero) (hrest : l.rest = []) :
    List.Forall₂ P (List.finRange n) l.reads := by
  obtain ⟨⟨done, hdone, hP⟩, -⟩ := h
  rw [hrest, List.append_nil] at hdone
  exact hdone ▸ hP

end Loop

/-! ## Sums of what was read

The loop is over, and there is one value for each cell. Its total is computed in machine words, so
the bounds are what says that it did not wrap. -/

theorem sum_le_of_forall₂ {f : ρ → ℕ} {bound : Fin n → ℕ} {reads : List ρ}
    (h : List.Forall₂ (fun i value ↦ f value ≤ bound i) (List.finRange n) reads) :
    (reads.map f).sum ≤ ∑ i, bound i := by
  rw [Fin.sum_univ_def]
  refine List.Forall₂.sum_le_sum ?_
  rw [List.forall₂_map_left_iff, List.forall₂_map_right_iff]
  exact h.flip

theorem sum_le_sum_of_forall₂ {f g : ρ → ℕ} {is : List (Fin n)} {reads : List ρ}
    (h : List.Forall₂ (fun _ value ↦ f value ≤ g value) is reads) :
    (reads.map f).sum ≤ (reads.map g).sum := by
  induction h with
  | nil => exact le_refl _
  | cons hvalue _ ih =>
    rw [List.map_cons, List.map_cons, List.sum_cons, List.sum_cons]
    exact Nat.add_le_add hvalue ih

theorem foldl_add_word {f : ρ → ℕ} {w : ω → UInt64} {add : ω → ρ → ω}
    (hadd : ∀ total value, w (add total value) = w total + UInt64.ofNat (f value)) :
    ∀ (reads : List ρ) (total : ω),
      w (reads.foldl add total) = w total + UInt64.ofNat (reads.map f).sum := by
  intro reads
  induction reads with
  | nil => intro total; simp
  | cons value reads ih =>
    intro total
    rw [List.foldl_cons, ih, hadd, List.map_cons, List.sum_cons, UInt64.ofNat_add, UInt64.add_assoc]

end Gather
