import Mathlib.Algebra.Ring.Nat
import Mathlib.Data.List.Basic
import Mathlib.Order.Bounds.Basic
import Mathlib.Tactic.Common

/-!
# Runs of code that may fault

A shallow embedding of imperative code is a step function `σ → ι → Except ε (ο × σ)`: a state and
an input give an output and a state, or the run stops. This file fixes the reasons to stop that a
C++ translation needs, the 64-bit arithmetic that reports them, and the rules every
development over such steps uses: an invariant rule, a rule for the peak of a measure, a simulation
rule and a rule for two step functions in lockstep.

## Checked instead of wrapping

Unsigned arithmetic wraps silently. A translation that wraps silently too can only state the
absence of wrapping by naming every intermediate value, so the arithmetic here stops with
`Fault.wrap` at the operation whose 64-bit result would differ from the exact one. On a run that
does not stop the two readings agree, and "no run stops" is then the whole overflow claim.

## The remaining inputs

The simulation rule carries a predicate `Q` on the states and the inputs *still to come*. Budgets
("fewer than `n` of these inputs will be accepted") are conditions of that kind: they speak about
the future of the run and shrink with it, so they cannot be folded into a predicate on single
inputs.
-/

/-- A `std::string`: any bytes, with no terminator. -/
abbrev Bytes := List UInt8

/-! ## Faults -/

/-- Why a run of translated code stops. -/
inductive Fault where
  /-- An `assert` whose condition is false. -/
  | assertion
  /-- An iterator, pointer or element that does not exist is used. -/
  | invalidIterator
  /-- An unsigned operation leaves the 64-bit range. -/
  | wrap
  /-- An exception that nothing in the translated code catches. -/
  | exception (what : String)
  deriving DecidableEq, Repr

/-! ## Arithmetic that stops

The laws are stated for the case in which nothing stops; there each operation is the exact one, and
a proof that has the bound at hand never meets the other branch. -/

namespace Checked

/-- The number of values of a 64-bit unsigned integer. -/
def wordSize : ℕ := 2 ^ 64

/-- `a - b` on 64-bit unsigned integers. -/
def sub (a b : ℕ) : Except Fault ℕ := if b ≤ a then .ok (a - b) else .error .wrap

/-- `a + b` on 64-bit unsigned integers. -/
def add (a b : ℕ) : Except Fault ℕ := if a + b < wordSize then .ok (a + b) else .error .wrap

/-- `a * b` on 64-bit unsigned integers. -/
def mul (a b : ℕ) : Except Fault ℕ := if a * b < wordSize then .ok (a * b) else .error .wrap

/-- `assert(condition)`. -/
def assert (condition : Bool) : Except Fault Unit :=
  if condition then .ok () else .error .assertion

theorem sub_eq {a b : ℕ} (h : b ≤ a) : sub a b = .ok (a - b) := if_pos h

theorem add_eq {a b : ℕ} (h : a + b < wordSize) : add a b = .ok (a + b) := if_pos h

theorem mul_eq {a b : ℕ} (h : a * b < wordSize) : mul a b = .ok (a * b) := if_pos h

theorem assert_eq {condition : Bool} (h : condition = true) : assert condition = .ok () := if_pos h

end Checked

/-! ## Computations in parts

A function translated from source with early exits is a chain of `do` blocks. `bind_eq_ok_iff` takes
such a chain apart when it is known to have gone through; `Ensures` is what one asserts of it when
it may have stopped, with the reasons for stopping named beside what holds otherwise. -/

@[simp] theorem Except.ok_bind_eq {ε α β : Type} (a : α) (f : α → Except ε β) :
    (Except.ok a >>= f) = f a := rfl

@[simp] theorem Except.error_bind_eq {ε α β : Type} (e : ε) (f : α → Except ε β) :
    ((Except.error e : Except ε α) >>= f) = .error e := rfl

/-- A computation that went through went through step by step. -/
theorem Except.bind_eq_ok_iff {ε α β : Type} {x : Except ε α} {f : α → Except ε β} {b : β} :
    (x >>= f) = .ok b ↔ ∃ a, x = .ok a ∧ f a = .ok b := by
  cases x with
  | error e => simp
  | ok a => simp

theorem Except.ok_unique {ε α β : Type} {x : Except ε (α × β)} {a a' : α} {b b' : β}
    (h : x = .ok (a, b)) (h' : x = .ok (a', b')) : a = a' ∧ b = b' := by
  rw [h, Except.ok.injEq, Prod.mk.injEq] at h'
  exact h'

theorem Except.eq_ok_of_toOption {ε α : Type} {x : Except ε α} {a : α} (h : x.toOption = some a) :
    x = .ok a := by
  cases x with
  | error e => cases h
  | ok a' => exact congrArg Except.ok (Option.some.inj h)

/-- A computation that goes through ends in `Q`, and one that stops does so for a reason in `E`. -/
def Except.Ensures {ε α : Type} (x : Except ε α) (Q : α → Prop) (E : ε → Prop) : Prop :=
  match x with
  | .ok a => Q a
  | .error e => E e

namespace Except.Ensures

variable {ε α β : Type} {E : ε → Prop}

theorem mono {x : Except ε α} {Q Q' : α → Prop} (h : x.Ensures Q E) (hQ : ∀ a, Q a → Q' a) :
    x.Ensures Q' E := by
  cases x with
  | error e => exact h
  | ok a => exact hQ a h

theorem mono_error {x : Except ε α} {Q : α → Prop} {E' : ε → Prop} (h : x.Ensures Q E)
    (hE : ∀ e, E e → E' e) : x.Ensures Q E' := by
  cases x with
  | error e => exact hE e h
  | ok a => exact h

theorem bind {x : Except ε α} {f : α → Except ε β} {Q : α → Prop} {Q' : β → Prop}
    (h : x.Ensures Q E) (hf : ∀ a, Q a → (f a).Ensures Q' E) : (x >>= f).Ensures Q' E := by
  cases x with
  | error e => exact h
  | ok a => exact hf a h

theorem and {x : Except ε α} {Q Q' : α → Prop} {E' : ε → Prop} (h : x.Ensures Q E)
    (h' : x.Ensures Q' E') : x.Ensures (fun a ↦ Q a ∧ Q' a) fun e ↦ E e ∧ E' e := by
  cases x with
  | error e => exact ⟨h, h'⟩
  | ok a => exact ⟨h, h'⟩

end Except.Ensures

/-! ## Runs -/

namespace Transition

variable {σ τ ι κ ο ε : Type}

/-- Feed a list of inputs, collecting the outputs. -/
def run (step : σ → ι → Except ε (ο × σ)) : σ → List ι → Except ε (List ο × σ)
  | s, [] => .ok ([], s)
  | s, i :: is => do
    let (o, s') ← step s i
    let (os, s'') ← run step s' is
    .ok (o :: os, s'')

/-- The run of a step function that cannot stop. -/
def runTotal (step : τ → ι → ο × τ) : τ → List ι → List ο × τ
  | t, [] => ([], t)
  | t, i :: is =>
    let (o, t') := step t i
    let (os, t'') := runTotal step t' is
    (o :: os, t'')

@[simp] theorem run_nil (step : σ → ι → Except ε (ο × σ)) (s : σ) :
    run step s [] = .ok ([], s) := rfl

theorem run_cons {step : σ → ι → Except ε (ο × σ)} {s s' : σ} {i : ι} {o : ο}
    (h : step s i = .ok (o, s')) (is : List ι) :
    run step s (i :: is) = run step s' is >>= fun r ↦ .ok (o :: r.1, r.2) := by
  rw [run, h]
  rfl

@[simp] theorem runTotal_cons (step : τ → ι → ο × τ) (t : τ) (i : ι) (is : List ι) :
    runTotal step t (i :: is)
      = ((step t i).1 :: (runTotal step (step t i).2 is).1, (runTotal step (step t i).2 is).2) :=
  rfl

/-- A run that went through took a first step and ran on. -/
theorem run_cons_ok {step : σ → ι → Except ε (ο × σ)} {s s'' : σ} {i : ι} {is : List ι}
    {os : List ο} (h : run step s (i :: is) = .ok (os, s'')) :
    ∃ o os' s', step s i = .ok (o, s') ∧ run step s' is = .ok (os', s'') ∧ os = o :: os' := by
  cases hstep : step s i with
  | error e => rw [run, hstep] at h; cases h
  | ok r =>
    obtain ⟨o, s'⟩ := r
    rw [run_cons hstep] at h
    cases hrun : run step s' is with
    | error e => rw [hrun] at h; cases h
    | ok r =>
      obtain ⟨os', t⟩ := r
      rw [hrun] at h
      cases h
      exact ⟨o, os', s', rfl, hrun, rfl⟩

theorem run_append {step : σ → ι → Except ε (ο × σ)} {is js : List ι} :
    ∀ {s s' : σ} {os : List ο}, run step s is = .ok (os, s') →
      run step s (is ++ js) = run step s' js >>= fun r ↦ .ok (os ++ r.1, r.2) := by
  induction is with
  | nil =>
    intro s s' os h
    rw [run_nil, Except.ok.injEq, Prod.mk.injEq] at h
    obtain ⟨rfl, rfl⟩ := h
    cases hrun : run step s js with
    | error e => rw [List.nil_append, hrun]; rfl
    | ok r => rw [List.nil_append, hrun]; rfl
  | cons i is ih =>
    intro s s' os h
    obtain ⟨o, os', t, hstep, hrun, rfl⟩ := run_cons_ok h
    rw [List.cons_append, run_cons hstep, ih hrun]
    cases run step s' js <;> rfl

theorem run_singleton {step : σ → ι → Except ε (ο × σ)} {s s' : σ} {i : ι} {o : ο} :
    run step s [i] = .ok ([o], s') ↔ step s i = .ok (o, s') := by
  constructor
  · intro h
    obtain ⟨o', os', s₁, hstep, hrest, heq⟩ := run_cons_ok h
    cases hrest
    cases heq
    exact hstep
  · intro h
    rw [run_cons h]
    rfl

theorem length_of_run {step : σ → ι → Except ε (ο × σ)} (is : List ι) :
    ∀ {s s' : σ} {os : List ο}, run step s is = .ok (os, s') → os.length = is.length := by
  induction is with
  | nil =>
    intro s s' os h
    cases h
    rfl
  | cons i is ih =>
    intro s s' os h
    obtain ⟨o, os', t, -, hrun, rfl⟩ := run_cons_ok h
    exact congrArg Nat.succ (ih hrun)

theorem run_append_ok {step : σ → ι → Except ε (ο × σ)} {s s'' : σ} {is js : List ι}
    {os ps : List ο} (h : run step s (is ++ js) = .ok (os ++ ps, s''))
    (hlength : os.length = is.length) :
    ∃ s', run step s is = .ok (os, s') ∧ run step s' js = .ok (ps, s'') := by
  induction is generalizing s os with
  | nil =>
    obtain rfl := List.length_eq_zero_iff.mp hlength
    exact ⟨s, rfl, h⟩
  | cons i is ih =>
    cases os with
    | nil => cases hlength
    | cons o os =>
      obtain ⟨o', os', t, hstep, hrun, heq⟩ := run_cons_ok h
      obtain ⟨rfl, rfl⟩ := List.cons.inj heq
      obtain ⟨s', his, hjs⟩ := ih hrun (Nat.succ.inj hlength)
      exact ⟨s', by rw [run_cons hstep, his]; rfl, hjs⟩

/-- The states some list of inputs leads to. -/
def Reachable (step : σ → ι → Except ε (ο × σ)) (s₀ s : σ) : Prop :=
  ∃ is os, run step s₀ is = .ok (os, s)

theorem Reachable.refl (step : σ → ι → Except ε (ο × σ)) (s : σ) : Reachable step s s :=
  ⟨[], [], rfl⟩

/-! ## The rules -/

/-- **The invariant rule.** A step that goes through and keeps `Inv` from every state in `Inv` runs
to the end of every input list. -/
theorem run_invariant {step : σ → ι → Except ε (ο × σ)} {Inv : σ → Prop}
    (hstep : ∀ s i, Inv s → ∃ o s', step s i = .ok (o, s') ∧ Inv s') :
    ∀ (is : List ι) {s : σ}, Inv s → ∃ os s', run step s is = .ok (os, s') ∧ Inv s' := by
  intro is
  induction is with
  | nil => intro s h; exact ⟨[], s, rfl, h⟩
  | cons i is ih =>
    intro s h
    obtain ⟨o, s', hs, hinv⟩ := hstep s i h
    obtain ⟨os, s'', hrun, hinv'⟩ := ih hinv
    exact ⟨o :: os, s'', by rw [run_cons hs, hrun]; rfl, hinv'⟩

/-! ### Inputs that must be permitted

A caller owes something to some functions: memory is given back once, and with the size it was asked
for. What is owed depends on the state the call comes in, so it is a predicate along the run and not
on the list of inputs. -/

/-- Every input is permitted in the state it comes in. -/
def Permits (permitted : σ → ι → Prop) (step : σ → ι → Except ε (ο × σ)) : σ → List ι → Prop
  | _, [] => True
  | s, i :: is =>
    permitted s i ∧ ∀ o s', step s i = .ok (o, s') → Permits permitted step s' is

theorem run_permitted {step : σ → ι → Except ε (ο × σ)} {permitted : σ → ι → Prop}
    {Inv : σ → Prop} {Q : ο → Prop}
    (hstep : ∀ s i, Inv s → permitted s i → ∃ o s', step s i = .ok (o, s') ∧ Q o ∧ Inv s') :
    ∀ (is : List ι) {s : σ}, Inv s → Permits permitted step s is →
      ∃ os s', run step s is = .ok (os, s') ∧ (∀ o ∈ os, Q o) ∧ Inv s' := by
  intro is
  induction is with
  | nil => intro s h _; exact ⟨[], s, rfl, List.forall_mem_nil _, h⟩
  | cons i is ih =>
    intro s h hpermits
    obtain ⟨o, s', hs, hQ, hinv⟩ := hstep s i h hpermits.1
    obtain ⟨os, s'', hrun, hQ', hinv'⟩ := ih hinv (hpermits.2 o s' hs)
    refine ⟨o :: os, s'', ?_, List.forall_mem_cons.mpr ⟨hQ, hQ'⟩, hinv'⟩
    rw [run_cons hs, hrun]
    rfl

theorem run_ensures {step : σ → ι → Except ε (ο × σ)} {Inv : σ → Prop} {E : ε → Prop}
    (hstep : ∀ s i, Inv s → (step s i).Ensures (fun r ↦ Inv r.2) E) :
    ∀ (is : List ι) {s : σ}, Inv s → (run step s is).Ensures (fun r ↦ Inv r.2) E := by
  intro is
  induction is with
  | nil => intro s h; exact h
  | cons i is ih =>
    intro s h
    rw [run]
    refine (hstep s i h).bind fun r hr ↦ ?_
    exact (ih hr).bind fun r' hr' ↦ hr'

theorem Reachable.invariant {step : σ → ι → Except ε (ο × σ)} {Inv : σ → Prop}
    (hstep : ∀ s i, Inv s → ∃ o s', step s i = .ok (o, s') ∧ Inv s') {s₀ s : σ}
    (h : Reachable step s₀ s) (h₀ : Inv s₀) : Inv s := by
  obtain ⟨is, os, hrun⟩ := h
  obtain ⟨os', s', hrun', hinv⟩ := run_invariant hstep is h₀
  exact (Except.ok_unique hrun' hrun).2 ▸ hinv

/-! ### Runs with more in their state

Counters that the code does not have, kept beside its state for a proof, do not change what it
does. -/

/-- A run with more in its state is a run without. -/
theorem run_project {step : σ → ι → Except ε (ο × σ)} {step' : τ → ι → Except ε (ο × τ)}
    {f : σ → τ} (hstep : ∀ {s i o s'}, step s i = .ok (o, s') → step' (f s) i = .ok (o, f s')) :
    ∀ (is : List ι) {s s' : σ} {os : List ο}, run step s is = .ok (os, s') →
      run step' (f s) is = .ok (os, f s') := by
  intro is
  induction is with
  | nil =>
    intro s s' os h
    rw [run_nil, Except.ok.injEq, Prod.mk.injEq] at h
    rw [run_nil, h.1, h.2]
  | cons i is ih =>
    intro s s' os h
    obtain ⟨o, os', t, hs, hrun, rfl⟩ := run_cons_ok h
    rw [run_cons (hstep hs), ih hrun]
    rfl

/-! ### Peaks

The largest value that a measure takes on a run is reached in some state that the run passes
through, which need not be the last. -/

/-- The states a run passes through, the first and the last among them. -/
def Visits (step : σ → ι → Except ε (ο × σ)) (s : σ) (is : List ι) (t : σ) : Prop :=
  ∃ k os, run step s (is.take k) = .ok (os, t)

theorem visits_nil {step : σ → ι → Except ε (ο × σ)} {s t : σ} :
    Visits step s [] t ↔ t = s := by
  constructor
  · rintro ⟨k, os, hrun⟩
    rw [List.take_nil, run_nil, Except.ok.injEq, Prod.mk.injEq] at hrun
    exact hrun.2.symm
  · rintro rfl
    exact ⟨0, [], rfl⟩

theorem visits_cons {step : σ → ι → Except ε (ο × σ)} {s s' t : σ} {i : ι} {o : ο}
    (h : step s i = .ok (o, s')) {is : List ι} :
    Visits step s (i :: is) t ↔ t = s ∨ Visits step s' is t := by
  constructor
  · rintro ⟨k, os, hrun⟩
    cases k with
    | zero =>
      rw [List.take_zero, run_nil, Except.ok.injEq, Prod.mk.injEq] at hrun
      exact Or.inl hrun.2.symm
    | succ k =>
      rw [List.take_succ_cons] at hrun
      obtain ⟨o', os', s₁, hstep, hrest, -⟩ := run_cons_ok hrun
      obtain ⟨-, rfl⟩ := Except.ok_unique h hstep
      exact Or.inr ⟨k, os', hrest⟩
  · rintro (rfl | ⟨k, os, hrun⟩)
    · exact ⟨0, [], rfl⟩
    · refine ⟨k + 1, o :: os, ?_⟩
      rw [List.take_succ_cons, run_cons h, hrun]
      rfl

/-- **The rule for peaks.** `G q s` relates a state to the largest value `q` that a measure has had
so far. Where every permitted step keeps `G`, it holds at the end of a run with the largest value of
the measure in the states that the run passed through. -/
theorem run_peak {step : σ → ι → Except ε (ο × σ)} {permitted : σ → ι → Prop} {f : σ → ℕ}
    {Inv : σ → Prop} {G : ℕ → σ → Prop}
    (hstep : ∀ s i q, Inv s → permitted s i → f s ≤ q → G q s →
      ∃ o s', step s i = .ok (o, s') ∧ Inv s' ∧ G (max q (f s')) s') :
    ∀ (is : List ι) {s : σ} {q : ℕ}, Inv s → Permits permitted step s is → f s ≤ q → G q s →
      ∃ os s' q', run step s is = .ok (os, s') ∧ Inv s' ∧ G q' s'
        ∧ IsGreatest (insert q {n | ∃ t, Visits step s is t ∧ f t = n}) q' := by
  intro is
  induction is with
  | nil =>
    intro s q hinv _ hle hG
    refine ⟨[], s, q, rfl, hinv, hG, Set.mem_insert _ _, ?_⟩
    rintro n (rfl | ⟨t, ht, rfl⟩)
    · exact le_refl _
    · exact (visits_nil.mp ht) ▸ hle
  | cons i is ih =>
    intro s q hinv hpermits hle hG
    obtain ⟨o, s', hs, hinv', hG'⟩ := hstep s i q hinv hpermits.1 hle hG
    obtain ⟨os, s'', q', hrun, hinv'', hG'', hmem, hupper⟩ :=
      ih hinv' (hpermits.2 o s' hs) (le_max_right q (f s')) hG'
    have hq' : max q (f s') ≤ q' := hupper (Set.mem_insert _ _)
    refine ⟨o :: os, s'', q', by rw [run_cons hs, hrun]; rfl, hinv'', hG'', ?_, ?_⟩
    · rcases hmem with rfl | ⟨t, ht, rfl⟩
      · rcases le_total (f s') q with hmax | hmax
        · exact Or.inl (max_eq_left hmax)
        · refine Or.inr ⟨s', (visits_cons hs).mpr (Or.inr ⟨0, [], rfl⟩), ?_⟩
          exact (max_eq_right hmax).symm
      · exact Or.inr ⟨t, (visits_cons hs).mpr (Or.inr ht), rfl⟩
    · rintro n (rfl | ⟨t, ht, rfl⟩)
      · exact (le_max_left _ _).trans hq'
      · rcases (visits_cons hs).mp ht with rfl | ht
        · exact hle.trans ((le_max_left _ _).trans hq')
        · exact hupper (Or.inr ⟨t, ht, rfl⟩)

/-! ### Two systems side by side

In a simulation the abstract side is total and the theorem says that the concrete side goes
through. In lockstep both are known to have gone through, and what is concluded is that their
answers agree. -/

/-- **The simulation rule.** Where related states answer each input alike and stay related, and
`Q` describes what the remaining inputs may do, whole runs answer alike. -/
theorem run_simulates (step : σ → ι → Except ε (ο × σ)) (spec : τ → κ → ο × τ) {R : σ → τ → Prop}
    {Q : σ → τ → List ι → Prop} {f : ι → κ}
    (hstep : ∀ s t i is, R s t → Q s t (i :: is) →
      ∃ s', step s i = .ok ((spec t (f i)).1, s') ∧ R s' (spec t (f i)).2
        ∧ Q s' (spec t (f i)).2 is) :
    ∀ (is : List ι) {s : σ} {t : τ}, R s t → Q s t is →
      ∃ s', run step s is = .ok ((runTotal spec t (is.map f)).1, s')
        ∧ R s' (runTotal spec t (is.map f)).2 := by
  intro is
  induction is with
  | nil => intro s t hR _; exact ⟨s, rfl, hR⟩
  | cons i is ih =>
    intro s t hR hQ
    obtain ⟨s', hs, hR', hQ'⟩ := hstep s t i is hR hQ
    obtain ⟨s'', hrun, hR''⟩ := ih hR' hQ'
    refine ⟨s'', ?_, hR''⟩
    rw [run_cons hs, hrun, List.map_cons, runTotal_cons]
    rfl

/-- **The lockstep rule.** Two step functions whose runs both went through, from related states and
on matching inputs. Where a step with outputs that satisfy `P` and `P'` gives the same output and
related states, runs with such outputs give the same outputs. -/
theorem run_lockstep {step : σ → ι → Except ε (ο × σ)} {step' : τ → κ → Except ε (ο × τ)}
    {R : σ → τ → Prop} {M : ι → κ → Prop} {P P' : ο → Prop}
    (hstep : ∀ {s t i k o s' o' t'}, R s t → M i k → step s i = .ok (o, s') →
      step' t k = .ok (o', t') → P o → P' o' → o' = o ∧ R s' t')
    {is : List ι} {ks : List κ} (hmatch : List.Forall₂ M is ks) :
    ∀ {s t s' t' os os'}, R s t → run step s is = .ok (os, s') → run step' t ks = .ok (os', t') →
      (∀ o ∈ os, P o) → (∀ o ∈ os', P' o) → os' = os := by
  induction hmatch with
  | nil =>
    intro s t s' t' os os' _ hrun hrun' _ _
    rw [run_nil, Except.ok.injEq, Prod.mk.injEq] at hrun hrun'
    rw [← hrun.1, ← hrun'.1]
  | cons hik _ ih =>
    intro s t s' t' os os' hR hrun hrun' hP hP'
    obtain ⟨o, os₁, s₁, hs, hrest, rfl⟩ := run_cons_ok hrun
    obtain ⟨o', os₁', t₁, ht, hrest', rfl⟩ := run_cons_ok hrun'
    rw [List.forall_mem_cons] at hP hP'
    obtain ⟨rfl, hR'⟩ := hstep hR hik hs ht hP.1 hP'.1
    rw [ih hR' hrest hrest' hP.2 hP'.2]

end Transition
