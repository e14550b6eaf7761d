import Mathlib.Data.List.Infix
import Mathlib.Data.Nat.Digits.Defs
import Mathlib.Order.Bounds.Basic

/-!
# Scanning text

What programs that read line-oriented text by hand do again and again: strip the ends of a piece of
text, split it at the first delimiter, read a decimal numeral, and go through the lines with a step
that may fail. The relations say what the result is, without saying how it is found:
`Strips p text core`, `SplitsAt c text before after` and `Numeral text value`. Each determines its
result, so a function that meets one is the only one.

`numbered` is the loop over the lines. A text is read iff each of its beginnings is, so the loop
fails at the end of the shortest beginning that cannot be read (`numbered_error`).
-/

namespace Scan

/-- The bytes of a literal. -/
def literal (text : String) : List UInt8 := text.toUTF8.data.toList

/-! ## The ends of a text

The core of a text may be empty, and then how much of the text is left of it and how much is right
of it is not determined. The core itself always is. -/

section Strips

variable {α : Type} {p : α → Prop}

/-- `core` is `text` without the characters at its ends that satisfy `p`. -/
def Strips (p : α → Prop) (text core : List α) : Prop :=
  ∃ left right, text = left ++ core ++ right ∧ (∀ c ∈ left, p c) ∧ (∀ c ∈ right, p c)
    ∧ (∀ c ∈ core.head?, ¬p c) ∧ ∀ c ∈ core.getLast?, ¬p c

theorem Strips.nil_iff {text core : List α} (h : Strips p text core) :
    core = [] ↔ ∀ c ∈ text, p c := by
  obtain ⟨left, right, rfl, hleft, hright, hhead, -⟩ := h
  constructor
  · rintro rfl c hc
    rw [List.append_nil, List.mem_append] at hc
    exact hc.elim (hleft c) (hright c)
  · intro hall
    cases core with
    | nil => rfl
    | cons c cs => exact absurd (hall c (by simp)) (hhead c rfl)

/-- One side at a time: two ways to write a text as a part that satisfies `p` and a part whose
head does not are the same. -/
theorem append_inj_of_head {left left' rest rest' : List α} (h : left ++ rest = left' ++ rest')
    (hleft : ∀ c ∈ left, p c) (hleft' : ∀ c ∈ left', p c) (hrest : ∀ c ∈ rest.head?, ¬p c)
    (hrest' : ∀ c ∈ rest'.head?, ¬p c) : left = left' ∧ rest = rest' := by
  induction left generalizing left' with
  | nil =>
    cases left' with
    | nil => exact ⟨rfl, h⟩
    | cons c cs =>
      rw [List.nil_append] at h
      exact absurd (hleft' c (by simp)) (hrest c (by rw [h]; rfl))
  | cons a as ih =>
    cases left' with
    | nil =>
      rw [List.nil_append] at h
      exact absurd (hleft a (by simp)) (hrest' a (by rw [← h]; rfl))
    | cons c cs =>
      rw [List.cons_append, List.cons_append, List.cons.injEq] at h
      obtain ⟨rfl, h⟩ := h
      obtain ⟨rfl, hr⟩ := ih h (fun c hc ↦ hleft c (by simp [hc]))
        fun c hc ↦ hleft' c (by simp [hc])
      exact ⟨rfl, hr⟩

/-- What is left of a text is determined. -/
theorem Strips.unique {text core core' : List α} (h : Strips p text core)
    (h' : Strips p text core') : core = core' := by
  by_cases hnil : core = []
  · rw [hnil, eq_comm, h'.nil_iff]
    exact h.nil_iff.mp hnil
  have hnil' : core' ≠ [] := fun hc ↦ hnil (h.nil_iff.mpr (h'.nil_iff.mp hc))
  obtain ⟨left, right, htext, hleft, hright, hhead, hlast⟩ := h
  obtain ⟨left', right', htext', hleft', hright', hhead', hlast'⟩ := h'
  -- from the left the texts agree after the first character that stays, and so from the right
  have hfront : left ++ (core ++ right) = left' ++ (core' ++ right') := by
    rw [← List.append_assoc, ← List.append_assoc, ← htext, ← htext']
  obtain ⟨-, hback⟩ := append_inj_of_head hfront hleft hleft'
    (by rwa [List.head?_append_of_ne_nil _ hnil]) (by rwa [List.head?_append_of_ne_nil _ hnil'])
  have hrev : right.reverse ++ core.reverse = right'.reverse ++ core'.reverse := by
    rw [← List.reverse_append, ← List.reverse_append, hback]
  obtain ⟨-, hcore⟩ := append_inj_of_head hrev (by simpa using hright) (by simpa using hright')
    (by rwa [List.head?_reverse]) (by rwa [List.head?_reverse])
  exact List.reverse_injective hcore

/-- The part from the first character that does not satisfy `p` to the last one. -/
theorem strips_of_bounds {text : List α} {first last : ℕ} (hlast : last < text.length)
    (hle : first ≤ last) (hbefore : ∀ c ∈ text.take first, p c)
    (hafter : ∀ c ∈ text.drop (last + 1), p c) (hfirst : ∀ c ∈ text[first]?, ¬p c)
    (hend : ∀ c ∈ text[last]?, ¬p c) :
    Strips p text ((text.drop first).take (last - first + 1)) := by
  refine ⟨text.take first, text.drop (last + 1), ?_, hbefore, hafter, ?_, ?_⟩
  · have hdrop : text.drop (last + 1) = (text.drop first).drop (last - first + 1) := by
      rw [List.drop_drop]
      congr 1
      omega
    rw [hdrop, List.append_assoc, List.take_append_drop, List.take_append_drop]
  · rw [List.head?_take, if_neg (by omega), List.head?_drop]
    exact hfirst
  · rw [List.getLast?_eq_getElem?, List.length_take, List.length_drop, List.getElem?_take,
      List.getElem?_drop, if_pos (by omega)]
    convert hend using 4
    omega

end Strips

/-! ## The first delimiter -/

section SplitsAt

variable {α : Type} [DecidableEq α] {c : α} {text before after : List α}

/-- `before` and `after` are what stands before and after the first `c` of `text`. -/
def SplitsAt (c : α) (text before after : List α) : Prop :=
  text = before ++ c :: after ∧ c ∉ before

theorem SplitsAt.idxOf? (h : SplitsAt c text before after) :
    text.idxOf? c = some before.length := by
  obtain ⟨rfl, hc⟩ := h
  induction before with
  | nil => simp [List.idxOf?_cons]
  | cons a as ih =>
    rw [List.mem_cons, not_or] at hc
    rw [List.cons_append, List.idxOf?_cons, ih hc.2, if_neg (by simpa using Ne.symm hc.1)]
    rfl

theorem splitsAt_of_idxOf? {i : ℕ} (h : text.idxOf? c = some i) :
    SplitsAt c text (text.take i) (text.drop (i + 1)) := by
  rw [List.idxOf?, List.findIdx?_eq_some_iff_getElem] at h
  obtain ⟨hi, hc, hbefore⟩ := h
  have hc : text[i] = c := by simpa using hc
  refine ⟨?_, fun hmem ↦ ?_⟩
  · rw [← hc, List.cons_getElem_drop_succ, List.take_append_drop]
  · obtain ⟨j, hj, hget⟩ := List.mem_take_iff_getElem.mp hmem
    exact hbefore j (by omega) (by simpa using hget)

theorem SplitsAt.unique {before' after' : List α} (h : SplitsAt c text before after)
    (h' : SplitsAt c text before' after') : before = before' ∧ after = after' := by
  have hlength : before.length = before'.length :=
    Option.some.inj (h.idxOf?.symm.trans h'.idxOf?)
  have hsame := List.append_inj (h.1.symm.trans h'.1) hlength
  exact ⟨hsame.1, (List.cons.inj hsame.2).2⟩

end SplitsAt

/-! ## Numerals

Leading zeros are allowed, signs and white space are not. -/

section Numeral

/-- The characters `0` to `9`. -/
def IsDigit (c : UInt8) : Prop := 48 ≤ c ∧ c ≤ 57

instance : DecidablePred IsDigit := fun c ↦ inferInstanceAs (Decidable (48 ≤ c ∧ c ≤ 57))

/-- The digit a character stands for. -/
def digit (c : UInt8) : ℕ := c.toNat - 48

/-- `text` is a string of decimal digits, and `value` is the number it stands for. -/
def Numeral (text : List UInt8) (value : ℕ) : Prop :=
  text ≠ [] ∧ (∀ c ∈ text, IsDigit c) ∧ value = Nat.ofDigits 10 (text.reverse.map digit)

theorem foldl_digits (text : List UInt8) :
    text.foldl (fun value c ↦ 10 * value + digit c) 0
      = Nat.ofDigits 10 (text.reverse.map digit) := by
  induction text using List.reverseRecOn with
  | nil => rfl
  | append_singleton text c ih =>
    rw [List.foldl_append, ih, List.reverse_append, List.reverse_singleton,
      List.singleton_append, List.map_cons, Nat.ofDigits_cons, List.foldl_cons, List.foldl_nil,
      Nat.add_comm]

/-- The numeral of a number. -/
def decimal (n : ℕ) : List UInt8 := (Nat.toDigits 10 n).map Char.toUInt8

theorem length_decimal_le {n : ℕ} (h : n < 2 ^ 64) : (decimal n).length ≤ 20 := by
  rw [decimal, List.length_map]
  exact Nat.toDigits_length 10 n 20 (by decide) (h.trans (by decide))

end Numeral

/-! ## Line by line

The step is told the number of its line because its errors name it; whether the line can be read
does not depend on the number, which is what `R` in `numbered_ok_iff` expresses. -/

section Numbered

variable {α σ ε : Type} {step : ℕ → α → σ → Except ε σ}

/-- Goes through the lines after line `n` with a step that may fail. It is told the number of each
line. -/
def numbered (step : ℕ → α → σ → Except ε σ) : ℕ → List α → σ → Except ε σ
  | _, [], state => .ok state
  | n, line :: lines, state =>
    match step (n + 1) line state with
    | .error e => .error e
    | .ok state => numbered step (n + 1) lines state

theorem numbered_ok_iff {R : α → σ → σ → Prop}
    (hstep : ∀ n line state state', step n line state = .ok state' ↔ R line state state')
    {n : ℕ} {line : α} {lines : List α} {state state' : σ} :
    numbered step n (line :: lines) state = .ok state'
      ↔ ∃ middle, R line state middle ∧ numbered step (n + 1) lines middle = .ok state' := by
  rw [numbered]
  cases h : step (n + 1) line state with
  | error e =>
    constructor
    · rintro ⟨⟩
    · rintro ⟨middle, hR, -⟩
      rw [(hstep (n + 1) line state middle).mpr hR] at h
      cases h
  | ok middle =>
    constructor
    · exact fun hrest ↦ ⟨middle, (hstep (n + 1) line state middle).mp h, hrest⟩
    · rintro ⟨middle', hR, hrest⟩
      rw [(hstep (n + 1) line state middle').mpr hR] at h
      cases h
      exact hrest

/-- **The loop fails at the end of the shortest beginning that cannot be read.** -/
theorem numbered_error {n : ℕ} {lines : List α} {state : σ} {e : ε}
    (h : numbered step n lines state = .error e) :
    ∃ i line state',
      IsLeast {i | ∃ e, numbered step n (lines.take i) state = .error e} i
        ∧ step (n + i) line state' = .error e := by
  induction lines generalizing n state with
  | nil => cases h
  | cons line lines ih =>
    rw [numbered] at h
    cases hline : step (n + 1) line state with
    | error e' =>
      rw [hline] at h
      cases h
      refine ⟨1, line, state, ⟨⟨e, ?_⟩, ?_⟩, hline⟩
      · show numbered step n [line] state = .error e
        rw [numbered, hline]
      · rintro i ⟨e', hi⟩
        by_contra hlt
        obtain rfl : i = 0 := by omega
        cases hi
    | ok middle =>
      rw [hline] at h
      obtain ⟨i, last, state', ⟨⟨e', hi⟩, hleast⟩, hfail⟩ := ih h
      refine ⟨i + 1, last, state', ⟨⟨e', ?_⟩, ?_⟩, ?_⟩
      · rw [List.take_succ_cons, numbered, hline]
        exact hi
      · rintro j ⟨e'', hj⟩
        cases j with
        | zero => cases hj
        | succ j =>
          rw [List.take_succ_cons, numbered, hline] at hj
          exact Nat.succ_le_succ (hleast ⟨e'', hj⟩)
      · rwa [show n + (i + 1) = n + 1 + i by omega]

end Numbered

end Scan
