import Mathlib.Data.List.Basic
import Mathlib.Data.List.TakeDrop
import Mathlib.Order.Nat

/-!
# Frames with a header of fixed size

A format of frames whose header has a fixed size, tells whether the frame is a legal one, and tells
how long it is. `Framing.next` looks for a frame at the front of a sequence.

Everything it decides is decided by the header, or by the length once the header is in. That is
what makes it independent of how much of the sequence has arrived: an answer other than
`incomplete` is the answer for every longer sequence, no shorter sequence than the whole frame gets
one, and a frame whose header is legal can be finished.

## Why only the header decides

A decoder that is fed pieces must not change its mind. If it could reject a frame for something in
the body, it would have to wait for the body first, and then the answer would depend on where the
pieces were cut. Here `problem` and `frameLength` see the header alone, and the theorems below are
about any format of that kind: a decoder for one is incremental because its format is.
-/

/-- A format of frames over an alphabet `β`, with messages `μ` and errors `ε`. -/
structure Framing (β ε μ : Type) where
  /-- The size of a header. -/
  headerSize : ℕ
  /-- The size of the largest legal frame. -/
  maxLength : ℕ
  /-- What is wrong with a header. -/
  problem : List β → Option ε
  /-- The length of the frame with a header. -/
  frameLength : List β → ℕ
  /-- The message of a frame. -/
  message : List β → μ
  /-- The header is a part of the frame. -/
  headerSize_le : ∀ header, headerSize ≤ frameLength header
  /-- Legal frames are not too large. -/
  frameLength_le : ∀ header, problem header = none → frameLength header ≤ maxLength

namespace Framing

/-- What is at the front of a sequence. -/
inductive Front (β ε μ : Type) where
  /-- Nothing that can be told yet. -/
  | incomplete
  /-- A header that is wrong. -/
  | invalid (error : ε)
  /-- A message, and what comes after its frame. -/
  | complete (message : μ) (rest : List β)
  deriving DecidableEq, Repr

variable {β ε μ : Type} (F : Framing β ε μ)

/-- The header at the front of a sequence that is long enough. -/
def header (xs : List β) : List β := xs.take F.headerSize

/-- The frame at the front of a sequence. -/
def next (xs : List β) : Front β ε μ :=
  if xs.length < F.headerSize then .incomplete
  else match F.problem (F.header xs) with
    | some error => .invalid error
    | none =>
      if xs.length < F.frameLength (F.header xs) then .incomplete
      else .complete (F.message (xs.take (F.frameLength (F.header xs))))
        (xs.drop (F.frameLength (F.header xs)))

variable {F}

/-! ## The three answers

Each answer is characterized by an equivalence, so that later proofs decide by lengths and headers
and never open `next`. -/

theorem header_append {xs : List β} (h : F.headerSize ≤ xs.length) (more : List β) :
    F.header (xs ++ more) = F.header xs :=
  List.take_append_of_le_length h

theorem next_eq_invalid_iff {xs : List β} {error : ε} :
    F.next xs = .invalid error
      ↔ F.headerSize ≤ xs.length ∧ F.problem (F.header xs) = some error := by
  unfold next
  by_cases hshort : xs.length < F.headerSize
  · rw [if_pos hshort]
    simp only [reduceCtorEq, false_iff, not_and]
    exact fun hle ↦ absurd hle (Nat.not_le.mpr hshort)
  rw [if_neg hshort]
  cases F.problem (F.header xs) with
  | some error' => simp [Nat.not_lt.mp hshort]
  | none =>
    dsimp only
    split <;> simp

theorem next_eq_complete_iff {xs : List β} {message : μ} {rest : List β} :
    F.next xs = .complete message rest
      ↔ F.problem (F.header xs) = none ∧ F.frameLength (F.header xs) ≤ xs.length
        ∧ F.message (xs.take (F.frameLength (F.header xs))) = message
        ∧ xs.drop (F.frameLength (F.header xs)) = rest := by
  unfold next
  by_cases hshort : xs.length < F.headerSize
  · rw [if_pos hshort]
    simp only [reduceCtorEq, false_iff]
    rintro ⟨-, hle, -⟩
    have := F.headerSize_le (F.header xs)
    omega
  rw [if_neg hshort]
  cases F.problem (F.header xs) with
  | some error => simp
  | none =>
    dsimp only
    by_cases hincomplete : xs.length < F.frameLength (F.header xs)
    · rw [if_pos hincomplete]
      simp only [reduceCtorEq, false_iff]
      rintro ⟨-, hle, -⟩
      omega
    · rw [if_neg hincomplete]
      simp [Nat.not_lt.mp hincomplete]

theorem next_eq_incomplete_iff {xs : List β} :
    F.next xs = .incomplete ↔ xs.length < F.headerSize
      ∨ F.problem (F.header xs) = none ∧ xs.length < F.frameLength (F.header xs) := by
  unfold next
  by_cases hshort : xs.length < F.headerSize
  · rw [if_pos hshort]
    simp [hshort]
  rw [if_neg hshort]
  cases F.problem (F.header xs) with
  | some error => simp [hshort]
  | none =>
    dsimp only
    by_cases hincomplete : xs.length < F.frameLength (F.header xs)
    · simp [hincomplete]
    · simp [hshort, hincomplete]

/-! ## More of the sequence

What an answer for a beginning says about the whole, and the other way round. -/

/-- A wrong header stays wrong. -/
theorem next_append_of_invalid {xs : List β} {error : ε} (h : F.next xs = .invalid error)
    (more : List β) : F.next (xs ++ more) = .invalid error := by
  obtain ⟨hle, hproblem⟩ := next_eq_invalid_iff.mp h
  rw [next_eq_invalid_iff, header_append hle, List.length_append]
  exact ⟨hle.trans (Nat.le_add_right _ _), hproblem⟩

theorem next_append_of_complete {xs : List β} {message : μ} {rest : List β}
    (h : F.next xs = .complete message rest) (more : List β) :
    F.next (xs ++ more) = .complete message (rest ++ more) := by
  obtain ⟨hproblem, hle, hmessage, hrest⟩ := next_eq_complete_iff.mp h
  have hheader := header_append ((F.headerSize_le (F.header xs)).trans hle) more
  rw [next_eq_complete_iff, hheader, List.length_append, List.take_append_of_le_length hle,
    List.drop_append_of_le_length hle, hrest]
  exact ⟨hproblem, hle.trans (Nat.le_add_right _ _), hmessage, rfl⟩

/-- Nothing shorter than the frame is complete. -/
theorem next_take_of_complete {xs : List β} {message : μ} {rest : List β}
    (h : F.next xs = .complete message rest) {k : ℕ} (hk : k < F.frameLength (F.header xs)) :
    F.next (xs.take k) = .incomplete := by
  obtain ⟨hproblem, hle, -, -⟩ := next_eq_complete_iff.mp h
  rw [next_eq_incomplete_iff, List.length_take, Nat.min_eq_left (hk.le.trans hle)]
  by_cases hshort : k < F.headerSize
  · exact Or.inl hshort
  · have hheader : F.header (xs.take k) = F.header xs := by
      rw [header, header, List.take_take, Nat.min_eq_left (Nat.not_lt.mp hshort)]
    rw [hheader]
    exact Or.inr ⟨hproblem, hk⟩

theorem length_rest_of_complete {xs : List β} {message : μ} {rest : List β}
    (h : F.next xs = .complete message rest) : rest.length + F.headerSize ≤ xs.length := by
  obtain ⟨-, hle, -, rfl⟩ := next_eq_complete_iff.mp h
  have := F.headerSize_le (F.header xs)
  rw [List.length_drop]
  omega

theorem length_lt_of_next_incomplete (hmax : F.headerSize ≤ F.maxLength) {xs : List β}
    (h : F.next xs = .incomplete) : xs.length < F.maxLength := by
  rcases next_eq_incomplete_iff.mp h with hshort | ⟨hproblem, hincomplete⟩
  · exact hshort.trans_le hmax
  · exact hincomplete.trans_le (F.frameLength_le _ hproblem)

/-- Once the header is in, an unfinished frame can be finished. -/
theorem exists_completion [Inhabited β] {xs : List β} (hheader : F.headerSize ≤ xs.length)
    (h : F.next xs = .incomplete) :
    ∃ more message, xs.length + more.length ≤ F.maxLength
      ∧ F.next (xs ++ more) = .complete message [] := by
  rcases next_eq_incomplete_iff.mp h with hshort | ⟨hproblem, hincomplete⟩
  · exact absurd hshort (Nat.not_lt.mpr hheader)
  have hlength : xs.length + (F.frameLength (F.header xs) - xs.length)
      = F.frameLength (F.header xs) := by omega
  refine ⟨List.replicate (F.frameLength (F.header xs) - xs.length) default, _, ?_,
    next_eq_complete_iff.mpr ⟨?_, ?_, rfl, ?_⟩⟩
  · rw [List.length_replicate, hlength]
    exact F.frameLength_le _ hproblem
  · rw [header_append hheader]
    exact hproblem
  · rw [header_append hheader, List.length_append, List.length_replicate, hlength]
  · rw [header_append hheader]
    refine List.drop_eq_nil_of_le ?_
    rw [List.length_append, List.length_replicate, hlength]

/-! ## Several frames

`Written` builds a sequence from messages, `Reads` takes messages off one. A receiver has a
beginning of what was sent, and the two meet in `Written.reads_of_prefix`. -/

/-- The frames of some messages, one after another. -/
inductive Written (F : Framing β ε μ) : List μ → List β → Prop where
  | nil : Written F [] []
  | cons {m : μ} {ms : List μ} {frame xs : List β}
      (hframe : ∀ rest, F.next (frame ++ rest) = .complete m rest) (hrest : Written F ms xs) :
      Written F (m :: ms) (frame ++ xs)

/-- The messages at the front of a sequence, and what comes after them. -/
inductive Reads (F : Framing β ε μ) : List β → List μ → List β → Prop where
  | nil (xs : List β) : Reads F xs [] xs
  | cons {m : μ} {ms : List μ} {xs rest rest' : List β} (hnext : F.next xs = .complete m rest)
      (hrest : Reads F rest ms rest') : Reads F xs (m :: ms) rest'

theorem next_nil (hpos : 0 < F.headerSize) : F.next [] = .incomplete := if_pos hpos

theorem Written.next_ne_invalid (hpos : 0 < F.headerSize) {ms : List μ} {xs ys : List β}
    (h : F.Written ms xs) (hpre : ys <+: xs) (error : ε) : F.next ys ≠ .invalid error := by
  obtain ⟨zs, rfl⟩ := hpre
  intro hinvalid
  have hwhole := next_append_of_invalid hinvalid zs
  generalize ys ++ zs = xs at h hwhole
  cases h with
  | nil =>
    rw [next_nil hpos] at hwhole
    cases hwhole
  | cons hframe _ =>
    rw [hframe] at hwhole
    cases hwhole

/-- **A beginning of what was written reads as a beginning of the messages**, and what is left is a
beginning of the frames of the others. -/
theorem Written.reads_of_prefix (hpos : 0 < F.headerSize) {ms' : List μ} {ys rest : List β}
    (hreads : F.Reads ys ms' rest) : ∀ {ms : List μ} {xs : List β}, F.Written ms xs → ys <+: xs →
    ∃ others zs, ms = ms' ++ others ∧ F.Written others zs ∧ rest <+: zs := by
  induction hreads with
  | nil ys => exact fun {ms xs} h hpre ↦ ⟨ms, xs, rfl, h, hpre⟩
  | @cons m ms' ys rest rest' hnext _ ih =>
    intro ms xs h hpre
    obtain ⟨zs, hzs⟩ := hpre
    have hwhole := next_append_of_complete hnext zs
    rw [hzs] at hwhole
    cases h with
    | nil =>
      rw [next_nil hpos] at hwhole
      cases hwhole
    | cons hframe hwritten =>
      rw [hframe] at hwhole
      obtain ⟨rfl, hxs⟩ := Front.complete.inj hwhole
      obtain ⟨others, zs', rfl, hothers, hrest⟩ := ih hwritten ⟨zs, hxs.symm⟩
      exact ⟨others, zs', rfl, hothers, hrest⟩

end Framing
