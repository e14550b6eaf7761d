import HighCache.Timer.TimingWheel

/-!
# Runs of the timing wheel

What a wheel returns over any sequence of calls, in terms of the calls alone. A timer scheduled
after `s` ticks for a TTL of `t` ticks has the deadline `s + t`; `timersOf` reads the timers of a
sequence of calls off from it, and the `n`-th tick returns those of them with deadline `n`, in the
order they were scheduled.
-/

namespace HighCache

namespace TimingWheel

/-! ## Calls, and what they ask for

The specification reads a sequence of calls from the front, with a counter of ticks, and computes
the deadlines. It has no slots and no rounds. -/

/-- A call of the wheel. `schedule` asserts a positive TTL; a tick that throws is one that finds no
memory for its result. -/
inductive WheelCall where
  | schedule (key : Bytes) (generation : ℕ) (ttl : Int64) (pos : 0 < ttl)
  | tick (reserveThrows : Bool)

/-- One call; the output is what a tick returns. -/
def wheelStep (w : TimingWheel) : WheelCall → Except Fault (Option (List TimerEvent) × TimingWheel)
  | .schedule key generation ttl _ => do
    let w ← w.schedule key generation ttl
    .ok (none, w)
  | .tick reserveThrows =>
    match w.tick reserveThrows with
    | none => .ok (none, w)
    | some (expired, w) => .ok (some expired, w)

/-- The number of ticks among some calls. -/
def ticksIn : List WheelCall → ℕ
  | [] => 0
  | .tick false :: calls => ticksIn calls + 1
  | _ :: calls => ticksIn calls

/-- The timers that some calls schedule, the first of them made after `now` ticks. -/
def timersOf (now : ℕ) : List WheelCall → List Timer
  | [] => []
  | .schedule key generation ttl _ :: calls =>
    ⟨key, generation, now + (ttl.toInt.toNat + 999) / 1000⟩ :: timersOf now calls
  | .tick false :: calls => timersOf (now + 1) calls
  | .tick true :: calls => timersOf now calls

/-- No operation on 64-bit integers in `schedule` and `tick` wraps. -/
structure Exact (w : TimingWheel) : Prop where
  /-- `ttl / resolution + carry`. -/
  ticks : ∀ ttl : Int64, 0 < ttl → (ticksOf ttl).toNat
    = ttl.toUInt64.toNat / 1000 + if ttl.toUInt64.toNat % 1000 ≠ 0 then 1 else 0
  /-- `current_slot_ + ticks % slot_count`. -/
  slot : ∀ ttl : Int64, (UInt64.ofNat w.currentSlot + ticksOf ttl % UInt64.ofNat slotCount).toNat
    = w.currentSlot + (ticksOf ttl).toNat % slotCount
  /-- `ticks - 1`. -/
  rounds : ∀ ttl : Int64, 0 < ttl → (ticksOf ttl - 1).toNat + 1 = (ticksOf ttl).toNat
  /-- `--event->remaining_rounds`. -/
  decrement : ∀ i, ∀ event ∈ w.slots i, 0 < event.remainingRounds →
    (event.remainingRounds - 1).toNat + 1 = event.remainingRounds.toNat

theorem exact (w : TimingWheel) : w.Exact := by
  have hpred : ∀ v : UInt64, 0 < v → (v - 1).toNat + 1 = v.toNat := by
    intro v hv
    rw [UInt64.lt_iff_toNat_lt, UInt64.toNat_zero] at hv
    have hle : (1 : UInt64) ≤ v := UInt64.le_iff_toNat_le.mpr hv
    rw [UInt64.toNat_sub_of_le _ _ hle, UInt64.toNat_one]
    omega
  have hpos : ∀ ttl : Int64, 0 < ttl → 0 < ttl.toInt := fun ttl h ↦ by
    simpa using Int64.lt_iff_toInt_lt.mp h
  refine ⟨fun ttl h ↦ ?_, fun ttl ↦ ?_, fun ttl h ↦ ?_, fun i event _ h ↦ hpred _ h⟩
  · rw [toNat_ticksOf (hpos ttl h), toNat_toUInt64 (Int.le_of_lt (hpos ttl h)), ceilTicks]
    split <;> omega
  · have hcur : (UInt64.ofNat w.currentSlot).toNat = w.currentSlot.val :=
      UInt64.toNat_ofNat_of_lt' (lt_trans w.currentSlot.isLt (by decide))
    have hlt : w.currentSlot.val < slotCount := w.currentSlot.isLt
    have hmod : (ticksOf ttl).toNat % slotCount < slotCount := Nat.mod_lt _ (by decide)
    rw [UInt64.toNat_add, UInt64.toNat_mod, hcur, show (UInt64.ofNat slotCount).toNat = slotCount
      from by decide]
    refine Nat.mod_eq_of_lt ?_
    simp only [slotCount] at *
    omega
  · refine hpred _ ?_
    rw [UInt64.lt_iff_toNat_lt, toNat_ticksOf (hpos ttl h)]
    exact ceilTicks_pos (hpos ttl h)

/-! ## The queue over a run

A run of the wheel is followed by the queue it represents. What the queue holds after a run is what
`timersOf` says of the calls, without the timers that have been handed out since. -/

/-- What a call does to the queue of deadlines. -/
def WheelCall.onQueue (q : TimerQueue) : WheelCall → TimerQueue
  | .schedule key generation ttl _ => q.schedule key generation (ceilTicks ttl)
  | .tick false => q.tick
  | .tick true => q

/-- The queue holds the timers scheduled so far whose deadline is still to come. -/
theorem foldl_onQueue (calls : List WheelCall) : ∀ q : TimerQueue,
    (∀ t ∈ q.pending, q.now < t.deadline) →
    calls.foldl WheelCall.onQueue q = ⟨q.now + ticksIn calls,
      (q.pending ++ timersOf q.now calls).filter fun t ↦ q.now + ticksIn calls < t.deadline⟩ := by
  induction calls with
  | nil =>
    intro q h
    have hall : q.pending.filter (fun t ↦ q.now < t.deadline) = q.pending :=
      List.filter_eq_self.mpr fun t ht ↦ by simpa using h t ht
    simp [ticksIn, timersOf, hall]
  | cons call calls ih =>
    intro q h
    rw [List.foldl_cons]
    match call with
    | .schedule key generation ttl pos =>
      have hpos : 0 < ceilTicks ttl :=
        ceilTicks_pos (by simpa using Int64.lt_iff_toInt_lt.mp pos)
      have hlater : ∀ t ∈ (q.schedule key generation (ceilTicks ttl)).pending,
          q.now < t.deadline := by
        intro t ht
        rcases List.mem_append.mp ht with ht | ht
        · exact h t ht
        · rw [List.mem_singleton] at ht
          rw [ht]
          exact Nat.lt_add_of_pos_right hpos
      refine (ih (q.schedule key generation (ceilTicks ttl)) hlater).trans ?_
      rw [TimerQueue.schedule, List.append_assoc]
      rfl
    | .tick true => exact ih q h
    | .tick false =>
      have hlater : ∀ t ∈ q.tick.pending, q.now + 1 < t.deadline := by
        intro t ht
        rw [TimerQueue.tick, List.mem_filter, decide_eq_true_iff] at ht
        have := h t ht.1
        have := ht.2
        omega
      refine (ih q.tick hlater).trans ?_
      have hnow : q.tick.now + ticksIn calls = q.now + ticksIn (.tick false :: calls) := by
        show q.now + 1 + ticksIn calls = q.now + (ticksIn calls + 1)
        omega
      rw [hnow]
      congr 1
      rw [List.filter_append, List.filter_append, TimerQueue.tick, List.filter_filter]
      congr 1
      -- what is due at this tick is not due later
      refine List.filter_congr fun t _ ↦ ?_
      rw [ticksIn]
      by_cases hlt : q.now + (ticksIn calls + 1) < t.deadline
      · have hne : t.deadline ≠ q.now + 1 := by omega
        simp [hlt, hne]
      · simp [hlt]

theorem Represents.wheelStep {w : TimingWheel} {q : TimerQueue} (h : w.Represents q)
    (call : WheelCall) :
    ∃ output w', w.wheelStep call = .ok (output, w') ∧ w'.Represents (call.onQueue q) := by
  match call with
  | .schedule key generation ttl pos =>
    obtain ⟨w', hschedule, h'⟩ := h.schedule key generation pos
    refine ⟨none, w', ?_, h'⟩
    rw [TimingWheel.wheelStep, hschedule]
    rfl
  | .tick true => exact ⟨none, w, rfl, h⟩
  | .tick false =>
    obtain ⟨expired, w', htick, -, h'⟩ := h.tick
    refine ⟨some expired, w', ?_, h'⟩
    rw [TimingWheel.wheelStep, htick]

theorem Represents.run {w : TimingWheel} {q : TimerQueue} (h : w.Represents q)
    (calls : List WheelCall) :
    ∃ outputs w', Transition.run TimingWheel.wheelStep w calls = .ok (outputs, w')
      ∧ outputs.length = calls.length ∧ w'.Represents (calls.foldl WheelCall.onQueue q) := by
  induction calls generalizing w q with
  | nil => exact ⟨[], w, rfl, rfl, h⟩
  | cons call calls ih =>
    obtain ⟨output, w₁, hstep, h₁⟩ := h.wheelStep call
    obtain ⟨outputs, w', hrun, hlength, h'⟩ := ih h₁
    refine ⟨output :: outputs, w', ?_, congrArg (· + 1) hlength, h'⟩
    rw [Transition.run_cons hstep, hrun]
    rfl

/-- **The `n`-th tick returns the timers with deadline `n`**, in the order they were scheduled. -/
theorem run_fires (calls : List WheelCall) :
    ∃ outputs w, Transition.run wheelStep empty calls = .ok (outputs, w) ∧ w.Exact
      ∧ ∀ before after, calls = before ++ .tick false :: after →
        outputs[before.length]? = some (some (((timersOf 0 before).filter fun t ↦
          t.deadline = ticksIn before + 1).map fun t ↦ ⟨t.key, t.generation, 0⟩)) := by
  obtain ⟨outputs, w, hrun, -, -⟩ := represents_empty.run calls
  refine ⟨outputs, w, hrun, w.exact, ?_⟩
  rintro before after rfl
  obtain ⟨outputs₁, w₁, hrun₁, hlength, h₁⟩ := represents_empty.run before
  obtain ⟨expired, w₂, htick, hexpired, h₂⟩ := h₁.tick
  obtain ⟨outputs₂, w₃, hrun₂, -, -⟩ := h₂.run after
  have hstep : w₁.wheelStep (.tick false) = .ok (some expired, w₂) := by
    rw [wheelStep, htick]
  rw [Transition.run_append hrun₁, Transition.run_cons hstep, hrun₂] at hrun
  cases hrun
  have hqueue := foldl_onQueue before TimerQueue.empty (by simp [TimerQueue.empty])
  rw [hqueue] at hexpired
  rw [List.getElem?_append_right (by rw [hlength]), hlength, Nat.sub_self]
  show some (some expired) = _
  rw [hexpired]
  show some (some (List.map _ (List.filter _ (List.filter _ _)))) = _
  have hnow : TimerQueue.empty.now + ticksIn before = ticksIn before := Nat.zero_add _
  have hdue : ∀ t : Timer, (decide (t.deadline = ticksIn before + 1)
      && decide (ticksIn before < t.deadline)) = decide (t.deadline = ticksIn before + 1) := by
    intro t
    by_cases ht : t.deadline = ticksIn before + 1
    · simp [ht]
    · simp [ht]
  simp only [hnow, List.filter_filter, hdue]
  refine congrArg (fun events ↦ some (some events)) (List.map_congr_left fun t ht ↦ ?_)
  rw [List.mem_filter, decide_eq_true_iff] at ht
  rw [Timer.toEvent, ht.2, Nat.add_sub_cancel_left]
  rfl

end TimingWheel

end HighCache
