import HighCache.Lib.Execution
import Mathlib.Algebra.BigOperators.Fin
import Mathlib.Data.List.Basic
import Mathlib.Logic.Function.Basic
import Mathlib.Order.Nat

/-!
# The timing wheel

The sixty-slot wheel of `timing_wheel.cpp`, and the queue of absolute deadlines it stands for. A
timer due in `t` ticks sits in slot `(current + t) mod 60` with `(t - 1) / 60` rounds to go; a tick
sweeps one slot, returning what has no rounds left and taking a round off the rest.

## The invariant

Nothing in the wheel says when a timer was scheduled. Counting ticks from the start, though, the
current slot is `now mod 60`, so a timer with absolute deadline `d` is in slot `d mod 60` and has
`(d - now - 1) / 60` rounds left: slot and rounds are functions of `d` and `now`. `Represents` says
exactly that, slot by slot and in scheduling order, and the two operations carry it from `now` to
`now + 1`. Everything above this file reasons about deadlines only.

Rounds are `UInt64`, as in the source, so the subtraction in `remainingRounds - 1` and the sums in
`schedule` are the machine's own; that they do not wrap is part of what `Represents` proves.
-/

namespace HighCache

/-! ## The wheel -/

/-- A timer in a slot. -/
structure TimerEvent where
  key : Bytes
  generation : ℕ
  remainingRounds : UInt64
  deriving DecidableEq, Repr

namespace TimingWheel

/-- The number of slots. -/
abbrev slotCount : ℕ := 60

/-- `tick_resolution` in milliseconds. -/
abbrev resolutionMilliseconds : UInt64 := 1000

end TimingWheel

/-- The wheel: a list of timers for each slot, and the slot swept last. -/
structure TimingWheel where
  slots : Fin TimingWheel.slotCount → List TimerEvent
  currentSlot : Fin TimingWheel.slotCount

namespace TimingWheel

/-- The wheel without timers. -/
def empty : TimingWheel where
  slots := fun _ ↦ []
  currentSlot := 0

/-- The ticks a TTL lasts, rounded up. -/
def ticksOf (ttl : Int64) : UInt64 :=
  let ttlMilliseconds := ttl.toUInt64
  ttlMilliseconds / resolutionMilliseconds
    + if ttlMilliseconds % resolutionMilliseconds ≠ 0 then 1 else 0

/-- The slot of a timer due in `ticks` ticks. -/
def targetSlot (currentSlot : Fin slotCount) (ticks : UInt64) : Fin slotCount :=
  ⟨((UInt64.ofNat currentSlot + ticks % UInt64.ofNat slotCount) % UInt64.ofNat slotCount).toNat,
    by rw [UInt64.toNat_mod]; exact Nat.mod_lt _ (by decide)⟩

/-- `TimingWheel::schedule`. -/
def schedule (key : Bytes) (generation : ℕ) (ttl : Int64) (w : TimingWheel) :
    Except Fault TimingWheel := do
  Checked.assert (0 < ttl)
  let ticks := ticksOf ttl
  let target := targetSlot w.currentSlot ticks
  let remainingRounds := (ticks - 1) / UInt64.ofNat slotCount
  .ok { w with
    slots := Function.update w.slots target
      (w.slots target ++ [⟨key, generation, remainingRounds⟩]) }

/-- The loop of `TimingWheel::tick` over one slot: the timers that fire, and those that stay. -/
def sweep : List TimerEvent → List TimerEvent × List TimerEvent
  | [] => ([], [])
  | event :: events =>
    let (expired, kept) := sweep events
    if 0 < event.remainingRounds then
      (expired, { event with remainingRounds := event.remainingRounds - 1 } :: kept)
    else
      (event :: expired, kept)

/-- `TimingWheel::tick`, or `none` where reserving room for the result throws; the wheel is then
as before. -/
def tick (reserveThrows : Bool) (w : TimingWheel) : Option (List TimerEvent × TimingWheel) :=
  let nextSlot : Fin slotCount := ⟨(w.currentSlot + 1) % slotCount, Nat.mod_lt _ (by decide)⟩
  if reserveThrows then none
  else
    let (expired, kept) := sweep (w.slots nextSlot)
    some (expired, ⟨Function.update w.slots nextSlot kept, nextSlot⟩)

/-! ## Ticks in a TTL

A TTL is a number of milliseconds, and a part of a tick counts as a whole one. The source adds a
tick where the quotient has a remainder, which is rounding up without the sum that could wrap. -/

/-- The number of ticks a TTL lasts: whole seconds, rounded up. -/
def ceilTicks (ttl : Int64) : ℕ := (ttl.toInt.toNat + 999) / 1000

theorem toNat_toUInt64 {ttl : Int64} (h : 0 ≤ ttl.toInt) :
    ttl.toUInt64.toNat = ttl.toInt.toNat := by
  have hdef : ttl.toInt = BitVec.toInt ttl.toUInt64.toBitVec := rfl
  have hnat : ttl.toUInt64.toNat = BitVec.toNat ttl.toUInt64.toBitVec := rfl
  rw [hdef] at h ⊢
  rw [hnat, BitVec.toInt_eq_toNat_cond] at *
  split at h <;> omega

theorem toNat_ticksOf {ttl : Int64} (h : 0 < ttl.toInt) :
    (ticksOf ttl).toNat = ceilTicks ttl := by
  have hbound : ttl.toInt.toNat < 2 ^ 63 := by
    have := ttl.toInt_lt
    omega
  have hms : ttl.toUInt64.toNat = ttl.toInt.toNat := toNat_toUInt64 (Int.le_of_lt h)
  have hres : resolutionMilliseconds.toNat = 1000 := by decide
  have hmod : (ttl.toUInt64 % resolutionMilliseconds ≠ 0) ↔ ttl.toInt.toNat % 1000 ≠ 0 := by
    rw [Ne, ← UInt64.toNat_inj, UInt64.toNat_mod, hms, hres]
    rfl
  rw [ticksOf, ceilTicks]
  by_cases hz : ttl.toInt.toNat % 1000 ≠ 0
  · rw [if_pos (hmod.mpr hz), UInt64.toNat_add, UInt64.toNat_div, hms, hres, UInt64.toNat_one]
    omega
  · rw [if_neg (fun hc ↦ hz (hmod.mp hc)), UInt64.toNat_add, UInt64.toNat_div, hms, hres,
      UInt64.toNat_zero]
    omega

theorem ceilTicks_pos {ttl : Int64} (h : 0 < ttl.toInt) : 0 < ceilTicks ttl := by
  rw [ceilTicks]
  omega

theorem ceilTicks_le (ttl : Int64) : ceilTicks ttl ≤ 2 ^ 63 := by
  have := ttl.toInt_lt
  rw [ceilTicks]
  omega

end TimingWheel

/-! ## The queue of deadlines

What the wheel is for: timers in the order they were scheduled, each with the tick it is due at. The
order matters, because a tick hands out the timers that are due in this order. -/

/-- A timer with its absolute deadline in ticks. -/
structure Timer where
  key : Bytes
  generation : ℕ
  deadline : ℕ
  deriving DecidableEq, Repr

/-- What the wheel stands for: the ticks so far and the timers still to fire, in the order they
were scheduled. -/
structure TimerQueue where
  now : ℕ
  pending : List Timer
  deriving DecidableEq, Repr

namespace TimerQueue

/-- No tick yet and nothing scheduled. -/
def empty : TimerQueue := ⟨0, []⟩

/-- Schedule a timer `ticks` ticks ahead. -/
def schedule (key : Bytes) (generation ticks : ℕ) (q : TimerQueue) : TimerQueue :=
  { q with pending := q.pending ++ [⟨key, generation, q.now + ticks⟩] }

/-- The timers that the next tick returns. -/
def due (q : TimerQueue) : List Timer := q.pending.filter fun t ↦ t.deadline = q.now + 1

/-- The queue after one tick. -/
def tick (q : TimerQueue) : TimerQueue where
  now := q.now + 1
  pending := q.pending.filter fun t ↦ t.deadline ≠ q.now + 1

end TimerQueue

/-! ## The wheel represents the queue

Slots and rounds are computed from the deadline, so the relation has no choice in it: it says what
every slot holds, in which order. -/

/-- A timer as the wheel stores it after `now` ticks. -/
def Timer.toEvent (now : ℕ) (t : Timer) : TimerEvent :=
  ⟨t.key, t.generation, UInt64.ofNat ((t.deadline - now - 1) / TimingWheel.slotCount)⟩

/-- Slot by slot, the wheel holds the timers of the queue that are due there, with the rounds that
separate them from now. -/
structure TimingWheel.Represents (w : TimingWheel) (q : TimerQueue) : Prop where
  /-- The current slot counts the ticks. -/
  current : w.currentSlot.val = q.now % slotCount
  /-- The slots hold the pending timers in scheduling order. -/
  slots : ∀ i : Fin slotCount,
    w.slots i = (q.pending.filter fun t ↦ t.deadline % slotCount = i).map (Timer.toEvent q.now)
  /-- Every pending timer is still to come, and not further away than the longest TTL. -/
  bounds : ∀ t ∈ q.pending, q.now < t.deadline ∧ t.deadline ≤ q.now + 2 ^ 63

namespace TimingWheel

theorem represents_empty : empty.Represents TimerQueue.empty where
  current := rfl
  slots := fun _ ↦ rfl
  bounds := by simp [TimerQueue.empty]

theorem targetSlot_val (current : Fin slotCount) (ticks : UInt64) :
    (targetSlot current ticks).val = (current.val + ticks.toNat) % slotCount := by
  have hcur : (UInt64.ofNat current).toNat = current.val :=
    UInt64.toNat_ofNat_of_lt' (lt_trans current.isLt (by decide))
  have hslots : (UInt64.ofNat slotCount).toNat = slotCount := by decide
  have hlt : current.val < slotCount := current.isLt
  rw [targetSlot]
  simp only [UInt64.toNat_mod, UInt64.toNat_add, hcur, hslots]
  have hmod : ticks.toNat % slotCount < slotCount := Nat.mod_lt _ (by decide)
  rw [Nat.mod_eq_of_lt (show current.val + ticks.toNat % slotCount < 2 ^ 64 by
    simp only [slotCount] at *; omega)]
  simp only [slotCount] at *
  omega

/-- **`schedule` files a timer under its deadline.** -/
theorem Represents.schedule {w : TimingWheel} {q : TimerQueue} (h : w.Represents q) (key : Bytes)
    (generation : ℕ) {ttl : Int64} (httl : 0 < ttl) :
    ∃ w', w.schedule key generation ttl = .ok w'
      ∧ w'.Represents (q.schedule key generation (ceilTicks ttl)) := by
  have hpos : 0 < ttl.toInt := by
    simpa using Int64.lt_iff_toInt_lt.mp httl
  have hticks : (ticksOf ttl).toNat = ceilTicks ttl := toNat_ticksOf hpos
  have hone : 0 < ceilTicks ttl := ceilTicks_pos hpos
  have hle : ceilTicks ttl ≤ 2 ^ 63 := ceilTicks_le ttl
  -- the slot of the deadline, since the current slot is that of now
  have htarget : (targetSlot w.currentSlot (ticksOf ttl)).val
      = (q.now + ceilTicks ttl) % slotCount := by
    rw [targetSlot_val, hticks, h.current, Nat.mod_add_mod]
  have hrounds : (ticksOf ttl - 1) / UInt64.ofNat slotCount
      = UInt64.ofNat ((ceilTicks ttl - 1) / slotCount) := by
    have hge : (1 : UInt64) ≤ ticksOf ttl := by
      rw [UInt64.le_iff_toNat_le, hticks]
      exact hone
    rw [← UInt64.toNat_inj, UInt64.toNat_div, UInt64.toNat_sub_of_le _ _ hge, hticks,
      UInt64.toNat_one, UInt64.toNat_ofNat_of_lt' (by decide), UInt64.toNat_ofNat_of_lt' (by
        refine lt_of_le_of_lt (Nat.div_le_self _ _) ?_
        rw [show UInt64.size = 2 ^ 64 from rfl]
        omega)]
  rw [TimingWheel.schedule, Checked.assert_eq (decide_eq_true httl)]
  refine ⟨_, rfl, ?_, ?_, ?_⟩
  · exact h.current
  -- the event goes to the end of its slot, as the timer goes to the end of the queue
  · intro i
    have hevent : Timer.toEvent q.now ⟨key, generation, q.now + ceilTicks ttl⟩
        = ⟨key, generation, (ticksOf ttl - 1) / UInt64.ofNat slotCount⟩ := by
      rw [Timer.toEvent, hrounds, Nat.add_sub_cancel_left]
    rw [TimerQueue.schedule, List.filter_append, List.map_append, ← h.slots i]
    show Function.update w.slots _ _ i = _ ++ List.map (Timer.toEvent q.now) _
    by_cases hi : i = targetSlot w.currentSlot (ticksOf ttl)
    · subst hi
      rw [Function.update_self, List.filter_cons_of_pos (by simpa using htarget.symm),
        List.filter_nil, List.map_singleton, hevent]
    · rw [Function.update_of_ne hi, List.filter_cons_of_neg, List.filter_nil, List.map_nil,
        List.append_nil]
      intro heq
      rw [decide_eq_true_iff] at heq
      exact hi (Fin.ext (heq.symm.trans htarget.symm))
  · intro t ht
    rcases List.mem_append.mp ht with ht | ht
    · exact h.bounds t ht
    · rw [List.mem_singleton] at ht
      subst ht
      exact ⟨Nat.lt_add_of_pos_right hone, Nat.add_le_add_left hle _⟩

/-! ### A tick

One slot is swept, and the current slot moves on. For a timer in the swept slot the distance to
its deadline is a multiple of the number of slots, and no rounds left means that this multiple is
one. -/

/-- The sweep of one slot, in closed form. -/
theorem sweep_eq (events : List TimerEvent) :
    sweep events = (events.filter fun e ↦ e.remainingRounds = 0,
      (events.filter fun e ↦ e.remainingRounds ≠ 0).map fun e ↦
        { e with remainingRounds := e.remainingRounds - 1 }) := by
  induction events with
  | nil => rfl
  | cons event events ih =>
    rw [sweep, ih]
    dsimp only
    by_cases hz : event.remainingRounds = 0
    · have hnot : ¬0 < event.remainingRounds := by rw [hz]; decide
      rw [if_neg hnot, List.filter_cons_of_pos (by simpa using hz),
        List.filter_cons_of_neg (by simpa using hz)]
    · rw [if_pos (UInt64.pos_iff_ne_zero.mpr hz), List.filter_cons_of_neg (by simpa using hz),
        List.filter_cons_of_pos (by simpa using hz), List.map_cons]

section TickArithmetic

variable {q : TimerQueue} {t : Timer} (hbounds : q.now < t.deadline ∧ t.deadline ≤ q.now + 2 ^ 63)
include hbounds

private theorem toNat_rounds :
    (t.toEvent q.now).remainingRounds.toNat = (t.deadline - q.now - 1) / slotCount := by
  refine UInt64.toNat_ofNat_of_lt' (lt_of_le_of_lt (Nat.div_le_self _ _) ?_)
  rw [show UInt64.size = 2 ^ 64 from rfl]
  omega

/-- In the slot a tick sweeps, no rounds left means due now. -/
private theorem rounds_eq_zero_iff (hslot : t.deadline % slotCount = (q.now + 1) % slotCount) :
    (t.toEvent q.now).remainingRounds = 0 ↔ t.deadline = q.now + 1 := by
  rw [← UInt64.toNat_inj, toNat_rounds hbounds, UInt64.toNat_zero]
  simp only [slotCount] at *
  omega

/-- In the slot a tick sweeps, the later timers lose a round. -/
private theorem toEvent_succ_of_slot (hslot : t.deadline % slotCount = (q.now + 1) % slotCount)
    (hlater : t.deadline ≠ q.now + 1) :
    t.toEvent (q.now + 1)
      = { t.toEvent q.now with
          remainingRounds := (t.toEvent q.now).remainingRounds - 1 } := by
  have hr := toNat_rounds hbounds
  have hne : (t.toEvent q.now).remainingRounds ≠ 0 := fun hc ↦
    hlater ((rounds_eq_zero_iff hbounds hslot).mp hc)
  have hge : (1 : UInt64) ≤ (t.toEvent q.now).remainingRounds := by
    rw [UInt64.le_iff_toNat_le]
    have hpos : (t.toEvent q.now).remainingRounds.toNat ≠ 0 := fun hc ↦
      hne (UInt64.toNat_inj.mp (by rw [hc]; rfl))
    exact Nat.one_le_iff_ne_zero.mpr hpos
  rw [show t.toEvent (q.now + 1) = ⟨t.key, t.generation,
    UInt64.ofNat ((t.deadline - (q.now + 1) - 1) / slotCount)⟩ from rfl]
  refine congrArg (TimerEvent.mk t.key t.generation) ?_
  rw [← UInt64.toNat_inj, UInt64.toNat_sub_of_le _ _ hge, hr, UInt64.toNat_one,
    UInt64.toNat_ofNat_of_lt' (lt_of_le_of_lt (Nat.div_le_self _ _) (by
      rw [show UInt64.size = 2 ^ 64 from rfl]
      omega))]
  simp only [slotCount] at *
  omega

private theorem toEvent_succ_of_ne_slot
    (hslot : t.deadline % slotCount ≠ (q.now + 1) % slotCount) :
    t.toEvent (q.now + 1) = t.toEvent q.now := by
  have hdiv : (t.deadline - (q.now + 1) - 1) / slotCount
      = (t.deadline - q.now - 1) / slotCount := by
    simp only [slotCount] at *
    omega
  rw [Timer.toEvent, Timer.toEvent, hdiv]

end TickArithmetic

/-- **A tick returns the timers whose deadline it is**, in scheduling order, and the wheel
represents the others one tick later. -/
theorem Represents.tick {w : TimingWheel} {q : TimerQueue} (h : w.Represents q) :
    ∃ expired w', w.tick false = some (expired, w')
      ∧ expired = q.due.map (Timer.toEvent q.now) ∧ w'.Represents q.tick := by
  have hnext : (w.currentSlot.val + 1) % slotCount = (q.now + 1) % slotCount := by
    rw [h.current, Nat.mod_add_mod]
  rw [TimingWheel.tick, if_neg (by simp), sweep_eq]
  have hslot := h.slots ⟨(w.currentSlot.val + 1) % slotCount, Nat.mod_lt _ (by decide)⟩
  simp only [hnext] at hslot
  have hmem : ∀ t ∈ q.pending.filter (fun t ↦ t.deadline % slotCount = (q.now + 1) % slotCount),
      (q.now < t.deadline ∧ t.deadline ≤ q.now + 2 ^ 63)
        ∧ t.deadline % slotCount = (q.now + 1) % slotCount := by
    intro t ht
    rw [List.mem_filter, decide_eq_true_iff] at ht
    exact ⟨h.bounds t ht.1, ht.2⟩
  refine ⟨_, _, rfl, ?_, ?_, ?_, ?_⟩
  · simp only [hnext, hslot, List.filter_map, Function.comp_def]
    rw [List.filter_congr (q := fun t ↦ decide (t.deadline = q.now + 1)) (fun t ht ↦ by
        rw [decide_eq_decide]
        exact rounds_eq_zero_iff (hmem t ht).1 (hmem t ht).2),
      List.filter_filter, TimerQueue.due]
    congr 1
    refine List.filter_congr fun t _ ↦ ?_
    by_cases hd : t.deadline = q.now + 1 <;> simp [hd]
  · exact hnext
  · intro i
    rw [TimerQueue.tick, List.filter_filter]
    by_cases hi : i.val = (q.now + 1) % slotCount
    · have hi' : i = ⟨(w.currentSlot.val + 1) % slotCount, Nat.mod_lt _ (by decide)⟩ :=
        Fin.ext (hi.trans hnext.symm)
      subst hi'
      show Function.update w.slots _ _ _ = List.map (Timer.toEvent (q.now + 1)) _
      rw [Function.update_self]
      simp only [hnext, hslot, List.filter_map, Function.comp_def, List.map_map]
      rw [List.filter_congr (q := fun t ↦ decide (t.deadline ≠ q.now + 1)) (fun t ht ↦ by
          rw [decide_eq_decide]
          exact not_congr (rounds_eq_zero_iff (hmem t ht).1 (hmem t ht).2)),
        List.filter_filter]
      rw [List.filter_congr (fun t _ ↦ Bool.and_comm _ _)]
      refine List.map_congr_left fun t ht ↦ ?_
      rw [List.mem_filter, Bool.and_eq_true, decide_eq_true_iff, decide_eq_true_iff] at ht
      exact (toEvent_succ_of_slot (h.bounds t ht.1) ht.2.1 ht.2.2).symm
    · have hi' : i ≠ ⟨(w.currentSlot.val + 1) % slotCount, Nat.mod_lt _ (by decide)⟩ := fun hc ↦
        hi (by rw [hc]; exact hnext)
      show Function.update w.slots _ _ _ = List.map (Timer.toEvent (q.now + 1)) _
      -- a timer due now is in the swept slot, so here the filter on deadlines removes nothing
      have hfilter : q.pending.filter (fun t ↦
          decide (t.deadline % slotCount = i.val) && decide (t.deadline ≠ q.now + 1))
          = q.pending.filter fun t ↦ decide (t.deadline % slotCount = i.val) := by
        refine List.filter_congr fun t _ ↦ ?_
        by_cases hd : t.deadline % slotCount = i.val
        · have hne : t.deadline ≠ q.now + 1 := fun hc ↦ hi (by rw [← hd, hc])
          rw [decide_eq_true hne, Bool.and_true]
        · rw [decide_eq_false hd, Bool.false_and]
      rw [Function.update_of_ne hi', h.slots i, hfilter]
      refine List.map_congr_left fun t ht ↦ ?_
      rw [List.mem_filter, decide_eq_true_iff] at ht
      exact (toEvent_succ_of_ne_slot (h.bounds t ht.1) (by rw [ht.2]; exact hi)).symm
  · intro t ht
    rw [TimerQueue.tick, List.mem_filter, decide_eq_true_iff] at ht
    obtain ⟨hlt, hle⟩ := h.bounds t ht.1
    have hne := ht.2
    show q.now + 1 < t.deadline ∧ t.deadline ≤ q.now + 1 + 2 ^ 63
    omega

/-! ## All timers in the wheel

Each timer is in one slot, so the slots one after another hold the timers of the queue, in another
order. -/

/-- The timers in all slots. -/
def pending (w : TimingWheel) : List TimerEvent := (List.finRange slotCount).flatMap w.slots

private theorem flatMap_bins_perm {α : Type} [DecidableEq α] {n : ℕ} (bin : α → Fin n)
    (xs : List α) : ((List.finRange n).flatMap fun i ↦ xs.filter fun x ↦ bin x = i).Perm xs := by
  rw [List.perm_iff_count]
  intro a
  have hbin : ∀ i, (xs.filter fun x ↦ bin x = i).count a = if bin a = i then xs.count a else 0 := by
    intro i
    by_cases hi : bin a = i
    · rw [if_pos hi, List.count_filter (by simpa using hi)]
    · rw [if_neg hi, List.count_eq_zero]
      intro hmem
      exact hi (by simpa using List.of_mem_filter hmem)
  rw [List.count_flatMap, Function.comp_def]
  simp only [hbin]
  rw [← Fin.sum_univ_def, Finset.sum_ite_eq, if_pos (Finset.mem_univ _)]

/-- The wheel holds the timers of the queue and no others. -/
theorem Represents.pending_perm {w : TimingWheel} {q : TimerQueue} (h : w.Represents q) :
    w.pending.Perm (q.pending.map (Timer.toEvent q.now)) := by
  have hbins : w.pending = ((List.finRange slotCount).flatMap fun i ↦ q.pending.filter fun t ↦
      (⟨t.deadline % slotCount, Nat.mod_lt _ (by decide)⟩ : Fin slotCount) = i).map
        (Timer.toEvent q.now) := by
    rw [pending, List.map_flatMap]
    congr 1
    funext i
    rw [h.slots i]
    congr 2
    funext t
    rw [decide_eq_decide, Fin.ext_iff]
  rw [hbins]
  exact (flatMap_bins_perm _ _).map _

end TimingWheel

end HighCache
