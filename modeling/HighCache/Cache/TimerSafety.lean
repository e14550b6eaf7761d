import HighCache.Cache.Operations
import Mathlib.Algebra.BigOperators.Fin

/-!
# Timers and the entries they belong to

A timer outlives the entry it was set for: overwriting, erasing or evicting an entry leaves it in
the wheel, up to the longest TTL. This file says which pending timers still count. Every live entry
whose latest accepted SET had a TTL has exactly one, which the wheel returns on the tick that SET
asked for; a live entry without a TTL has none; and a timer that matches no live entry now will
match none after any further calls.

## What a run can do

`Evolves a b` collects what any run from `a` to `b` respects: generations are drawn upwards only,
timers of generations drawn before `a` are in `b` just when they were in `a` and are still to come,
and items of `b` with such a generation were items of `a`. It is reflexive on well-formed states
and transitive, so one call is all there is to check.

The latest SET of a key is not in the state of the cache. `History` computes it from the calls and
their answers.
-/

namespace HighCache

open KeyedList

/-! ## What a call can do to the records

Coarser than `Takes`: for a deadline it does not matter why a record left, only that none was added
except by an accepted SET. -/

namespace DeadlineCache

/-- What a call can do to the records: an accepted SET puts one in front of others, a tick removes
those due, and everything else at most drops some or reorders them. -/
inductive Change (d : DeadlineCache) : Call → Answer → DeadlineCache → Prop where
  | write {env : Env} {key value : Bytes} {ttl : Int64} {d' : DeadlineCache} {kept : List Record}
      (httl : 0 ≤ ttl) (hkept : ∀ x ∈ kept, x ∈ d.records ∧ x.key ≠ key)
      (hrecords : d'.records = ⟨key, value, deadlineAfter d.now ttl⟩ :: kept)
      (hnow : d'.now = d.now) : Change d (.set env key value ttl) (.status .ok) d'
  | tick {env : Env} {d' : DeadlineCache}
      (hrecords : d'.records = d.records.filter fun x ↦ !isDue d.now x)
      (hnow : d'.now = d.now + 1) : Change d (.tick env) .done d'
  | other {call : Call} {answer : Answer} {d' : DeadlineCache}
      (hset : ∀ env key value ttl, call = .set env key value ttl → answer ≠ .status .ok)
      (htick : answer ≠ .done) (hrecords : ∀ x ∈ d'.records, x ∈ d.records)
      (hnow : d'.now = d.now) : Change d call answer d'

theorem Takes.change {d d' : DeadlineCache} {call : Call} {answer : Answer}
    (h : Takes d call answer d') : Change d call answer d' := by
  have hsub : ∀ budget (rest : List Record), ∀ x ∈ fitting Record.charge budget rest, x ∈ rest :=
    fun budget rest x hx ↦ (fitting_initial Record.charge rest budget).sublist.subset hx
  cases h with
  | unchanged hok hdone hget => exact .other (fun _ _ _ _ _ ↦ hok) hdone (fun _ hx ↦ hx) rfl
  | abandoned => exact .other (by simp) (by simp) (hsub _ _) rfl
  | written httl => exact .write httl (fun x hx ↦ mem_without.mp (hsub _ _ x hx)) rfl rfl
  | missed => exact .other (by simp) (by simp) (fun _ hx ↦ hx) rfl
  | found hvalid hfind =>
    refine .other (by simp) (by simp) (fun y hy ↦ ?_) rfl
    rcases List.mem_cons.mp hy with rfl | hy
    · exact mem_of_find hfind
    · exact (mem_without.mp hy).1
  | erased => exact .other (by simp) (by simp) (fun y hy ↦ (mem_without.mp hy).1) rfl
  | ticked => exact .tick rfl rfl

end DeadlineCache

/-! ## The latest SET of a key -/

/-- The ticks carried out, and for each key the tick and the TTL of its latest accepted SET. -/
structure History where
  now : ℕ
  lastSet : Bytes → Option (ℕ × Int64)

namespace History

/-- Nothing happened yet. -/
def start : History := ⟨0, fun _ ↦ none⟩

/-- One more call and its answer. -/
def record (h : History) : Call → Answer → History
  | .set _ key _ ttl, .status .ok =>
    { h with lastSet := Function.update h.lastSet key (some (h.now, ttl)) }
  | .tick _, .done => { h with now := h.now + 1 }
  | _, _ => h

/-- The calls of a run and their outputs. -/
def after (h : History) : List Call → List (Answer × Report) → History
  | call :: calls, output :: outputs => after (h.record call output.1) calls outputs
  | _, _ => h

/-- Every record has the deadline of the latest SET of its key. -/
structure Explains (h : History) (d : DeadlineCache) : Prop where
  now : d.now = h.now
  records : ∀ x ∈ d.records, ∃ tick ttl, h.lastSet x.key = some (tick, ttl) ∧ 0 ≤ ttl
    ∧ x.deadline = deadlineAfter tick ttl

theorem Explains.record {h : History} {d d' : DeadlineCache} {call : Call} {answer : Answer}
    (hd : h.Explains d) (hchange : DeadlineCache.Change d call answer d') :
    (h.record call answer).Explains d' := by
  cases hchange with
  | write httl hkept hrecords hnow =>
    refine ⟨hnow.trans hd.now, fun x hx ↦ ?_⟩
    rw [hrecords] at hx
    rcases List.mem_cons.mp hx with rfl | hx
    · exact ⟨h.now, _, Function.update_self _ _ _, httl, by rw [hd.now]⟩
    · obtain ⟨hold, hne⟩ := hkept x hx
      have hsame : ∀ value, Function.update h.lastSet _ value x.key = h.lastSet x.key :=
        fun value ↦ Function.update_of_ne hne value h.lastSet
      obtain ⟨tick, ttl, hlast, hrest⟩ := hd.records x hold
      exact ⟨tick, ttl, (hsame _).trans hlast, hrest⟩
  | tick hrecords hnow =>
    refine ⟨hnow.trans (congrArg (· + 1) hd.now), fun x hx ↦ ?_⟩
    rw [hrecords] at hx
    exact hd.records x (List.mem_of_mem_filter hx)
  | other hset htick hrecords hnow =>
    have hsame : h.record call answer = h := by
      unfold History.record
      split
      · exact absurd rfl (hset _ _ _ _ rfl)
      · exact absurd rfl htick
      · rfl
    rw [hsame]
    exact ⟨hnow.trans hd.now, fun x hx ↦ hd.records x (hrecords x hx)⟩

end History

/-! ## What a run can do to timers and items

Generations order everything that happens to timers. A timer drawn before `a` can only wait for its
tick; an item of `b` with a generation drawn before `a` can only have been there; and all that is
new has a later generation. -/

namespace ItemCache

/-- What every run from `a` to `b` respects. -/
structure Evolves (a b : ItemCache) : Prop where
  source_le : a.generationSource ≤ b.generationSource
  now_le : a.timers.now ≤ b.timers.now
  timers : ∀ t : Timer, t.generation ≤ a.generationSource →
    (t ∈ b.timers.pending ↔ t ∈ a.timers.pending ∧ b.timers.now < t.deadline)
  items : ∀ x ∈ b.items, x.generation ≤ a.generationSource → x ∈ a.items

theorem WellFormed.evolves_refl {a : ItemCache} (h : a.WellFormed) : Evolves a a where
  source_le := le_refl _
  now_le := le_refl _
  timers := fun t _ ↦ ⟨fun ht ↦ ⟨ht, h.timer_pending t ht⟩, And.left⟩
  items := fun _ hx _ ↦ hx

theorem Evolves.trans {a b c : ItemCache} (hab : Evolves a b) (hbc : Evolves b c) :
    Evolves a c where
  source_le := hab.source_le.trans hbc.source_le
  now_le := hab.now_le.trans hbc.now_le
  timers := by
    intro t ht
    rw [hbc.timers t (ht.trans hab.source_le), hab.timers t ht]
    have := hbc.now_le
    constructor
    · rintro ⟨⟨hmem, -⟩, hlt⟩
      exact ⟨hmem, hlt⟩
    · rintro ⟨hmem, hlt⟩
      exact ⟨⟨hmem, this.trans_lt hlt⟩, hlt⟩
  items := fun x hx hgen ↦
    hab.items x (hbc.items x hx (hgen.trans hab.source_le)) hgen

/-- Items may go, and items of a later generation may come. -/
theorem Evolves.of_items {a b c : ItemCache} (h : Evolves a b)
    (hsource : c.generationSource = b.generationSource) (htimers : c.timers = b.timers)
    (hitems : ∀ x ∈ c.items, x ∈ b.items ∨ a.generationSource < x.generation) :
    Evolves a c where
  source_le := hsource ▸ h.source_le
  now_le := htimers ▸ h.now_le
  timers := htimers ▸ h.timers
  items := by
    intro x hx hgen
    rcases hitems x hx with hx | hlt
    · exact h.items x hx hgen
    · exact absurd hgen (Nat.not_le.mpr hlt)

theorem WellFormed.evolves_prepare {a : ItemCache} (h : a.WellFormed) (env : Env)
    (key value : Bytes) (ttl : Int64) :
    Evolves a (a.prepare env key value ttl).2
      ∧ ∀ item, (a.prepare env key value ttl).1 = .ok item →
        a.generationSource < item.generation := by
  have hdraw : ∀ calls, Evolves a
      { a with generationSource := a.generationSource + 1, calls := calls } := fun calls ↦
    ⟨Nat.le_succ _, le_refl _, h.evolves_refl.timers, h.evolves_refl.items⟩
  unfold prepare
  cases env.allocation with
  | none => exact ⟨h.evolves_refl, fun item hitem ↦ by cases hitem⟩
  | some pointer =>
    dsimp only
    split
    · exact ⟨h.evolves_refl.of_items rfl rfl fun x hx ↦ Or.inl hx,
        fun item hitem ↦ by cases hitem⟩
    split
    · split
      · exact ⟨(hdraw a.calls).of_items rfl rfl fun x hx ↦ Or.inl hx,
          fun item hitem ↦ by cases hitem⟩
      · refine ⟨⟨Nat.le_succ _, le_refl _, fun t ht ↦ ?_, h.evolves_refl.items⟩, ?_⟩
        · have hne : t ≠ ⟨key, a.generationSource + 1,
              a.timers.now + TimingWheel.ceilTicks ttl⟩ := by
            rintro rfl
            exact absurd ht (Nat.not_succ_le_self _)
          rw [TimerQueue.schedule, List.mem_append, List.mem_singleton, or_iff_left hne]
          exact h.evolves_refl.timers t ht
        · intro item hitem
          cases hitem
          exact Nat.lt_succ_self _
    · refine ⟨hdraw _, fun item hitem ↦ ?_⟩
      cases hitem
      exact Nat.lt_succ_self _

theorem WellFormed.evolves_set {a : ItemCache} (h : a.WellFormed) (env : Env)
    (key value : Bytes) (ttl : Int64) : Evolves a (a.set env key value ttl).2 := by
  obtain ⟨hprep, hitem⟩ := h.evolves_prepare env key value ttl
  unfold ItemCache.set
  split
  · exact h.evolves_refl
  split
  · exact h.evolves_refl
  split
  · exact h.evolves_refl
  split
  · exact h.evolves_refl
  split
  · exact h.evolves_refl
  cases hr : a.prepare env key value ttl with
  | mk r b =>
    rw [hr] at hprep hitem
    cases hfind : a.find key with
    | some old =>
      dsimp only [ItemCache.overwrite]
      rw [hr]
      cases r with
      | error exception => exact hprep
      | ok item =>
        refine hprep.of_items rfl rfl fun x hx ↦ ?_
        -- the new item has the generation that was drawn, and the others were there
        rcases List.mem_cons.mp hx with rfl | hx
        · exact Or.inr (hitem _ rfl)
        · exact Or.inl ((others_subperm key b).subset ((fitting_subperm _ _).subset hx))
    | none =>
      dsimp only [ItemCache.insertNew]
      split
      · exact h.evolves_refl
      rw [hr]
      cases r with
      | error exception => exact hprep
      | ok item =>
        dsimp only
        split
        · exact hprep.of_items rfl rfl fun x hx ↦ Or.inl ((fitting_subperm _ _).subset hx)
        · refine hprep.of_items rfl rfl fun x hx ↦ ?_
          rcases List.mem_cons.mp hx with rfl | hx
          · exact Or.inr (hitem _ rfl)
          · exact Or.inl ((fitting_subperm _ _).subset hx)

/-- **What one call can do.** -/
theorem WellFormed.evolves_call {a : ItemCache} (h : a.WellFormed) (call : Call) :
    Evolves a (a.call call).2 := by
  cases call with
  | set env key value ttl => exact h.evolves_set env key value ttl
  | get env key output =>
    show Evolves a (a.get env key output).2
    unfold ItemCache.get
    split
    · exact h.evolves_refl
    split
    · exact h.evolves_refl
    cases hfind : a.find key with
    | none => exact h.evolves_refl.of_items rfl rfl fun x hx ↦ Or.inl hx
    | some item =>
      dsimp only
      split
      · exact h.evolves_refl
      · refine h.evolves_refl.of_items rfl rfl fun x hx ↦ Or.inl ?_
        rcases List.mem_cons.mp hx with rfl | hx
        · exact mem_of_find hfind
        · exact (mem_without.mp hx).1
  | erase env key =>
    show Evolves a (a.erase env key).2
    unfold ItemCache.erase
    split
    · exact h.evolves_refl
    split
    · exact h.evolves_refl
    cases hfind : a.find key with
    | none => exact h.evolves_refl
    | some item =>
      exact h.evolves_refl.of_items rfl rfl fun x hx ↦ Or.inl (mem_without.mp hx).1
  | tick env =>
    show Evolves a (a.tick env).2
    unfold ItemCache.tick
    split
    · exact h.evolves_refl
    -- the clock goes first, and every timer that is not due stays
    have htick : Evolves a { a with timers := a.timers.tick } := by
      refine ⟨le_refl _, Nat.le_succ _, fun t _ ↦ ?_, fun _ hx _ ↦ hx⟩
      show t ∈ a.timers.pending.filter _ ↔ t ∈ a.timers.pending ∧ a.timers.now + 1 < t.deadline
      rw [List.mem_filter, decide_eq_true_iff]
      refine and_congr_right fun ht ↦ ?_
      have := h.timer_pending t ht
      omega
    have honly := expireAll_only a.timers.due { a with timers := a.timers.tick }
    exact htick.of_items honly.generationSource honly.timers fun x hx ↦ Or.inl (honly.items x hx)

/-! ### Whole runs -/

theorem runTotal_evolves : ∀ (calls : List Call) {a : ItemCache}, a.WellFormed →
    (Transition.runTotal step a calls).2.WellFormed
      ∧ Evolves a (Transition.runTotal step a calls).2 := by
  intro calls
  induction calls with
  | nil => intro a hwf; exact ⟨hwf, hwf.evolves_refl⟩
  | cons call calls ih =>
    intro a hwf
    obtain ⟨hwf', hevolves⟩ := ih (hwf.call call)
    exact ⟨hwf', (hwf.evolves_call call).trans hevolves⟩

theorem change_call {a : ItemCache} (h : a.WellFormed) (call : Call) :
    DeadlineCache.Change a.deadlines call (a.call call).1 (a.call call).2.deadlines := by
  rw [(call_deadlines h call).1, (call_deadlines h call).2]
  exact (a.deadlines.takes_call a.exhausted call).change

theorem runTotal_explains : ∀ (calls : List Call) {a : ItemCache} {h : History}, a.WellFormed →
    h.Explains a.deadlines →
    (h.after calls (Transition.runTotal step a calls).1).Explains
      (Transition.runTotal step a calls).2.deadlines := by
  intro calls
  induction calls with
  | nil => intro a h _ hexp; exact hexp
  | cons call calls ih =>
    intro a h hwf hexp
    exact ih (hwf.call call) (hexp.record (change_call hwf call))

end ItemCache

namespace Cache

/-! ## The wheel of the cache

The statements are about `timing_wheel_` and `entries_` themselves: which events the wheel holds,
and which of them it would return on the next tick. -/

/-- How many of some events carry a key and a generation. -/
def carrying (key : Bytes) (generation : ℕ) (events : List TimerEvent) : ℕ :=
  events.countP fun e ↦ e.key = key ∧ e.generation = generation

/-- An event matches a live entry. -/
def Matches (c : Cache) (e : TimerEvent) : Prop :=
  ∃ s, c.entries.lookup e.key = some s ∧ s.generation = e.generation

/-- The ticks among the calls with these outputs. -/
def ticksDone (outputs : List (Answer × Report)) : ℕ := outputs.countP fun o ↦ o.1 = .done

/-- With `now` ticks behind, one pending event carries the key and the generation, its deadline is
to come, and whatever is called in between, the wheel returns it on the tick that is the deadline
and on no other. -/
structure FiresAt (c : Cache) (key : Bytes) (generation now deadline : ℕ) : Prop where
  pending : carrying key generation c.timingWheel.pending = 1
  ahead : 1 ≤ deadline - now
  returned : ∀ calls outputs c', Transition.run step c calls = .ok (outputs, c') →
    ∀ expired w, c'.timingWheel.tick false = some (expired, w) →
      carrying key generation expired
        = if ticksDone outputs + 1 = deadline - now then 1 else 0

theorem now_call {a : ItemCache} (hwf : a.WellFormed) (call : Call) :
    (a.call call).2.timers.now = a.timers.now + if (a.call call).1 = .done then 1 else 0 := by
  have hchange := ItemCache.change_call hwf call
  generalize (a.call call).1 = answer at hchange ⊢
  cases hchange with
  | write _ _ _ hnow => exact hnow
  | tick _ hnow => exact hnow
  | other _ htick _ hnow => rw [if_neg htick]; exact hnow

private theorem now_runTotal : ∀ (calls : List Call) {a : ItemCache}, a.WellFormed →
    (Transition.runTotal ItemCache.step a calls).2.timers.now
      = a.timers.now + ticksDone (Transition.runTotal ItemCache.step a calls).1 := by
  intro calls
  induction calls with
  | nil => intro a _; rfl
  | cons call calls ih =>
    intro a hwf
    rw [Transition.runTotal_cons]
    refine (ih (hwf.call call)).trans ?_
    rw [ticksDone, ticksDone, List.countP_cons, now_call hwf call]
    have hdone : (if decide ((a.step call).1.1 = .done) = true then 1 else 0)
        = if (a.call call).1 = .done then 1 else 0 :=
      if_congr decide_eq_true_iff rfl rfl
    rw [hdone]
    show _ = _ + (List.countP _ (Transition.runTotal ItemCache.step (a.call call).2 calls).1 + _)
    omega

/-! ### Events and timers -/

/-- Counting events with a key and a generation is counting timers. -/
theorem carrying_map (key : Bytes) (generation now : ℕ) (timers : List Timer) :
    carrying key generation (timers.map (Timer.toEvent now))
      = timers.countP fun t ↦ t.key = key ∧ t.generation = generation := by
  rw [carrying, List.countP_map]
  rfl

private theorem countP_of_mem {timers : List Timer} (hnd : (timers.map Timer.generation).Nodup)
    {t : Timer} (ht : t ∈ timers) :
    timers.countP (fun x ↦ x.key = t.key ∧ x.generation = t.generation) = 1 := by
  have hperm := perm_cons_without hnd ht
  rw [hperm.countP_eq, List.countP_cons_of_pos (by simp), List.countP_eq_zero.mpr]
  intro x hx
  simp only [decide_eq_true_eq, not_and]
  exact fun _ ↦ (mem_without.mp hx).2

private theorem countP_of_forall {timers : List Timer} {key : Bytes} {generation : ℕ}
    (h : ∀ t ∈ timers, t.generation ≠ generation) :
    timers.countP (fun x ↦ x.key = key ∧ x.generation = generation) = 0 := by
  rw [List.countP_eq_zero]
  intro x hx
  simp only [decide_eq_true_eq, not_and]
  exact fun _ ↦ h x hx

theorem Simulates.of_run {c c' : Cache} {a : ItemCache} (h : c.Simulates a) {calls : List Call}
    {outputs : List (Answer × Report)}
    (hrun : Transition.run Cache.step c calls = .ok (outputs, c')) :
    outputs = (Transition.runTotal ItemCache.step a calls).1
      ∧ c'.Simulates (Transition.runTotal ItemCache.step a calls).2 := by
  obtain ⟨c'', hrun', hsim⟩ := h.run calls
  obtain ⟨rfl, rfl⟩ := Except.ok_unique hrun' hrun
  exact ⟨rfl, hsim⟩

/-! ### Entries and their events -/

theorem Simulates.firesAt {c : Cache} {a : ItemCache} (h : c.Simulates a) {t : Timer}
    (ht : t ∈ a.timers.pending) : c.FiresAt t.key t.generation a.timers.now t.deadline := by
  obtain ⟨hwf, L, href⟩ := h
  refine ⟨?_, ?_, ?_⟩
  · rw [carrying, href.wheel.pending_perm.countP_eq, ← carrying, carrying_map,
      countP_of_mem hwf.timers_nodup ht]
  · have := hwf.timer_pending t ht
    omega
  · intro calls outputs c' hrun expired w htick
    obtain ⟨rfl, hwf', L', href'⟩ := Simulates.of_run ⟨hwf, L, href⟩ hrun
    obtain ⟨-, hevolves⟩ := ItemCache.runTotal_evolves calls hwf
    have hnow := now_runTotal calls hwf
    generalize Transition.runTotal ItemCache.step a calls = r at *
    obtain ⟨expired', w', htick', hexpired, -⟩ := href'.wheel.tick
    rw [htick', Option.some.injEq, Prod.mk.injEq] at htick
    rw [← htick.1, hexpired, carrying_map]
    have hgen : t.generation ≤ a.generationSource := hwf.timer_generation_le t ht
    have hahead := hwf.timer_pending t ht
    have hnd : (r.2.timers.due.map Timer.generation).Nodup :=
      hwf'.timers_nodup.sublist (List.filter_sublist.map _)
    -- a timer due with this generation is `t`, and `t` is due on its deadline
    have honly : ∀ x ∈ r.2.timers.due, x.generation = t.generation →
        x = t ∧ t.deadline = r.2.timers.now + 1 := by
      intro x hx hxgen
      rw [TimerQueue.due, List.mem_filter, decide_eq_true_iff] at hx
      have hxa := ((hevolves.timers x (hxgen ▸ hgen)).mp hx.1).1
      obtain rfl := List.inj_on_of_nodup_map hwf.timers_nodup hxa ht hxgen
      exact ⟨rfl, hx.2⟩
    by_cases hdue : t.deadline = r.2.timers.now + 1
    · have hmem : t ∈ r.2.timers.due := by
        rw [TimerQueue.due, List.mem_filter, decide_eq_true_iff]
        exact ⟨(hevolves.timers t hgen).mpr ⟨ht, by omega⟩, hdue⟩
      rw [if_pos (by omega)]
      exact countP_of_mem hnd hmem
    · rw [if_neg (by omega)]
      exact countP_of_forall fun x hx hxgen ↦ hdue (honly x hx hxgen).2

theorem Simulates.lastSet {c : Cache} {a : ItemCache} (h : c.Simulates a) {history : History}
    (hexp : history.Explains a.deadlines) {k : Bytes} {s : StoredEntry}
    (hs : c.entries.lookup k = some s) :
    ∃ tick ttl, history.lastSet k = some (tick, ttl) ∧ 0 ≤ ttl
      ∧ ItemCache.deadlineOf s.generation a.timers = deadlineAfter tick ttl := by
  obtain ⟨-, L, href⟩ := h
  exact hexp.records _ (List.mem_map_of_mem (href.mem_items hs))

/-- A live entry has one timer that fires at the deadline of its latest SET, or no timer if that
had no TTL. -/
theorem Simulates.timer_of_entry {c : Cache} {a : ItemCache} (h : c.Simulates a)
    {history : History} (hexp : history.Explains a.deadlines) {k : Bytes} {s : StoredEntry}
    (hs : c.entries.lookup k = some s) :
    ∃ tick ttl, history.lastSet k = some (tick, ttl)
      ∧ (0 < ttl ∧ c.FiresAt k s.generation history.now (tick + TimingWheel.ceilTicks ttl)
        ∨ ttl = 0 ∧ carrying k s.generation c.timingWheel.pending = 0) := by
  obtain ⟨tick, ttl, hlast, hnonneg, hdeadline⟩ := h.lastSet hexp hs
  refine ⟨tick, ttl, hlast, ?_⟩
  obtain ⟨hwf, L, href⟩ := h
  rw [deadlineAfter] at hdeadline
  by_cases hpos : 0 < ttl
  · rw [if_pos hpos, ItemCache.deadlineOf_eq_some hwf.timers_nodup] at hdeadline
    obtain ⟨t, ht, hgen, hdead⟩ := hdeadline
    have hkey : t.key = k := hwf.timer_key t ht _ (href.mem_items hs) hgen
    have hfires := Simulates.firesAt ⟨hwf, L, href⟩ ht
    rw [hkey, hgen, hdead, show a.timers.now = history.now from hexp.now] at hfires
    exact Or.inl ⟨hpos, hfires⟩
  · have hzero : ttl = 0 := Int64.le_antisymm (Int64.not_lt.mp hpos) hnonneg
    rw [if_neg hpos, ItemCache.deadlineOf, Option.map_eq_none_iff] at hdeadline
    refine Or.inr ⟨hzero, ?_⟩
    rw [carrying, href.wheel.pending_perm.countP_eq, ← carrying, carrying_map]
    exact countP_of_forall (find_eq_none.mp hdeadline)

/-- An event that matches no entry matches none later: its generation is not drawn again. -/
theorem Simulates.stale_forever {c c' : Cache} {a : ItemCache} (h : c.Simulates a)
    {e : TimerEvent} (he : e ∈ c.timingWheel.pending) (hstale : ¬c.Matches e) {calls : List Call}
    {outputs : List (Answer × Report)}
    (hrun : Transition.run Cache.step c calls = .ok (outputs, c')) :
    ¬c'.Matches e := by
  rintro ⟨s, hs, hgen⟩
  obtain ⟨-, -, L', href'⟩ := h.of_run hrun
  obtain ⟨hwf, L, href⟩ := h
  obtain ⟨-, hevolves⟩ := ItemCache.runTotal_evolves calls hwf
  obtain ⟨t, ht, rfl⟩ := List.mem_map.mp (href.wheel.pending_perm.subset he)
  have hle : s.generation ≤ a.generationSource := hgen ▸ hwf.timer_generation_le t ht
  have hitem := hevolves.items _ (href'.mem_items hs) hle
  rw [href.items, List.mem_map] at hitem
  obtain ⟨⟨k, s₀⟩, hs₀, heq⟩ := hitem
  refine hstale ⟨s₀, ?_, (congrArg Item.generation heq).trans hgen⟩
  rw [Timer.toEvent, ← show k = t.key from congrArg Item.key heq]
  exact (href.lists.lookup k s₀).mpr hs₀

theorem Refines.lookup_eq_none {c : Cache} {L : List (Bytes × StoredEntry)} {a : ItemCache}
    (h : c.Refines L a) (k : Bytes) :
    c.entries.lookup k = none ↔ ∀ x ∈ a.deadlines.records, x.key ≠ k := by
  rw [← find_eq_none, show find Record.key k a.deadlines.records = a.deadlines.find k from rfl,
    ItemCache.deadlines_find, Option.map_eq_none_iff]
  rcases h.lookup_cases k with ⟨hlookup, hfind, -⟩ | ⟨s, -, hlookup, hfind⟩
  · simp only [hlookup, hfind]
  · simp [hlookup, hfind]

/-- A tick removes an entry on the deadline of its latest SET and not otherwise. -/
theorem Simulates.tick_removes {c c' : Cache} {a : ItemCache} (h : c.Simulates a)
    {history : History} (hexp : history.Explains a.deadlines) {env : Env}
    (htick : c.tick env = .ok (.done, c')) {k : Bytes} {s : StoredEntry}
    (hs : c.entries.lookup k = some s) :
    c'.entries.lookup k = none ↔ ∃ tick ttl, history.lastSet k = some (tick, ttl) ∧ 0 < ttl
      ∧ tick + TimingWheel.ceilTicks ttl = history.now + 1 := by
  obtain ⟨tick, ttl, hlast, -, hdeadline⟩ := h.lastSet hexp hs
  obtain ⟨hwf, L, href⟩ := h
  obtain ⟨c'', L', htick', href'⟩ := href.tick env
  obtain ⟨hdone, rfl⟩ := Except.ok_unique htick' htick
  have hreserve : env.throws .expiredReserve = false := by
    cases hthrow : env.throws .expiredReserve with
    | false => rfl
    | true =>
      rw [ItemCache.tick, if_pos hthrow] at hdone
      cases hdone
  have hrecords : (a.tick env).2.deadlines.records
      = a.deadlines.records.filter fun x ↦ !DeadlineCache.isDue a.deadlines.now x := by
    rw [(ItemCache.tick_deadlines hwf env).2, DeadlineCache.tick, if_neg (by simp [hreserve])]
  -- the record of `k` is the only one with its key
  have honly : ∀ x ∈ a.deadlines.records, x.key = k →
      x = ItemCache.toRecord a.timers (toItem (k, s)) := by
    intro x hx hxk
    obtain ⟨y, hy, rfl⟩ := List.mem_map.mp hx
    rw [List.inj_on_of_nodup_map hwf.keys_nodup hy (href.mem_items hs) hxk]
  have hmem := List.mem_map_of_mem (f := ItemCache.toRecord a.timers) (href.mem_items hs)
  have hdue : DeadlineCache.isDue a.deadlines.now (ItemCache.toRecord a.timers (toItem (k, s)))
      = true ↔ deadlineAfter tick ttl = some (history.now + 1) := by
    rw [DeadlineCache.isDue, decide_eq_true_iff, hexp.now, ← hdeadline]
    rfl
  have hgone : c''.entries.lookup k = none ↔ deadlineAfter tick ttl = some (history.now + 1) := by
    rw [href'.lookup_eq_none, hrecords, ← hdue]
    constructor
    · intro hall
      by_contra hnot
      refine hall _ (List.mem_filter.mpr ⟨hmem, ?_⟩) rfl
      simpa using hnot
    · intro hd x hx hxk
      rw [List.mem_filter] at hx
      rw [honly x hx.1 hxk, hd] at hx
      exact absurd hx.2 (by simp)
  rw [hgone, hlast, deadlineAfter]
  simp only [Option.some.injEq, Prod.mk.injEq]
  constructor
  · intro hif
    by_cases hpos : 0 < ttl
    · rw [if_pos hpos, Option.some.injEq] at hif
      exact ⟨tick, ttl, ⟨rfl, rfl⟩, hpos, hif⟩
    · rw [if_neg hpos] at hif
      cases hif
  · rintro ⟨tick', ttl', ⟨rfl, rfl⟩, hpos, heq⟩
    rw [if_pos hpos, heq]

/-! ### Every reachable state -/

/-- **Timers and entries in every reachable state.** Pending generations are distinct and drawn; a
live entry whose latest SET had a TTL has exactly one event, which the wheel returns on the tick
that SET asked for; one whose latest SET had none has no event; an event that matches no entry
never will; and a tick that is carried out removes the entries whose own deadline it is. -/
theorem timers_of_reachable (capacity : UInt64) (calls : List Call) :
    ∃ outputs c, Transition.run step (new capacity.toNat) calls = .ok (outputs, c)
      ∧ (c.timingWheel.pending.map TimerEvent.generation).Nodup
      ∧ (∀ e ∈ c.timingWheel.pending, e.generation ≤ c.generationSource)
      ∧ (∀ k s, c.entries.lookup k = some s →
          ∃ tick ttl, (History.start.after calls outputs).lastSet k = some (tick, ttl)
            ∧ (0 < ttl ∧ c.FiresAt k s.generation (History.start.after calls outputs).now
                (tick + TimingWheel.ceilTicks ttl)
              ∨ ttl = 0 ∧ carrying k s.generation c.timingWheel.pending = 0))
      ∧ (∀ e ∈ c.timingWheel.pending, ¬c.Matches e → ∀ later outputs' c',
          Transition.run step c later = .ok (outputs', c') → ¬c'.Matches e)
      ∧ ∀ env c', c.tick env = .ok (.done, c') → ∀ k s, c.entries.lookup k = some s →
          (c'.entries.lookup k = none
            ↔ ∃ tick ttl, (History.start.after calls outputs).lastSet k = some (tick, ttl)
              ∧ 0 < ttl
              ∧ tick + TimingWheel.ceilTicks ttl
                = (History.start.after calls outputs).now + 1) := by
  have hnew : (ItemCache.new capacity.toNat).WellFormed :=
    ItemCache.wellFormed_new capacity.toNat_lt
  have hexp := ItemCache.runTotal_explains calls (h := History.start) hnew
    ⟨rfl, fun x hx ↦ by cases hx⟩
  obtain ⟨c, hrun, hsim⟩ := (simulates_new capacity.toNat_lt).run calls
  obtain ⟨hwf, L, href⟩ := id hsim
  have hperm := href.wheel.pending_perm.map TimerEvent.generation
  rw [List.map_map] at hperm
  refine ⟨_, c, hrun, ?_, ?_, ?_, ?_, ?_⟩
  · exact hperm.nodup_iff.mpr hwf.timers_nodup
  · intro e he
    obtain ⟨t, ht, rfl⟩ := List.mem_map.mp (href.wheel.pending_perm.subset he)
    rw [href.source]
    exact hwf.timer_generation_le t ht
  · exact fun k s hs ↦ hsim.timer_of_entry hexp hs
  · exact fun e he hstale later outputs' c' hrun' ↦ hsim.stale_forever he hstale hrun'
  · exact fun env c' htick k s hs ↦ hsim.tick_removes hexp htick hs

end Cache

end HighCache
