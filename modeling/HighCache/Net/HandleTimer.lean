import HighCache.Cache.CacheEngine
import HighCache.Cache.TimerSafety

/-!
# The timer of the server

`CacheServer::Impl::handle_timer`: the acceptor reads from a `timerfd` how many intervals have
elapsed and calls `CacheEngine::tick` once for each. The documentation says that this is the one
source of time, with one engine tick for each elapsed interval.

## What an exception does

A tick of a shard may throw, and then its wheel has not moved. The exception leaves the loop of the
engine, so the shards behind it miss that tick, and it ends the loop of `handle_timer`, so all
shards miss the ticks that were still to come. Nothing makes up for them. The clocks of the shards
agree with the elapsed intervals exactly as long as no tick throws (`run_one_clock`).

## Counting

A wheel shows its position but not how often it went round. `TimedEngine` counts, for each shard,
how often its wheel has moved; the count is read off the wheels before and after each call.
-/

namespace HighCache

/-- The tick of every shard, `CacheEngine::tick`, as often as there are expirations, up to the first
exception: the loop of `CacheServer::Impl::handle_timer`. The surroundings of the `k`-th tick are
`envs k`. -/
def CacheEngine.handleTimer {n : ℕ} : ℕ → (ℕ → Fin n → Env) → CacheEngine n →
    Except Fault (CacheEngine n)
  | 0, _, e => .ok e
  | expirations + 1, envs, e => do
    let (answer, e) ← e.tickShards (envs 0) (List.finRange n)
    match answer with
    | .thrown _ => .ok e
    | _ => handleTimer expirations (fun k ↦ envs (k + 1)) e

/-- What happens to the engine of a server: the calls of its workers, and the calls of
`handle_timer` with the count that was read. -/
inductive ServerEvent (n : ℕ) where
  | set (env : Env) (key value : Bytes) (ttl : Int64)
  | get (env : Env) (key output : Bytes)
  | erase (env : Env) (key : Bytes)
  | timer (expirations : UInt64) (envs : ℕ → Fin n → Env)

namespace ServerEvent

variable {n : ℕ}

/-- The intervals that have elapsed. -/
def elapsed : ServerEvent n → ℕ
  | .timer expirations _ => expirations.toNat
  | _ => 0

/-- No tick of a shard throws. -/
def Unfailing : ServerEvent n → Prop
  | .timer expirations envs =>
    ∀ k < expirations.toNat, ∀ i, (envs k i).throws .expiredReserve = false
  | _ => True

end ServerEvent

/-- The engine, and how often the wheel of each shard has moved. -/
structure TimedEngine (n : ℕ) where
  engine : CacheEngine n
  clocks : Fin n → ℕ

namespace TimedEngine

variable {n : ℕ}

/-- Whether the wheel of a cache has moved. -/
def moved (c c' : Cache) : ℕ :=
  if c'.timingWheel.currentSlot = c.timingWheel.currentSlot then 0 else 1

/-- A call on one shard, counted. -/
def callShard (i : Fin n) (call : Call) (s : TimedEngine n) :
    Except Fault (Answer × TimedEngine n) := do
  let (answer, engine) ← s.engine.callShard i call
  let moves := moved (s.engine.shards i) (engine.shards i)
  .ok (answer, ⟨engine, Function.update s.clocks i (s.clocks i + moves)⟩)

/-- The loop of `CacheEngine::tick`, counted. -/
def tickShards (envs : Fin n → Env) :
    List (Fin n) → TimedEngine n → Except Fault (Answer × TimedEngine n)
  | [], s => .ok (.done, s)
  | i :: is, s => do
    let (answer, s) ← s.callShard i (.tick (envs i))
    match answer with
    | .thrown exception => .ok (.thrown exception, s)
    | _ => tickShards envs is s

/-- The loop of `handle_timer`, counted. -/
def handleTimer : ℕ → (ℕ → Fin n → Env) → TimedEngine n → Except Fault (TimedEngine n)
  | 0, _, s => .ok s
  | expirations + 1, envs, s => do
    let (answer, s) ← s.tickShards (envs 0) (List.finRange n)
    match answer with
    | .thrown _ => .ok s
    | _ => handleTimer expirations (fun k ↦ envs (k + 1)) s

/-- One event. -/
def step (hash : Bytes → UInt64) (s : TimedEngine n) :
    ServerEvent n → Except Fault (Answer × TimedEngine n)
  | .set env key value ttl => s.callShard (s.engine.shardFor hash key) (.set env key value ttl)
  | .get env key output => s.callShard (s.engine.shardFor hash key) (.get env key output)
  | .erase env key => s.callShard (s.engine.shardFor hash key) (.erase env key)
  | .timer expirations envs => do
    let s ← s.handleTimer expirations.toNat envs
    .ok (.done, s)

/-! ## Counting changes nothing

The engine of the counting system does what the engine does alone, call by call. -/

theorem callShard_engine (i : Fin n) (call : Call) (s : TimedEngine n) :
    (s.callShard i call).map (fun r ↦ (r.1, r.2.engine)) = s.engine.callShard i call := by
  unfold callShard
  cases s.engine.callShard i call with
  | error fault => rfl
  | ok r => rfl

theorem tickShards_engine (envs : Fin n → Env) : ∀ (is : List (Fin n)) (s : TimedEngine n),
    (s.tickShards envs is).map (fun r ↦ (r.1, r.2.engine)) = s.engine.tickShards envs is := by
  intro is
  induction is with
  | nil => intro s; rfl
  | cons i is ih =>
    intro s
    rw [tickShards, CacheEngine.tickShards, ← callShard_engine]
    cases s.callShard i (.tick (envs i)) with
    | error fault => rfl
    | ok r =>
      obtain ⟨answer, s'⟩ := r
      cases answer with
      | thrown exception => rfl
      | status status => exact ih s'
      | output status bytes => exact ih s'
      | done => exact ih s'

theorem handleTimer_engine : ∀ (expirations : ℕ) (envs : ℕ → Fin n → Env) (s : TimedEngine n),
    (s.handleTimer expirations envs).map engine = s.engine.handleTimer expirations envs := by
  intro expirations
  induction expirations with
  | zero => intro envs s; rfl
  | succ expirations ih =>
    intro envs s
    rw [handleTimer, CacheEngine.handleTimer, ← tickShards_engine]
    cases s.tickShards (envs 0) (List.finRange n) with
    | error fault => rfl
    | ok r =>
      obtain ⟨answer, s'⟩ := r
      cases answer with
      | thrown exception => rfl
      | status status => exact ih _ s'
      | output status bytes => exact ih _ s'
      | done => exact ih _ s'

/-! ## Clocks

A tick that throws is followed by nothing. So after a call either all clocks have moved on by the
same number, or at least one of them is behind: `Advance` says this with one proposition `ok` for
"nothing has thrown", and composes. -/

/-- From `f` to `g` no clock has moved by more than `t`, and all have moved by `t` exactly if
`ok`. -/
structure Advance {ι : Type} (f g : ι → ℕ) (t : ℕ) (ok : Prop) : Prop where
  le : ∀ i, g i ≤ f i + t
  eq_iff : (∀ i, g i = f i + t) ↔ ok

theorem Advance.refl {ι : Type} (f : ι → ℕ) : Advance f f 0 True :=
  ⟨fun _ ↦ le_refl _, ⟨fun _ ↦ trivial, fun _ _ ↦ rfl⟩⟩

theorem Advance.trans {ι : Type} {f g h : ι → ℕ} {t u : ℕ} {ok ok' : Prop}
    (hfg : Advance f g t ok) (hgh : Advance g h u ok') : Advance f h (t + u) (ok ∧ ok') where
  le i := by
    have := hfg.le i
    have := hgh.le i
    omega
  eq_iff := by
    rw [← hfg.eq_iff, ← hgh.eq_iff, ← forall_and]
    refine forall_congr' fun i ↦ ?_
    have := hfg.le i
    have := hgh.le i
    omega

/-- From `a` to `b` there are at most `k` ticks, and nothing else. -/
inductive Ticked : ℕ → ItemCache → ItemCache → Prop where
  | refl (k : ℕ) (a : ItemCache) : Ticked k a a
  | tick {k : ℕ} {a b : ItemCache} (env : Env) (h : Ticked k (a.tick env).2 b) : Ticked (k + 1) a b

theorem Ticked.trans {j k : ℕ} {a b c : ItemCache} (h : Ticked j a b) (h' : Ticked k b c) :
    Ticked (k + j) a c := by
  induction h with
  | refl i a =>
    induction h' with
    | refl k a => exact .refl _ _
    | @tick k a b env h' ih =>
      rw [Nat.add_right_comm]
      exact .tick env ih
  | tick env _ ih => exact .tick env (ih h')

/-- The shards are lists whose clocks are the counts. -/
def Keeps (s : TimedEngine n) (A : Fin n → ItemCache) : Prop :=
  s.engine.Simulates A ∧ ∀ i, (A i).timers.now = s.clocks i

/-- The position of a wheel is its clock, modulo the number of slots. -/
theorem currentSlot_of_simulates {c : Cache} {a : ItemCache} (h : c.Simulates a) :
    c.timingWheel.currentSlot.val = a.timers.now % TimingWheel.slotCount := by
  obtain ⟨-, L, href⟩ := h
  exact href.wheel.current

private theorem moved_eq {c c' : Cache} {a a' : ItemCache} (h : c.Simulates a)
    (h' : c'.Simulates a')
    {done : Prop} [Decidable done] (hnow : a'.timers.now = a.timers.now + if done then 1 else 0) :
    moved c c' = if done then 1 else 0 := by
  have hslot := currentSlot_of_simulates h
  have hslot' := currentSlot_of_simulates h'
  rw [hnow] at hslot'
  unfold TimingWheel.slotCount at hslot hslot'
  by_cases hd : done
  · rw [if_pos hd] at hslot' ⊢
    refine if_neg fun heq ↦ ?_
    have := congrArg Fin.val heq
    omega
  · rw [if_neg hd] at hslot' ⊢
    exact if_pos (Fin.ext (hslot'.trans hslot.symm))

/-- A call on one shard moves its clock if it is a tick that went through. -/
theorem Keeps.callShard {s : TimedEngine n} {A : Fin n → ItemCache} (h : s.Keeps A) (i : Fin n)
    (call : Call) :
    ∃ s', s.callShard i call = .ok (((A i).call call).1, s')
      ∧ s'.Keeps (Function.update A i ((A i).call call).2)
      ∧ s'.clocks = Function.update s.clocks i
        (s.clocks i + if ((A i).call call).1 = .done then 1 else 0) := by
  obtain ⟨hsim, hclocks⟩ := h
  obtain ⟨e, hcall, hsim'⟩ := hsim.callShard i call
  have hnow := Cache.now_call (hsim i).1 call
  have hshard : (e.shards i).Simulates ((A i).call call).2 := by
    have hi := hsim' i
    rwa [Function.update_self] at hi
  have hmoved := moved_eq (hsim i) hshard hnow
  refine ⟨⟨e, Function.update s.clocks i
    (s.clocks i + if ((A i).call call).1 = .done then 1 else 0)⟩, ?_, ⟨hsim', fun j ↦ ?_⟩, rfl⟩
  · rw [TimedEngine.callShard, hcall, Except.ok_bind_eq]
    dsimp only
    rw [hmoved]
  · show (Function.update A i _ j).timers.now = Function.update s.clocks i _ j
    by_cases hj : j = i
    · subst hj
      rw [Function.update_self, Function.update_self, hnow, hclocks]
    · rw [Function.update_of_ne hj, Function.update_of_ne hj, hclocks]

/-- A tick of one shard moves its clock on exactly if it does not throw. -/
private theorem Keeps.tickShard {s : TimedEngine n} {A : Fin n → ItemCache} (h : s.Keeps A)
    (i : Fin n) (env : Env) :
    ∃ answer s' A', s.callShard i (.tick env) = .ok (answer, s') ∧ s'.Keeps A'
      ∧ (∀ j, Ticked (if j = i then 1 else 0) (A j) (A' j))
      ∧ ((env.throws .expiredReserve = false ∧ answer = .done
          ∧ ∀ j, s'.clocks j = s.clocks j + if j = i then 1 else 0)
        ∨ (env.throws .expiredReserve = true ∧ answer = .thrown .badAlloc
          ∧ s'.clocks = s.clocks)) := by
  obtain ⟨s', hcall, h', hclocks⟩ := h.callShard i (.tick env)
  rw [show (A i).call (.tick env) = (A i).tick env from rfl] at hcall h' hclocks
  refine ⟨_, s', _, hcall, h', fun j ↦ ?_, ?_⟩
  · by_cases hj : j = i
    · subst hj
      rw [if_pos rfl, Function.update_self]
      exact .tick env (.refl 0 _)
    · rw [if_neg hj, Function.update_of_ne hj]
      exact .refl _ _
  by_cases hthrow : env.throws .expiredReserve = true
  · have hanswer : ((A i).tick env).1 = .thrown .badAlloc := by
      rw [ItemCache.tick, if_pos hthrow]
    rw [hanswer] at hclocks ⊢
    rw [if_neg (by rintro ⟨⟩), Nat.add_zero, Function.update_eq_self] at hclocks
    exact Or.inr ⟨hthrow, rfl, hclocks⟩
  · have hanswer : ((A i).tick env).1 = .done := by rw [ItemCache.tick, if_neg hthrow]
    rw [hanswer] at hclocks ⊢
    rw [if_pos rfl] at hclocks
    refine Or.inl ⟨Bool.not_eq_true _ ▸ hthrow, rfl, fun j ↦ ?_⟩
    rw [hclocks]
    by_cases hj : j = i
    · subst hj
      rw [Function.update_self, if_pos rfl]
    · rw [Function.update_of_ne hj, if_neg hj, Nat.add_zero]

/-- The loop of `CacheEngine::tick` over some shards: without an exception the clock of each moves
on, with one the clock of a shard stands still. -/
theorem Keeps.tickShards (envs : Fin n → Env) : ∀ (is : List (Fin n)), is.Nodup →
    ∀ {s : TimedEngine n} {A : Fin n → ItemCache}, s.Keeps A →
    ∃ answer s' A', s.tickShards envs is = .ok (answer, s') ∧ s'.Keeps A'
      ∧ (∀ j, Ticked (if j ∈ is then 1 else 0) (A j) (A' j))
      ∧ (((∀ i ∈ is, (envs i).throws .expiredReserve = false) ∧ answer = .done
          ∧ ∀ j, s'.clocks j = s.clocks j + if j ∈ is then 1 else 0)
        ∨ ((∃ i ∈ is, (envs i).throws .expiredReserve = true ∧ s'.clocks i = s.clocks i)
          ∧ (∃ exception, answer = .thrown exception)
          ∧ ∀ j, s'.clocks j ≤ s.clocks j + if j ∈ is then 1 else 0)) := by
  intro is
  induction is with
  | nil =>
    intro _ s A h
    exact ⟨.done, s, A, rfl, h, fun _ ↦ .refl _ _, Or.inl ⟨by simp, rfl, by simp⟩⟩
  | cons i is ih =>
    intro hnodup s A h
    rw [List.nodup_cons] at hnodup
    obtain ⟨answer₁, s₁, A₁, hcall, h₁, hfirst, hclocks₁⟩ := h.tickShard i (envs i)
    rw [TimedEngine.tickShards, hcall, Except.ok_bind_eq]
    -- the shard is ticked here and not again further on
    have hsplit : ∀ j, (if j ∈ i :: is then 1 else 0)
        = (if j ∈ is then 1 else 0) + if j = i then 1 else 0 := by
      intro j
      by_cases hj : j = i
      · subst hj
        simp [hnodup.1]
      · simp [hj]
    rcases hclocks₁ with ⟨hquiet, rfl, hmove⟩ | ⟨hthrow, rfl, hsame⟩
    · obtain ⟨answer, s', A', hloop, h', hticked, hcases⟩ := ih hnodup.2 h₁
      refine ⟨answer, s', A', hloop, h', fun j ↦ ?_, ?_⟩
      · rw [hsplit]
        exact (hfirst j).trans (hticked j)
      rcases hcases with ⟨hnone, hdone, heq⟩ | ⟨⟨k, hk, hkthrow, hkstill⟩, hthrown, hle⟩
      · refine Or.inl ⟨List.forall_mem_cons.mpr ⟨hquiet, hnone⟩, hdone, fun j ↦ ?_⟩
        rw [heq, hmove, hsplit]
        omega
      · refine Or.inr ⟨⟨k, List.mem_cons_of_mem _ hk, hkthrow, ?_⟩, hthrown, fun j ↦ ?_⟩
        · have hne : k ≠ i := fun heq ↦ hnodup.1 (heq ▸ hk)
          rw [hkstill, hmove, if_neg hne, Nat.add_zero]
        · have := hle j
          rw [hmove] at this
          rw [hsplit]
          omega
    · refine ⟨_, s₁, A₁, rfl, h₁, fun j ↦ ?_,
        Or.inr ⟨⟨i, List.mem_cons_self, hthrow, by rw [hsame]⟩, ⟨_, rfl⟩, fun j ↦ ?_⟩⟩
      · rw [hsplit]
        exact (hfirst j).trans (.refl _ _)
      · rw [hsame]
        exact Nat.le_add_right _ _

/-- **One tick of the engine** moves every clock on exactly if no shard throws. -/
theorem Keeps.tick {s : TimedEngine n} {A : Fin n → ItemCache} (h : s.Keeps A)
    (envs : Fin n → Env) :
    ∃ answer s' A', s.tickShards envs (List.finRange n) = .ok (answer, s') ∧ s'.Keeps A'
      ∧ (∀ j, Ticked 1 (A j) (A' j))
      ∧ ((answer = .done ∧ Advance s.clocks s'.clocks 1 True
          ∧ ∀ i, (envs i).throws .expiredReserve = false)
        ∨ ((∃ exception, answer = .thrown exception) ∧ Advance s.clocks s'.clocks 1 False
          ∧ ∃ i, (envs i).throws .expiredReserve = true)) := by
  obtain ⟨answer, s', A', hloop, h', hticked, hcases⟩ :=
    Keeps.tickShards envs (List.finRange n) (List.nodup_finRange n) h
  simp only [List.mem_finRange, if_true, true_and, forall_const] at hcases hticked
  refine ⟨answer, s', A', hloop, h', hticked, ?_⟩
  rcases hcases with ⟨hnone, hdone, heq⟩ | ⟨⟨i, hthrow, hstill⟩, hthrown, hle⟩
  · exact Or.inl ⟨hdone, ⟨fun j ↦ (heq j).le, iff_of_true heq trivial⟩, hnone⟩
  · refine Or.inr ⟨hthrown, ⟨hle, iff_of_false (fun heq ↦ ?_) id⟩, i, hthrow⟩
    have := heq i
    omega

/-- **`handle_timer` moves every clock on by the elapsed intervals exactly if no tick throws.** -/
theorem Keeps.handleTimer : ∀ (expirations : ℕ) (envs : ℕ → Fin n → Env) {s : TimedEngine n}
    {A : Fin n → ItemCache}, s.Keeps A →
    ∃ s' A', s.handleTimer expirations envs = .ok s' ∧ s'.Keeps A'
      ∧ (∀ j, Ticked expirations (A j) (A' j))
      ∧ Advance s.clocks s'.clocks expirations
        (∀ k < expirations, ∀ i, (envs k i).throws .expiredReserve = false) := by
  intro expirations
  induction expirations with
  | zero =>
    intro envs s A h
    refine ⟨s, A, rfl, h, fun _ ↦ .refl _ _, ⟨fun _ ↦ le_refl _, iff_of_true (fun _ ↦ rfl) ?_⟩⟩
    exact fun k hk ↦ absurd hk (Nat.not_lt_zero k)
  | succ expirations ih =>
    intro envs s A h
    obtain ⟨answer, s₁, A₁, htick, h₁, hticked, hcases⟩ := h.tick (envs 0)
    rw [TimedEngine.handleTimer, htick, Except.ok_bind_eq]
    rcases hcases with ⟨rfl, hadvance, hnone⟩ | ⟨⟨exception, rfl⟩, hadvance, i, hthrow⟩
    · obtain ⟨s', A', hloop, h', hticked', hadvance'⟩ := ih (fun k ↦ envs (k + 1)) h₁
      refine ⟨s', A', hloop, h', fun j ↦ (hticked j).trans (hticked' j), ?_⟩
      have htrans := hadvance.trans hadvance'
      refine ⟨fun j ↦ by rw [Nat.add_comm expirations 1]; exact htrans.le j, ?_⟩
      rw [Nat.add_comm expirations 1, htrans.eq_iff, true_and]
      constructor
      · intro hlater k hk
        cases k with
        | zero => exact hnone
        | succ k => exact hlater k (by omega)
      · exact fun hall k hk ↦ hall (k + 1) (by omega)
    -- the ticks that were left are dropped
    · refine ⟨s₁, A₁, rfl, h₁, fun j ↦ ?_, ⟨fun j ↦ ?_, iff_of_false (fun heq ↦ ?_) fun hall ↦ ?_⟩⟩
      · rw [Nat.add_comm]
        exact (Ticked.refl expirations (A j)).trans (hticked j)
      · have := hadvance.le j
        omega
      · -- with all clocks so far ahead, this tick would have gone through
        refine hadvance.eq_iff.mp fun j ↦ ?_
        have := hadvance.le j
        have := heq j
        omega
      · have := hall 0 (Nat.succ_pos _) i
        rw [hthrow] at this
        cases this

theorem Keeps.step (hash : Bytes → UInt64) {s : TimedEngine n} {A : Fin n → ItemCache}
    (h : s.Keeps A) (event : ServerEvent n) :
    ∃ answer s' A', s.step hash event = .ok (answer, s') ∧ s'.Keeps A'
      ∧ Advance s.clocks s'.clocks event.elapsed event.Unfailing := by
  have hkey : ∀ (i : Fin n) (call : Call), ((A i).call call).1 ≠ .done →
      ∃ answer s' A', s.callShard i call = .ok (answer, s') ∧ s'.Keeps A'
        ∧ Advance s.clocks s'.clocks 0 True := by
    intro i call hanswer
    obtain ⟨s', hcall, h', hclocks⟩ := h.callShard i call
    rw [if_neg hanswer, Nat.add_zero, Function.update_eq_self] at hclocks
    exact ⟨_, s', _, hcall, h', hclocks ▸ Advance.refl _⟩
  cases event with
  | set env key value ttl => exact hkey _ _ (ItemCache.set_ne_done _ env key value ttl)
  | get env key output => exact hkey _ _ (ItemCache.get_ne_done _ env key output)
  | erase env key => exact hkey _ _ (ItemCache.erase_ne_done _ env key)
  | timer expirations envs =>
    obtain ⟨s', A', htimer, h', -, hadvance⟩ := h.handleTimer expirations.toNat envs
    refine ⟨.done, s', A', ?_, h', hadvance⟩
    rw [TimedEngine.step, htimer]
    rfl

/-- The intervals that have elapsed during some events. -/
def elapsed (events : List (ServerEvent n)) : ℕ := (events.map ServerEvent.elapsed).sum

theorem Keeps.run (hash : Bytes → UInt64) : ∀ (events : List (ServerEvent n)) {s : TimedEngine n}
    {A : Fin n → ItemCache}, s.Keeps A →
    ∃ answers s' A', Transition.run (TimedEngine.step hash) s events = .ok (answers, s')
      ∧ s'.Keeps A'
      ∧ Advance s.clocks s'.clocks (elapsed events) (∀ event ∈ events, event.Unfailing) := by
  intro events
  induction events with
  | nil =>
    intro s A h
    exact ⟨[], s, A, rfl, h, fun _ ↦ le_refl _, iff_of_true (fun _ ↦ rfl) (by simp)⟩
  | cons event events ih =>
    intro s A h
    obtain ⟨answer, s₁, A₁, hstep, h₁, hadvance⟩ := h.step hash event
    obtain ⟨answers, s', A', hrun, h', hadvance'⟩ := ih h₁
    refine ⟨answer :: answers, s', A', ?_, h', ?_⟩
    · rw [Transition.run_cons hstep, hrun]
      rfl
    · have htrans := hadvance.trans hadvance'
      rw [elapsed, List.map_cons, List.sum_cons]
      refine ⟨htrans.le, htrans.eq_iff.trans ?_⟩
      rw [List.forall_mem_cons]

/-- A new engine, whose wheels have not moved. -/
def start (e : CacheEngine n) : TimedEngine n := ⟨e, fun _ ↦ 0⟩

theorem Keeps.start (capacity : UInt64) {e : CacheEngine n}
    (hnew : CacheEngine.new capacity.toNat n = .ok e) :
    (start e).Keeps fun i ↦ ItemCache.new (CacheEngine.shardCapacity capacity.toNat n i) :=
  ⟨CacheEngine.simulates_new capacity.toNat_lt hnew, fun _ ↦ rfl⟩

/-- **The shards share one clock exactly as long as no tick throws.** In every state that calls of
workers and of `handle_timer` lead to: the wheel of every shard has moved once for each elapsed
interval exactly if no tick of a shard has thrown; and a further call of `handle_timer`, which does
to the engine what it does without the counting, moves the wheel of every shard on by the count it
reads exactly if no tick of a shard throws in it. -/
theorem run_one_clock (hash : Bytes → UInt64) (capacity : UInt64) {e : CacheEngine n}
    (hnew : CacheEngine.new capacity.toNat n = .ok e) (events : List (ServerEvent n)) :
    ∃ answers s, Transition.run (step hash) (start e) events = .ok (answers, s)
      ∧ (∀ i, (s.engine.shards i).timingWheel.currentSlot.val = s.clocks i % TimingWheel.slotCount)
      ∧ ((∀ i, s.clocks i = elapsed events) ↔ ∀ event ∈ events, event.Unfailing)
      ∧ ∀ (expirations : UInt64) envs, ∃ answer s',
        s.step hash (.timer expirations envs) = .ok (answer, s')
        ∧ s.engine.handleTimer expirations.toNat envs = .ok s'.engine
        ∧ ((∀ i, s'.clocks i = s.clocks i + expirations.toNat)
          ↔ ∀ k < expirations.toNat, ∀ i, (envs k i).throws .expiredReserve = false) := by
  obtain ⟨answers, s, A, hrun, hkeeps, hadvance⟩ := (Keeps.start capacity hnew).run hash events
  refine ⟨answers, s, hrun, fun i ↦ ?_, ?_, fun expirations envs ↦ ?_⟩
  · rw [currentSlot_of_simulates (hkeeps.1 i), hkeeps.2 i]
  · have hiff := hadvance.eq_iff
    simp only [start, Nat.zero_add] at hiff
    exact hiff
  · obtain ⟨answer, s', A', hstep, -, hadvance'⟩ := hkeeps.step hash (.timer expirations envs)
    refine ⟨answer, s', hstep, ?_, hadvance'.eq_iff⟩
    obtain ⟨s'', htimer, hdone⟩ := Except.bind_eq_ok_iff.mp hstep
    cases hdone
    rw [← handleTimer_engine, htimer]
    rfl

/-- Nothing fails. -/
private def calm : Env := ⟨some 8, fun _ ↦ false⟩

/-- Memory is short when room for the expired timers is reserved. -/
private def short : Env := ⟨none, fun point ↦ point = .expiredReserve⟩

/-- An empty engine of two shards. -/
private def twoShards : CacheEngine 2 := ⟨100, fun _ ↦ Cache.new 50, Nat.two_pos⟩

/-- A key in the second shard that lives for a second. -/
private def oneSecond : List (ServerEvent 2) := [.set calm [107] [1] 1000]

/-- The two intervals after it, where nothing fails. -/
theorem run_one_clock_calm :
    ∃ answers s, Transition.run (step fun _ ↦ 1) (start twoShards)
        (oneSecond ++ [.timer 2 fun _ _ ↦ calm]) = .ok (answers, s)
      ∧ ∀ i, s.clocks i = 2 := by
  have hnew : CacheEngine.new (100 : UInt64).toNat 2 = .ok twoShards := rfl
  obtain ⟨answers, s, hrun, -, hiff, -⟩ :=
    run_one_clock (fun _ ↦ 1) 100 hnew (oneSecond ++ [.timer 2 fun _ _ ↦ calm])
  refine ⟨answers, s, hrun, hiff.mpr ?_⟩
  intro event hevent
  rcases List.mem_append.mp hevent with hset | htimer
  · rw [List.mem_singleton.mp hset]
    exact trivial
  · rw [List.mem_singleton.mp htimer]
    exact fun _ _ _ ↦ rfl

/-- The same two intervals, and the second shard is short of memory when its timer is due. The first
shard has moved once and the second not at all, and neither will make up for it. -/
theorem handleTimer_skips_ticks :
    ∃ answers s answer s', Transition.run (step fun _ ↦ 1) (start twoShards) oneSecond
        = .ok (answers, s)
      ∧ s.step (fun _ ↦ 1) (.timer 2 fun _ i ↦ if i = 1 then short else calm) = .ok (answer, s')
      ∧ s'.clocks 0 = s.clocks 0 + 1 ∧ s'.clocks 1 = s.clocks 1
      ∧ ¬∀ i, s'.clocks i = s.clocks i + (2 : UInt64).toNat := by
  have hclocks :
      ((Transition.run (step fun _ ↦ 1) (start twoShards) oneSecond).toOption.bind fun r ↦
        (r.2.step (fun _ ↦ 1) (.timer 2 fun _ i ↦ if i = 1 then short else calm)).toOption.map
          fun r' ↦ (r.2.clocks 0, r.2.clocks 1, r'.2.clocks 0, r'.2.clocks 1))
        = some (0, 0, 1, 0) := by
    decide +kernel
  obtain ⟨⟨answers, s⟩, hrun, hstep⟩ := Option.bind_eq_some_iff.mp hclocks
  obtain ⟨⟨answer, s'⟩, hstep, hvalues⟩ := Option.map_eq_some_iff.mp hstep
  rw [Prod.mk.injEq, Prod.mk.injEq, Prod.mk.injEq] at hvalues
  obtain ⟨h₀, h₁, h₀', h₁'⟩ := hvalues
  refine ⟨answers, s, answer, s', Except.eq_ok_of_toOption hrun,
    Except.eq_ok_of_toOption hstep, h₀'.trans (h₀ ▸ rfl), h₁'.trans h₁.symm, fun hall ↦ ?_⟩
  have := hall 1
  dsimp only at h₁ h₁'
  rw [h₁, h₁'] at this
  cases this

end TimedEngine

end HighCache
