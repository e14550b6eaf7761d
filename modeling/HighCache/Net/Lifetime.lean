import HighCache.Cache.Sharding
import HighCache.Net.HandleTimer

/-!
# How long an entry lives

The timer of the server fires once a second, and a TTL is rounded up to a number of ticks. They are
counted from the last tick before the SET, not from the SET: an entry written `t` milliseconds after
the start is due at tick `⌊t / 1000⌋ + ⌈ttl / 1000⌉`, and a GET before that tick finds it unless the
key was written, erased or evicted in between (`get_hits`). Written on a tick it lives for its TTL
at least; written just before one it lives for almost a second less (`get_misses_early`). This is
the resolution of one second that the documentation gives.

An operation at time `t` comes after `⌊t / 1000⌋` intervals have elapsed. A tick that throws delays
every later one, so that an entry then lives longer.
-/

namespace HighCache

open KeyedList

/-- The call writes or erases a key. -/
def Call.Concerns (key : Bytes) : Call → Prop
  | .set _ k _ _ => k = key
  | .erase _ k => k = key
  | _ => False

/-- The event writes or erases a key. -/
def ServerEvent.Concerns {n : ℕ} (key : Bytes) : ServerEvent n → Prop
  | .set _ k _ _ => k = key
  | .erase _ k => k = key
  | _ => False

/-! ## One call

What can happen to a record that is not the subject of the call: it stays, or it is evicted and the
evictions have gone up. -/

namespace DeadlineCache

/-- From `d` to `d'` something was evicted, or else the record `x` is still there. -/
def KeepsOrEvicts (x : Record) (d d' : DeadlineCache) : Prop :=
  d.evictions < d'.evictions ∨ d'.evictions = d.evictions ∧ x ∈ d'.records

private theorem keepsOrEvicts_makeRoom (d : DeadlineCache) (charge : ℕ) {rest : List Record}
    {x : Record} (hx : x ∈ rest) : KeepsOrEvicts x d (d.makeRoom charge rest) := by
  by_cases hevictions : (d.makeRoom charge rest).evictions = d.evictions
  · rw [makeRoom_of_evictions hevictions]
    exact Or.inr ⟨rfl, hx⟩
  · have hle : d.evictions ≤ (d.makeRoom charge rest).evictions := Nat.le_add_right _ _
    exact Or.inl (lt_of_le_of_ne hle (Ne.symm hevictions))

theorem KeepsOrEvicts.push {x : Record} {d d' : DeadlineCache} (h : KeepsOrEvicts x d d')
    (y : Record) : KeepsOrEvicts x d (d'.push y) :=
  h.imp id fun hkept ↦ ⟨hkept.1, List.mem_cons_of_mem _ hkept.2⟩

/-- **A call that does not concern the key of a record, and is not the tick it is due at, keeps the
record or evicts.** -/
theorem Takes.keepsOrEvicts {d d' : DeadlineCache} {call : Call} {answer : Answer}
    (h : Takes d call answer d') (hnd : (d.records.map Record.key).Nodup) {x : Record}
    (hx : x ∈ d.records) (hcall : ¬call.Concerns x.key)
    (hdue : ∀ env, call = .tick env → x.deadline ≠ some (d.now + 1)) : KeepsOrEvicts x d d' := by
  cases h with
  | unchanged => exact Or.inr ⟨rfl, hx⟩
  | abandoned => exact d.keepsOrEvicts_makeRoom _ hx
  | written =>
    have hother : x ∈ d.others _ := mem_without.mpr ⟨hx, Ne.symm hcall⟩
    exact (d.keepsOrEvicts_makeRoom _ hother).push _
  | missed => exact Or.inr ⟨rfl, hx⟩
  | @found _ key _ y hvalid hfind =>
    refine Or.inr ⟨rfl, ?_⟩
    by_cases hkey : x.key = key
    · have hfound : d.find key = some x := (find_eq_some_iff hnd).mpr ⟨hx, hkey⟩
      rw [hfound] at hfind
      exact Option.some.inj hfind ▸ List.mem_cons_self
    · exact List.mem_cons_of_mem _ (mem_without.mpr ⟨hx, hkey⟩)
  | erased => exact Or.inr ⟨rfl, mem_without.mpr ⟨hx, Ne.symm hcall⟩⟩
  | ticked =>
    refine Or.inr ⟨rfl, List.mem_filter.mpr ⟨hx, ?_⟩⟩
    simpa [isDue] using hdue _ rfl

end DeadlineCache

/-! ## A record over several calls

While the eviction counter of its shard stands still, a record that is neither written nor erased
stays until its deadline. -/

namespace ItemCache

/-- More than `evictions` entries have been evicted, or exactly so many and `x` is still there. -/
def Retains (evictions : ℕ) (x : Record) (a : ItemCache) : Prop :=
  evictions < a.evictions ∨ a.evictions = evictions ∧ x ∈ a.deadlines.records

theorem Retains.mem {evictions : ℕ} {x : Record} {a : ItemCache} (h : Retains evictions x a)
    (heq : a.evictions = evictions) : x ∈ a.deadlines.records :=
  h.elim (fun hlt ↦ absurd heq (Nat.ne_of_gt hlt)) And.right

theorem Retains.call {evictions : ℕ} {x : Record} {a : ItemCache} (h : Retains evictions x a)
    (hwf : a.WellFormed) {call : Call} (hcall : ¬call.Concerns x.key)
    (hdue : ∀ env, call = .tick env → x.deadline ≠ some (a.timers.now + 1)) :
    Retains evictions x (a.call call).2 := by
  obtain ⟨-, hcall'⟩ := call_deadlines hwf call
  have hevictions : (a.call call).2.evictions
      = (a.deadlines.call a.exhausted call).2.evictions := congrArg DeadlineCache.evictions hcall'
  unfold Retains
  rw [hevictions, hcall']
  rcases h with hlt | ⟨heq, hx⟩
  · exact Or.inl (hlt.trans_le (a.deadlines.takes_call a.exhausted call).grows.evictions)
  · subst heq
    exact (a.deadlines.takes_call a.exhausted call).keepsOrEvicts hwf.records_nodup hx hcall hdue

theorem Retains.ticked {evictions : ℕ} {x : Record} {k : ℕ} {a b : ItemCache}
    (hticked : TimedEngine.Ticked k a b) :
    Retains evictions x a → a.WellFormed → (∀ d, x.deadline = some d → a.timers.now + k < d) →
    Retains evictions x b := by
  induction hticked with
  | refl k a => exact fun h _ _ ↦ h
  | @tick k a b env _ ih =>
    intro h hwf hlate
    have hnow := Cache.now_call hwf (.tick env)
    have hle : (a.tick env).2.timers.now ≤ a.timers.now + 1 := by
      refine hnow.le.trans (Nat.add_le_add_left ?_ _)
      split
      · exact le_refl _
      · exact Nat.zero_le _
    have hkept : Retains evictions x (a.call (.tick env)).2 := by
      refine h.call hwf id fun _ _ hdue ↦ ?_
      have := hlate _ hdue
      omega
    refine ih hkept (hwf.tick env) ?_
    · intro d hd
      have := hlate d hd
      omega

/-- A valid key that is there is found. -/
private theorem get_of_mem {a : ItemCache} (hwf : a.WellFormed) {x : Record}
    (hx : x ∈ a.deadlines.records) (env : Env) (output : Bytes)
    (hreturned : ∀ exception, (a.get env x.key output).1 ≠ .thrown exception) :
    (a.get env x.key output).1 = .output .ok x.value := by
  have hfind : a.deadlines.find x.key = some x :=
    (find_eq_some_iff hwf.records_nodup).mpr ⟨hx, rfl⟩
  obtain ⟨item, hitem, rfl⟩ := List.mem_map.mp hx
  have hvalid : Cache.validateKey item.key = .ok := by
    have hpos := hwf.key_pos item hitem
    have hle := hwf.key_le item hitem
    rw [Cache.validateKey, if_neg (List.length_pos_iff.mp hpos), if_neg (Nat.not_lt.mpr hle)]
  have hanswer := (get_deadlines a env item.key output).1
  rw [toRecord_key] at hreturned hfind ⊢
  rw [hanswer] at hreturned ⊢
  unfold DeadlineCache.get at hreturned ⊢
  rw [if_neg (not_not.mpr hvalid)] at hreturned ⊢
  split at hreturned
  · exact absurd rfl (hreturned _)
  rename_i hlookup
  rw [if_neg hlookup]
  rw [hfind] at hreturned ⊢
  dsimp only at hreturned ⊢
  split at hreturned
  · exact absurd rfl (hreturned _)
  rename_i hcopy
  rw [if_neg hcopy]

end ItemCache

/-! ## A record over a run of the server

The shard of the key is the one that matters. The others may evict as they like. -/

namespace TimedEngine

variable {n : ℕ}

theorem Keeps.callShard_retains {s : TimedEngine n} {A : Fin n → ItemCache} (h : s.Keeps A)
    {evictions : ℕ} {x : Record} {i : Fin n} (hx : (A i).Retains evictions x) (j : Fin n)
    {call : Call} (hcall : ¬call.Concerns x.key) (htick : ∀ env, call ≠ .tick env)
    (hanswer : ((A j).call call).1 ≠ .done) :
    ∃ answer s' A', s.callShard j call = .ok (answer, s') ∧ s'.Keeps A'
      ∧ (A' i).Retains evictions x ∧ s'.clocks i ≤ s.clocks i := by
  obtain ⟨s', hstep, h', hclocks⟩ := h.callShard j call
  rw [if_neg hanswer, Nat.add_zero, Function.update_eq_self] at hclocks
  refine ⟨_, s', _, hstep, h', ?_, (congrFun hclocks i).le⟩
  by_cases hij : i = j
  · subst hij
    rw [Function.update_self]
    exact hx.call (h.1 i).1 hcall fun env heq ↦ absurd heq (htick env)
  · rw [Function.update_of_ne hij]
    exact hx

/-- **An event that does not concern the key keeps its record until the deadline.** -/
theorem Keeps.step_retains (hash : Bytes → UInt64) {s : TimedEngine n} {A : Fin n → ItemCache}
    (h : s.Keeps A) {evictions : ℕ} {x : Record} {i : Fin n} (hx : (A i).Retains evictions x)
    {event : ServerEvent n} (hevent : ¬event.Concerns x.key)
    (hlate : ∀ d, x.deadline = some d → s.clocks i + event.elapsed < d) :
    ∃ answer s' A', s.step hash event = .ok (answer, s') ∧ s'.Keeps A'
      ∧ (A' i).Retains evictions x ∧ s'.clocks i ≤ s.clocks i + event.elapsed := by
  cases event with
  | set env key value ttl =>
    exact h.callShard_retains hx _ hevent (by rintro _ ⟨⟩)
      (ItemCache.set_ne_done _ env key value ttl)
  | get env key output =>
    exact h.callShard_retains hx _ id (by rintro _ ⟨⟩) (ItemCache.get_ne_done _ env key output)
  | erase env key =>
    exact h.callShard_retains hx _ hevent (by rintro _ ⟨⟩) (ItemCache.erase_ne_done _ env key)
  | timer expirations envs =>
    obtain ⟨s', A', htimer, h', hticked, hadvance⟩ := h.handleTimer expirations.toNat envs
    refine ⟨.done, s', A', ?_, h', ?_, hadvance.le i⟩
    · rw [TimedEngine.step, htimer]
      rfl
    · refine ItemCache.Retains.ticked (hticked i) hx (h.1 i).1 fun d hd ↦ ?_
      rw [h.2 i]
      exact hlate d hd

theorem Keeps.run_retains (hash : Bytes → UInt64) : ∀ (events : List (ServerEvent n))
    {s : TimedEngine n} {A : Fin n → ItemCache}, s.Keeps A →
    ∀ {evictions : ℕ} {x : Record} {i : Fin n}, (A i).Retains evictions x →
    (∀ event ∈ events, ¬event.Concerns x.key) →
    (∀ d, x.deadline = some d → s.clocks i + elapsed events < d) →
    ∃ answers s' A', Transition.run (TimedEngine.step hash) s events = .ok (answers, s')
      ∧ s'.Keeps A' ∧ (A' i).Retains evictions x := by
  intro events
  induction events with
  | nil =>
    intro s A h evictions x i hx _ _
    exact ⟨[], s, A, rfl, h, hx⟩
  | cons event events ih =>
    intro s A h evictions x i hx hevents hlate
    rw [List.forall_mem_cons] at hevents
    have hsum : elapsed (event :: events) = event.elapsed + elapsed events := List.sum_cons
    have hfirst : ∀ d, x.deadline = some d → s.clocks i + event.elapsed < d := by
      intro d hd
      have := hlate d hd
      omega
    obtain ⟨answer, s₁, A₁, hstep, h₁, hx₁, hclock⟩ := h.step_retains hash hx hevents.1 hfirst
    have hrest : ∀ d, x.deadline = some d → s₁.clocks i + elapsed events < d := by
      intro d hd
      have := hlate d hd
      omega
    obtain ⟨answers, s', A', hrun, h', hx'⟩ := ih h₁ hx₁ hevents.2 hrest
    refine ⟨answer :: answers, s', A', ?_, h', hx'⟩
    rw [Transition.run_cons hstep, hrun]
    rfl

/-- How often a shard has evicted an entry. -/
def evictionCount (s : TimedEngine n) (i : Fin n) : ℕ := (s.engine.shards i).evictionCount

/-- A SET of a key that is accepted `t` milliseconds after the start of a server, and a later GET of
the key at time `t'` that returns. In between the key is not written or erased, and nothing is
evicted from its shard. -/
structure Visit (hash : Bytes → UInt64) (e : CacheEngine n) (key value : Bytes) (ttl : Int64)
    (t t' : ℕ) (status : CacheStatus) (bytes : Bytes) where
  -- the events up to the SET, and those between it and the GET
  before : List (ServerEvent n)
  between : List (ServerEvent n)
  setEnv : Env
  getEnv : Env
  output : Bytes
  answers : List Answer
  answers' : List Answer
  s₁ : TimedEngine n
  s₂ : TimedEngine n
  s₃ : TimedEngine n
  s₄ : TimedEngine n
  ran : Transition.run (step hash) (start e) before = .ok (answers, s₁)
  accepted : s₁.step hash (.set setEnv key value ttl) = .ok (.status .ok, s₂)
  passed : Transition.run (step hash) s₂ between = .ok (answers', s₃)
  returned : s₃.step hash (.get getEnv key output) = .ok (.output status bytes, s₄)
  -- tick `k` comes at time `1000 * k`
  set_time : elapsed before = t / 1000
  get_time : elapsed before + elapsed between = t' / 1000
  later : t ≤ t'
  untouched : ∀ event ∈ between, ¬event.Concerns key
  unevicted : s₃.evictionCount (e.shardFor hash key) = s₂.evictionCount (e.shardFor hash key)

theorem Keeps.evictionCount {s : TimedEngine n} {A : Fin n → ItemCache} (h : s.Keeps A)
    (i : Fin n) : s.evictionCount i = (A i).evictions := by
  obtain ⟨-, L, href⟩ := h.1 i
  exact congrArg Report.evictionCount href.report

theorem Keeps.set_retains (hash : Bytes → UInt64) {s s' : TimedEngine n} {A : Fin n → ItemCache}
    (h : s.Keeps A) {env : Env} {key value : Bytes} {ttl : Int64}
    (haccepted : s.step hash (.set env key value ttl) = .ok (.status .ok, s')) :
    ∃ A', s'.Keeps A' ∧ s'.clocks = s.clocks
      ∧ (A' (s.engine.shardFor hash key)).Retains (s'.evictionCount (s.engine.shardFor hash key))
        ⟨key, value, deadlineAfter (s.clocks (s.engine.shardFor hash key)) ttl⟩ := by
  set i := s.engine.shardFor hash key with hi
  obtain ⟨s₁, hstep, h₁, hclocks⟩ := h.callShard i (.set env key value ttl)
  obtain ⟨hanswer, rfl⟩ := Except.ok_unique hstep haccepted
  rw [hanswer, if_neg (by rintro ⟨⟩), Nat.add_zero, Function.update_eq_self] at hclocks
  refine ⟨_, h₁, hclocks, ?_⟩
  have hchange := ItemCache.change_call (h.1 i).1 (.set env key value ttl)
  rw [hanswer] at hchange
  rw [h₁.evictionCount, Function.update_self]
  refine Or.inr ⟨rfl, ?_⟩
  cases hchange with
  | write _ _ hrecords _ =>
    rw [hrecords, ← h.2 i]
    exact List.mem_cons_self
  | other hset _ _ _ => exact absurd rfl (hset _ _ _ _ rfl)

/-! ## A GET before the deadline -/

/-- **An entry lives until the tick it is due at.** -/
theorem get_hits (hash : Bytes → UInt64) (capacity : UInt64) {e : CacheEngine n}
    (hnew : CacheEngine.new capacity.toNat n = .ok e) {key value : Bytes} {ttl : Int64} {t t' : ℕ}
    {status : CacheStatus} {bytes : Bytes} (v : Visit hash e key value ttl t t' status bytes)
    (httl : 0 < ttl) (hdue : t' < 1000 * (t / 1000 + TimingWheel.ceilTicks ttl)) :
    status = .ok ∧ bytes = value := by
  obtain ⟨answers, s₁, A₁, hran, h₁, -⟩ := (Keeps.start capacity hnew).run hash v.before
  obtain ⟨-, rfl⟩ := Except.ok_unique hran v.ran
  obtain ⟨A₂, h₂, hclocks, hx⟩ := h₁.set_retains hash v.accepted
  -- by the time of the GET there have been too few ticks for the deadline
  have hlate : ∀ d, deadlineAfter (v.s₁.clocks (e.shardFor hash key)) ttl = some d →
      v.s₂.clocks (e.shardFor hash key) + elapsed v.between < d := by
    intro d hd
    rw [deadlineAfter, if_pos httl] at hd
    have hset := v.set_time
    have hget := v.get_time
    rw [hclocks, ← Option.some.inj hd]
    omega
  obtain ⟨answers', s₃, A₃, hpassed, h₃, hx₃⟩ := h₂.run_retains hash v.between hx v.untouched hlate
  obtain ⟨-, rfl⟩ := Except.ok_unique hpassed v.passed
  have hmem := hx₃.mem ((h₃.evictionCount (e.shardFor hash key)).symm.trans v.unevicted)
  obtain ⟨s₄, hstep, -, -⟩ := h₃.callShard (e.shardFor hash key) (.get v.getEnv key v.output)
  obtain ⟨hanswer, -⟩ := Except.ok_unique hstep v.returned
  have hanswer : ((A₃ (e.shardFor hash key)).get v.getEnv key v.output).1 = .output status bytes :=
    hanswer
  have hfound := ItemCache.get_of_mem (h₃.1 (e.shardFor hash key)).1 hmem v.getEnv v.output
    (by rw [hanswer]; rintro _ ⟨⟩)
  rw [hanswer] at hfound
  injection hfound with hstatus hbytes
  exact ⟨hstatus, hbytes⟩

/-- Nothing fails. -/
private def quiet : Env := ⟨some 8, fun _ ↦ false⟩

/-- A key written before the first tick, with a TTL in milliseconds, and read after one tick. -/
private def afterOneTick (ttl : Int64) : Option (Answer × Answer × ℕ × ℕ) :=
  ((start .oneShard).step (fun _ ↦ 0) (.set quiet [107] [1] ttl)).toOption.bind fun r ↦
    (Transition.run (step fun _ ↦ 0) r.2 [.timer 1 fun _ _ ↦ quiet]).toOption.bind fun r' ↦
      (r'.2.step (fun _ ↦ 0) (.get quiet [107] [])).toOption.map fun r'' ↦
        (r.1, r''.1, r'.2.evictionCount 0, r.2.evictionCount 0)

private theorem visit_afterOneTick {ttl : Int64} {status : CacheStatus} {bytes : Bytes}
    (h : afterOneTick ttl = some (.status .ok, .output status bytes, 0, 0)) :
    Nonempty (Visit (fun _ ↦ 0) .oneShard [107] [1] ttl 999 1500 status bytes) := by
  obtain ⟨⟨answer, s₂⟩, hset, h⟩ := Option.bind_eq_some_iff.mp h
  obtain ⟨⟨answers, s₃⟩, hrun, h⟩ := Option.bind_eq_some_iff.mp h
  obtain ⟨⟨answer', s₄⟩, hget, h⟩ := Option.map_eq_some_iff.mp h
  rw [Prod.mk.injEq, Prod.mk.injEq, Prod.mk.injEq] at h
  obtain ⟨rfl, rfl, hevictions, hevictions'⟩ := h
  exact ⟨{
    before := []
    between := [.timer 1 fun _ _ ↦ quiet]
    setEnv := quiet
    getEnv := quiet
    output := []
    answers := []
    answers' := answers
    s₁ := start .oneShard
    s₂ := s₂
    s₃ := s₃
    s₄ := s₄
    ran := rfl
    accepted := Except.eq_ok_of_toOption hset
    passed := Except.eq_ok_of_toOption hrun
    returned := Except.eq_ok_of_toOption hget
    set_time := by decide
    get_time := by decide
    later := by decide
    untouched := by
      intro event hevent
      rw [List.mem_singleton.mp hevent]
      exact id
    unevicted := hevictions.trans hevictions'.symm }⟩

/-- A TTL of two seconds outlasts the first tick. -/
theorem get_hits_two_seconds :
    Nonempty (Visit (fun _ ↦ 0) .oneShard [107] [1] 2000 999 1500 .ok [1])
      ∧ ∀ status bytes, Visit (fun _ ↦ 0) .oneShard [107] [1] 2000 999 1500 status bytes →
        status = .ok ∧ bytes = [1] := by
  refine ⟨visit_afterOneTick (by decide +kernel), fun status bytes v ↦ ?_⟩
  exact get_hits (fun _ ↦ 0) 100 rfl v (by decide) (by decide)

/-- **A SET just before a tick loses almost a second.** The key is written at 999 ms with a TTL of a
second, and at 1500 ms it is gone: the tick at 1000 ms was the one it was due at. -/
theorem get_misses_early :
    Nonempty (Visit (fun _ ↦ 0) .oneShard [107] [1] 1000 999 1500 .notFound [])
      ∧ CacheEngine.new (100 : UInt64).toNat 1 = .ok .oneShard
      ∧ (0 : Int64) < 1000 ∧ 999 ≤ 1500 ∧ 1500 < 999 + (1000 : Int64).toInt
      ∧ ¬(CacheStatus.notFound = .ok ∧ ([] : Bytes) = [1]) := by
  refine ⟨visit_afterOneTick (by decide +kernel), rfl, by decide, by decide, by decide, by decide⟩

end TimedEngine

end HighCache
