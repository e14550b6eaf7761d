import HighCache.Cache.Refinement
import HighCache.Lib.Families
import Mathlib.Algebra.Order.BigOperators.Group.Finset

/-!
# The engine

`cache_engine.cpp`: a fixed array of shards, each with its part of the capacity. A key belongs to
the shard its hash names; a tick goes to the shards one after another; the statistics are sums.

A `CacheShard` is a cache behind a lock, with an allocator of its own. The lock makes each call one
step, and the allocator is reached through the `Env` of the call as in `Cache`, so a shard is
represented by its cache. `std::hash` is a parameter, of which nothing is assumed but that it is a
function of the bytes.

## The sum of the reports

`size()` and the other accessors of the engine add up what the shards say. Here they are read in a
state in which no call is under way; what a thread sees that reads them while others call the engine
is the subject of `HighCache.Cache.Aggregation`.
-/

namespace HighCache

/-! ## The class -/

/-- `ErrorCode`. -/
inductive ErrorCode where
  | invalidArgument
  | configIo
  | configParse
  | network
  deriving DecidableEq, Repr

/-- `HighCacheError`. -/
structure HighCacheError where
  code : ErrorCode
  message : String
  deriving DecidableEq, Repr

/-- The engine. No engine without shards can be constructed. -/
structure CacheEngine (shardCount : ℕ) where
  capacityBytes : ℕ
  shards : Fin shardCount → Cache
  shardCount_pos : 0 < shardCount

/-- A call of one of the four operations; a tick of the engine is a tick of every shard, each with
its own surroundings. -/
inductive EngineCall (shardCount : ℕ) where
  | set (env : Env) (key value : Bytes) (ttl : Int64)
  | get (env : Env) (key output : Bytes)
  | erase (env : Env) (key : Bytes)
  | tick (envs : Fin shardCount → Env)

namespace CacheEngine

variable {n : ℕ}

/-- `shard_capacity`: the first `capacity_bytes % shard_count` shards have a byte more. -/
def shardCapacity (capacityBytes shardCount shardIndex : ℕ) : ℕ :=
  let baseCapacity := capacityBytes / shardCount
  let remainder := capacityBytes % shardCount
  baseCapacity + if shardIndex < remainder then 1 else 0

/-- `CacheEngine::CacheEngine(capacity_bytes, shard_count, allocator_backend)`. -/
def new (capacityBytes shardCount : ℕ) : Except HighCacheError (CacheEngine shardCount) :=
  if h : shardCount = 0 then
    .error ⟨.invalidArgument, "cache shard count must be greater than zero"⟩
  else
    .ok ⟨capacityBytes, fun i ↦ .new (shardCapacity capacityBytes shardCount i),
      Nat.pos_of_ne_zero h⟩

/-- The index `CacheEngine::shard_for` computes. -/
def shardFor (hash : Bytes → UInt64) (key : Bytes) (e : CacheEngine n) : Fin n :=
  ⟨(hash key).toNat % n, Nat.mod_lt _ e.shardCount_pos⟩

/-- A call on one shard. -/
def callShard (i : Fin n) (call : Call) (e : CacheEngine n) :
    Except Fault (Answer × CacheEngine n) := do
  let (answer, shard) ← (e.shards i).call call
  .ok (answer, { e with shards := Function.update e.shards i shard })

/-- The loop of `CacheEngine::tick`; an exception leaves it. -/
def tickShards (envs : Fin n → Env) :
    List (Fin n) → CacheEngine n → Except Fault (Answer × CacheEngine n)
  | [], e => .ok (.done, e)
  | i :: is, e => do
    let (answer, e) ← e.callShard i (.tick (envs i))
    match answer with
    | .thrown exception => .ok (.thrown exception, e)
    | _ => tickShards envs is e

/-- `CacheEngine::set`, `get`, `erase` and `tick`. -/
def call (hash : Bytes → UInt64) (e : CacheEngine n) :
    EngineCall n → Except Fault (Answer × CacheEngine n)
  | .set env key value ttl => e.callShard (e.shardFor hash key) (.set env key value ttl)
  | .get env key output => e.callShard (e.shardFor hash key) (.get env key output)
  | .erase env key => e.callShard (e.shardFor hash key) (.erase env key)
  | .tick envs => e.tickShards envs (List.finRange n)

/-- The statistics of a family of shards, added up. -/
def sumReports (reports : Fin n → Report) : Report where
  size := ∑ i, (reports i).size
  memoryUsageBytes := ∑ i, (reports i).memoryUsageBytes
  hitCount := ∑ i, (reports i).hitCount
  missCount := ∑ i, (reports i).missCount
  evictionCount := ∑ i, (reports i).evictionCount
  expiredCount := ∑ i, (reports i).expiredCount

/-- `CacheEngine::size`, `memory_usage_bytes` and the four counters. -/
def report (e : CacheEngine n) : Report := sumReports fun i ↦ (e.shards i).report

/-- One call, answered with the report after it. -/
def step (hash : Bytes → UInt64) (e : CacheEngine n) (call : EngineCall n) :
    Except Fault ((Answer × Report) × CacheEngine n) := do
  let (answer, e) ← e.call hash call
  .ok ((answer, e.report), e)

end CacheEngine

/-! ## What a call hands out

The layers above encode answers into responses. They rely on three things: which calls answer with
which kind of answer, that only a tick is done, and that no output is longer than the longest
value. -/

/-- No output is longer than the longest value. -/
def Answer.Bounded : Answer → Prop
  | .output _ bytes => bytes.length ≤ Cache.maxValueLength
  | _ => True

/-- The string that the caller of `get` passes. -/
def Call.output : Call → Bytes
  | .get _ _ output => output
  | _ => []

/-- The string that the caller of `CacheEngine::get` passes. -/
def EngineCall.output {n : ℕ} : EngineCall n → Bytes
  | .get _ _ output => output
  | _ => []

namespace ItemCache

private theorem get_bounded {a : ItemCache} (h : a.WellFormed) (env : Env) (key : Bytes)
    {output : Bytes}
    (hout : output.length ≤ Cache.maxValueLength) : (a.get env key output).1.Bounded := by
  unfold ItemCache.get
  split
  · exact hout
  split
  · exact trivial
  cases hfind : a.find key with
  | none => exact hout
  | some item =>
    dsimp only
    split
    · exact trivial
    · exact h.value_le item (KeyedList.mem_of_find hfind)

theorem overwrite_answer (a : ItemCache) (env : Env) (key value : Bytes) (ttl : Int64)
    (old : Item) :
    (∃ status, (a.overwrite env key value ttl old).1 = .status status)
      ∨ ∃ exception, (a.overwrite env key value ttl old).1 = .thrown exception := by
  unfold overwrite
  split
  · exact Or.inr ⟨_, rfl⟩
  · exact Or.inl ⟨_, rfl⟩

theorem insertNew_answer (a : ItemCache) (env : Env) (key value : Bytes) (ttl : Int64) :
    (∃ status, (a.insertNew env key value ttl).1 = .status status)
      ∨ ∃ exception, (a.insertNew env key value ttl).1 = .thrown exception := by
  unfold insertNew
  split
  · exact Or.inr ⟨_, rfl⟩
  split
  · exact Or.inr ⟨_, rfl⟩
  dsimp only
  split
  · exact Or.inr ⟨_, rfl⟩
  · exact Or.inl ⟨_, rfl⟩

theorem set_answer (a : ItemCache) (env : Env) (key value : Bytes) (ttl : Int64) :
    (∃ status, (a.set env key value ttl).1 = .status status)
      ∨ ∃ exception, (a.set env key value ttl).1 = .thrown exception := by
  unfold ItemCache.set
  split
  · exact Or.inl ⟨_, rfl⟩
  split
  · exact Or.inl ⟨_, rfl⟩
  split
  · exact Or.inl ⟨_, rfl⟩
  split
  · exact Or.inl ⟨_, rfl⟩
  split
  · exact Or.inr ⟨_, rfl⟩
  split
  · exact a.overwrite_answer env key value ttl _
  · exact a.insertNew_answer env key value ttl

theorem get_answer (a : ItemCache) (env : Env) (key output : Bytes) :
    (∃ status bytes, (a.get env key output).1 = .output status bytes)
      ∨ ∃ exception, (a.get env key output).1 = .thrown exception := by
  unfold ItemCache.get
  split
  · exact Or.inl ⟨_, _, rfl⟩
  split
  · exact Or.inr ⟨_, rfl⟩
  split
  · exact Or.inl ⟨_, _, rfl⟩
  · split
    · exact Or.inr ⟨_, rfl⟩
    · exact Or.inl ⟨_, _, rfl⟩

theorem erase_answer (a : ItemCache) (env : Env) (key : Bytes) :
    (∃ status, (a.erase env key).1 = .status status)
      ∨ ∃ exception, (a.erase env key).1 = .thrown exception := by
  unfold ItemCache.erase
  split
  · exact Or.inl ⟨_, rfl⟩
  split
  · exact Or.inr ⟨_, rfl⟩
  split
  · exact Or.inl ⟨_, rfl⟩
  · exact Or.inl ⟨_, rfl⟩

theorem set_ne_done (a : ItemCache) (env : Env) (key value : Bytes) (ttl : Int64) :
    (a.set env key value ttl).1 ≠ .done := by
  rcases a.set_answer env key value ttl with ⟨status, hanswer⟩ | ⟨exception, hanswer⟩
  · rw [hanswer]
    rintro ⟨⟩
  · rw [hanswer]
    rintro ⟨⟩

theorem get_ne_done (a : ItemCache) (env : Env) (key output : Bytes) :
    (a.get env key output).1 ≠ .done := by
  rcases a.get_answer env key output with ⟨status, bytes, hanswer⟩ | ⟨exception, hanswer⟩
  · rw [hanswer]
    rintro ⟨⟩
  · rw [hanswer]
    rintro ⟨⟩

theorem erase_ne_done (a : ItemCache) (env : Env) (key : Bytes) :
    (a.erase env key).1 ≠ .done := by
  rcases a.erase_answer env key with ⟨status, hanswer⟩ | ⟨exception, hanswer⟩
  · rw [hanswer]
    rintro ⟨⟩
  · rw [hanswer]
    rintro ⟨⟩

private theorem tick_bounded (a : ItemCache) (env : Env) : (a.tick env).1.Bounded := by
  unfold ItemCache.tick
  split <;> exact trivial

private theorem call_bounded {a : ItemCache} (h : a.WellFormed) {call : Call}
    (hout : call.output.length ≤ Cache.maxValueLength) : (a.call call).1.Bounded := by
  cases call with
  | set env key value ttl =>
    show (a.set env key value ttl).1.Bounded
    rcases a.set_answer env key value ttl with ⟨status, hanswer⟩ | ⟨exception, hanswer⟩
    · rw [hanswer]
      exact trivial
    · rw [hanswer]
      exact trivial
  | get env key output => exact get_bounded h env key hout
  | erase env key =>
    show (a.erase env key).1.Bounded
    rcases a.erase_answer env key with ⟨status, hanswer⟩ | ⟨exception, hanswer⟩
    · rw [hanswer]
      exact trivial
    · rw [hanswer]
      exact trivial
  | tick env => exact a.tick_bounded env

end ItemCache

namespace CacheEngine

variable {n : ℕ}

/-! ## The shards as lists

The engine simulates a family of list caches, one for each shard. A call touches one of them, and a
tick touches them in order until one throws. -/

/-- Every shard is the list cache of its index. -/
def Simulates (e : CacheEngine n) (A : Fin n → ItemCache) : Prop :=
  ∀ i, (e.shards i).Simulates (A i)

theorem sum_shardCapacity (capacityBytes : ℕ) (h : 0 < n) :
    ∑ i : Fin n, shardCapacity capacityBytes n i = capacityBytes := by
  have hcount :
      ∑ i : Fin n, (if (i : ℕ) < capacityBytes % n then 1 else 0) = capacityBytes % n := by
    have hle : capacityBytes % n ≤ n := (Nat.mod_lt _ h).le
    rw [Fin.sum_univ_eq_sum_range (fun i ↦ if i < capacityBytes % n then 1 else 0) n,
      Finset.sum_boole, Nat.cast_id]
    have hfilter : (Finset.range n).filter (· < capacityBytes % n)
        = Finset.range (capacityBytes % n) := by
      ext i
      rw [Finset.mem_filter, Finset.mem_range, Finset.mem_range]
      omega
    rw [hfilter, Finset.card_range]
  unfold shardCapacity
  rw [Finset.sum_add_distrib, Finset.sum_const, Finset.card_univ, Fintype.card_fin, smul_eq_mul,
    hcount, Nat.div_add_mod]

theorem shardCapacity_le {capacityBytes : ℕ} (h : 0 < n) (i : Fin n) :
    shardCapacity capacityBytes n i ≤ capacityBytes := by
  have hle := Finset.single_le_sum (f := fun i : Fin n ↦ shardCapacity capacityBytes n i)
    (fun _ _ ↦ Nat.zero_le _) (Finset.mem_univ i)
  rwa [sum_shardCapacity capacityBytes h] at hle

/-- A new engine is a family of empty lists. -/
theorem simulates_new {capacityBytes : ℕ} (hcapacity : capacityBytes < Checked.wordSize)
    {e : CacheEngine n} (h : new capacityBytes n = .ok e) :
    e.Simulates fun i ↦ ItemCache.new (shardCapacity capacityBytes n i) := by
  have hpos := e.shardCount_pos
  unfold new at h
  split at h
  · cases h
  · cases h
    exact fun i ↦ Cache.simulates_new ((shardCapacity_le hpos i).trans_lt hcapacity)

namespace Simulates

variable {e : CacheEngine n} {A : Fin n → ItemCache} (h : e.Simulates A)
include h

theorem report : e.report = sumReports fun i ↦ (A i).report := by
  unfold CacheEngine.report
  congr 1
  funext i
  obtain ⟨-, L, href⟩ := h i
  exact href.report

theorem callShard (i : Fin n) (call : Call) :
    ∃ e', e.callShard i call = .ok (((A i).call call).1, e')
      ∧ e'.Simulates (Function.update A i ((A i).call call).2) := by
  obtain ⟨hwf, L, href⟩ := h i
  obtain ⟨c, L', hcall, href'⟩ := href.call hwf call
  refine ⟨{ e with shards := Function.update e.shards i c }, ?_, fun j ↦ ?_⟩
  · rw [CacheEngine.callShard, hcall]
    rfl
  · show (Function.update e.shards i c j).Simulates _
    by_cases hj : j = i
    · subst hj
      rw [Function.update_self, Function.update_self]
      exact ⟨hwf.call call, L', href'⟩
    · rw [Function.update_of_ne hj, Function.update_of_ne hj]
      exact h j

end Simulates

/-- The loop goes through the shards. Where nothing throws it ticks each of those in the list. -/
theorem Simulates.tickShards (envs : Fin n → Env) : ∀ (is : List (Fin n)) {e : CacheEngine n}
    {A : Fin n → ItemCache}, e.Simulates A →
    ∃ answer e' A', e.tickShards envs is = .ok (answer, e') ∧ e'.Simulates A' ∧ answer.Bounded
      ∧ (is.Nodup → (∀ i ∈ is, (envs i).NoFailure) →
        answer = .done ∧ A' = fun i ↦ if i ∈ is then ((A i).tick (envs i)).2 else A i) := by
  intro is
  induction is with
  | nil =>
    intro e A h
    refine ⟨.done, e, A, rfl, h, trivial, fun _ _ ↦ ⟨rfl, ?_⟩⟩
    funext i
    rw [if_neg List.not_mem_nil]
  | cons i is ih =>
    intro e A h
    obtain ⟨e₁, hcall, h₁⟩ := h.callShard i (.tick (envs i))
    have htick : (A i).call (.tick (envs i)) = (A i).tick (envs i) := rfl
    rw [htick] at hcall h₁
    rw [CacheEngine.tickShards, hcall, Except.ok_bind_eq]
    by_cases hthrow : (envs i).throws .expiredReserve = true
    · rw [ItemCache.tick, if_pos hthrow] at h₁ ⊢
      refine ⟨_, e₁, _, rfl, h₁, trivial, fun _ hfail ↦ ?_⟩
      rw [(hfail i List.mem_cons_self).2] at hthrow
      cases hthrow
    · have hanswer : ((A i).tick (envs i)).1 = .done := by rw [ItemCache.tick, if_neg hthrow]
      rw [hanswer]
      obtain ⟨answer, e', A', hloop, h', hbounded, hspec⟩ := ih h₁
      refine ⟨answer, e', A', hloop, h', hbounded, fun hnodup hfail ↦ ?_⟩
      rw [List.nodup_cons] at hnodup
      obtain ⟨hdone, hA'⟩ := hspec hnodup.2 fun j hj ↦ hfail j (List.mem_cons_of_mem _ hj)
      refine ⟨hdone, hA'.trans (funext fun j ↦ ?_)⟩
      by_cases hj : j = i
      · subst hj
        rw [if_neg hnodup.1, Function.update_self, if_pos List.mem_cons_self]
      · rw [Function.update_of_ne hj]
        simp only [List.mem_cons, hj, false_or]

/-- **No call of the engine faults**, whatever fails in it, and the shards stay lists. -/
theorem Simulates.call (hash : Bytes → UInt64) {e : CacheEngine n} {A : Fin n → ItemCache}
    (h : e.Simulates A) (call : EngineCall n) :
    ∃ answer e' A', e.call hash call = .ok (answer, e') ∧ e'.Simulates A'
      ∧ (call.output.length ≤ Cache.maxValueLength → answer.Bounded) := by
  have hkey : ∀ (i : Fin n) (c : Call), ∃ answer e' A', e.callShard i c = .ok (answer, e')
      ∧ e'.Simulates A' ∧ (c.output.length ≤ Cache.maxValueLength → answer.Bounded) := by
    intro i c
    obtain ⟨e', hcall, h'⟩ := h.callShard i c
    exact ⟨_, e', _, hcall, h', ItemCache.call_bounded (h i).1⟩
  cases call with
  | set env key value ttl => exact hkey _ (.set env key value ttl)
  | get env key output => exact hkey _ (.get env key output)
  | erase env key => exact hkey _ (.erase env key)
  | tick envs =>
    obtain ⟨answer, e', A', hloop, h', hbounded, -⟩ :=
      Simulates.tickShards envs (List.finRange n) h
    exact ⟨answer, e', A', hloop, h', fun _ ↦ hbounded⟩

/-- The shards are lists. -/
def Sound (e : CacheEngine n) : Prop := ∃ A, e.Simulates A

theorem Sound.call (hash : Bytes → UInt64) (e : CacheEngine n) (call : EngineCall n)
    (h : e.Sound) : ∃ answer e', e.call hash call = .ok (answer, e') ∧ e'.Sound := by
  obtain ⟨A, hA⟩ := h
  obtain ⟨answer, e', A', hcall, hA', -⟩ := hA.call hash call
  exact ⟨answer, e', hcall, A', hA'⟩

/-- An empty engine of one shard, for the examples. -/
def oneShard : CacheEngine 1 := ⟨100, fun _ ↦ Cache.new 100, Nat.one_pos⟩

end CacheEngine

end HighCache
