import HighCache.Cache.CacheEngine
import HighCache.Cache.Operations

/-!
# Sharding is invisible

An engine and a single cache are given the same operations. As long as no shard evicts or refuses an
item for its size, they answer alike and report the same statistics.

The relation is `Partition`: the records of a shard are the records of the single cache with a key
of that shard, *in the same order*. Each operation on a key moves or removes one record, in the one
list and in the shard of the key, so the order is kept without saying anything about it. What has to
be proved is that the single cache does not evict either, and that is a count of bytes: the shards
hold what the single cache holds, each within its part of the capacity.
-/

namespace HighCache

open KeyedList Families

namespace DeadlineCache

/-! ## Where nothing is evicted -/

private theorem makeRoom_of_fits {d : DeadlineCache} {charge : ℕ} {rest : List Record}
    (h : total Record.charge rest ≤ d.capacity - charge) :
    d.makeRoom charge rest = { d with records := rest } := by
  rw [makeRoom, fitting_eq_self Record.charge h, overflow_eq_nil Record.charge h]
  rfl

/-- Where nothing was counted as evicted, all of `rest` is kept. -/
theorem makeRoom_of_evictions {d : DeadlineCache} {charge : ℕ} {rest : List Record}
    (h : (d.makeRoom charge rest).evictions = d.evictions) :
    d.makeRoom charge rest = { d with records := rest } := by
  have hlength : d.evictions + (overflow Record.charge (d.capacity - charge) rest).length
      = d.evictions := h
  have hnil : overflow Record.charge (d.capacity - charge) rest = [] :=
    List.length_eq_zero_iff.mp (by omega)
  have hsplit := fitting_append_overflow Record.charge (d.capacity - charge) rest
  rw [hnil, List.append_nil] at hsplit
  rw [makeRoom, hsplit, hnil]
  rfl

end DeadlineCache

/-! ## Shards of a list of records

On records an operation does not fail, so the two sides are functions, and what is compared is their
results. The shards may refuse an item that the single cache takes, or evict where it does not; that
is excluded by what they answered and counted, and by nothing about their inside. -/

namespace Sharding

variable {n : ℕ} (route : Bytes → Fin n)

/-- The shards `D` hold between them what the single cache `d` holds. -/
structure Partition (D : Fin n → DeadlineCache) (d : DeadlineCache) : Prop where
  records : ∀ i, (D i).records = fiber (route ∘ Record.key) i d.records
  now : ∀ i, (D i).now = d.now
  capacity : ∑ i, (D i).capacity ≤ d.capacity
  hits : ∑ i, (D i).hits = d.hits
  misses : ∑ i, (D i).misses = d.misses
  evictions : ∑ i, (D i).evictions = d.evictions
  expired : ∑ i, (D i).expired = d.expired

/-- An operation on a family of shards where nothing throws. -/
def applyShards (D : Fin n → DeadlineCache) : Op → Answer × (Fin n → DeadlineCache)
  | .set key value ttl => (((D (route key)).apply (.set key value ttl)).1,
      Function.update D (route key) ((D (route key)).apply (.set key value ttl)).2)
  | .get key output => (((D (route key)).apply (.get key output)).1,
      Function.update D (route key) ((D (route key)).apply (.get key output)).2)
  | .erase key => (((D (route key)).apply (.erase key)).1,
      Function.update D (route key) ((D (route key)).apply (.erase key)).2)
  | .tick => (.done, fun i ↦ ((D i).apply .tick).2)

theorem partition_new {capacity : Fin n → ℕ} {C : ℕ} (h : ∑ i, capacity i ≤ C) :
    Partition route (fun i ↦ DeadlineCache.new (capacity i)) (DeadlineCache.new C) :=
  ⟨fun _ ↦ rfl, fun _ ↦ rfl, h, Finset.sum_const_zero, Finset.sum_const_zero,
    Finset.sum_const_zero, Finset.sum_const_zero⟩

namespace Partition

variable {route} {D : Fin n → DeadlineCache} {d : DeadlineCache} (h : Partition route D d)
include h

private theorem sum_usage : ∑ i, (D i).usage = d.usage := by
  unfold DeadlineCache.usage
  simp only [h.records]
  exact sum_total_fiber _ _ _

/-- **The statistics of the shards are those of the single cache.** -/
theorem report : (CacheEngine.sumReports fun i ↦ (D i).report) = d.report := by
  have hsize : ∑ i, (D i).records.length = d.records.length := by
    simp only [h.records, length_eq_total]
    exact sum_total_fiber _ _ _
  unfold CacheEngine.sumReports DeadlineCache.report
  rw [hsize, h.sum_usage, h.hits, h.misses, h.evictions, h.expired]

theorem find (key : Bytes) : (D (route key)).find key = d.find key := by
  rw [DeadlineCache.find, h.records]
  exact find_fiber route key d.records

theorem others (key : Bytes) :
    (D (route key)).others key = fiber (route ∘ Record.key) (route key) (d.others key) := by
  rw [DeadlineCache.others, h.records]
  exact (fiber_without route _ key d.records).symm

theorem update {i : Fin n} {x d' : DeadlineCache}
    (hrecords : x.records = fiber (route ∘ Record.key) i d'.records)
    (hothers : ∀ j, j ≠ i →
      fiber (route ∘ Record.key) j d'.records = fiber (route ∘ Record.key) j d.records)
    (hnow : x.now = (D i).now ∧ d'.now = d.now)
    (hcapacity : x.capacity = (D i).capacity ∧ d'.capacity = d.capacity)
    (hhits : x.hits + d.hits = (D i).hits + d'.hits)
    (hmisses : x.misses + d.misses = (D i).misses + d'.misses)
    (hevictions : x.evictions = (D i).evictions ∧ d'.evictions = d.evictions)
    (hexpired : x.expired = (D i).expired ∧ d'.expired = d.expired) :
    Partition route (Function.update D i x) d' := by
  -- a sum over the shards changes by what one of them changes by
  have hsum : ∀ f : DeadlineCache → ℕ,
      ∑ j, f (Function.update D i x j) + f (D i) = ∑ j, f (D j) + f x := by
    intro f
    have := sum_update (f := fun j ↦ f (D j)) (g := fun j ↦ f (Function.update D i x j)) (i := i)
      fun j hj ↦ by rw [Function.update_of_ne hj]
    rwa [Function.update_self] at this
  refine ⟨fun j ↦ ?_, fun j ↦ ?_, ?_, ?_, ?_, ?_, ?_⟩
  · by_cases hj : j = i
    · subst hj
      rw [Function.update_self, hrecords]
    · rw [Function.update_of_ne hj, h.records, hothers j hj]
  · by_cases hj : j = i
    · subst hj
      rw [Function.update_self, hnow.1, hnow.2, h.now]
    · rw [Function.update_of_ne hj, h.now, hnow.2]
  · have := hsum DeadlineCache.capacity
    have := h.capacity
    omega
  · have := hsum DeadlineCache.hits
    have := h.hits
    omega
  · have := hsum DeadlineCache.misses
    have := h.misses
    omega
  · have := hsum DeadlineCache.evictions
    have := h.evictions
    omega
  · have := hsum DeadlineCache.expired
    have := h.expired
    omega

theorem unchanged (i : Fin n) : Partition route (Function.update D i (D i)) d := by
  rwa [Function.update_eq_self]

theorem cons {x z : DeadlineCache} {y : Record}
    (hrecords : x.records = y :: (D (route y.key)).others y.key)
    (hrecords' : z.records = y :: d.others y.key) :
    x.records = fiber (route ∘ Record.key) (route y.key) z.records
      ∧ ∀ j, j ≠ route y.key →
        fiber (route ∘ Record.key) j z.records = fiber (route ∘ Record.key) j d.records := by
  have hindex : (route ∘ Record.key) y = route y.key := rfl
  rw [hrecords, hrecords', h.others]
  refine ⟨(fiber_cons_self _ hindex _).symm, fun j hj ↦ ?_⟩
  rw [fiber_cons_of_ne _ (hindex ▸ hj.symm)]
  exact fiber_without_of_ne route hj d.records

/-- A record written in its shard, whose others all stay: the single cache has room for it too. -/
theorem push {y : Record} {x : DeadlineCache}
    (hx : x = ((D (route y.key)).makeRoom y.charge ((D (route y.key)).others y.key)).push y)
    (hevictions : ∑ i, (Function.update D (route y.key) x i).evictions = ∑ i, (D i).evictions)
    (husage : ∀ i, (Function.update D (route y.key) x i).usage
      ≤ (Function.update D (route y.key) x i).capacity) :
    y.charge ≤ d.capacity
      ∧ Partition route (Function.update D (route y.key) x)
        ((d.makeRoom y.charge (d.others y.key)).push y) := by
  have hkept : x = { D (route y.key) with records := y :: (D (route y.key)).others y.key } := by
    have hsum := sum_update (f := fun i ↦ (D i).evictions)
      (g := fun i ↦ (Function.update D (route y.key) x i).evictions) (i := route y.key)
      fun j hj ↦ by rw [Function.update_of_ne hj]
    rw [Function.update_self] at hsum
    rw [hx]
    refine congrArg (DeadlineCache.push y) (DeadlineCache.makeRoom_of_evictions ?_)
    have hpushed : x.evictions = ((D (route y.key)).makeRoom y.charge
        ((D (route y.key)).others y.key)).evictions := by
      rw [hx]
      rfl
    omega
  obtain ⟨hrecords, hothers⟩ := h.cons (x := x) (z := { d with records := y :: d.others y.key })
    (congrArg DeadlineCache.records hkept) rfl
  have hpart : Partition route (Function.update D (route y.key) x)
      { d with records := y :: d.others y.key } := by
    refine h.update hrecords hothers ⟨?_, rfl⟩ ⟨?_, rfl⟩ ?_ ?_ ⟨?_, rfl⟩ ⟨?_, rfl⟩ <;> rw [hkept]
  have hroom : y.charge + total Record.charge (d.others y.key) ≤ d.capacity :=
    calc y.charge + total Record.charge (d.others y.key)
        = ∑ i, (Function.update D (route y.key) x i).usage := by
          rw [hpart.sum_usage, DeadlineCache.usage, total_cons]
      _ ≤ ∑ i, (Function.update D (route y.key) x i).capacity :=
          Finset.sum_le_sum fun i _ ↦ husage i
      _ ≤ d.capacity := hpart.capacity
  refine ⟨by omega, ?_⟩
  rw [DeadlineCache.makeRoom_of_fits (by omega)]
  exact hpart

theorem set (key value : Bytes) (ttl : Int64)
    (hlarge : (applyShards route D (.set key value ttl)).1 ≠ .status .itemTooLarge)
    (hevictions : ∑ i, ((applyShards route D (.set key value ttl)).2 i).evictions
      = ∑ i, (D i).evictions)
    (husage : ∀ i, ((applyShards route D (.set key value ttl)).2 i).usage
      ≤ ((applyShards route D (.set key value ttl)).2 i).capacity) :
    (d.apply (.set key value ttl)).1 = (applyShards route D (.set key value ttl)).1
      ∧ Partition route (applyShards route D (.set key value ttl)).2
        (d.apply (.set key value ttl)).2 := by
  unfold applyShards DeadlineCache.apply at *
  dsimp only at *
  split
  · exact ⟨rfl, h.unchanged _⟩
  split
  · exact ⟨rfl, h.unchanged _⟩
  split
  · exact ⟨rfl, h.unchanged _⟩
  rename_i hvalid hvalue httl
  rw [if_neg hvalid, if_neg hvalue, if_neg httl] at hlarge hevictions husage
  by_cases hcharge : Cache.entryCharge key value > (D (route key)).capacity
  · rw [if_pos hcharge] at hlarge
    exact absurd rfl hlarge
  rw [if_neg hcharge] at hevictions husage
  obtain ⟨hle, hpart⟩ := h.push (y := ⟨key, value, deadlineAfter (D (route key)).now ttl⟩) rfl
    hevictions husage
  have hle' : ¬Cache.entryCharge key value > d.capacity := Nat.not_lt.mpr hle
  rw [if_neg hcharge, if_neg hle']
  refine ⟨rfl, ?_⟩
  rw [h.now] at hpart ⊢
  exact hpart

theorem get (key output : Bytes) :
    (d.apply (.get key output)).1 = (applyShards route D (.get key output)).1
      ∧ Partition route (applyShards route D (.get key output)).2
        (d.apply (.get key output)).2 := by
  unfold applyShards DeadlineCache.apply
  dsimp only
  rw [h.find]
  split
  · exact ⟨rfl, h.unchanged _⟩
  cases hfind : d.find key with
  | none =>
    refine ⟨rfl, h.update ?_ ?_ ⟨rfl, rfl⟩ ⟨rfl, rfl⟩ rfl ?_ ⟨rfl, rfl⟩ ⟨rfl, rfl⟩⟩
    · exact h.records _
    · exact fun _ _ ↦ rfl
    · show _ + 1 + _ = _ + (_ + 1)
      omega
  | some x =>
    obtain rfl : x.key = key := key_of_find hfind
    obtain ⟨hrecords, hothers⟩ := h.cons
      (x := { D (route x.key) with records := x :: (D (route x.key)).others x.key })
      (z := { d with records := x :: d.others x.key }) rfl rfl
    refine ⟨rfl, h.update hrecords hothers ⟨rfl, rfl⟩ ⟨rfl, rfl⟩ ?_ rfl ⟨rfl, rfl⟩ ⟨rfl, rfl⟩⟩
    show _ + 1 + _ = _ + (_ + 1)
    omega

theorem erase (key : Bytes) :
    (d.apply (.erase key)).1 = (applyShards route D (.erase key)).1
      ∧ Partition route (applyShards route D (.erase key)).2 (d.apply (.erase key)).2 := by
  unfold applyShards DeadlineCache.apply
  dsimp only
  rw [h.find]
  split
  · exact ⟨rfl, h.unchanged _⟩
  cases hfind : d.find key with
  | none => exact ⟨rfl, h.unchanged _⟩
  | some x =>
    refine ⟨rfl, h.update (h.others key) (fun j hj ↦ ?_) ⟨rfl, rfl⟩ ⟨rfl, rfl⟩ rfl rfl ⟨rfl, rfl⟩
      ⟨rfl, rfl⟩⟩
    exact fiber_without_of_ne route hj d.records

theorem tick :
    (d.apply .tick).1 = (applyShards route D .tick).1
      ∧ Partition route (applyShards route D .tick).2 (d.apply .tick).2 := by
  refine ⟨rfl, fun i ↦ ?_, fun i ↦ congrArg (· + 1) (h.now i), h.capacity, h.hits, h.misses,
    h.evictions, ?_⟩
  · show (D i).records.filter _ = fiber _ i (d.records.filter _)
    rw [fiber_filter, h.records, h.now]
  · show ∑ i, ((D i).expired + (D i).records.countP _) = d.expired + d.records.countP _
    rw [Finset.sum_add_distrib, h.expired]
    simp only [h.records, h.now, countP_eq_total]
    rw [sum_total_fiber]

/-- **One operation of the shards is the operation of the single cache**, unless it finds an item
too large or evicts. -/
theorem apply (op : Op) (hlarge : (applyShards route D op).1 ≠ .status .itemTooLarge)
    (hevictions : ∑ i, ((applyShards route D op).2 i).evictions = ∑ i, (D i).evictions)
    (husage : ∀ i, ((applyShards route D op).2 i).usage ≤ ((applyShards route D op).2 i).capacity) :
    (d.apply op).1 = (applyShards route D op).1
      ∧ Partition route (applyShards route D op).2 (d.apply op).2 := by
  cases op with
  | set key value ttl => exact h.set key value ttl hlarge hevictions husage
  | get key output => exact h.get key output
  | erase key => exact h.erase key
  | tick => exact h.tick

end Partition

end Sharding

/-! ## Calls where nothing fails

A call of the engine and one of the single cache come with different surroundings, which do not
matter where nothing throws. -/

private theorem DeadlineCache.call_of_not_exhausted (d : DeadlineCache) {call : Call}
    (h : call.env.NoFailure) {exhausted : Bool}
    (hanswer : (d.call exhausted call).1 ≠ .thrown .generationExhausted) :
    d.call exhausted call = d.apply call.op := by
  rw [← d.call_of_noFailure h]
  cases exhausted with
  | false => rfl
  | true => exact ((d.call_exhausted call).resolve_left hanswer).symm

namespace EngineCall

variable {n : ℕ}

/-- The operation of a call. -/
def op : EngineCall n → Op
  | .set _ key value ttl => .set key value ttl
  | .get _ key output => .get key output
  | .erase _ key => .erase key
  | .tick _ => .tick

/-- Nothing throws, in no shard. -/
def NoFailure : EngineCall n → Prop
  | .set env _ _ _ => env.NoFailure
  | .get env _ _ => env.NoFailure
  | .erase env _ => env.NoFailure
  | .tick envs => ∀ i, (envs i).NoFailure

end EngineCall

namespace CacheEngine

open Sharding

variable {n : ℕ} (hash : Bytes → UInt64)

theorem Simulates.callShard_deadlines {e : CacheEngine n} {A : Fin n → ItemCache}
    (h : e.Simulates A) (i : Fin n) (call : Call) (hfail : call.env.NoFailure) :
    ∃ answer e' A', e.callShard i call = .ok (answer, e') ∧ e'.Simulates A'
      ∧ (answer ≠ .thrown .generationExhausted →
        answer = ((A i).deadlines.apply call.op).1
          ∧ (fun j ↦ (A' j).deadlines)
            = Function.update (fun j ↦ (A j).deadlines) i ((A i).deadlines.apply call.op).2) := by
  obtain ⟨e', hcall, h'⟩ := h.callShard i call
  obtain ⟨hanswer, hdeadlines⟩ := ItemCache.call_deadlines (h i).1 call
  refine ⟨_, e', _, hcall, h', fun hne ↦ ?_⟩
  rw [hanswer] at hne ⊢
  rw [(A i).deadlines.call_of_not_exhausted hfail hne] at hdeadlines ⊢
  refine ⟨rfl, funext fun j ↦ ?_⟩
  by_cases hj : j = i
  · subst hj
    rw [Function.update_self, Function.update_self, hdeadlines]
  · rw [Function.update_of_ne hj, Function.update_of_ne hj]

theorem Simulates.call_deadlines {e : CacheEngine n} {A : Fin n → ItemCache} (h : e.Simulates A)
    {call : EngineCall n} (hfail : call.NoFailure) :
    ∃ answer e' A', e.call hash call = .ok (answer, e') ∧ e'.Simulates A'
      ∧ (answer ≠ .thrown .generationExhausted →
        answer = (applyShards (e.shardFor hash) (fun i ↦ (A i).deadlines) call.op).1
          ∧ (fun i ↦ (A' i).deadlines)
            = (applyShards (e.shardFor hash) (fun i ↦ (A i).deadlines) call.op).2) := by
  cases call with
  | set env key value ttl => exact h.callShard_deadlines _ (.set env key value ttl) hfail
  | get env key output => exact h.callShard_deadlines _ (.get env key output) hfail
  | erase env key => exact h.callShard_deadlines _ (.erase env key) hfail
  | tick envs =>
    obtain ⟨answer, e', A', hloop, h', -, hspec⟩ :=
      Simulates.tickShards envs (List.finRange n) h
    obtain ⟨hdone, hA'⟩ := hspec (List.nodup_finRange n) fun i _ ↦ hfail i
    refine ⟨answer, e', A', hloop, h', fun _ ↦ ⟨hdone, funext fun i ↦ ?_⟩⟩
    obtain ⟨-, hdeadlines⟩ := ItemCache.call_deadlines (h i).1 (.tick (envs i))
    have hi : A' i = ((A i).tick (envs i)).2 := by
      rw [hA']
      exact if_pos (List.mem_finRange i)
    rw [hi]
    refine hdeadlines.trans (congrArg Prod.snd ?_)
    rw [show (A i).deadlines.call (A i).exhausted (.tick (envs i))
      = (A i).deadlines.call false (.tick (envs i)) from rfl]
    exact (A i).deadlines.call_of_noFailure (hfail i)

/-! ## Whole runs

Both runs go through, each by itself. The rule for two step functions in lockstep then compares them
step by step. -/

/-- The engine and the single cache hold the same, and neither has evicted. -/
def Matches (e : CacheEngine n) (c : Cache) : Prop :=
  ∃ A a, e.Simulates A ∧ c.Simulates a
    ∧ Partition (e.shardFor hash) (fun i ↦ (A i).deadlines) a.deadlines ∧ a.evictions = 0

/-- A call of the engine, and the same operation of the single cache. -/
def SameOperation (call : EngineCall n) (call' : Call) : Prop :=
  call.op = call'.op ∧ call.NoFailure ∧ call'.env.NoFailure

/-- The capacity was enough and so were the generations. -/
def Unpressed (output : Answer × Report) : Prop :=
  output.2.evictionCount = 0 ∧ output.1 ≠ .status .itemTooLarge
    ∧ output.1 ≠ .thrown .generationExhausted

variable {hash}

theorem Matches.step {e e' : CacheEngine n} {c c' : Cache} {call : EngineCall n} {call' : Call}
    {output output' : Answer × Report} (h : Matches hash e c) (hsame : SameOperation call call')
    (hstep : e.step hash call = .ok (output, e')) (hstep' : c.step call' = .ok (output', c'))
    (hpress : Unpressed output) (hpress' : output'.1 ≠ .thrown .generationExhausted) :
    output' = output ∧ Matches hash e' c' := by
  obtain ⟨A, a, hsim, hsim', hpart, hzero⟩ := h
  obtain ⟨hop, hfail, hfail'⟩ := hsame
  obtain ⟨answer, e₁, A', hcall, hsimA, hspec⟩ := hsim.call_deadlines hash hfail
  rw [CacheEngine.step, hcall, Except.ok_bind_eq, Except.ok.injEq, Prod.mk.injEq] at hstep
  obtain ⟨rfl, rfl⟩ := hstep
  obtain ⟨c₁, hc, hsim₁⟩ := hsim'.step call'
  obtain ⟨rfl, rfl⟩ := Except.ok_unique hc hstep'
  obtain ⟨hevictions, hlarge, hexhausted⟩ := hpress
  obtain ⟨hanswer, hA'⟩ := hspec hexhausted
  -- the single cache
  obtain ⟨hanswer', hdeadlines'⟩ := ItemCache.call_deadlines hsim'.1 call'
  have hthrown : (a.deadlines.call a.exhausted call').1 ≠ .thrown .generationExhausted :=
    hanswer' ▸ hpress'
  rw [a.deadlines.call_of_not_exhausted hfail' hthrown, ← hop] at hanswer' hdeadlines'
  -- the shards
  have hreport : e₁.report = CacheEngine.sumReports fun i ↦ (A' i).deadlines.report := by
    rw [hsimA.report]
    simp only [ItemCache.deadlines_report]
  have hcount : ∑ i, ((A' i).deadlines).evictions = 0 := by
    rw [hreport] at hevictions
    exact hevictions
  have husage : ∀ i, ((A' i).deadlines).usage ≤ ((A' i).deadlines).capacity := by
    intro i
    have heq : (A' i).deadlines.usage = (A' i).usage :=
      congrArg Report.memoryUsageBytes (A' i).deadlines_report
    rw [heq]
    exact (hsimA i).1.usage_le
  have hbefore : ∑ i, (A i).deadlines.evictions = 0 := hpart.evictions.trans hzero
  have hD : ∀ i, (A' i).deadlines
      = (applyShards (e.shardFor hash) (fun i ↦ (A i).deadlines) call.op).2 i := congrFun hA'
  simp only [hD] at hcount husage
  rw [hanswer] at hlarge
  obtain ⟨hsame, hpart'⟩ := hpart.apply call.op hlarge (hcount.trans hbefore.symm) husage
  rw [← hA', ← hdeadlines'] at hpart'
  have hreports : (a.call call').2.report = e₁.report := by
    rw [hreport, hpart'.report, ItemCache.deadlines_report]
  refine ⟨?_, A', _, hsimA, hsim₁, hpart', ?_⟩
  · refine Prod.ext ?_ hreports
    exact (hanswer'.trans hsame).trans hanswer.symm
  · show (a.call call').2.report.evictionCount = 0
    rw [hreports]
    exact hevictions

theorem Sound.run (hash : Bytes → UInt64) {e : CacheEngine n} (h : e.Sound)
    (calls : List (EngineCall n)) :
    ∃ outputs e', Transition.run (CacheEngine.step hash) e calls = .ok (outputs, e') := by
  have hstep : ∀ (e : CacheEngine n) (call : EngineCall n), e.Sound →
      ∃ output e', e.step hash call = .ok (output, e') ∧ e'.Sound := by
    intro e call h
    obtain ⟨answer, e', hcall, h'⟩ := Sound.call hash e call h
    refine ⟨(answer, e'.report), e', ?_, h'⟩
    rw [CacheEngine.step, hcall]
    rfl
  obtain ⟨outputs, e', hrun, -⟩ := Transition.run_invariant hstep calls h
  exact ⟨outputs, e', hrun⟩

theorem matches_new {capacity C : ℕ} (hle : capacity ≤ C) (hlt : C < Checked.wordSize)
    {e : CacheEngine n} (h : new capacity n = .ok e) : Matches hash e (Cache.new C) := by
  refine ⟨_, ItemCache.new C, simulates_new (hle.trans_lt hlt) h, Cache.simulates_new hlt, ?_, rfl⟩
  have hsum : ∑ i : Fin n, shardCapacity capacity n i ≤ C := by
    rw [sum_shardCapacity capacity e.shardCount_pos]
    exact hle
  exact partition_new _ hsum

/-- **Sharding is invisible except through capacity pressure.** -/
theorem run_eq_single (hash : Bytes → UInt64) (hn : 0 < n) (capacity C : UInt64) (hC : capacity ≤ C)
    (calls : List (EngineCall n)) (calls' : List Call)
    (hsame : calls.map EngineCall.op = calls'.map Call.op)
    (hfail : ∀ call ∈ calls, call.NoFailure) (hfail' : ∀ call ∈ calls', call.env.NoFailure) :
    ∃ e outputs e' outputs' c, new capacity.toNat n = .ok e
      ∧ Transition.run (CacheEngine.step hash) e calls = .ok (outputs, e')
      ∧ Transition.run Cache.step (Cache.new C.toNat) calls' = .ok (outputs', c)
      ∧ ((∀ output ∈ outputs, Unpressed output) →
        (∀ output ∈ outputs', output.1 ≠ .thrown .generationExhausted) → outputs' = outputs) := by
  obtain ⟨e, hnew⟩ : ∃ e : CacheEngine n, new capacity.toNat n = .ok e := ⟨_, dif_neg hn.ne'⟩
  have hsound : e.Sound := ⟨_, simulates_new capacity.toNat_lt hnew⟩
  obtain ⟨outputs, e', hrun⟩ := hsound.run hash calls
  obtain ⟨c, hrun', -⟩ := (Cache.simulates_new C.toNat_lt).run calls'
  refine ⟨e, outputs, e', _, c, hnew, hrun, hrun', fun hpress hpress' ↦ ?_⟩
  have hops : List.Forall₂ (fun call call' ↦ call.op = call'.op) calls calls' := by
    have hmaps : List.Forall₂ Eq (calls.map EngineCall.op) (calls'.map Call.op) := by
      rw [hsame, List.forall₂_eq_eq_eq]
    exact List.forall₂_map_right_iff.mp (List.forall₂_map_left_iff.mp hmaps)
  have hmatch : List.Forall₂ SameOperation calls calls' := by
    rw [List.forall₂_iff_zip] at hops ⊢
    refine ⟨hops.1, fun {call call'} hmem ↦ ⟨hops.2 hmem, ?_, ?_⟩⟩
    · exact hfail _ (List.of_mem_zip hmem).1
    · exact hfail' _ (List.of_mem_zip hmem).2
  have hstart : Matches hash e (Cache.new C.toNat) :=
    matches_new (UInt64.le_iff_toNat_le.mp hC) C.toNat_lt hnew
  refine Transition.run_lockstep ?_ hmatch hstart hrun hrun' hpress hpress'
  intro e c call call' output e' output' c'
  exact Matches.step

/-- Two keys of different shards, one of which expires. -/
theorem run_eq_single_two_shards :
    ∃ e outputs e' c, new (100 : UInt64).toNat 2 = .ok e
      ∧ Transition.run (CacheEngine.step fun key ↦ (key.headD 0).toUInt64) e
          [.set ⟨some 8, fun _ ↦ false⟩ [1] [10] 1000, .set ⟨some 8, fun _ ↦ false⟩ [2] [20, 21] 0,
            .get ⟨some 8, fun _ ↦ false⟩ [2] [], .tick fun _ ↦ ⟨some 8, fun _ ↦ false⟩,
            .get ⟨some 8, fun _ ↦ false⟩ [1] []] = .ok (outputs, e')
      ∧ Transition.run Cache.step (Cache.new (0xffffffffffffffff : UInt64).toNat)
          [.set ⟨some 8, fun _ ↦ false⟩ [1] [10] 1000, .set ⟨some 16, fun _ ↦ false⟩ [2] [20, 21] 0,
            .get ⟨some 8, fun _ ↦ false⟩ [2] [], .tick ⟨some 8, fun _ ↦ false⟩,
            .get ⟨some 8, fun _ ↦ false⟩ [1] []] = .ok (outputs, c) := by
  obtain ⟨e, outputs, e', outputs', c, hnew, hrun, hrun', hsame⟩ :=
    run_eq_single (n := 2) (fun key ↦ (key.headD 0).toUInt64) (by decide) 100 0xffffffffffffffff
      (by decide)
      [.set ⟨some 8, fun _ ↦ false⟩ [1] [10] 1000, .set ⟨some 8, fun _ ↦ false⟩ [2] [20, 21] 0,
        .get ⟨some 8, fun _ ↦ false⟩ [2] [], .tick fun _ ↦ ⟨some 8, fun _ ↦ false⟩,
        .get ⟨some 8, fun _ ↦ false⟩ [1] []]
      [.set ⟨some 8, fun _ ↦ false⟩ [1] [10] 1000, .set ⟨some 16, fun _ ↦ false⟩ [2] [20, 21] 0,
        .get ⟨some 8, fun _ ↦ false⟩ [2] [], .tick ⟨some 8, fun _ ↦ false⟩,
        .get ⟨some 8, fun _ ↦ false⟩ [1] []]
      rfl
      (by simp [EngineCall.NoFailure, Env.NoFailure])
      (by simp [Call.env, Env.NoFailure])
  cases hnew
  have houtputs : Except.ok outputs = (Except.ok [(.status .ok, ⟨1, 2, 0, 0, 0, 0⟩),
      (.status .ok, ⟨2, 5, 0, 0, 0, 0⟩), (.output .ok [20, 21], ⟨2, 5, 1, 0, 0, 0⟩),
      (.done, ⟨1, 3, 1, 0, 0, 1⟩), (.output .notFound [], ⟨1, 3, 1, 1, 0, 1⟩)]
      : Except Fault (List (Answer × Report))) :=
    (congrArg (Except.map Prod.fst) hrun).symm
  have houtputs' : Except.ok outputs' = (Except.ok [(.status .ok, ⟨1, 2, 0, 0, 0, 0⟩),
      (.status .ok, ⟨2, 5, 0, 0, 0, 0⟩), (.output .ok [20, 21], ⟨2, 5, 1, 0, 0, 0⟩),
      (.done, ⟨1, 3, 1, 0, 0, 1⟩), (.output .notFound [], ⟨1, 3, 1, 1, 0, 1⟩)]
      : Except Fault (List (Answer × Report))) :=
    (congrArg (Except.map Prod.fst) hrun').symm
  rw [Except.ok.injEq] at houtputs houtputs'
  have heq : outputs' = outputs := by
    refine hsame ?_ ?_
    · rw [houtputs]
      unfold Unpressed
      decide
    · rw [houtputs']
      decide
  exact ⟨_, outputs, e', c, rfl, hrun, heq ▸ hrun'⟩

end CacheEngine

end HighCache
