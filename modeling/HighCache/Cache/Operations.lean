import HighCache.Cache.Deadlines

/-!
# Calls in which nothing throws

Away from allocation failures a call is an operation: its surroundings drop out, and a `set` of an
absent key and one of a present key are the same. Each accepted SET then draws one generation.
-/

namespace HighCache

open KeyedList

/-! ## Operations

The one exception left is that of the generations, which is no failure of the surroundings. It is
excluded by counting: a run with fewer accepted SETs than there are generations does not meet it. -/

/-- An operation without its surroundings. -/
inductive Op where
  | set (key value : Bytes) (ttl : Int64)
  | get (key output : Bytes)
  | erase (key : Bytes)
  | tick
  deriving DecidableEq

/-- The operation of a call. -/
def Call.op : Call → Op
  | .set _ key value ttl => .set key value ttl
  | .get _ key output => .get key output
  | .erase _ key => .erase key
  | .tick _ => .tick

namespace DeadlineCache

/-- One operation in surroundings where nothing throws. -/
def apply (d : DeadlineCache) : Op → Answer × DeadlineCache
  | .set key value ttl =>
    if Cache.validateKey key ≠ .ok then (.status (Cache.validateKey key), d)
    else if value.length > Cache.maxValueLength then (.status .valueTooLarge, d)
    else if ttl < 0 then (.status .invalidTtl, d)
    else if Cache.entryCharge key value > d.capacity then (.status .itemTooLarge, d)
    else (.status .ok, (d.makeRoom (Cache.entryCharge key value) (d.others key)).push
      ⟨key, value, deadlineAfter d.now ttl⟩)
  | .get key output =>
    if Cache.validateKey key ≠ .ok then (.output (Cache.validateKey key) output, d)
    else
      match d.find key with
      | none => (.output .notFound output, { d with misses := d.misses + 1 })
      | some x => (.output .ok x.value,
          { d with records := x :: d.others key, hits := d.hits + 1 })
  | .erase key =>
    if Cache.validateKey key ≠ .ok then (.status (Cache.validateKey key), d)
    else
      match d.find key with
      | none => (.status .notFound, d)
      | some _ => (.status .ok, { d with records := d.others key })
  | .tick => (.done, { d with
      records := d.records.filter fun x ↦ !isDue d.now x
      expired := d.expired + d.records.countP (isDue d.now)
      now := d.now + 1 })

/-- Where nothing throws, a call is its operation; inserting is overwriting what is not there. -/
theorem call_of_noFailure (d : DeadlineCache) {call : Call} (h : call.env.NoFailure) :
    d.call false call = d.apply call.op := by
  cases call with
  | set env key value ttl =>
    have hthrows : ∀ point, env.throws point = false := h.2
    have hrefusal : refusal false env ttl = none := by
      have halloc : env.allocation ≠ none := Option.isSome_iff_ne_none.mp h.1
      rw [refusal, if_neg halloc]
      simp [hthrows]
    simp only [DeadlineCache.call, Call.op, set, apply, overwrite, insertNew, hrefusal, hthrows]
    cases hfind : d.find key with
    | some x => simp
    | none =>
      have hothers : d.others key = d.records := without_of_forall_ne (find_eq_none.mp hfind)
      simp [hothers, makeRoom]
  | get env key output =>
    have hthrows : ∀ point, env.throws point = false := h.2
    simp only [DeadlineCache.call, Call.op, get, apply, hthrows]
    cases d.find key <;> simp
  | erase env key =>
    have hthrows : ∀ point, env.throws point = false := h.2
    simp only [DeadlineCache.call, Call.op, erase, apply, hthrows]
    cases d.find key <;> simp
  | tick env =>
    have hthrows : ∀ point, env.throws point = false := h.2
    simp [DeadlineCache.call, Call.op, tick, apply, hthrows]

end DeadlineCache

/-! ## How many generations a run draws -/

/-- Whether an operation was a SET that was accepted, as a number. -/
def accepted : Op → Answer → ℕ
  | .set _ _ _, .status .ok => 1
  | _, _ => 0

namespace ItemCache

theorem generationSource_prepare (a : ItemCache) {env : Env} (h : env.NoFailure)
    (key value : Bytes) (ttl : Int64) :
    (∃ exception b, a.prepare env key value ttl = (.error exception, b)
        ∧ b.generationSource = a.generationSource)
      ∨ ∃ item b, a.prepare env key value ttl = (.ok item, b)
        ∧ b.generationSource = a.generationSource + 1 := by
  obtain ⟨pointer, halloc⟩ := Option.isSome_iff_exists.mp h.1
  unfold prepare
  rw [halloc]
  dsimp only
  split
  · exact Or.inl ⟨_, _, rfl, rfl⟩
  split
  · rw [if_neg (by simp [h.2])]
    exact Or.inr ⟨_, _, rfl, rfl⟩
  · exact Or.inr ⟨_, _, rfl, rfl⟩

theorem generationSource_get (a : ItemCache) (env : Env) (key output : Bytes) :
    (a.get env key output).2.generationSource = a.generationSource := by
  unfold ItemCache.get
  split
  · rfl
  split
  · rfl
  split
  · rfl
  · split <;> rfl

theorem generationSource_erase (a : ItemCache) (env : Env) (key : Bytes) :
    (a.erase env key).2.generationSource = a.generationSource := by
  unfold ItemCache.erase
  split
  · rfl
  split
  · rfl
  split <;> rfl

theorem generationSource_tick (a : ItemCache) (env : Env) :
    (a.tick env).2.generationSource = a.generationSource := by
  unfold ItemCache.tick
  split
  · rfl
  · exact (expireAll_only _ _).generationSource

/-- Where nothing throws, each accepted SET draws one generation and nothing else does. -/
theorem generationSource_call (a : ItemCache) {call : Call} (h : call.env.NoFailure) :
    (a.call call).2.generationSource
      = a.generationSource + accepted call.op (a.call call).1 := by
  cases call with
  | set env key value ttl =>
    have henv : env.NoFailure := h
    have hthrows : ∀ point, env.throws point = false := h.2
    show (a.set env key value ttl).2.generationSource
      = a.generationSource + accepted (.set key value ttl) (a.set env key value ttl).1
    have hrefused : ∀ status : CacheStatus, status ≠ .ok →
        accepted (.set key value ttl) (.status status) = 0 := by
      intro status hne
      cases status <;> first | rfl | exact absurd rfl hne
    unfold ItemCache.set
    split
    · rename_i hinvalid
      rw [hrefused _ hinvalid]
      rfl
    split
    · rfl
    split
    · rfl
    split
    · rfl
    rw [if_neg (by simp [hthrows])]
    rcases a.generationSource_prepare henv key value ttl with ⟨exception, b, hprep, hsource⟩ |
      ⟨item, b, hprep, hsource⟩
    · cases hfind : a.find key with
      | some old =>
        dsimp only [overwrite]
        rw [hprep]
        exact hsource
      | none =>
        dsimp only [insertNew]
        rw [if_neg (by simp [hthrows]), hprep]
        exact hsource
    · cases hfind : a.find key with
      | some old =>
        dsimp only [overwrite]
        rw [hprep]
        exact hsource
      | none =>
        dsimp only [insertNew]
        rw [if_neg (by simp [hthrows]), hprep]
        dsimp only
        rw [if_neg (by simp [hthrows])]
        exact hsource
  | get env key output => exact a.generationSource_get env key output
  | erase env key => exact a.generationSource_erase env key
  | tick env => exact a.generationSource_tick env

end ItemCache

end HighCache
