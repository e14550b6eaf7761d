import HighCache.Cache.ItemCache

/-!
# The cache with deadlines in its entries

Generations and timers exist so that a timer can tell whether the entry it finds is the one it was
set for. `DeadlineCache` is what they achieve: every record carries the tick it expires at, if any,
and a tick removes the records whose deadline it is. Generations survive only as one bit, whether
the counter has run out, which a caller can observe through the exception it then gets.

The second part says once what a call can do (`Takes`); the counters, the evictions and the
deadlines are then read off its seven cases.
-/

namespace HighCache

open KeyedList

/-! ## Records and operations

The operations are those of the list cache with a deadline in the place of a generation. `exhausted`
is an argument, not a field: whether the generations have run out is not determined by the records,
and the operations do not change it in a way that they could say. -/

/-- A key, its value, and the tick it expires at. -/
structure Record where
  key : Bytes
  value : Bytes
  deadline : Option ℕ
  deriving DecidableEq, Repr

/-- The bytes a record is charged. -/
def Record.charge (x : Record) : ℕ := Cache.entryCharge x.key x.value

/-- The cache as a list of records, most recently used first. -/
structure DeadlineCache where
  capacity : ℕ
  records : List Record
  hits : ℕ
  misses : ℕ
  evictions : ℕ
  expired : ℕ
  now : ℕ

/-- The deadline of an entry written after `now` ticks. -/
def deadlineAfter (now : ℕ) (ttl : Int64) : Option ℕ :=
  if 0 < ttl then some (now + TimingWheel.ceilTicks ttl) else none

/-- The exception that stops a `set` before it changes an entry. -/
def refusal (exhausted : Bool) (env : Env) (ttl : Int64) : Option CacheException :=
  if env.allocation = none then some .badAlloc
  else if exhausted then some .generationExhausted
  else if 0 < ttl ∧ (env.throws .timerKey || env.throws .timerEvent) = true then some .badAlloc
  else none

namespace DeadlineCache

/-- The empty cache. -/
def new (capacity : ℕ) : DeadlineCache := ⟨capacity, [], 0, 0, 0, 0, 0⟩

/-- The bytes in use. -/
def usage (d : DeadlineCache) : ℕ := total Record.charge d.records

/-- The record with a key. -/
def find (key : Bytes) (d : DeadlineCache) : Option Record :=
  KeyedList.find Record.key key d.records

/-- The records with another key. -/
def others (key : Bytes) (d : DeadlineCache) : List Record :=
  KeyedList.without Record.key key d.records

/-- Keep of `rest` what fits beside a record of charge `charge`. -/
def makeRoom (charge : ℕ) (rest : List Record) (d : DeadlineCache) : DeadlineCache :=
  { d with
    records := fitting Record.charge (d.capacity - charge) rest
    evictions := d.evictions + (overflow Record.charge (d.capacity - charge) rest).length }

/-- Put a record in front. -/
def push (x : Record) (d : DeadlineCache) : DeadlineCache := { d with records := x :: d.records }

/-- `set` where the key is present. -/
def overwrite (exhausted : Bool) (env : Env) (key value : Bytes) (ttl : Int64)
    (d : DeadlineCache) : Answer × DeadlineCache :=
  match refusal exhausted env ttl with
  | some exception => (.thrown exception, d)
  | none => (.status .ok, (d.makeRoom (Cache.entryCharge key value) (d.others key)).push
      ⟨key, value, deadlineAfter d.now ttl⟩)

/-- `set` where the key is absent. -/
def insertNew (exhausted : Bool) (env : Env) (key value : Bytes) (ttl : Int64)
    (d : DeadlineCache) : Answer × DeadlineCache :=
  if env.throws .mapKey || env.throws .recencyKey then (.thrown .badAlloc, d)
  else
    match refusal exhausted env ttl with
    | some exception => (.thrown exception, d)
    | none =>
      let d := d.makeRoom (Cache.entryCharge key value) d.records
      if env.throws .recencyNode || env.throws .mapNode then (.thrown .badAlloc, d)
      else (.status .ok, d.push ⟨key, value, deadlineAfter d.now ttl⟩)

/-- `set`. -/
def set (exhausted : Bool) (env : Env) (key value : Bytes) (ttl : Int64) (d : DeadlineCache) :
    Answer × DeadlineCache :=
  if Cache.validateKey key ≠ .ok then (.status (Cache.validateKey key), d)
  else if value.length > Cache.maxValueLength then (.status .valueTooLarge, d)
  else if ttl < 0 then (.status .invalidTtl, d)
  else if Cache.entryCharge key value > d.capacity then (.status .itemTooLarge, d)
  else if env.throws .lookupKey then (.thrown .badAlloc, d)
  else
    match d.find key with
    | some _ => d.overwrite exhausted env key value ttl
    | none => d.insertNew exhausted env key value ttl

/-- `get`. -/
def get (env : Env) (key output : Bytes) (d : DeadlineCache) : Answer × DeadlineCache :=
  if Cache.validateKey key ≠ .ok then (.output (Cache.validateKey key) output, d)
  else if env.throws .lookupKey then (.thrown .badAlloc, d)
  else
    match d.find key with
    | none => (.output .notFound output, { d with misses := d.misses + 1 })
    | some x =>
      if x.value ≠ [] ∧ env.throws .outputCopy = true then (.thrown .badAlloc, d)
      else (.output .ok x.value, { d with records := x :: d.others key, hits := d.hits + 1 })

/-- `erase`. -/
def erase (env : Env) (key : Bytes) (d : DeadlineCache) : Answer × DeadlineCache :=
  if Cache.validateKey key ≠ .ok then (.status (Cache.validateKey key), d)
  else if env.throws .lookupKey then (.thrown .badAlloc, d)
  else
    match d.find key with
    | none => (.status .notFound, d)
    | some _ => (.status .ok, { d with records := d.others key })

/-- Whether the next tick removes a record. -/
def isDue (now : ℕ) (x : Record) : Bool := x.deadline = some (now + 1)

/-- `tick`. -/
def tick (env : Env) (d : DeadlineCache) : Answer × DeadlineCache :=
  if env.throws .expiredReserve then (.thrown .badAlloc, d)
  else (.done, { d with
    records := d.records.filter fun x ↦ !isDue d.now x
    expired := d.expired + d.records.countP (isDue d.now)
    now := d.now + 1 })

/-- The report. -/
def report (d : DeadlineCache) : Report where
  size := d.records.length
  memoryUsageBytes := d.usage
  hitCount := d.hits
  missCount := d.misses
  evictionCount := d.evictions
  expiredCount := d.expired

/-- One call; `exhausted` says whether the generations have run out. -/
def call (exhausted : Bool) (d : DeadlineCache) : Call → Answer × DeadlineCache
  | .set env key value ttl => d.set exhausted env key value ttl
  | .get env key output => d.get env key output
  | .erase env key => d.erase env key
  | .tick env => d.tick env

/-! ## What a call can do

Seven cases, one for each way in which a call can end. A failed `set` may have made room already,
and this is the only failure that changes anything. The lookups that were counted carry the fact
that their key was valid, since those that were not counted are told apart by it. -/

/-- What a call can do, by its answer. A `set` that fails late has already made room. -/
inductive Takes (d : DeadlineCache) : Call → Answer → DeadlineCache → Prop where
  | unchanged {call : Call} {answer : Answer} (hok : answer ≠ .status .ok) (hdone : answer ≠ .done)
      (hget : ∀ env key output, call = .get env key output →
        Cache.validateKey key ≠ .ok ∨ ∃ exception, answer = .thrown exception) :
      Takes d call answer d
  | abandoned {env : Env} {key value : Bytes} {ttl : Int64} (hfind : d.find key = none) :
      Takes d (.set env key value ttl) (.thrown .badAlloc)
        (d.makeRoom (Cache.entryCharge key value) d.records)
  | written {env : Env} {key value : Bytes} {ttl : Int64} (httl : 0 ≤ ttl) :
      Takes d (.set env key value ttl) (.status .ok)
        ((d.makeRoom (Cache.entryCharge key value) (d.others key)).push
          ⟨key, value, deadlineAfter d.now ttl⟩)
  | missed {env : Env} {key output : Bytes} (hvalid : Cache.validateKey key = .ok) :
      Takes d (.get env key output) (.output .notFound output) { d with misses := d.misses + 1 }
  | found {env : Env} {key output : Bytes} {x : Record} (hvalid : Cache.validateKey key = .ok)
      (hfind : d.find key = some x) :
      Takes d (.get env key output) (.output .ok x.value)
        { d with records := x :: d.others key, hits := d.hits + 1 }
  | erased {env : Env} {key : Bytes} {x : Record} (hfind : d.find key = some x) :
      Takes d (.erase env key) (.status .ok) { d with records := d.others key }
  | ticked {env : Env} :
      Takes d (.tick env) .done { d with
        records := d.records.filter fun x ↦ !isDue d.now x
        expired := d.expired + d.records.countP (isDue d.now)
        now := d.now + 1 }

theorem others_of_find_eq_none {d : DeadlineCache} {key : Bytes} (h : d.find key = none) :
    d.others key = d.records :=
  without_of_forall_ne (find_eq_none.mp h)

theorem takes_set (d : DeadlineCache) (exhausted : Bool) (env : Env) (key value : Bytes)
    (ttl : Int64) :
    Takes d (.set env key value ttl) (d.set exhausted env key value ttl).1
      (d.set exhausted env key value ttl).2 := by
  have hsame : ∀ answer : Answer, answer ≠ .status .ok → answer ≠ .done →
      Takes d (.set env key value ttl) answer d := fun answer hok hdone ↦
    .unchanged hok hdone (by rintro _ _ _ ⟨⟩)
  unfold set
  split
  · rename_i hvalid
    exact hsame _ (by simpa using hvalid) (by simp)
  split
  · exact hsame _ (by simp) (by simp)
  split
  · exact hsame _ (by simp) (by simp)
  rename_i httl
  have httl' : 0 ≤ ttl := Int64.not_lt.mp httl
  split
  · exact hsame _ (by simp) (by simp)
  split
  · exact hsame _ (by simp) (by simp)
  cases hfind : d.find key with
  | some old =>
    dsimp only [overwrite]
    cases refusal exhausted env ttl with
    | some exception => exact hsame _ (by simp) (by simp)
    | none => exact .written httl'
  | none =>
    dsimp only [insertNew]
    split
    · exact hsame _ (by simp) (by simp)
    cases refusal exhausted env ttl with
    | some exception => exact hsame _ (by simp) (by simp)
    | none =>
      dsimp only
      split
      · exact .abandoned hfind
      · rw [← others_of_find_eq_none hfind]
        exact .written httl'

theorem takes_call (d : DeadlineCache) (exhausted : Bool) (call : Call) :
    Takes d call (d.call exhausted call).1 (d.call exhausted call).2 := by
  cases call with
  | set env key value ttl => exact d.takes_set exhausted env key value ttl
  | get env key output =>
    show Takes d _ (d.get env key output).1 (d.get env key output).2
    unfold get
    split
    · rename_i hvalid
      exact .unchanged (by simp) (by simp) (by rintro _ _ _ ⟨⟩; exact Or.inl hvalid)
    rename_i hvalid
    rw [not_not] at hvalid
    have hthrown : ∀ env' key' output', Call.get env key output = .get env' key' output' →
        Cache.validateKey key' ≠ .ok
          ∨ ∃ exception, Answer.thrown .badAlloc = .thrown exception :=
      fun _ _ _ _ ↦ Or.inr ⟨_, rfl⟩
    split
    · exact .unchanged (by simp) (by simp) hthrown
    cases hfind : d.find key with
    | none => exact .missed hvalid
    | some x =>
      dsimp only
      split
      · exact .unchanged (by simp) (by simp) hthrown
      · exact .found hvalid hfind
  | erase env key =>
    show Takes d _ (d.erase env key).1 (d.erase env key).2
    unfold erase
    split
    · rename_i hvalid
      exact .unchanged (by simpa using hvalid) (by simp) (by rintro _ _ _ ⟨⟩)
    split
    · exact .unchanged (by simp) (by simp) (by rintro _ _ _ ⟨⟩)
    cases hfind : d.find key with
    | none => exact .unchanged (by simp) (by simp) (by rintro _ _ _ ⟨⟩)
    | some x => exact .erased hfind
  | tick env =>
    show Takes d _ (d.tick env).1 (d.tick env).2
    unfold tick
    split
    · exact .unchanged (by simp) (by simp) (by rintro _ _ _ ⟨⟩)
    · exact .ticked

/-! ## Capacity, evictions and exhaustion -/

/-- No call changes the capacity or takes an eviction back. -/
structure Grows (d d' : DeadlineCache) : Prop where
  capacity : d'.capacity = d.capacity
  evictions : d.evictions ≤ d'.evictions

theorem Takes.grows {d d' : DeadlineCache} {call : Call} {answer : Answer}
    (h : Takes d call answer d') : Grows d d' := by
  cases h with
  | unchanged => exact ⟨rfl, le_refl _⟩
  | abandoned => exact ⟨rfl, Nat.le_add_right _ _⟩
  | written => exact ⟨rfl, Nat.le_add_right _ _⟩
  | missed => exact ⟨rfl, le_refl _⟩
  | found => exact ⟨rfl, le_refl _⟩
  | erased => exact ⟨rfl, le_refl _⟩
  | ticked => exact ⟨rfl, le_refl _⟩

private theorem refusal_exhausted (env : Env) (ttl : Int64) :
    refusal true env ttl = some .generationExhausted
      ∨ refusal false env ttl = refusal true env ttl := by
  unfold refusal
  split
  · exact Or.inr rfl
  · exact Or.inl rfl

/-- Running out of generations shows only in the answer that says so. -/
theorem call_exhausted (d : DeadlineCache) (call : Call) :
    (d.call true call).1 = .thrown .generationExhausted ∨ d.call false call = d.call true call := by
  cases call with
  | set env key value ttl =>
    show (d.set true env key value ttl).1 = _
      ∨ d.set false env key value ttl = d.set true env key value ttl
    unfold set
    split
    · exact Or.inr rfl
    split
    · exact Or.inr rfl
    split
    · exact Or.inr rfl
    split
    · exact Or.inr rfl
    split
    · exact Or.inr rfl
    cases d.find key with
    | some x =>
      dsimp only [overwrite]
      rcases refusal_exhausted env ttl with hrefusal | hrefusal
      · exact Or.inl (by rw [hrefusal])
      · exact Or.inr (by rw [hrefusal])
    | none =>
      dsimp only [insertNew]
      split
      · exact Or.inr rfl
      rcases refusal_exhausted env ttl with hrefusal | hrefusal
      · exact Or.inl (by rw [hrefusal])
      · exact Or.inr (by rw [hrefusal])
  | get env key output => exact Or.inr rfl
  | erase env key => exact Or.inr rfl
  | tick env => exact Or.inr rfl

end DeadlineCache

end HighCache
