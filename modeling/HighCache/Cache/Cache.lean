import HighCache.Lib.Memory
import HighCache.Lib.NodeList
import HighCache.Timer.TimingWheel
import Mathlib.Data.Finmap

/-!
# The cache

`cache.cpp` as a state and four operations on it. The hash map is a finite map, the recency list a
`NodeList` whose iterators are kept in the entries, the timers a `TimingWheel`; an iterator into
the map is the key it was found under, looked up again at each use, so using one after its entry
is gone is a fault.

## The value allocator

The cache reaches its allocator through two virtual calls only, `allocate(size)` and
`deallocate(pointer, size)`, and nothing it does depends on the answers except that `allocate` may
throw. The model therefore leaves the allocator outside: `Env.allocation` is its answer during one
call, and `Cache.calls` records every call made to it. A `CacheEntry` keeps the bytes of its block
with the pointer to it.

## Exceptions

Every statement that can throw has a `ThrowPoint`, and an `Env` says which of them do throw during
one call. What unwinding destroys is written out where the exception leaves.
-/

namespace HighCache

/-! ## Answers

What `set`, `get`, `erase` and `tick` hand back is one type, so that a run has one list of answers.
An exception is an answer too: the caller sees it, and the cache is in some state after it. -/

/-- `CacheStatus`. -/
inductive CacheStatus where
  | ok
  | notFound
  | invalidKey
  | keyTooLarge
  | valueTooLarge
  | itemTooLarge
  | invalidTtl
  deriving DecidableEq, Repr

/-- The exceptions that leave the cache: `std::bad_alloc`, and the `std::overflow_error` of
`next_generation`. -/
inductive CacheException where
  | badAlloc
  | generationExhausted
  deriving DecidableEq, Repr

/-- What a caller gets back: a status, a status with the output string of `get`, nothing from
`tick`, or an exception. -/
inductive Answer where
  | status (status : CacheStatus)
  | output (status : CacheStatus) (output : Bytes)
  | done
  | thrown (exception : CacheException)
  deriving DecidableEq, Repr

/-! ## The allocator, seen from the cache -/

/-- A call to the value allocator that returned. -/
inductive AllocatorCall where
  | allocate (size : ℕ) (pointer : Pointer)
  | deallocate (pointer : Pointer) (size : ℕ)
  deriving DecidableEq, Repr

/-- A statement that can throw for lack of memory, other than the value allocation. -/
inductive ThrowPoint where
  /-- The key copied for `entries_.find`. -/
  | lookupKey
  /-- `std::string map_key(key)`. -/
  | mapKey
  /-- `std::string recency_key(key)`. -/
  | recencyKey
  /-- The key copied for the timer. -/
  | timerKey
  /-- The event appended to a slot. -/
  | timerEvent
  /-- `recency_.push_front`. -/
  | recencyNode
  /-- `entries_.emplace`, which is taken to have no effect when it throws. -/
  | mapNode
  /-- `output.assign` in `get`. -/
  | outputCopy
  /-- `expired.reserve` in `TimingWheel::tick`. -/
  | expiredReserve
  deriving DecidableEq, Repr

/-- What the surroundings decide during one call: the allocator's answer, `none` if it throws, and
the other statements that throw. -/
structure Env where
  allocation : Option Pointer
  throws : ThrowPoint → Bool

/-- Nothing throws. -/
def Env.NoFailure (env : Env) : Prop :=
  env.allocation.isSome = true ∧ ∀ point, env.throws point = false

/-! ## The state

`CacheEntry` owns its block, and moving from one leaves an owner of nothing. In the model the block
goes with the value, and the destructor is called where the source destroys an entry that still owns
its block. The hash map keeps no order that any function returns, so a finite map stands for it. -/

/-- A block of the allocator and the bytes in it; `size_` is their number. -/
structure CacheEntry where
  data : Pointer
  value : Bytes
  deriving DecidableEq, Repr

/-- `Cache::StoredEntry`. -/
structure StoredEntry where
  entry : CacheEntry
  recencyPosition : ℕ
  generation : ℕ
  deriving DecidableEq, Repr

/-- The cache. The statistics do not wrap; `calls` records the calls to the allocator. -/
structure Cache where
  capacityBytes : ℕ
  memoryUsageBytes : ℕ
  hitCount : ℕ
  missCount : ℕ
  evictionCount : ℕ
  expiredCount : ℕ
  generationSource : ℕ
  timingWheel : TimingWheel
  recency : NodeList Bytes
  entries : Finmap fun _ : Bytes ↦ StoredEntry
  calls : List AllocatorCall

namespace Cache

/-- `max_key_length`. -/
def maxKeyLength : ℕ := 250

/-- `max_value_length`. -/
def maxValueLength : ℕ := 1024 * 1024

/-- The largest `std::uint64_t`. -/
def maxGeneration : ℕ := 2 ^ 64 - 1

/-- `Cache::Cache(capacity_bytes, allocator)`. -/
def new (capacityBytes : ℕ) : Cache where
  capacityBytes := capacityBytes
  memoryUsageBytes := 0
  hitCount := 0
  missCount := 0
  evictionCount := 0
  expiredCount := 0
  generationSource := 0
  timingWheel := .empty
  recency := .empty
  entries := ∅
  calls := []

/-- `Cache::validate_key`. -/
def validateKey (key : Bytes) : CacheStatus :=
  if key = [] then .invalidKey
  else if key.length > maxKeyLength then .keyTooLarge
  else .ok

/-- `Cache::entry_charge`. -/
def entryCharge (key value : Bytes) : ℕ := key.length + value.length

/-! ## Helpers

The private functions of the class, and the statements that both paths of `set` have in common.
Each takes the cache last, so that a function reads as the source does: the object is what is left
out. -/

/-- `CacheEntry{allocator_, value}`, or `none` where the allocator throws. -/
def newEntry (env : Env) (value : Bytes) (c : Cache) : Option (CacheEntry × Cache) :=
  match env.allocation with
  | none => none
  | some pointer =>
    some (⟨pointer, value⟩, { c with calls := c.calls ++ [.allocate value.length pointer] })

/-! ### The recency list and the map

Both are looked up by the other: the map element has the iterator into the list, and the list node
has the key. A lookup that finds nothing is a fault at each of these places. -/

/-- `CacheEntry::~CacheEntry` of an entry that owns its block. -/
def destroyEntry (entry : CacheEntry) (c : Cache) : Cache :=
  { c with calls := c.calls ++ [.deallocate entry.data entry.value.length] }

/-- `Cache::mark_mru`. -/
def markMru (key : Bytes) (c : Cache) : Except Fault Cache :=
  match c.entries.lookup key with
  | none => .error .invalidIterator
  | some stored => do
    let recency ← c.recency.spliceFront stored.recencyPosition
    match recency.begin? with
    | none => .error .invalidIterator
    | some position =>
      .ok { c with
        recency := recency
        entries := c.entries.insert key { stored with recencyPosition := position } }

/-- `Cache::remove_entry`. Erasing the map element destroys its `CacheEntry`. -/
def removeEntry (key : Bytes) (c : Cache) : Except Fault Cache :=
  match c.entries.lookup key with
  | none => .error .invalidIterator
  | some stored => do
    let memoryUsageBytes ←
      Checked.sub c.memoryUsageBytes (entryCharge key stored.entry.value)
    let recency ← c.recency.erase stored.recencyPosition
    .ok (destroyEntry stored.entry { c with
      memoryUsageBytes := memoryUsageBytes
      recency := recency
      entries := c.entries.erase key })

/-- `Cache::evict_lru`. -/
def evictLru (c : Cache) : Except Fault Cache :=
  match c.recency.back? with
  | none => .error .assertion
  | some lruKey =>
    match c.entries.lookup lruKey with
    | none => .error .assertion
    | some _ => do
      let c ← c.removeEntry lruKey
      .ok { c with evictionCount := c.evictionCount + 1 }

/-! ### Making room -/

/-- The condition of the two eviction loops,
`memory_usage_bytes_ - old_charge > capacity_bytes_ - new_charge`; on the insert path nothing is
discounted. -/
def overfull (oldCharge newCharge : ℕ) (c : Cache) : Except Fault Bool := do
  let used ← Checked.sub c.memoryUsageBytes oldCharge
  let room ← Checked.sub c.capacityBytes newCharge
  .ok (decide (used > room))

/-- The eviction loop. Each round removes a node of the recency list, so its length is fuel enough:
the fuel runs out where the list does, and there `evict_lru` asserts. -/
def evictWhile (oldCharge newCharge : ℕ) : ℕ → Cache → Except Fault Cache
  | 0, c => do
    if ← c.overfull oldCharge newCharge then c.evictLru else .ok c
  | fuel + 1, c => do
    if ← c.overfull oldCharge newCharge then
      let c ← c.evictLru
      evictWhile oldCharge newCharge fuel c
    else .ok c

/-! ### Generations and timers -/

/-- `Cache::next_generation`, or `none` where it throws. -/
def nextGeneration (c : Cache) : Option (ℕ × Cache) :=
  if c.generationSource = maxGeneration then none
  else some (c.generationSource + 1, { c with generationSource := c.generationSource + 1 })

/-- `if (ttl > 0) timing_wheel_.schedule(std::string(key), generation, ttl)`, or `none` where the
copy or the new event throws. -/
def scheduleTimer (env : Env) (key : Bytes) (generation : ℕ) (ttl : Int64) (c : Cache) :
    Except Fault (Option Cache) :=
  if 0 < ttl then
    if env.throws .timerKey || env.throws .timerEvent then .ok none
    else do
      let timingWheel ← c.timingWheel.schedule key generation ttl
      .ok (some { c with timingWheel := timingWheel })
  else .ok (some c)

/-- The three statements both paths of `set` share: construct the entry, draw a generation,
schedule the timer. An exception after the first destroys the entry. -/
def prepareEntry (env : Env) (key value : Bytes) (ttl : Int64) (c : Cache) :
    Except Fault (Except CacheException (CacheEntry × ℕ) × Cache) :=
  match c.newEntry env value with
  | none => .ok (.error .badAlloc, c)
  | some (entry, c) =>
    match c.nextGeneration with
    | none => .ok (.error .generationExhausted, c.destroyEntry entry)
    | some (generation, c) => do
      match ← c.scheduleTimer env key generation ttl with
      | none => .ok (.error .badAlloc, c.destroyEntry entry)
      | some c => .ok (.ok (entry, generation), c)

/-! ## The operations

The order of the statements is the order of the source, also where no result depends on it, since an
exception leaves what came before it done. -/

/-- `Cache::set` where the key is present. -/
def overwrite (env : Env) (key value : Bytes) (ttl : Int64) (existing : StoredEntry) (c : Cache) :
    Except Fault (Answer × Cache) := do
  let newCharge := entryCharge key value
  match ← c.prepareEntry env key value ttl with
  | (.error exception, c) => .ok (.thrown exception, c)
  | (.ok (replacement, generation), c) =>
    let oldCharge := entryCharge key existing.entry.value
    let c ← c.markMru key
    let c ← c.evictWhile oldCharge newCharge c.recency.nodes.length
    -- the iterator `existing` is used again: an eviction of its own entry would leave it dangling
    match c.entries.lookup key with
    | none => .error .invalidIterator
    | some current =>
      let remaining ← Checked.sub c.memoryUsageBytes oldCharge
      let memoryUsageBytes ← Checked.add remaining newCharge
      .ok (.status .ok, destroyEntry current.entry { c with
        memoryUsageBytes := memoryUsageBytes
        entries := c.entries.insert key
          { current with entry := replacement, generation := generation } })

/-- `Cache::set` where the key is absent. -/
def insertNew (env : Env) (key value : Bytes) (ttl : Int64) (c : Cache) :
    Except Fault (Answer × Cache) :=
  let newCharge := entryCharge key value
  if env.throws .mapKey || env.throws .recencyKey then .ok (.thrown .badAlloc, c)
  else do
    match ← c.prepareEntry env key value ttl with
    | (.error exception, c) => .ok (.thrown exception, c)
    | (.ok (newEntry, generation), c) =>
      let c ← c.evictWhile 0 newCharge c.recency.nodes.length
      if env.throws .recencyNode then .ok (.thrown .badAlloc, c.destroyEntry newEntry)
      else
        let recency := c.recency.pushFront key
        if env.throws .mapNode then
          -- the temporary `StoredEntry` that took the value over is destroyed, and `catch` pops
          let recency ← recency.popFront
          .ok (.thrown .badAlloc, destroyEntry newEntry { c with recency := recency })
        else
          match recency.begin? with
          | none => .error .invalidIterator
          | some position =>
            Checked.assert (c.entries.lookup key).isNone
            let memoryUsageBytes ← Checked.add c.memoryUsageBytes newCharge
            .ok (.status .ok, { c with
              memoryUsageBytes := memoryUsageBytes
              recency := recency
              entries := c.entries.insert key ⟨newEntry, position, generation⟩ })

/-- `Cache::set`. -/
def set (env : Env) (key value : Bytes) (ttl : Int64) (c : Cache) :
    Except Fault (Answer × Cache) :=
  if validateKey key ≠ .ok then .ok (.status (validateKey key), c)
  else if value.length > maxValueLength then .ok (.status .valueTooLarge, c)
  else if ttl < 0 then .ok (.status .invalidTtl, c)
  else if entryCharge key value > c.capacityBytes then .ok (.status .itemTooLarge, c)
  else if env.throws .lookupKey then .ok (.thrown .badAlloc, c)
  else
    match c.entries.lookup key with
    | some existing => c.overwrite env key value ttl existing
    | none => c.insertNew env key value ttl

/-- `Cache::get`; `output` is the caller's string, unchanged unless the key is found. -/
def get (env : Env) (key output : Bytes) (c : Cache) : Except Fault (Answer × Cache) :=
  if validateKey key ≠ .ok then .ok (.output (validateKey key) output, c)
  else if env.throws .lookupKey then .ok (.thrown .badAlloc, c)
  else
    match c.entries.lookup key with
    | none => .ok (.output .notFound output, { c with missCount := c.missCount + 1 })
    | some stored =>
      let value := stored.entry.value
      if value ≠ [] ∧ env.throws .outputCopy = true then .ok (.thrown .badAlloc, c)
      else do
        let c ← c.markMru key
        .ok (.output .ok value, { c with hitCount := c.hitCount + 1 })

/-- `Cache::erase`. -/
def erase (env : Env) (key : Bytes) (c : Cache) : Except Fault (Answer × Cache) :=
  if validateKey key ≠ .ok then .ok (.status (validateKey key), c)
  else if env.throws .lookupKey then .ok (.thrown .badAlloc, c)
  else
    match c.entries.lookup key with
    | none => .ok (.status .notFound, c)
    | some _ => do
      let c ← c.removeEntry key
      .ok (.status .ok, c)

/-- The loop of `Cache::tick` over the events of the wheel. -/
def expireAll : List TimerEvent → Cache → Except Fault Cache
  | [], c => .ok c
  | event :: events, c =>
    match c.entries.lookup event.key with
    | none => expireAll events c
    | some stored =>
      if stored.generation ≠ event.generation then expireAll events c
      else do
        let c ← c.removeEntry event.key
        expireAll events { c with expiredCount := c.expiredCount + 1 }

/-- `Cache::tick`. -/
def tick (env : Env) (c : Cache) : Except Fault (Answer × Cache) :=
  match c.timingWheel.tick (env.throws .expiredReserve) with
  | none => .ok (.thrown .badAlloc, c)
  | some (expired, timingWheel) => do
    let c ← expireAll expired { c with timingWheel := timingWheel }
    .ok (.done, c)

/-- `Cache::size`. -/
def size (c : Cache) : ℕ := c.entries.keys.card

end Cache

/-! ## Calls and reports

A run is a list of calls, each with its own surroundings. Its outputs are the answers together with
what the accessors would have said after each call. -/

/-- A call of one of the four operations. -/
inductive Call where
  | set (env : Env) (key value : Bytes) (ttl : Int64)
  | get (env : Env) (key output : Bytes)
  | erase (env : Env) (key : Bytes)
  | tick (env : Env)

/-- The surroundings of a call. -/
def Call.env : Call → Env
  | .set env _ _ _ => env
  | .get env _ _ => env
  | .erase env _ => env
  | .tick env => env

/-- The statistics a caller can read. -/
structure Report where
  size : ℕ
  memoryUsageBytes : ℕ
  hitCount : ℕ
  missCount : ℕ
  evictionCount : ℕ
  expiredCount : ℕ
  deriving DecidableEq, Repr

namespace Cache

/-- The report of a cache. -/
def report (c : Cache) : Report where
  size := c.size
  memoryUsageBytes := c.memoryUsageBytes
  hitCount := c.hitCount
  missCount := c.missCount
  evictionCount := c.evictionCount
  expiredCount := c.expiredCount

/-- One call. -/
def call (c : Cache) : Call → Except Fault (Answer × Cache)
  | .set env key value ttl => c.set env key value ttl
  | .get env key output => c.get env key output
  | .erase env key => c.erase env key
  | .tick env => c.tick env

/-- One call, answered with the report after it. -/
def step (c : Cache) (call : Call) : Except Fault ((Answer × Report) × Cache) := do
  let (answer, c) ← c.call call
  .ok ((answer, c.report), c)

end Cache

end HighCache
