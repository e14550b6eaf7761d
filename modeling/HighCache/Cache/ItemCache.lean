import HighCache.Cache.Cache
import HighCache.Lib.KeyedList
import Mathlib.Data.List.Perm.Subperm

/-!
# The cache as one list

The hash map and the recency list of a cache hold the same keys, so together they are one list of
items in order of use, and the wheel is a queue of deadlines. `ItemCache` is the cache on that
state: the operations are list operations, nothing can fault, and eviction is "keep the longest
prefix that fits". `HighCache.Cache.Refinement` shows that every call of the real cache is
the call of this one.

`ItemCache.WellFormed` is the invariant everything else rests on. It is preserved in one of two
ways only, which are stated once: the items become some of the items there were
(`WellFormed.of_subperm`: lookups, erasures, evictions, expiries), or a new item with a fresh
generation joins them (`WellFormed.cons`).

## What an item is

An item is an entry of the map with its key, without the iterator. The iterator is the one thing in
an entry that depends on the order of use, so an item that is used is moved and not changed, and the
list is permuted by every operation that neither adds nor drops an entry.
-/

namespace HighCache

open KeyedList

/-! ## The state and the operations -/

/-- An entry of the cache without its place in the recency list. -/
structure Item where
  key : Bytes
  value : Bytes
  data : Pointer
  generation : ℕ
  deriving DecidableEq, Repr

/-- The bytes an item is charged. -/
def Item.charge (x : Item) : ℕ := Cache.entryCharge x.key x.value

/-- The call that gives the block of an item back. -/
def Item.release (x : Item) : AllocatorCall := .deallocate x.data x.value.length

/-- The cache as one list, most recently used first. -/
structure ItemCache where
  capacity : ℕ
  items : List Item
  hits : ℕ
  misses : ℕ
  evictions : ℕ
  expired : ℕ
  generationSource : ℕ
  timers : TimerQueue
  calls : List AllocatorCall

namespace ItemCache

/-- The empty cache. -/
def new (capacity : ℕ) : ItemCache where
  capacity := capacity
  items := []
  hits := 0
  misses := 0
  evictions := 0
  expired := 0
  generationSource := 0
  timers := .empty
  calls := []

/-- The bytes in use. -/
def usage (a : ItemCache) : ℕ := total Item.charge a.items

/-- The item with a key. -/
def find (key : Bytes) (a : ItemCache) : Option Item := KeyedList.find Item.key key a.items

/-- The items with another key. -/
def others (key : Bytes) (a : ItemCache) : List Item := KeyedList.without Item.key key a.items

/-- Give the blocks of some items back, in this order. -/
def release (xs : List Item) (a : ItemCache) : ItemCache :=
  { a with calls := a.calls ++ xs.map Item.release }

/-- Keep of `rest` what fits beside an item of charge `charge`; the last ones go first. -/
def makeRoom (charge : ℕ) (rest : List Item) (a : ItemCache) : ItemCache :=
  release (overflow Item.charge (a.capacity - charge) rest).reverse { a with
    items := fitting Item.charge (a.capacity - charge) rest
    evictions := a.evictions + (overflow Item.charge (a.capacity - charge) rest).length }

/-- The block, the generation and the timer of a new item; an exception gives the block back but
not the generation. -/
def prepare (env : Env) (key value : Bytes) (ttl : Int64) (a : ItemCache) :
    Except CacheException Item × ItemCache :=
  match env.allocation with
  | none => (.error .badAlloc, a)
  | some pointer =>
    let item : Item := ⟨key, value, pointer, a.generationSource + 1⟩
    let a : ItemCache := { a with calls := a.calls ++ [.allocate value.length pointer] }
    if a.generationSource = Cache.maxGeneration then
      (.error .generationExhausted, a.release [item])
    else
      let a : ItemCache := { a with generationSource := a.generationSource + 1 }
      if 0 < ttl then
        if env.throws .timerKey || env.throws .timerEvent then (.error .badAlloc, a.release [item])
        else (.ok item, { a with
          timers := a.timers.schedule key item.generation (TimingWheel.ceilTicks ttl) })
      else (.ok item, a)

/-- `set` on a list that has the key. -/
def overwrite (env : Env) (key value : Bytes) (ttl : Int64) (old : Item) (a : ItemCache) :
    Answer × ItemCache :=
  match a.prepare env key value ttl with
  | (.error exception, a) => (.thrown exception, a)
  | (.ok item, a) =>
    let a := a.makeRoom item.charge (a.others key)
    (.status .ok, release [old] { a with items := item :: a.items })

/-- `set` on a list that lacks the key. -/
def insertNew (env : Env) (key value : Bytes) (ttl : Int64) (a : ItemCache) :
    Answer × ItemCache :=
  if env.throws .mapKey || env.throws .recencyKey then (.thrown .badAlloc, a)
  else
    match a.prepare env key value ttl with
    | (.error exception, a) => (.thrown exception, a)
    | (.ok item, a) =>
      let a := a.makeRoom item.charge a.items
      if env.throws .recencyNode || env.throws .mapNode then
        (.thrown .badAlloc, a.release [item])
      else (.status .ok, { a with items := item :: a.items })

/-- `set` on a list. -/
def set (env : Env) (key value : Bytes) (ttl : Int64) (a : ItemCache) : Answer × ItemCache :=
  if Cache.validateKey key ≠ .ok then (.status (Cache.validateKey key), a)
  else if value.length > Cache.maxValueLength then (.status .valueTooLarge, a)
  else if ttl < 0 then (.status .invalidTtl, a)
  else if Cache.entryCharge key value > a.capacity then (.status .itemTooLarge, a)
  else if env.throws .lookupKey then (.thrown .badAlloc, a)
  else
    match a.find key with
    | some old => a.overwrite env key value ttl old
    | none => a.insertNew env key value ttl

/-- `get` on a list. -/
def get (env : Env) (key output : Bytes) (a : ItemCache) : Answer × ItemCache :=
  if Cache.validateKey key ≠ .ok then (.output (Cache.validateKey key) output, a)
  else if env.throws .lookupKey then (.thrown .badAlloc, a)
  else
    match a.find key with
    | none => (.output .notFound output, { a with misses := a.misses + 1 })
    | some item =>
      if item.value ≠ [] ∧ env.throws .outputCopy = true then (.thrown .badAlloc, a)
      else (.output .ok item.value,
        { a with items := item :: a.others key, hits := a.hits + 1 })

/-- `erase` on a list. -/
def erase (env : Env) (key : Bytes) (a : ItemCache) : Answer × ItemCache :=
  if Cache.validateKey key ≠ .ok then (.status (Cache.validateKey key), a)
  else if env.throws .lookupKey then (.thrown .badAlloc, a)
  else
    match a.find key with
    | none => (.status .notFound, a)
    | some item => (.status .ok, release [item] { a with items := a.others key })

/-- The timers of one tick, one after another: each removes the item it was scheduled for. -/
def expireAll : List Timer → ItemCache → ItemCache
  | [], a => a
  | timer :: timers, a =>
    match a.find timer.key with
    | none => expireAll timers a
    | some item =>
      if item.generation ≠ timer.generation then expireAll timers a
      else expireAll timers (release [item] { a with
        items := a.others timer.key
        expired := a.expired + 1 })

/-- `tick` on a list. -/
def tick (env : Env) (a : ItemCache) : Answer × ItemCache :=
  if env.throws .expiredReserve then (.thrown .badAlloc, a)
  else (.done, expireAll a.timers.due { a with timers := a.timers.tick })

/-- The report of a list. -/
def report (a : ItemCache) : Report where
  size := a.items.length
  memoryUsageBytes := a.usage
  hitCount := a.hits
  missCount := a.misses
  evictionCount := a.evictions
  expiredCount := a.expired

/-- One call. -/
def call (a : ItemCache) : Call → Answer × ItemCache
  | .set env key value ttl => a.set env key value ttl
  | .get env key output => a.get env key output
  | .erase env key => a.erase env key
  | .tick env => a.tick env

/-- One call, answered with the report after it. -/
def step (a : ItemCache) (call : Call) : (Answer × Report) × ItemCache :=
  (((a.call call).1, (a.call call).2.report), (a.call call).2)

/-! ## The invariant

Keys and generations are distinct, the bytes in use are within the capacity, and the timers belong
to generations that have been drawn. That the generation of a timer determines its key is what makes
an expiry remove the entry the timer was set for and no other. -/

/-- What holds of every state a run reaches. -/
structure WellFormed (a : ItemCache) : Prop where
  capacity_lt : a.capacity < Checked.wordSize
  usage_le : a.usage ≤ a.capacity
  keys_nodup : (a.items.map Item.key).Nodup
  key_pos : ∀ x ∈ a.items, 0 < x.key.length
  key_le : ∀ x ∈ a.items, x.key.length ≤ Cache.maxKeyLength
  value_le : ∀ x ∈ a.items, x.value.length ≤ Cache.maxValueLength
  generations_nodup : (a.items.map Item.generation).Nodup
  generation_le : ∀ x ∈ a.items, x.generation ≤ a.generationSource
  source_le : a.generationSource ≤ Cache.maxGeneration
  /-- Pending timers have different generations, … -/
  timers_nodup : (a.timers.pending.map Timer.generation).Nodup
  /-- … which were all drawn, … -/
  timer_generation_le : ∀ t ∈ a.timers.pending, t.generation ≤ a.generationSource
  /-- … are still to come, … -/
  timer_pending : ∀ t ∈ a.timers.pending, a.timers.now < t.deadline
  /-- … and share a generation only with an item of their own key. -/
  timer_key : ∀ t ∈ a.timers.pending, ∀ x ∈ a.items, t.generation = x.generation → t.key = x.key

theorem wellFormed_new {capacity : ℕ} (h : capacity < Checked.wordSize) :
    (new capacity).WellFormed where
  capacity_lt := h
  usage_le := Nat.zero_le _
  keys_nodup := List.nodup_nil
  key_pos := by simp [new]
  key_le := by simp [new]
  value_le := by simp [new]
  generations_nodup := List.nodup_nil
  generation_le := by simp [new]
  source_le := Nat.zero_le _
  timers_nodup := List.nodup_nil
  timer_generation_le := by simp [new, TimerQueue.empty]
  timer_pending := by simp [new, TimerQueue.empty]
  timer_key := by simp [new, TimerQueue.empty]

theorem WellFormed.of_subperm {a b : ItemCache} (h : a.WellFormed)
    (hcap : b.capacity = a.capacity) (hitems : b.items.Subperm a.items)
    (hsource : b.generationSource = a.generationSource)
    (htimers : b.timers.pending.Sublist a.timers.pending)
    (hpending : ∀ t ∈ b.timers.pending, b.timers.now < t.deadline) : b.WellFormed := by
  obtain ⟨l, hperm, hsub⟩ := hitems
  have hmem : ∀ x ∈ b.items, x ∈ a.items := fun x hx ↦ hsub.subset (hperm.symm.subset hx)
  have hmap : ∀ {β : Type} (f : Item → β), (a.items.map f).Nodup → (b.items.map f).Nodup :=
    fun f hnd ↦ (hperm.map f).nodup_iff.mp (hnd.sublist (hsub.map f))
  constructor
  · exact hcap ▸ h.capacity_lt
  · rw [hcap, usage, ← total_perm Item.charge hperm]
    exact (total_sublist_le Item.charge hsub).trans h.usage_le
  · exact hmap _ h.keys_nodup
  · exact fun x hx ↦ h.key_pos x (hmem x hx)
  · exact fun x hx ↦ h.key_le x (hmem x hx)
  · exact fun x hx ↦ h.value_le x (hmem x hx)
  · exact hmap _ h.generations_nodup
  · exact fun x hx ↦ hsource ▸ h.generation_le x (hmem x hx)
  · exact hsource ▸ h.source_le
  · exact h.timers_nodup.sublist (htimers.map _)
  · exact fun t ht ↦ hsource ▸ h.timer_generation_le t (htimers.subset ht)
  · exact hpending
  · exact fun t ht x hx ↦ h.timer_key t (htimers.subset ht) x (hmem x hx)

/-- The same items and timers: statistics and allocator calls do not matter. -/
theorem WellFormed.of_eq {a b : ItemCache} (h : a.WellFormed) (hcap : b.capacity = a.capacity)
    (hitems : b.items = a.items) (hsource : b.generationSource = a.generationSource)
    (htimers : b.timers = a.timers) : b.WellFormed :=
  h.of_subperm hcap (hitems ▸ List.Subperm.refl _) hsource (htimers ▸ List.Sublist.refl _)
    (htimers ▸ h.timer_pending)

/-- A new item beside some of the others, with the generation drawn last. -/
theorem WellFormed.cons {a b : ItemCache} (h : a.WellFormed) (item : Item) (kept : List Item)
    (hcap : b.capacity = a.capacity) (hitems : b.items = item :: kept)
    (hkept : kept.Subperm a.items) (hsource : b.generationSource = a.generationSource)
    (htimers : b.timers = a.timers) (hfits : item.charge + total Item.charge kept ≤ a.capacity)
    (hkey : ∀ x ∈ kept, x.key ≠ item.key) (hvalid : Cache.validateKey item.key = .ok)
    (hvalue : item.value.length ≤ Cache.maxValueLength)
    (hgeneration : item.generation = a.generationSource)
    (hfresh : ∀ x ∈ a.items, x.generation < item.generation)
    (htimer : ∀ t ∈ a.timers.pending, t.generation = item.generation → t.key = item.key) :
    b.WellFormed := by
  have hk : ({ a with items := kept } : ItemCache).WellFormed :=
    h.of_subperm rfl hkept rfl (List.Sublist.refl _) h.timer_pending
  have hlen : 0 < item.key.length ∧ item.key.length ≤ Cache.maxKeyLength := by
    rw [Cache.validateKey] at hvalid
    split at hvalid
    · cases hvalid
    · split at hvalid
      · cases hvalid
      · rename_i hne hle
        exact ⟨List.length_pos_iff.mpr hne, Nat.not_lt.mp hle⟩
  have hfresh' : ∀ x ∈ kept, x.generation < item.generation :=
    fun x hx ↦ hfresh x (hkept.subset hx)
  constructor
  · exact hcap ▸ h.capacity_lt
  · rw [usage, hitems, total_cons, hcap]
    exact hfits
  · rw [hitems, List.map_cons, List.nodup_cons]
    refine ⟨fun hmem ↦ ?_, hk.keys_nodup⟩
    obtain ⟨x, hx, hxk⟩ := List.mem_map.mp hmem
    exact hkey x hx hxk
  · rw [hitems]
    exact List.forall_mem_cons.mpr ⟨hlen.1, hk.key_pos⟩
  · rw [hitems]
    exact List.forall_mem_cons.mpr ⟨hlen.2, hk.key_le⟩
  · rw [hitems]
    exact List.forall_mem_cons.mpr ⟨hvalue, hk.value_le⟩
  · rw [hitems, List.map_cons, List.nodup_cons]
    refine ⟨fun hmem ↦ ?_, hk.generations_nodup⟩
    obtain ⟨x, hx, hxg⟩ := List.mem_map.mp hmem
    exact absurd (hfresh' x hx) (by rw [hxg]; exact lt_irrefl _)
  · rw [hitems, hsource]
    exact List.forall_mem_cons.mpr ⟨hgeneration.le, hk.generation_le⟩
  · exact hsource ▸ h.source_le
  · exact htimers ▸ h.timers_nodup
  · exact htimers ▸ hsource ▸ h.timer_generation_le
  · exact htimers ▸ h.timer_pending
  -- a timer of the new item bears its key, and timers of the others were there before
  · rw [hitems, htimers]
    intro t ht x hx hgen
    rcases List.mem_cons.mp hx with rfl | hx
    · exact htimer t ht hgen
    · exact hk.timer_key t ht x hx hgen

/-! ## Preparing an item

The two paths of `set` differ in what they do with an item, not in how they come by one. `Prepared`
says what they may assume of it: its generation is new, and above that of every item and timer. -/

/-- What `prepare` leaves alone, and what it promises about the item if it makes one. -/
structure Prepared (key value : Bytes) (a : ItemCache)
    (r : Except CacheException Item × ItemCache) : Prop where
  capacity : r.2.capacity = a.capacity
  items : r.2.items = a.items
  hits : r.2.hits = a.hits
  misses : r.2.misses = a.misses
  evictions : r.2.evictions = a.evictions
  expired : r.2.expired = a.expired
  wellFormed : r.2.WellFormed
  item_key : ∀ item, r.1 = .ok item → item.key = key
  item_value : ∀ item, r.1 = .ok item → item.value = value
  item_generation : ∀ item, r.1 = .ok item → item.generation = r.2.generationSource
  item_fresh : ∀ item, r.1 = .ok item → ∀ x ∈ a.items, x.generation < item.generation
  item_timer : ∀ item, r.1 = .ok item → ∀ t ∈ r.2.timers.pending,
    t.generation = item.generation → t.key = item.key

/-- Drawing a generation leaves room above every item and timer. -/
private theorem WellFormed.draw {a : ItemCache} (h : a.WellFormed)
    (hsource : a.generationSource ≠ Cache.maxGeneration) (calls : List AllocatorCall) :
    ({ a with generationSource := a.generationSource + 1, calls := calls } : ItemCache).WellFormed
    where
  capacity_lt := h.capacity_lt
  usage_le := h.usage_le
  keys_nodup := h.keys_nodup
  key_pos := h.key_pos
  key_le := h.key_le
  value_le := h.value_le
  generations_nodup := h.generations_nodup
  generation_le := fun x hx ↦ (h.generation_le x hx).trans (Nat.le_succ _)
  source_le := Nat.succ_le_of_lt (lt_of_le_of_ne h.source_le hsource)
  timers_nodup := h.timers_nodup
  timer_generation_le := fun t ht ↦ (h.timer_generation_le t ht).trans (Nat.le_succ _)
  timer_pending := h.timer_pending
  timer_key := h.timer_key

private theorem WellFormed.schedule {a : ItemCache} (h : a.WellFormed) {key : Bytes}
    {generation ticks : ℕ} (hle : generation ≤ a.generationSource)
    (hticks : 0 < ticks) (hitems : ∀ x ∈ a.items, x.generation < generation)
    (htimers : ∀ t ∈ a.timers.pending, t.generation < generation) :
    ({ a with timers := a.timers.schedule key generation ticks } : ItemCache).WellFormed where
  capacity_lt := h.capacity_lt
  usage_le := h.usage_le
  keys_nodup := h.keys_nodup
  key_pos := h.key_pos
  key_le := h.key_le
  value_le := h.value_le
  generations_nodup := h.generations_nodup
  generation_le := h.generation_le
  source_le := h.source_le
  timers_nodup := by
    rw [TimerQueue.schedule, List.map_append, List.nodup_append]
    refine ⟨h.timers_nodup, by simp, ?_⟩
    intro g hg g' hg' heq
    obtain ⟨t, ht, rfl⟩ := List.mem_map.mp hg
    rw [List.map_singleton, List.mem_singleton] at hg'
    exact absurd (htimers t ht) (by rw [heq, hg']; exact lt_irrefl _)
  timer_generation_le := by
    intro t ht
    rcases List.mem_append.mp ht with ht | ht
    · exact h.timer_generation_le t ht
    · rw [List.mem_singleton] at ht
      exact ht ▸ hle
  timer_pending := by
    intro t ht
    rcases List.mem_append.mp ht with ht | ht
    · exact h.timer_pending t ht
    · rw [List.mem_singleton] at ht
      subst ht
      exact Nat.lt_add_of_pos_right hticks
  -- no item has the generation of the new timer yet
  timer_key := by
    intro t ht x hx hgen
    rcases List.mem_append.mp ht with ht | ht
    · exact h.timer_key t ht x hx hgen
    · rw [List.mem_singleton] at ht
      subst ht
      exact absurd (hitems x hx) (by rw [← hgen]; exact lt_irrefl _)

private theorem toInt_pos {ttl : Int64} (h : 0 < ttl) : 0 < ttl.toInt := by
  simpa using Int64.lt_iff_toInt_lt.mp h

theorem prepare_spec (env : Env) (key value : Bytes) (ttl : Int64) {a : ItemCache}
    (h : a.WellFormed) : Prepared key value a (a.prepare env key value ttl) := by
  have hbad : ∀ exception (b : ItemCache), b.WellFormed → b.capacity = a.capacity →
      b.items = a.items → b.hits = a.hits → b.misses = a.misses → b.evictions = a.evictions →
      b.expired = a.expired → Prepared key value a (.error exception, b) := by
    intro exception b hb h₁ h₂ h₃ h₄ h₅ h₆
    constructor <;> first | assumption | (intro item hitem; cases hitem)
  -- the generation that is drawn is later than all others
  have hgen : ∀ x ∈ a.items, x.generation < a.generationSource + 1 :=
    fun x hx ↦ Nat.lt_succ_of_le (h.generation_le x hx)
  have htim : ∀ t ∈ a.timers.pending, t.generation < a.generationSource + 1 :=
    fun t ht ↦ Nat.lt_succ_of_le (h.timer_generation_le t ht)
  unfold prepare
  cases env.allocation with
  | none => exact hbad _ _ h rfl rfl rfl rfl rfl rfl
  | some pointer =>
    dsimp only
    by_cases hsource : a.generationSource = Cache.maxGeneration
    · rw [if_pos hsource]
      exact hbad _ _ (h.of_eq rfl rfl rfl rfl) rfl rfl rfl rfl rfl rfl
    · rw [if_neg hsource]
      have hdraw := h.draw hsource (a.calls ++ [.allocate value.length pointer])
      by_cases httl : 0 < ttl
      · rw [if_pos httl]
        by_cases hthrow : (env.throws .timerKey || env.throws .timerEvent) = true
        · rw [if_pos hthrow]
          exact hbad _ _ (hdraw.of_eq rfl rfl rfl rfl) rfl rfl rfl rfl rfl rfl
        · rw [if_neg hthrow]
          refine ⟨rfl, rfl, rfl, rfl, rfl, rfl, ?_, ?_, ?_, ?_, ?_, ?_⟩
          · exact hdraw.schedule (le_refl _) (TimingWheel.ceilTicks_pos (toInt_pos httl)) hgen htim
          all_goals
            intro item hitem
            cases hitem
          · rfl
          · rfl
          · rfl
          · exact hgen
          · intro t ht heq
            rcases List.mem_append.mp ht with ht | ht
            · exact absurd (htim t ht) (by rw [heq]; exact lt_irrefl _)
            · rw [List.mem_singleton] at ht
              rw [ht]
      · rw [if_neg httl]
        refine ⟨rfl, rfl, rfl, rfl, rfl, rfl, hdraw, ?_, ?_, ?_, ?_, ?_⟩
        all_goals
          intro item hitem
          cases hitem
        · rfl
        · rfl
        · rfl
        · exact hgen
        · intro t ht heq
          exact absurd (htim t ht) (by rw [heq]; exact lt_irrefl _)

/-! ## Every call keeps the invariant

Each call is one of the two changes of the invariant, or one after the other: evicting takes items
away, and the new item joins what is left. -/

theorem fitting_subperm (budget : ℕ) (xs : List Item) :
    (fitting Item.charge budget xs).Subperm xs :=
  (fitting_initial Item.charge xs budget).sublist.subperm

theorem others_subperm (key : Bytes) (a : ItemCache) : (a.others key).Subperm a.items :=
  (without_sublist key a.items).subperm

private theorem Prepared.cons_makeRoom {a : ItemCache} {key value : Bytes} {item : Item}
    {r : Except CacheException Item × ItemCache} (hp : Prepared key value a r)
    (hr : r.1 = .ok item) {rest : List Item} (hrest : rest.Subperm a.items)
    (hne : ∀ x ∈ rest, x.key ≠ key) (hvalid : Cache.validateKey key = .ok)
    (hvalue : value.length ≤ Cache.maxValueLength)
    (hcharge : Cache.entryCharge key value ≤ a.capacity) :
    ({ r.2.makeRoom item.charge rest with
      items := item :: (r.2.makeRoom item.charge rest).items } : ItemCache).WellFormed := by
  have hk := hp.item_key item hr
  have hv := hp.item_value item hr
  have hitem : item.charge ≤ r.2.capacity := by
    rw [Item.charge, hk, hv, hp.capacity]
    exact hcharge
  refine hp.wellFormed.cons item (fitting Item.charge (r.2.capacity - item.charge) rest) rfl rfl
    ?_ rfl rfl ?_ ?_ ?_ ?_ (hp.item_generation item hr) ?_ (hp.item_timer item hr)
  · rw [hp.items]
    exact (fitting_subperm _ _).trans hrest
  · have := total_fitting_le Item.charge rest (r.2.capacity - item.charge)
    omega
  · rw [hk]
    exact fun x hx ↦ hne x ((fitting_subperm _ _).subset hx)
  · rw [hk]
    exact hvalid
  · rw [hv]
    exact hvalue
  · rw [hp.items]
    exact hp.item_fresh item hr

theorem WellFormed.overwrite {a : ItemCache} (h : a.WellFormed) (env : Env) {key value : Bytes}
    (ttl : Int64) (old : Item) (hvalid : Cache.validateKey key = .ok)
    (hvalue : value.length ≤ Cache.maxValueLength)
    (hcharge : Cache.entryCharge key value ≤ a.capacity) :
    (a.overwrite env key value ttl old).2.WellFormed := by
  have hp := prepare_spec env key value ttl h
  unfold ItemCache.overwrite
  cases hr : a.prepare env key value ttl with
  | mk r b =>
    rw [hr] at hp
    cases r with
    | error exception => exact hp.wellFormed
    | ok item =>
      refine (hp.cons_makeRoom rfl ?_ ?_ hvalid hvalue hcharge).of_eq rfl rfl rfl rfl
      · have hothers : b.others key = a.others key := by rw [others, hp.items, others]
        rw [hothers]
        exact others_subperm key a
      · exact fun x hx ↦ (mem_without.mp hx).2

theorem WellFormed.insertNew {a : ItemCache} (h : a.WellFormed) (env : Env) {key value : Bytes}
    (ttl : Int64) (habsent : a.find key = none) (hvalid : Cache.validateKey key = .ok)
    (hvalue : value.length ≤ Cache.maxValueLength)
    (hcharge : Cache.entryCharge key value ≤ a.capacity) :
    (a.insertNew env key value ttl).2.WellFormed := by
  have hp := prepare_spec env key value ttl h
  unfold ItemCache.insertNew
  split
  · exact h
  cases hr : a.prepare env key value ttl with
  | mk r b =>
    rw [hr] at hp
    cases r with
    | error exception => exact hp.wellFormed
    | ok item =>
      have hitems : b.items = a.items := hp.items
      dsimp only
      split
      · exact hp.wellFormed.of_subperm rfl (fitting_subperm _ _) rfl (List.Sublist.refl _)
          hp.wellFormed.timer_pending
      · refine hp.cons_makeRoom rfl ?_ ?_ hvalid hvalue hcharge
        · rw [hitems]
        · rw [hitems]
          exact find_eq_none.mp habsent

theorem WellFormed.set {a : ItemCache} (h : a.WellFormed) (env : Env) (key value : Bytes)
    (ttl : Int64) : (a.set env key value ttl).2.WellFormed := by
  unfold ItemCache.set
  split
  · exact h
  rename_i hvalid
  split
  · exact h
  rename_i hvalue
  split
  · exact h
  split
  · exact h
  rename_i hcharge
  split
  · exact h
  rw [not_not] at hvalid
  rw [gt_iff_lt, Nat.not_lt] at hvalue hcharge
  cases hfind : a.find key with
  | some old => exact h.overwrite env ttl old hvalid hvalue hcharge
  | none => exact h.insertNew env ttl hfind hvalid hvalue hcharge

theorem WellFormed.get {a : ItemCache} (h : a.WellFormed) (env : Env) (key output : Bytes) :
    (a.get env key output).2.WellFormed := by
  unfold ItemCache.get
  split
  · exact h
  split
  · exact h
  cases hfind : a.find key with
  | none => exact h.of_eq rfl rfl rfl rfl
  | some item =>
    dsimp only
    split
    · exact h
    · have hperm := perm_cons_without h.keys_nodup (mem_of_find hfind)
      rw [key_of_find hfind] at hperm
      exact h.of_subperm rfl hperm.symm.subperm rfl (List.Sublist.refl _) h.timer_pending

theorem WellFormed.erase {a : ItemCache} (h : a.WellFormed) (env : Env) (key : Bytes) :
    (a.erase env key).2.WellFormed := by
  unfold ItemCache.erase
  split
  · exact h
  split
  · exact h
  cases hfind : a.find key with
  | none => exact h
  | some item =>
    exact h.of_subperm rfl (others_subperm key a) rfl (List.Sublist.refl _) h.timer_pending

theorem WellFormed.expireAll : ∀ (timers : List Timer) {a : ItemCache}, a.WellFormed →
    (expireAll timers a).WellFormed := by
  intro timers
  induction timers with
  | nil => intro a h; exact h
  | cons timer timers ih =>
    intro a h
    rw [ItemCache.expireAll]
    split
    · exact ih h
    · split
      · exact ih h
      · exact ih (h.of_subperm rfl (others_subperm _ _) rfl (List.Sublist.refl _) h.timer_pending)

theorem WellFormed.advance {a : ItemCache} (h : a.WellFormed) :
    ({ a with timers := a.timers.tick } : ItemCache).WellFormed := by
  refine h.of_subperm rfl (List.Subperm.refl _) rfl List.filter_sublist ?_
  intro t ht
  have hmem := List.mem_filter.mp ht
  have hlt := h.timer_pending t hmem.1
  have hne : t.deadline ≠ a.timers.now + 1 := by simpa using hmem.2
  show a.timers.now + 1 < t.deadline
  omega

theorem WellFormed.tick {a : ItemCache} (h : a.WellFormed) (env : Env) :
    (a.tick env).2.WellFormed := by
  unfold ItemCache.tick
  split
  · exact h
  · exact WellFormed.expireAll _ h.advance

/-- **Every call keeps the invariant.** -/
theorem WellFormed.call {a : ItemCache} (h : a.WellFormed) (call : Call) :
    (a.call call).2.WellFormed := by
  cases call with
  | set env key value ttl => exact h.set env key value ttl
  | get env key output => exact h.get env key output
  | erase env key => exact h.erase env key
  | tick env => exact h.tick env

end ItemCache

end HighCache
