import HighCache.Cache.Operations

/-!
# The declarative reference

What the cache is for, with nothing of how it works: a finite map from keys to a value, an optional
deadline and the time of last use, beside the number of ticks, a clock for last use and four
counters. There is no order in the state. Eviction finds the entries with the oldest last use and
removes them until the new item fits; a tick removes the entries whose deadline it is.

The cache keeps the same information in the order of its list. `Models` reads a list of records in
order of use as the listing of the map by decreasing last use, and every operation of the
reference is then the list operation of `DeadlineCache`: the oldest entry is the last one.

## Why the reference has a clock

A specification of "least recently used" needs an order of use. The reference has it as a number on
each entry, drawn from a clock that every use moves on, so that the order is a fact about entries
and not a structure that must be kept in step with them. Numbers are never equal, and the oldest
entry is the one with the smallest.
-/

namespace HighCache

open KeyedList FiniteMap

/-! ## The reference -/

/-- What the reference knows about a key. -/
structure Reference.Entry where
  value : Bytes
  deadline : Option ℕ
  lastUse : ℕ
  deriving DecidableEq, Repr

/-- The reference. -/
structure Reference where
  capacity : ℕ
  entries : Finmap fun _ : Bytes ↦ Reference.Entry
  ticks : ℕ
  clock : ℕ
  hits : ℕ
  misses : ℕ
  evictions : ℕ
  expired : ℕ

namespace Reference

/-- The reference at the start. -/
def new (capacity : ℕ) : Reference := ⟨capacity, ∅, 0, 0, 0, 0, 0, 0⟩

/-- The bytes of a key and its value. -/
def charge (x : Bytes × Entry) : ℕ := x.1.length + x.2.value.length

/-- Whether no element of `m` was used longer ago. -/
def isOldest (m : Finmap fun _ : Bytes ↦ Entry) (x : Bytes × Entry) : Bool :=
  decide (∀ y ∈ m.entries, x.2.lastUse ≤ y.2.lastUse)

/-- Remove what was used longest ago until the rest is within the budget. -/
def makeRoom (budget : ℕ) : ℕ → (Finmap fun _ : Bytes ↦ Entry) → Finmap fun _ : Bytes ↦ Entry
  | 0, m => m
  | fuel + 1, m =>
    if weight charge m ≤ budget then m
    else makeRoom budget fuel (filter (fun x ↦ !isOldest m x) m)

/-- The deadline of a TTL accepted after `ticks` ticks: whole seconds, rounded up. -/
def deadline (ticks : ℕ) (ttl : Int64) : Option ℕ :=
  if 0 < ttl then some (ticks + (ttl.toInt.toNat + 999) / 1000) else none

/-- SET. -/
def set (key value : Bytes) (ttl : Int64) (r : Reference) : Answer × Reference :=
  if key.length = 0 then (.status .invalidKey, r)
  else if key.length > 250 then (.status .keyTooLarge, r)
  else if value.length > 1024 * 1024 then (.status .valueTooLarge, r)
  else if ttl < 0 then (.status .invalidTtl, r)
  else if key.length + value.length > r.capacity then (.status .itemTooLarge, r)
  else
    -- an old value of the key takes no room from the new one
    let others := r.entries.erase key
    let kept := makeRoom (r.capacity - (key.length + value.length)) (size others) others
    (.status .ok, { r with
      entries := kept.insert key ⟨value, deadline r.ticks ttl, r.clock + 1⟩
      clock := r.clock + 1
      evictions := r.evictions + (size others - size kept) })

/-- GET. -/
def get (key output : Bytes) (r : Reference) : Answer × Reference :=
  if key.length = 0 then (.output .invalidKey output, r)
  else if key.length > 250 then (.output .keyTooLarge output, r)
  else
    match r.entries.lookup key with
    | none => (.output .notFound output, { r with misses := r.misses + 1 })
    | some e => (.output .ok e.value, { r with
        entries := r.entries.insert key { e with lastUse := r.clock + 1 }
        clock := r.clock + 1
        hits := r.hits + 1 })

/-- DELETE. -/
def erase (key : Bytes) (r : Reference) : Answer × Reference :=
  if key.length = 0 then (.status .invalidKey, r)
  else if key.length > 250 then (.status .keyTooLarge, r)
  else if (r.entries.lookup key).isSome then
    (.status .ok, { r with entries := r.entries.erase key })
  else (.status .notFound, r)

/-- A tick. -/
def tick (r : Reference) : Answer × Reference :=
  let kept := filter (fun x ↦ x.2.deadline ≠ some (r.ticks + 1)) r.entries
  (.done, { r with
    entries := kept
    ticks := r.ticks + 1
    expired := r.expired + (size r.entries - size kept) })

/-- The statistics. -/
def report (r : Reference) : Report where
  size := size r.entries
  memoryUsageBytes := weight charge r.entries
  hitCount := r.hits
  missCount := r.misses
  evictionCount := r.evictions
  expiredCount := r.expired

/-- One operation. -/
def apply (r : Reference) : Op → Answer × Reference
  | .set key value ttl => r.set key value ttl
  | .get key output => r.get key output
  | .erase key => r.erase key
  | .tick => r.tick

/-- One operation, answered with the statistics after it. -/
def step (r : Reference) (op : Op) : (Answer × Report) × Reference :=
  (((r.apply op).1, (r.apply op).2.report), (r.apply op).2)

/-! ## Order of use

Sorting the entries by decreasing last use lists them. The list is determined, and each operation of
the map is one of the list: what is used goes to the front, since its number is the largest. -/

/-- An element of the map as a record. -/
def toRecord (x : Bytes × Entry) : Record := ⟨x.1, x.2.value, x.2.deadline⟩

@[simp] theorem toRecord_key (x : Bytes × Entry) : (toRecord x).key = x.1 := rfl

@[simp] theorem toRecord_charge (x : Bytes × Entry) : (toRecord x).charge = charge x := rfl

/-- `L` lists the map from the entry used last to the one used longest ago. -/
structure Orders (L : List (Bytes × Entry)) (m : Finmap fun _ : Bytes ↦ Entry) : Prop where
  listed : ListedBy m L
  sorted : L.Pairwise fun x y ↦ y.2.lastUse < x.2.lastUse

theorem Orders.dropOldest {L : List (Bytes × Entry)} {x : Bytes × Entry}
    {m : Finmap fun _ : Bytes ↦ Entry} (h : Orders (L ++ [x]) m) :
    Orders L (filter (fun y ↦ !isOldest m y) m) := by
  have hmem : ∀ y, y ∈ L ++ [x] ↔ (⟨y.1, y.2⟩ : Σ _ : Bytes, Entry) ∈ m.entries := by
    intro y
    rw [← Finmap.lookup_eq_some_iff, h.listed.lookup]
  obtain ⟨hsorted, -, hlast⟩ := List.pairwise_append.mp h.sorted
  have hlt : ∀ y ∈ L, x.2.lastUse < y.2.lastUse :=
    fun y hy ↦ hlast y hy x List.mem_cons_self
  have hx : isOldest m x = true := by
    rw [isOldest, decide_eq_true_iff]
    rintro ⟨k, e⟩ hke
    rcases List.mem_append.mp ((hmem (k, e)).mpr hke) with hy | hy
    · exact (hlt _ hy).le
    · rw [List.mem_singleton] at hy
      rw [← hy]
  have hothers : ∀ y ∈ L, isOldest m y = false := by
    intro y hy
    rw [isOldest, decide_eq_false_iff_not]
    intro hall
    have hle := hall _ ((hmem x).mp (List.mem_append_right _ List.mem_cons_self))
    exact absurd (hlt y hy) (Nat.not_lt.mpr hle)
  have hfilter : (L ++ [x]).filter (fun y ↦ !isOldest m y) = L := by
    rw [List.filter_append, List.filter_cons_of_neg (by simp [hx]), List.filter_nil,
      List.append_nil]
    exact List.filter_eq_self.mpr fun y hy ↦ by rw [hothers y hy]; rfl
  exact ⟨hfilter ▸ h.listed.filter _, hsorted⟩

/-- Removing the oldest until the rest fits keeps the longest prefix that fits. -/
theorem Orders.makeRoom (budget : ℕ) : ∀ (fuel : ℕ) {L : List (Bytes × Entry)}
    {m : Finmap fun _ : Bytes ↦ Entry}, Orders L m → L.length ≤ fuel →
    Orders (fitting charge budget L) (makeRoom budget fuel m) := by
  intro fuel
  induction fuel with
  | zero =>
    intro L m h hfuel
    obtain rfl : L = [] := List.length_eq_zero_iff.mp (Nat.le_zero.mp hfuel)
    exact h
  | succ fuel ih =>
    intro L m h hfuel
    rw [Reference.makeRoom, h.listed.weight_eq]
    by_cases hfits : total charge L ≤ budget
    · rw [if_pos hfits, fitting_eq_self charge hfits]
      exact h
    · rw [if_neg hfits]
      rw [Nat.not_le] at hfits
      have hne : L ≠ [] := by
        rintro rfl
        exact absurd hfits (Nat.not_lt_zero _)
      obtain ⟨init, x, rfl⟩ : ∃ init x, L = init ++ [x] :=
        ⟨L.dropLast, L.getLast hne, (List.dropLast_concat_getLast hne).symm⟩
      rw [fitting_dropLast charge hfits, List.dropLast_concat]
      exact ih h.dropOldest (by simpa using hfuel)

theorem Orders.insert {L : List (Bytes × Entry)} {m : Finmap fun _ : Bytes ↦ Entry}
    (h : Orders L m) (key : Bytes) (e : Entry) (hnew : ∀ x ∈ L, x.2.lastUse < e.lastUse) :
    Orders ((key, e) :: without Prod.fst key L) (m.insert key e) where
  listed := h.listed.insert key e
  sorted := by
    refine List.pairwise_cons.mpr ⟨fun y hy ↦ ?_, h.sorted.sublist (without_sublist key L)⟩
    exact hnew y ((without_sublist key L).subset hy)

theorem Orders.erase {L : List (Bytes × Entry)} {m : Finmap fun _ : Bytes ↦ Entry}
    (h : Orders L m) (key : Bytes) : Orders (without Prod.fst key L) (m.erase key) :=
  ⟨h.listed.erase key, h.sorted.sublist (without_sublist key L)⟩

theorem Orders.filter {L : List (Bytes × Entry)} {m : Finmap fun _ : Bytes ↦ Entry}
    (h : Orders L m) (p : Bytes × Entry → Bool) :
    Orders (L.filter p) (FiniteMap.filter p m) :=
  ⟨h.listed.filter p, h.sorted.sublist List.filter_sublist⟩

/-! ## The reference models the cache with deadlines

The numbers in the code and in the reference differ in how they are written, `maxKeyLength` for 250
and so on, and the branches are matched by what they test. -/

/-- The reference `r` and the cache `d` are in the same state. -/
structure Models (r : Reference) (d : DeadlineCache) (L : List (Bytes × Entry)) : Prop where
  orders : Orders L r.entries
  records : d.records = L.map toRecord
  lastUse_le : ∀ x ∈ L, x.2.lastUse ≤ r.clock
  capacity : d.capacity = r.capacity
  now : d.now = r.ticks
  hits : d.hits = r.hits
  misses : d.misses = r.misses
  evictions : d.evictions = r.evictions
  expired : d.expired = r.expired

theorem models_new (capacity : ℕ) : (new capacity).Models (DeadlineCache.new capacity) [] :=
  ⟨⟨ListedBy.empty, List.Pairwise.nil⟩, rfl, by simp, rfl, rfl, rfl, rfl, rfl, rfl⟩

theorem validateKey_cases (key : Bytes) :
    (key.length = 0 ∧ Cache.validateKey key = .invalidKey)
      ∨ (key.length ≠ 0 ∧ key.length > 250 ∧ Cache.validateKey key = .keyTooLarge)
      ∨ (key.length ≠ 0 ∧ ¬key.length > 250 ∧ Cache.validateKey key = .ok) := by
  unfold Cache.validateKey Cache.maxKeyLength
  simp only [ne_eq, List.length_eq_zero_iff]
  by_cases hnil : key = []
  · exact Or.inl ⟨hnil, if_pos hnil⟩
  · rw [if_neg hnil]
    by_cases hlong : key.length > 250
    · exact Or.inr (Or.inl ⟨hnil, hlong, if_pos hlong⟩)
    · exact Or.inr (Or.inr ⟨hnil, hlong, if_neg hlong⟩)

namespace Models

variable {r : Reference} {d : DeadlineCache} {L : List (Bytes × Entry)} (h : r.Models d L)
include h

private theorem report_eq : d.report = r.report := by
  unfold DeadlineCache.report DeadlineCache.usage Reference.report
  rw [h.records, List.length_map, total_map charge toRecord_charge, h.orders.listed.size_eq,
    h.orders.listed.weight_eq, h.hits, h.misses, h.evictions, h.expired]

theorem others_eq (key : Bytes) :
    d.others key = (without Prod.fst key L).map toRecord := by
  rw [DeadlineCache.others, h.records, without_map toRecord_key]

theorem find_eq (key : Bytes) : d.find key = (find Prod.fst key L).map toRecord := by
  rw [DeadlineCache.find, h.records, find_map toRecord_key]

private theorem lastUse_lt {L' : List (Bytes × Entry)} (hsub : L'.Sublist L) :
    ∀ x ∈ L', x.2.lastUse < r.clock + 1 :=
  fun x hx ↦ Nat.lt_succ_of_le (h.lastUse_le x (hsub.subset hx))

theorem set (key value : Bytes) (ttl : Int64) :
    ∃ L', (d.apply (.set key value ttl)).1 = (r.set key value ttl).1
      ∧ (r.set key value ttl).2.Models (d.apply (.set key value ttl)).2 L' := by
  unfold DeadlineCache.apply Reference.set
  dsimp only
  rcases validateKey_cases key with ⟨h₁, hv⟩ | ⟨h₁, h₂, hv⟩ | ⟨h₁, h₂, hv⟩
  · rw [hv, if_pos h₁]
    exact ⟨L, rfl, h⟩
  · rw [hv, if_neg h₁, if_pos h₂]
    exact ⟨L, rfl, h⟩
  rw [hv, if_neg h₁, if_neg h₂, if_neg (not_not.mpr rfl), h.capacity]
  unfold Cache.maxValueLength Cache.entryCharge
  split
  · exact ⟨L, rfl, h⟩
  split
  · exact ⟨L, rfl, h⟩
  split
  · exact ⟨L, rfl, h⟩
  have horders := h.orders.erase key
  have hsub : (fitting charge (r.capacity - (key.length + value.length))
      (without Prod.fst key L)).Sublist L :=
    (fitting_initial charge _ _).sublist.trans (without_sublist key L)
  have hkept := horders.makeRoom (r.capacity - (key.length + value.length))
    (size (r.entries.erase key)) horders.listed.size_eq.ge
  have hinsert := hkept.insert key ⟨value, deadline r.ticks ttl, r.clock + 1⟩
    (h.lastUse_lt hsub)
  have hother : ∀ x ∈ fitting charge (r.capacity - (key.length + value.length))
      (without Prod.fst key L), x.1 ≠ key := fun x hx ↦
    (mem_without.mp ((fitting_initial charge _ _).sublist.subset hx)).2
  rw [without_of_forall_ne hother] at hinsert
  refine ⟨_, rfl, hinsert, ?_, ?_, h.capacity, h.now, h.hits, h.misses, ?_, h.expired⟩
  · show Record.mk key value (deadlineAfter d.now ttl)
        :: fitting Record.charge (d.capacity - (key.length + value.length)) (d.others key) = _
    rw [h.others_eq, fitting_map charge toRecord_charge, List.map_cons, h.now, h.capacity]
    rfl
  · refine List.forall_mem_cons.mpr ⟨le_refl _, fun x hx ↦ ?_⟩
    exact (h.lastUse_le x (hsub.subset hx)).trans (Nat.le_succ _)
  · show d.evictions + (overflow Record.charge _ (d.others key)).length = _
    have hlen := congrArg List.length (fitting_append_overflow charge
      (r.capacity - (key.length + value.length)) (without Prod.fst key L))
    rw [List.length_append] at hlen
    rw [h.others_eq, overflow_map charge toRecord_charge, List.length_map, h.evictions,
      hkept.listed.size_eq, horders.listed.size_eq, h.capacity]
    show _ = r.evictions + _
    omega

theorem get (key output : Bytes) :
    ∃ L', (d.apply (.get key output)).1 = (r.get key output).1
      ∧ (r.get key output).2.Models (d.apply (.get key output)).2 L' := by
  unfold DeadlineCache.apply Reference.get
  dsimp only
  rcases validateKey_cases key with ⟨h₁, hv⟩ | ⟨h₁, h₂, hv⟩ | ⟨h₁, h₂, hv⟩
  · rw [hv, if_pos h₁]
    exact ⟨L, rfl, h⟩
  · rw [hv, if_neg h₁, if_pos h₂]
    exact ⟨L, rfl, h⟩
  rw [hv, if_neg h₁, if_neg h₂, if_neg (not_not.mpr rfl), h.find_eq, h.orders.listed.lookup_eq]
  cases hfind : find Prod.fst key L with
  | none =>
    exact ⟨L, rfl, h.orders, h.records, h.lastUse_le, h.capacity, h.now, h.hits,
      congrArg (· + 1) h.misses, h.evictions, h.expired⟩
  | some x =>
    obtain ⟨k, e⟩ := x
    obtain rfl : k = key := key_of_find hfind
    refine ⟨_, rfl, h.orders.insert _ _ (h.lastUse_lt (List.Sublist.refl L)), ?_, ?_, h.capacity,
      h.now, congrArg (· + 1) h.hits, h.misses, h.evictions, h.expired⟩
    · rw [List.map_cons, ← h.others_eq]
      rfl
    · refine List.forall_mem_cons.mpr ⟨le_refl _, fun x hx ↦ ?_⟩
      exact (h.lastUse_le x ((without_sublist k L).subset hx)).trans (Nat.le_succ _)

theorem erase (key : Bytes) :
    ∃ L', (d.apply (.erase key)).1 = (r.erase key).1
      ∧ (r.erase key).2.Models (d.apply (.erase key)).2 L' := by
  unfold DeadlineCache.apply Reference.erase
  dsimp only
  rcases validateKey_cases key with ⟨h₁, hv⟩ | ⟨h₁, h₂, hv⟩ | ⟨h₁, h₂, hv⟩
  · rw [hv, if_pos h₁]
    exact ⟨L, rfl, h⟩
  · rw [hv, if_neg h₁, if_pos h₂]
    exact ⟨L, rfl, h⟩
  rw [hv, if_neg h₁, if_neg h₂, if_neg (not_not.mpr rfl), h.find_eq, h.orders.listed.lookup_eq]
  cases hfind : find Prod.fst key L with
  | none => exact ⟨L, rfl, h⟩
  | some x =>
    refine ⟨_, rfl, h.orders.erase key, h.others_eq key, fun x hx ↦ ?_, h.capacity, h.now,
      h.hits, h.misses, h.evictions, h.expired⟩
    exact h.lastUse_le x ((without_sublist key L).subset hx)

theorem tick : ∃ L', (d.apply .tick).1 = r.tick.1 ∧ r.tick.2.Models (d.apply .tick).2 L' := by
  have hkept := h.orders.filter fun x ↦ x.2.deadline ≠ some (r.ticks + 1)
  have hdue : ∀ x : Bytes × Entry, DeadlineCache.isDue d.now (toRecord x)
      = !decide (x.2.deadline ≠ some (r.ticks + 1)) := by
    intro x
    rw [DeadlineCache.isDue, h.now, decide_not, Bool.not_not]
    rfl
  refine ⟨_, rfl, hkept, ?_, ?_, h.capacity, congrArg (· + 1) h.now, h.hits, h.misses,
    h.evictions, ?_⟩
  · show d.records.filter _ = _
    rw [h.records, List.filter_map]
    congr 1
    refine List.filter_congr fun x _ ↦ ?_
    rw [Function.comp_apply, hdue, Bool.not_not]
  · exact fun x hx ↦ h.lastUse_le x (List.mem_of_mem_filter hx)
  · show d.expired + d.records.countP _ = r.expired + _
    have hcount : d.records.countP (DeadlineCache.isDue d.now)
        = L.countP fun x ↦ !decide (x.2.deadline ≠ some (r.ticks + 1)) := by
      rw [h.records, List.countP_map]
      refine List.countP_congr fun x _ ↦ ?_
      rw [Function.comp_apply, hdue]
    have hlen : L.length = L.countP (fun x ↦ decide (x.2.deadline ≠ some (r.ticks + 1)))
        + L.countP fun x ↦ !decide (x.2.deadline ≠ some (r.ticks + 1)) := by
      rw [List.length_eq_countP_add_countP fun x ↦ decide (x.2.deadline ≠ some (r.ticks + 1))]
      congr 1
      refine List.countP_congr fun x _ ↦ ?_
      simp
    rw [hcount, h.expired, h.orders.listed.size_eq, hkept.listed.size_eq,
      ← List.countP_eq_length_filter]
    omega

/-- **Each operation of the reference is the operation of the cache.** -/
theorem step (op : Op) :
    ∃ L', (d.apply op).1 = (r.apply op).1 ∧ (r.apply op).2.Models (d.apply op).2 L' := by
  cases op with
  | set key value ttl => exact h.set key value ttl
  | get key output => exact h.get key output
  | erase key => exact h.erase key
  | tick => exact h.tick

end Models

/-! ## Whole runs

The condition on the generations is about the calls still to come, and it is stated in terms of the
reference: how many of its SETs it will accept. So it can be checked without running the cache. -/

/-- The number of SETs among `ops` that were answered with success. -/
def acceptedSets : List Op → List (Answer × Report) → ℕ
  | op :: ops, output :: outputs => accepted op output.1 + acceptedSets ops outputs
  | _, _ => 0

/-- The cache and the reference are in the same state. -/
def Tracks (c : Cache) (r : Reference) : Prop :=
  ∃ a L, c.Simulates a ∧ r.Models a.deadlines L

/-- The calls to come fail nowhere, and there are generations left for the SETs among them. -/
def Affordable (c : Cache) (r : Reference) (calls : List Call) : Prop :=
  (∀ call ∈ calls, call.env.NoFailure)
    ∧ c.generationSource + acceptedSets (calls.map Call.op)
        (Transition.runTotal step r (calls.map Call.op)).1 < Cache.maxGeneration

theorem Tracks.step {c : Cache} {r : Reference} {call : Call} {calls : List Call}
    (h : Tracks c r) (hq : Affordable c r (call :: calls)) :
    ∃ c', c.step call = .ok ((r.step call.op).1, c') ∧ Tracks c' (r.step call.op).2
      ∧ Affordable c' (r.step call.op).2 calls := by
  obtain ⟨a, L, hsim, hmodels⟩ := h
  obtain ⟨hfail, hsets⟩ := hq
  obtain ⟨c', hstep, hsim'⟩ := hsim.step call
  have henv : call.env.NoFailure := hfail call List.mem_cons_self
  have hsource : ∀ {c a}, Cache.Simulates c a → c.generationSource = a.generationSource := by
    rintro c a ⟨-, L, href⟩
    exact href.source
  rw [List.map_cons, Transition.runTotal_cons, acceptedSets, hsource hsim] at hsets
  have hexhausted : a.exhausted = false := by
    rw [ItemCache.exhausted, decide_eq_false_iff_not]
    omega
  -- the answer of the list is the answer of the reference
  obtain ⟨hanswer, hdeadlines⟩ := ItemCache.call_deadlines hsim.1 call
  rw [hexhausted, DeadlineCache.call_of_noFailure _ henv] at hanswer hdeadlines
  obtain ⟨L', happly, hmodels'⟩ := hmodels.step call.op
  rw [← hdeadlines] at hmodels'
  have houtput : (a.step call).1 = (r.step call.op).1 := by
    refine Prod.ext (hanswer.trans happly) ?_
    show (a.call call).2.report = (r.apply call.op).2.report
    rw [← ItemCache.deadlines_report, hmodels'.report_eq]
  refine ⟨c', houtput ▸ hstep, ⟨_, L', hsim', hmodels'⟩, fun call' hmem ↦ ?_, ?_⟩
  · exact hfail call' (List.mem_cons_of_mem _ hmem)
  · have hdraw := a.generationSource_call henv
    rw [hanswer, happly] at hdraw
    rw [hsource hsim', show (a.step call).2.generationSource = (a.call call).2.generationSource
      from rfl, hdraw]
    rw [show (r.step call.op).1.1 = (r.apply call.op).1 from rfl] at hsets
    omega

/-- **The cache is the reference.** Where nothing fails and the generations suffice, every call gets
the answer the reference gives and leaves the statistics the reference has. -/
theorem run_eq_reference (capacity : UInt64) (calls : List Call)
    (hfail : ∀ call ∈ calls, call.env.NoFailure)
    (hsets : acceptedSets (calls.map Call.op)
      (Transition.runTotal step (new capacity.toNat) (calls.map Call.op)).1 < 2 ^ 64 - 1) :
    ∃ c, Transition.run Cache.step (Cache.new capacity.toNat) calls
      = .ok ((Transition.runTotal step (new capacity.toNat) (calls.map Call.op)).1, c) := by
  have htracks : Tracks (Cache.new capacity.toNat) (new capacity.toNat) :=
    ⟨ItemCache.new capacity.toNat, [], Cache.simulates_new capacity.toNat_lt,
      models_new capacity.toNat⟩
  have hafford : Affordable (Cache.new capacity.toNat) (new capacity.toNat) calls :=
    ⟨hfail, by
      rw [show (Cache.new capacity.toNat).generationSource = 0 from rfl, Nat.zero_add]
      exact hsets⟩
  obtain ⟨c, hrun, -⟩ := Transition.run_simulates Cache.step step
    (fun _ _ _ _ hR hQ ↦ Tracks.step hR hQ) calls htracks hafford
  exact ⟨c, hrun⟩

/-- Two SETs and a GET in a cache with room for one of them: the reference evicts the first. -/
theorem run_eq_reference_two_sets :
    ∃ c, Transition.run Cache.step (Cache.new (4 : UInt64).toNat)
      [.set ⟨some 8, fun _ ↦ false⟩ [1] [10, 11] 0, .set ⟨some 16, fun _ ↦ false⟩ [2] [20, 21] 1500,
        .get ⟨some 0, fun _ ↦ false⟩ [1] []]
      = .ok ((Transition.runTotal step (new (4 : UInt64).toNat)
        [.set [1] [10, 11] 0, .set [2] [20, 21] 1500, .get [1] []]).1, c) := by
  refine run_eq_reference 4 _ ?_ ?_
  · intro call hcall
    simp only [List.mem_cons, List.not_mem_nil, or_false] at hcall
    rcases hcall with rfl | rfl | rfl <;> exact ⟨rfl, fun _ ↦ rfl⟩
  · decide

end Reference

end HighCache
