import HighCache.Cache.ItemCache
import HighCache.Lib.FiniteMap

/-!
# The cache refines the list

Every call of `Cache` is the call of `ItemCache` on the list its map and recency list stand for,
with the same answer, the same report and no fault. The bridge is `Cache.Lists c L`: the recency
nodes are the entries of `L` in order, each under the position its entry remembers, and the map
finds exactly the entries of `L`. Each helper of `cache.cpp` gets one lemma saying what it does to
`L`; the calls are then assembled from these.

A helper changes few fields of the cache. Its lemma says so by writing the result as an update of
the cache it started from, with the new map and recency list left implicit.
-/

namespace HighCache

open KeyedList

/-- The charge of a map element. -/
def storedCharge (x : Bytes × StoredEntry) : ℕ := Cache.entryCharge x.1 x.2.entry.value

/-- A map element as an item. -/
def toItem (x : Bytes × StoredEntry) : Item :=
  ⟨x.1, x.2.entry.value, x.2.entry.data, x.2.generation⟩

@[simp] theorem toItem_key (x : Bytes × StoredEntry) : (toItem x).key = x.1 := rfl

@[simp] theorem toItem_charge (x : Bytes × StoredEntry) : (toItem x).charge = storedCharge x := rfl

namespace Cache

/-- `L` lists the entries of the cache in order of use. -/
structure Lists (c : Cache) (L : List (Bytes × StoredEntry)) : Prop
    extends FiniteMap.ListedBy c.entries L where
  /-- The recency list is `L`, each key in the node its entry remembers. -/
  nodes : c.recency.nodes = L.map fun x ↦ (x.2.recencyPosition, x.1)

namespace Lists

variable {c : Cache} {L : List (Bytes × StoredEntry)} (h : c.Lists L)
include h

theorem position_mem {k : Bytes} {s : StoredEntry} (hs : (k, s) ∈ L) :
    (s.recencyPosition, k) ∈ c.recency.nodes := by
  rw [h.nodes]
  exact List.mem_map.mpr ⟨(k, s), hs, rfl⟩

/-- Taking the node of an entry out of the recency list takes its key out of `L`. -/
private theorem nodes_filter {k : Bytes} {s : StoredEntry} (hs : (k, s) ∈ L) :
    (c.recency.nodes.filter fun n ↦ n.1 ≠ s.recencyPosition)
      = (KeyedList.without Prod.fst k L).map fun x ↦ (x.2.recencyPosition, x.1) := by
  rw [h.nodes, List.filter_map, KeyedList.without]
  congr 1
  refine List.filter_congr fun x hx ↦ ?_
  -- within `L`, the position identifies the key and the key the element
  have hiff : x.2.recencyPosition = s.recencyPosition ↔ x.1 = k := by
    constructor
    · intro hpos
      have hmem := h.position_mem (k := x.1) (s := x.2) hx
      rw [hpos] at hmem
      exact NodeList.eq_of_mem hmem (h.position_mem hs)
    · intro hkey
      rw [List.inj_on_of_nodup_map h.nodup hx hs hkey]
  simp only [Function.comp_apply, ne_eq, hiff]

end Lists

/-- Only the map and the recency list matter. -/
theorem Lists.of_eq {c c' : Cache} {L : List (Bytes × StoredEntry)} (h : c.Lists L)
    (hrecency : c'.recency = c.recency) (hentries : c'.entries = c.entries) : c'.Lists L :=
  ⟨hentries ▸ h.toListedBy, hrecency ▸ h.nodes⟩

/-! ## The helpers -/

theorem Lists.markMru {c : Cache} {L : List (Bytes × StoredEntry)} (h : c.Lists L) {k : Bytes}
    {s : StoredEntry} (hs : (k, s) ∈ L) :
    ∃ c', c.markMru k = .ok c' ∧ c'.Lists ((k, s) :: KeyedList.without Prod.fst k L)
      ∧ c' = { c with recency := c'.recency, entries := c'.entries } := by
  have hlookup : c.entries.lookup k = some s := (h.lookup k s).mpr hs
  obtain ⟨recency, hsplice, hnodes⟩ := NodeList.spliceFront_eq (h.position_mem hs)
  have hbegin : recency.begin? = some s.recencyPosition := by
    rw [NodeList.begin?, hnodes]
    rfl
  refine ⟨{ c with recency := recency, entries := c.entries.insert k s }, ?_, ?_, rfl⟩
  · rw [Cache.markMru, hlookup]
    simp only [hsplice, Except.ok_bind_eq, hbegin]
  · refine ⟨h.toListedBy.insert k s, ?_⟩
    rw [List.map_cons, ← h.nodes_filter hs]
    exact hnodes

theorem Lists.removeEntry {c : Cache} {L : List (Bytes × StoredEntry)} (h : c.Lists L)
    {k : Bytes} {s : StoredEntry} (hs : (k, s) ∈ L)
    (hcharge : storedCharge (k, s) ≤ c.memoryUsageBytes) :
    ∃ c', c.removeEntry k = .ok c' ∧ c'.Lists (KeyedList.without Prod.fst k L)
      ∧ c' = { c with
          memoryUsageBytes := c.memoryUsageBytes - storedCharge (k, s)
          recency := c'.recency
          entries := c'.entries
          calls := c.calls ++ [(toItem (k, s)).release] } := by
  have hlookup : c.entries.lookup k = some s := (h.lookup k s).mpr hs
  refine ⟨destroyEntry s.entry { c with
    memoryUsageBytes := c.memoryUsageBytes - storedCharge (k, s)
    recency := c.recency.without s.recencyPosition
    entries := c.entries.erase k }, ?_, ?_, rfl⟩
  · rw [Cache.removeEntry, hlookup]
    simp only [Checked.sub_eq hcharge, NodeList.erase_eq (h.position_mem hs), Except.ok_bind_eq,
      show entryCharge k s.entry.value = storedCharge (k, s) from rfl]
  · exact ⟨h.toListedBy.erase k, h.nodes_filter hs⟩

theorem Lists.evictLru {c : Cache} {L : List (Bytes × StoredEntry)} {x : Bytes × StoredEntry}
    (h : c.Lists (L ++ [x])) (hcharge : storedCharge x ≤ c.memoryUsageBytes) :
    ∃ c', c.evictLru = .ok c' ∧ c'.Lists L
      ∧ c' = { c with
          memoryUsageBytes := c.memoryUsageBytes - storedCharge x
          evictionCount := c.evictionCount + 1
          recency := c'.recency
          entries := c'.entries
          calls := c.calls ++ [(toItem x).release] } := by
  obtain ⟨k, s⟩ := x
  have hmem : (k, s) ∈ L ++ [(k, s)] := List.mem_append_right _ List.mem_cons_self
  have hback : c.recency.back? = some k := by
    rw [NodeList.back?, h.nodes, List.map_append, List.map_singleton, List.getLast?_concat]
    rfl
  obtain ⟨c', hremove, hlists, heq⟩ := h.removeEntry hmem hcharge
  rw [without_getLast h.nodup] at hlists
  refine ⟨{ c' with evictionCount := c'.evictionCount + 1 }, ?_, hlists.of_eq rfl rfl, ?_⟩
  · rw [Cache.evictLru, hback]
    simp only [(h.lookup k s).mpr hmem, hremove, Except.ok_bind_eq]
  · rw [heq]

private theorem evictWhile_of_not_overfull {oldCharge newCharge : ℕ} {c : Cache}
    (h : c.overfull oldCharge newCharge = .ok false) (fuel : ℕ) :
    c.evictWhile oldCharge newCharge fuel = .ok c := by
  cases fuel <;> rw [Cache.evictWhile, h] <;> rfl

/-- The eviction loops keep what comes before `rest` and the longest prefix of `rest` that fits. -/
theorem Lists.evictWhile {oldCharge newCharge : ℕ} {before : List (Bytes × StoredEntry)} :
    ∀ (fuel : ℕ) {c : Cache} {rest : List (Bytes × StoredEntry)}, c.Lists (before ++ rest) →
      c.memoryUsageBytes = oldCharge + total storedCharge rest →
      oldCharge = total storedCharge before → newCharge ≤ c.capacityBytes → rest.length ≤ fuel →
      ∃ c', c.evictWhile oldCharge newCharge fuel = .ok c'
        ∧ c'.Lists (before ++ fitting storedCharge (c.capacityBytes - newCharge) rest)
        ∧ c' = { c with
            memoryUsageBytes := oldCharge
              + total storedCharge (fitting storedCharge (c.capacityBytes - newCharge) rest)
            evictionCount := c.evictionCount
              + (overflow storedCharge (c.capacityBytes - newCharge) rest).length
            recency := c'.recency
            entries := c'.entries
            calls := c.calls
              ++ (overflow storedCharge (c.capacityBytes - newCharge) rest).reverse.map
                fun x ↦ (toItem x).release } := by
  intro fuel
  induction fuel with
  | zero =>
    intro c rest h hmem hold hnew hfuel
    obtain rfl : rest = [] := List.length_eq_zero_iff.mp (Nat.le_zero.mp hfuel)
    refine ⟨c, evictWhile_of_not_overfull ?_ 0, h, ?_⟩
    · rw [overfull, hmem, Checked.sub_eq (Nat.le_add_right _ _), Checked.sub_eq hnew]
      simp
    · rw [overflow_eq_nil storedCharge (Nat.zero_le _), fitting, ← hmem]
      simp
  | succ fuel ih =>
    intro c rest h hmem hold hnew hfuel
    have hover : c.overfull oldCharge newCharge
        = .ok (decide (total storedCharge rest > c.capacityBytes - newCharge)) := by
      rw [overfull, hmem, Checked.sub_eq (Nat.le_add_right _ _), Checked.sub_eq hnew,
        Nat.add_sub_cancel_left]
      rfl
    by_cases hfits : total storedCharge rest ≤ c.capacityBytes - newCharge
    · rw [decide_eq_false (Nat.not_lt.mpr hfits)] at hover
      refine ⟨c, evictWhile_of_not_overfull hover _, ?_, ?_⟩
      · rw [fitting_eq_self storedCharge hfits]
        exact h
      · rw [fitting_eq_self storedCharge hfits, overflow_eq_nil storedCharge hfits, ← hmem]
        simp
    · rw [Nat.not_le] at hfits
      -- over budget, so there is a last entry to evict
      have hne : rest ≠ [] := by
        rintro rfl
        exact absurd hfits (Nat.not_lt_zero _)
      obtain ⟨init, x, rfl⟩ : ∃ init x, rest = init ++ [x] :=
        ⟨rest.dropLast, rest.getLast hne, (List.dropLast_concat_getLast hne).symm⟩
      rw [← List.append_assoc] at h
      have htotal : total storedCharge (init ++ [x])
          = total storedCharge init + storedCharge x := by simp
      obtain ⟨c₁, hevict, hlists, heq⟩ := h.evictLru (by rw [hmem, htotal]; omega)
      have hcap : c₁.capacityBytes = c.capacityBytes := by rw [heq]
      obtain ⟨c₂, hloop, hlists₂, heq₂⟩ := ih hlists (by rw [heq, hmem, htotal]; simp; omega) hold
        (hcap ▸ hnew) (by simpa using hfuel)
      rw [hcap] at hlists₂ heq₂
      have hfit : fitting storedCharge (c.capacityBytes - newCharge) (init ++ [x])
          = fitting storedCharge (c.capacityBytes - newCharge) init := by
        rw [fitting_dropLast storedCharge hfits, List.dropLast_concat]
      refine ⟨c₂, ?_, ?_, ?_⟩
      · rw [Cache.evictWhile, hover, decide_eq_true hfits]
        simp only [Except.ok_bind_eq, if_true, hevict, hloop]
      · rw [hfit]
        exact hlists₂
      · rw [hfit, overflow_append_singleton storedCharge hfits]
        rw [heq₂, heq]
        simp [Nat.add_assoc, Nat.add_comm 1]

/-! ## The refinement

`L` is the list the two states have in common: the entries of the map in the order of the recency
list, with their iterators. Every operation gives the next `L` explicitly, and the list of items is
`L` without the iterators. -/

/-- The cache `c`, whose entries in order of use are `L`, is the list cache `a`. -/
structure Refines (c : Cache) (L : List (Bytes × StoredEntry)) (a : ItemCache) : Prop where
  lists : c.Lists L
  items : a.items = L.map toItem
  capacity : c.capacityBytes = a.capacity
  usage : c.memoryUsageBytes = a.usage
  hits : c.hitCount = a.hits
  misses : c.missCount = a.misses
  evictions : c.evictionCount = a.evictions
  expired : c.expiredCount = a.expired
  source : c.generationSource = a.generationSource
  wheel : c.timingWheel.Represents a.timers
  calls : c.calls = a.calls

theorem refines_new (capacity : ℕ) : (new capacity).Refines [] (ItemCache.new capacity) where
  lists := ⟨FiniteMap.ListedBy.empty, rfl⟩
  items := rfl
  capacity := rfl
  usage := rfl
  hits := rfl
  misses := rfl
  evictions := rfl
  expired := rfl
  source := rfl
  wheel := TimingWheel.represents_empty
  calls := rfl

theorem Lists.size {c : Cache} {L : List (Bytes × StoredEntry)} (h : c.Lists L) :
    c.size = L.length := by
  rw [Cache.size, h.toListedBy.keys_eq, List.toFinset_card_of_nodup h.nodup, List.length_map]

namespace Refines

variable {c : Cache} {L : List (Bytes × StoredEntry)} {a : ItemCache} (h : c.Refines L a)
include h

theorem report : c.report = a.report := by
  rw [Cache.report, ItemCache.report, h.lists.size, h.usage, h.hits, h.misses, h.evictions,
    h.expired, h.items, List.length_map]

theorem total_eq : c.memoryUsageBytes = total storedCharge L := by
  rw [h.usage, ItemCache.usage, h.items, total_map storedCharge toItem_charge]

theorem find_eq (k : Bytes) : a.find k = (KeyedList.find Prod.fst k L).map toItem := by
  rw [ItemCache.find, h.items, find_map toItem_key]

theorem others_eq (k : Bytes) : a.others k = (KeyedList.without Prod.fst k L).map toItem := by
  rw [ItemCache.others, h.items, without_map toItem_key]

theorem mem_items {k : Bytes} {s : StoredEntry} (hs : c.entries.lookup k = some s) :
    toItem (k, s) ∈ a.items := by
  rw [h.items]
  exact List.mem_map_of_mem ((h.lists.lookup k s).mp hs)

theorem lookup_cases (k : Bytes) :
    (c.entries.lookup k = none ∧ a.find k = none ∧ ∀ x ∈ L, x.1 ≠ k)
      ∨ ∃ s, (k, s) ∈ L ∧ c.entries.lookup k = some s ∧ a.find k = some (toItem (k, s)) := by
  cases hfind : KeyedList.find Prod.fst k L with
  | none =>
    refine Or.inl ⟨?_, ?_, find_eq_none.mp hfind⟩
    · rw [h.lists.toListedBy.lookup_eq, hfind, Option.map_none]
    · rw [h.find_eq, hfind, Option.map_none]
  | some x =>
    obtain ⟨k', s⟩ := x
    obtain rfl : k' = k := key_of_find hfind
    refine Or.inr ⟨s, mem_of_find hfind, ?_, ?_⟩
    · rw [h.lists.toListedBy.lookup_eq, hfind, Option.map_some]
    · rw [h.find_eq, hfind, Option.map_some]

/-! ### The helpers, one by one -/

theorem prepareEntry (env : Env) (key value : Bytes) (ttl : Int64) :
    ∃ c', c.prepareEntry env key value ttl
        = .ok ((a.prepare env key value ttl).1.map fun item ↦
            (⟨item.data, item.value⟩, item.generation), c')
      ∧ c'.Refines L (a.prepare env key value ttl).2 := by
  unfold Cache.prepareEntry Cache.newEntry ItemCache.prepare
  cases env.allocation with
  | none => exact ⟨c, rfl, h⟩
  | some pointer =>
    dsimp only
    rw [nextGeneration]
    by_cases hsource : a.generationSource = maxGeneration
    · rw [if_pos hsource, if_pos (h.source.trans hsource)]
      refine ⟨_, rfl, h.lists.of_eq rfl rfl, h.items, h.capacity, h.usage, h.hits, h.misses,
        h.evictions, h.expired, h.source, h.wheel, ?_⟩
      rw [destroyEntry, ItemCache.release, h.calls]
      rfl
    · rw [if_neg hsource, if_neg (fun hc ↦ hsource (h.source.symm.trans hc))]
      dsimp only
      rw [scheduleTimer]
      by_cases httl : 0 < ttl
      · rw [if_pos httl, if_pos httl]
        by_cases hthrow : (env.throws .timerKey || env.throws .timerEvent) = true
        · rw [if_pos hthrow, if_pos hthrow]
          refine ⟨_, rfl, h.lists.of_eq rfl rfl, h.items, h.capacity, h.usage, h.hits, h.misses,
            h.evictions, h.expired, congrArg (· + 1) h.source, h.wheel, ?_⟩
          rw [destroyEntry, ItemCache.release, h.calls]
          rfl
        · rw [if_neg hthrow, if_neg hthrow]
          obtain ⟨w, hschedule, hrep⟩ := h.wheel.schedule key (a.generationSource + 1) httl
          dsimp only
          rw [h.source, hschedule]
          refine ⟨_, rfl, h.lists.of_eq rfl rfl, h.items, h.capacity, h.usage, h.hits, h.misses,
            h.evictions, h.expired, rfl, hrep, ?_⟩
          rw [h.calls]
      · rw [if_neg httl, if_neg httl]
        refine ⟨{ c with
            generationSource := c.generationSource + 1
            calls := c.calls ++ [.allocate value.length pointer] }, ?_, h.lists.of_eq rfl rfl,
          h.items, h.capacity, h.usage, h.hits, h.misses, h.evictions, h.expired,
          congrArg (· + 1) h.source, h.wheel, ?_⟩
        · simp only [Except.ok_bind_eq, h.source]
          rfl
        · exact congrArg (· ++ [AllocatorCall.allocate value.length pointer]) h.calls

theorem markMru {k : Bytes} {s : StoredEntry} (hs : (k, s) ∈ L) :
    ∃ c', c.markMru k = .ok c' ∧ c'.Refines ((k, s) :: KeyedList.without Prod.fst k L)
      { a with items := toItem (k, s) :: a.others k } := by
  obtain ⟨c', hmark, hlists, heq⟩ := h.lists.markMru hs
  have husage : c'.memoryUsageBytes = total Item.charge (toItem (k, s) :: a.others k) := by
    rw [heq, total_cons, toItem_charge, h.others_eq, total_map storedCharge toItem_charge,
      total_without storedCharge h.lists.nodup hs]
    exact h.total_eq
  refine ⟨c', hmark, hlists, ?_, ?_, husage, ?_, ?_, ?_, ?_, ?_, ?_, ?_⟩
  · rw [h.others_eq, List.map_cons]
  all_goals rw [heq]
  · exact h.capacity
  · exact h.hits
  · exact h.misses
  · exact h.evictions
  · exact h.expired
  · exact h.source
  · exact h.wheel
  · exact h.calls

theorem removeEntry {k : Bytes} {s : StoredEntry} (hs : (k, s) ∈ L) :
    ∃ c', c.removeEntry k = .ok c' ∧ c'.Refines (KeyedList.without Prod.fst k L)
      (ItemCache.release [toItem (k, s)] { a with items := a.others k }) := by
  have htotal := total_without storedCharge h.lists.nodup hs
  obtain ⟨c', hremove, hlists, heq⟩ := h.lists.removeEntry hs (by rw [h.total_eq]; omega)
  have husage : c'.memoryUsageBytes = total Item.charge (a.others k) := by
    rw [heq, h.others_eq, total_map storedCharge toItem_charge, h.total_eq]
    exact Nat.sub_eq_of_eq_add (by rw [← htotal, Nat.add_comm])
  refine ⟨c', hremove, hlists, ?_, ?_, husage, ?_, ?_, ?_, ?_, ?_, ?_, ?_⟩
  · exact h.others_eq k
  all_goals rw [heq]
  · exact h.capacity
  · exact h.hits
  · exact h.misses
  · exact h.evictions
  · exact h.expired
  · exact h.source
  · exact h.wheel
  · exact congrArg (· ++ [(toItem (k, s)).release]) h.calls

omit h in
theorem evictWhile (before : List (Bytes × StoredEntry)) {rest : List (Bytes × StoredEntry)}
    (h : c.Refines (before ++ rest) a) {newCharge : ℕ} (hnew : newCharge ≤ a.capacity) :
    ∃ c', c.evictWhile (total storedCharge before) newCharge c.recency.nodes.length = .ok c'
      ∧ c'.Refines (before ++ fitting storedCharge (a.capacity - newCharge) rest)
        { a.makeRoom newCharge (rest.map toItem) with
          items := before.map toItem ++ (a.makeRoom newCharge (rest.map toItem)).items } := by
  have hfuel : rest.length ≤ c.recency.nodes.length := by
    rw [h.lists.nodes, List.length_map, List.length_append]
    exact Nat.le_add_left _ _
  have hmem : c.memoryUsageBytes = total storedCharge before + total storedCharge rest := by
    rw [h.total_eq, total_append]
  obtain ⟨c', hloop, hlists, heq⟩ :=
    Lists.evictWhile _ h.lists hmem rfl (h.capacity ▸ hnew) hfuel
  rw [h.capacity] at hlists heq
  have hitems : (a.makeRoom newCharge (rest.map toItem)).items
      = (fitting storedCharge (a.capacity - newCharge) rest).map toItem :=
    fitting_map storedCharge toItem_charge rest _
  have husage : c'.memoryUsageBytes = total Item.charge
      (before.map toItem ++ (a.makeRoom newCharge (rest.map toItem)).items) := by
    rw [hitems, total_append, total_map storedCharge toItem_charge,
      total_map storedCharge toItem_charge, heq]
  refine ⟨c', hloop, hlists, ?_, ?_, husage, ?_, ?_, ?_, ?_, ?_, ?_, ?_⟩
  · rw [hitems, List.map_append]
  all_goals rw [heq]
  · rfl
  · exact h.hits
  · exact h.misses
  · show c.evictionCount + _ = a.evictions + _
    rw [overflow_map storedCharge toItem_charge, List.length_map, h.evictions]
  · exact h.expired
  · exact h.source
  · exact h.wheel
  · show c.calls ++ _ = a.calls ++ _
    rw [overflow_map storedCharge toItem_charge, h.calls, ← List.map_reverse, List.map_map]
    rfl

/-! ### Setting

Both paths prepare an item, make room and write. Overwriting makes room while the entry is already
in front, where the loop must not evict it; inserting makes room first and puts the item in front
then. -/

omit h in
/-- The last statements of an overwriting `set`: a new value and generation for the first entry. -/
theorem replaceFront {k : Bytes} {s : StoredEntry} {rest : List (Bytes × StoredEntry)}
    (items : List Item) (h : c.Refines ((k, s) :: rest) { a with items := toItem (k, s) :: items })
    {item : Item} (hkey : item.key = k) :
    (destroyEntry s.entry { c with
      memoryUsageBytes := total storedCharge rest + item.charge
      entries := c.entries.insert k
        { s with entry := ⟨item.data, item.value⟩, generation := item.generation } }).Refines
      ((k, { s with entry := ⟨item.data, item.value⟩, generation := item.generation }) :: rest)
      (ItemCache.release [toItem (k, s)] { a with items := item :: items }) := by
  have hrest : items = rest.map toItem := (List.cons.inj h.items).2
  have hne : ∀ x ∈ rest, x.1 ≠ k := fun x hx hxk ↦
    (List.nodup_cons.mp h.lists.nodup).1 (List.mem_map.mpr ⟨x, hx, hxk⟩)
  have hlisted := h.lists.toListedBy.insert k
    { s with entry := ⟨item.data, item.value⟩, generation := item.generation }
  have htail : KeyedList.without Prod.fst k ((k, s) :: rest) = rest :=
    (without_cons_self (k, s) rest).trans (without_of_forall_ne hne)
  rw [htail] at hlisted
  refine ⟨⟨hlisted, h.lists.nodes⟩, ?_, h.capacity, ?_, h.hits, h.misses, h.evictions,
    h.expired, h.source, h.wheel, ?_⟩
  · rw [List.map_cons, ← hrest]
    subst hkey
    rfl
  · show total storedCharge rest + item.charge = total Item.charge (item :: items)
    rw [total_cons, hrest, total_map storedCharge toItem_charge, Nat.add_comm]
  · exact congrArg (· ++ [(toItem (k, s)).release]) h.calls

/-- `set` of a present key is `set` of a present key on the list. -/
theorem overwrite (hwf : a.WellFormed) (env : Env) {key value : Bytes} (ttl : Int64)
    {s : StoredEntry} (hs : (key, s) ∈ L) (hcharge : entryCharge key value ≤ a.capacity) :
    ∃ c' L', c.overwrite env key value ttl s
        = .ok ((a.overwrite env key value ttl (toItem (key, s))).1, c')
      ∧ c'.Refines L' (a.overwrite env key value ttl (toItem (key, s))).2 := by
  have hp := ItemCache.prepare_spec env key value ttl hwf
  obtain ⟨c₁, hprep, h₁⟩ := h.prepareEntry env key value ttl
  unfold Cache.overwrite ItemCache.overwrite
  rw [hprep]
  cases hr : a.prepare env key value ttl with
  | mk r b =>
    rw [hr] at h₁ hp
    cases r with
    | error exception => exact ⟨c₁, L, rfl, h₁⟩
    | ok item =>
      have hitem : item.charge = entryCharge key value := by
        rw [Item.charge, hp.item_key item rfl, hp.item_value item rfl]
      have hbcap : b.capacity = a.capacity := hp.capacity
      have hnew : item.charge ≤ b.capacity := by
        rw [hitem, hbcap]
        exact hcharge
      obtain ⟨c₂, hmark, h₂⟩ := h₁.markMru hs
      -- the loop runs behind the entry that was just brought to the front
      obtain ⟨c₃, hloop, h₃⟩ := Refines.evictWhile [(key, s)] h₂ hnew
      have hlookup : c₃.entries.lookup key = some s :=
        (h₃.lists.lookup key s).mpr List.mem_cons_self
      have hmem : c₃.memoryUsageBytes = entryCharge key s.entry.value
          + total storedCharge (fitting storedCharge (b.capacity - item.charge)
            (KeyedList.without Prod.fst key L)) := h₃.total_eq.trans (total_cons _ _ _)
      have hfit := total_fitting_le storedCharge (KeyedList.without Prod.fst key L)
        (b.capacity - item.charge)
      have hword := hwf.capacity_lt
      have hothers : (KeyedList.without Prod.fst key L).map toItem = b.others key :=
        (h₁.others_eq key).symm
      refine ⟨_, _, ?_, replaceFront (a := b.makeRoom item.charge (b.others key))
        (b.makeRoom item.charge (b.others key)).items (hothers ▸ h₃) (hp.item_key item rfl)⟩
      have hloop' : c₂.evictWhile (entryCharge key s.entry.value) (entryCharge key value)
          c₂.recency.nodes.length = .ok c₃ := by
        rw [← hitem]
        exact hloop
      have hsub : Checked.sub c₃.memoryUsageBytes (entryCharge key s.entry.value)
          = .ok (total storedCharge (fitting storedCharge (b.capacity - item.charge)
              (KeyedList.without Prod.fst key L))) := by
        rw [hmem, Checked.sub_eq (Nat.le_add_right _ _), Nat.add_sub_cancel_left]
      have hadd : Checked.add (total storedCharge (fitting storedCharge (b.capacity - item.charge)
          (KeyedList.without Prod.fst key L))) (entryCharge key value)
          = .ok (total storedCharge (fitting storedCharge (b.capacity - item.charge)
              (KeyedList.without Prod.fst key L)) + item.charge) := by
        rw [hitem] at hfit ⊢
        exact Checked.add_eq (by omega)
      simp only [Except.map, Except.ok_bind_eq, hmark, hloop', hlookup, hsub, hadd]
      rfl

/-- The last statements of an inserting `set`: a node in front and an element in the map. -/
theorem insertFront {item : Item} (hkey : ∀ x ∈ L, x.1 ≠ item.key) :
    ({ c with
      memoryUsageBytes := c.memoryUsageBytes + item.charge
      recency := c.recency.pushFront item.key
      entries := c.entries.insert item.key
        ⟨⟨item.data, item.value⟩, c.recency.next, item.generation⟩ } : Cache).Refines
      ((item.key, ⟨⟨item.data, item.value⟩, c.recency.next, item.generation⟩) :: L)
      { a with items := item :: a.items } := by
  have hlisted := h.lists.toListedBy.insert item.key
    ⟨⟨item.data, item.value⟩, c.recency.next, item.generation⟩
  rw [without_of_forall_ne hkey] at hlisted
  refine ⟨⟨hlisted, ?_⟩, ?_, h.capacity, ?_, h.hits, h.misses, h.evictions, h.expired, h.source,
    h.wheel, h.calls⟩
  · rw [NodeList.pushFront_nodes, h.lists.nodes, List.map_cons]
  · rw [List.map_cons, ← h.items]
    rfl
  · show c.memoryUsageBytes + item.charge = total Item.charge (item :: a.items)
    rw [total_cons, h.usage, ItemCache.usage, Nat.add_comm]

/-- Giving the block of an item back that never became an entry. -/
theorem release (item : Item) :
    (c.destroyEntry ⟨item.data, item.value⟩).Refines L (a.release [item]) :=
  ⟨h.lists.of_eq rfl rfl, h.items, h.capacity, h.usage, h.hits, h.misses, h.evictions, h.expired,
    h.source, h.wheel, congrArg (· ++ [item.release]) h.calls⟩

/-- `set` of an absent key is `set` of an absent key on the list. -/
theorem insertNew (hwf : a.WellFormed) (env : Env) {key value : Bytes} (ttl : Int64)
    (habsent : ∀ x ∈ L, x.1 ≠ key) (hcharge : entryCharge key value ≤ a.capacity) :
    ∃ c' L', c.insertNew env key value ttl = .ok ((a.insertNew env key value ttl).1, c')
      ∧ c'.Refines L' (a.insertNew env key value ttl).2 := by
  unfold Cache.insertNew ItemCache.insertNew
  by_cases hcopies : (env.throws .mapKey || env.throws .recencyKey) = true
  · rw [if_pos hcopies, if_pos hcopies]
    exact ⟨c, L, rfl, h⟩
  rw [if_neg hcopies, if_neg hcopies]
  have hp := ItemCache.prepare_spec env key value ttl hwf
  obtain ⟨c₁, hprep, h₁⟩ := h.prepareEntry env key value ttl
  rw [hprep]
  cases hr : a.prepare env key value ttl with
  | mk r b =>
    rw [hr] at h₁ hp
    cases r with
    | error exception => exact ⟨c₁, L, rfl, h₁⟩
    | ok item =>
      have hkey : item.key = key := hp.item_key item rfl
      have hitem : item.charge = entryCharge key value := by
        rw [Item.charge, hkey, hp.item_value item rfl]
      have hbcap : b.capacity = a.capacity := hp.capacity
      have hword := hwf.capacity_lt
      have hfit := total_fitting_le storedCharge L (b.capacity - item.charge)
      have hnew : item.charge ≤ b.capacity := by
        rw [hitem, hbcap]
        exact hcharge
      -- the loop leaves the entries that fit beside the new one
      obtain ⟨c₂, hloop, h₂⟩ := evictWhile [] h₁ hnew
      rw [List.nil_append, List.map_nil, List.nil_append, ← h₁.items] at h₂
      have hloop' : c₁.evictWhile 0 (entryCharge key value) c₁.recency.nodes.length = .ok c₂ := by
        rw [← hitem]
        exact hloop
      have hfresh : ∀ x ∈ fitting storedCharge (b.capacity - item.charge) L, x.1 ≠ item.key := by
        intro x hx
        rw [hkey]
        exact habsent x ((fitting_initial storedCharge L _).sublist.subset hx)
      -- so `emplace` inserts, and the assertion after it holds
      have hnone : (c₂.entries.lookup key).isNone = true := by
        rw [Option.isNone_iff_eq_none, Option.eq_none_iff_forall_ne_some]
        intro s hs
        exact hfresh _ ((h₂.lists.lookup key s).mp hs) hkey.symm
      have hadd : Checked.add c₂.memoryUsageBytes (entryCharge key value)
          = .ok (c₂.memoryUsageBytes + item.charge) := by
        rw [← hitem]
        refine Checked.add_eq ?_
        have := h₂.total_eq
        dsimp only at this
        omega
      simp only [Except.map, Except.ok_bind_eq, hloop']
      cases hnode : env.throws .recencyNode with
      | true => exact ⟨_, _, rfl, h₂.release item⟩
      | false =>
        cases hmap : env.throws .mapNode with
        | true =>
          -- the node that was pushed is taken off again
          obtain ⟨recency, hpop, hnodes⟩ := NodeList.popFront_pushFront key c₂.recency
          have h₃ : ({ c₂ with recency := recency } : Cache).Refines
              (fitting storedCharge (b.capacity - item.charge) L)
              (b.makeRoom item.charge b.items) :=
            ⟨⟨h₂.lists.toListedBy, hnodes.trans h₂.lists.nodes⟩, h₂.items,
              h₂.capacity, h₂.usage, h₂.hits, h₂.misses, h₂.evictions, h₂.expired, h₂.source,
              h₂.wheel, h₂.calls⟩
          refine ⟨_, _, ?_, h₃.release item⟩
          simp only [Bool.false_eq_true, if_false, if_true, hpop, Except.ok_bind_eq,
            Bool.or_true]
        | false =>
          refine ⟨_, _, ?_, h₂.insertFront hfresh⟩
          simp only [Bool.false_eq_true, if_false, NodeList.begin?_pushFront,
            Checked.assert_eq hnone, hadd, Except.ok_bind_eq, hkey, Bool.or_self]

/-- **`set` refines `set` on the list.** -/
theorem set (hwf : a.WellFormed) (env : Env) (key value : Bytes) (ttl : Int64) :
    ∃ c' L', c.set env key value ttl = .ok ((a.set env key value ttl).1, c')
      ∧ c'.Refines L' (a.set env key value ttl).2 := by
  unfold Cache.set ItemCache.set
  rw [h.capacity]
  split
  · exact ⟨c, L, rfl, h⟩
  split
  · exact ⟨c, L, rfl, h⟩
  split
  · exact ⟨c, L, rfl, h⟩
  split
  · exact ⟨c, L, rfl, h⟩
  rename_i hcharge
  split
  · exact ⟨c, L, rfl, h⟩
  rcases h.lookup_cases key with ⟨hlookup, hfind, habsent⟩ | ⟨s, hs, hlookup, hfind⟩
  · rw [hlookup, hfind]
    exact h.insertNew hwf env ttl habsent (Nat.not_lt.mp hcharge)
  · rw [hlookup, hfind]
    exact h.overwrite hwf env ttl hs (Nat.not_lt.mp hcharge)

/-! ### The other operations -/

/-- **`get` refines `get` on the list.** -/
theorem get (env : Env) (key output : Bytes) :
    ∃ c' L', c.get env key output = .ok ((a.get env key output).1, c')
      ∧ c'.Refines L' (a.get env key output).2 := by
  unfold Cache.get ItemCache.get
  split
  · exact ⟨c, L, rfl, h⟩
  split
  · exact ⟨c, L, rfl, h⟩
  rcases h.lookup_cases key with ⟨hlookup, hfind, -⟩ | ⟨s, hs, hlookup, hfind⟩
  · rw [hlookup, hfind]
    exact ⟨_, L, rfl, h.lists.of_eq rfl rfl, h.items, h.capacity, h.usage, h.hits,
      congrArg (· + 1) h.misses, h.evictions, h.expired, h.source, h.wheel, h.calls⟩
  · rw [hlookup, hfind]
    obtain ⟨c', hmark, h'⟩ := h.markMru hs
    dsimp only
    rw [hmark, show (toItem (key, s)).value = s.entry.value from rfl]
    split
    · exact ⟨c, L, rfl, h⟩
    · exact ⟨_, _, rfl, h'.lists.of_eq rfl rfl, h'.items, h'.capacity, h'.usage,
        congrArg (· + 1) h'.hits, h'.misses, h'.evictions, h'.expired, h'.source, h'.wheel,
        h'.calls⟩

/-- **`erase` refines `erase` on the list.** -/
theorem erase (env : Env) (key : Bytes) :
    ∃ c' L', c.erase env key = .ok ((a.erase env key).1, c')
      ∧ c'.Refines L' (a.erase env key).2 := by
  unfold Cache.erase ItemCache.erase
  split
  · exact ⟨c, L, rfl, h⟩
  split
  · exact ⟨c, L, rfl, h⟩
  rcases h.lookup_cases key with ⟨hlookup, hfind, -⟩ | ⟨s, hs, hlookup, hfind⟩
  · rw [hlookup, hfind]
    exact ⟨c, L, rfl, h⟩
  · rw [hlookup, hfind]
    obtain ⟨c', hremove, h'⟩ := h.removeEntry hs
    exact ⟨c', _, by rw [hremove]; rfl, h'⟩

omit h in
theorem expireAll (now : ℕ) : ∀ (timers : List Timer) {c : Cache} {L : List (Bytes × StoredEntry)}
    {a : ItemCache}, c.Refines L a →
    ∃ c' L', Cache.expireAll (timers.map (Timer.toEvent now)) c = .ok c'
      ∧ c'.Refines L' (ItemCache.expireAll timers a) := by
  intro timers
  induction timers with
  | nil => intro c L a h; exact ⟨c, L, rfl, h⟩
  | cons timer timers ih =>
    intro c L a h
    rw [List.map_cons, Cache.expireAll, ItemCache.expireAll,
      show (timer.toEvent now).key = timer.key from rfl,
      show (timer.toEvent now).generation = timer.generation from rfl]
    rcases h.lookup_cases timer.key with ⟨hlookup, hfind, -⟩ | ⟨s, hs, hlookup, hfind⟩
    · rw [hlookup, hfind]
      exact ih h
    · rw [hlookup, hfind]
      dsimp only
      rw [show (toItem (timer.key, s)).generation = s.generation from rfl]
      split
      · exact ih h
      · obtain ⟨c', hremove, h'⟩ := h.removeEntry hs
        rw [hremove]
        exact ih ⟨h'.lists.of_eq rfl rfl, h'.items, h'.capacity, h'.usage, h'.hits, h'.misses,
          h'.evictions, congrArg (· + 1) h'.expired, h'.source, h'.wheel, h'.calls⟩

/-- **`tick` refines `tick` on the list.** -/
theorem tick (env : Env) :
    ∃ c' L', c.tick env = .ok ((a.tick env).1, c') ∧ c'.Refines L' (a.tick env).2 := by
  unfold Cache.tick ItemCache.tick
  cases hthrow : env.throws .expiredReserve with
  | true => exact ⟨c, L, rfl, h⟩
  | false =>
    obtain ⟨expired, w, htick, rfl, hwheel⟩ := h.wheel.tick
    rw [htick]
    obtain ⟨c', L', hloop, h'⟩ := expireAll a.timers.now a.timers.due
      (c := { c with timingWheel := w }) (L := L) (a := { a with timers := a.timers.tick })
      ⟨h.lists.of_eq rfl rfl, h.items, h.capacity, h.usage, h.hits, h.misses, h.evictions,
        h.expired, h.source, hwheel, h.calls⟩
    refine ⟨c', L', ?_, h'⟩
    dsimp only
    rw [hloop]
    rfl

/-- **Every call refines the call on the list**: no fault, the same answer, related states. -/
theorem call (hwf : a.WellFormed) (call : Call) :
    ∃ c' L', c.call call = .ok ((a.call call).1, c') ∧ c'.Refines L' (a.call call).2 := by
  cases call with
  | set env key value ttl => exact h.set hwf env key value ttl
  | get env key output => exact h.get env key output
  | erase env key => exact h.erase env key
  | tick env => exact h.tick env

end Refines

/-! ## Runs

The list cache cannot stop. So a run of the cache that is related to one of the list goes through,
and whatever is proved of runs of the list is true of runs of the cache. -/

/-- The cache is the list cache `a`, whose invariant holds. -/
def Simulates (c : Cache) (a : ItemCache) : Prop := a.WellFormed ∧ ∃ L, c.Refines L a

theorem simulates_new {capacity : ℕ} (h : capacity < Checked.wordSize) :
    (new capacity).Simulates (ItemCache.new capacity) :=
  ⟨ItemCache.wellFormed_new h, [], refines_new capacity⟩

theorem Simulates.step {c : Cache} {a : ItemCache} (h : c.Simulates a) (call : Call) :
    ∃ c', c.step call = .ok ((a.step call).1, c') ∧ c'.Simulates (a.step call).2 := by
  obtain ⟨hwf, L, href⟩ := h
  obtain ⟨c', L', hcall, href'⟩ := href.call hwf call
  refine ⟨c', ?_, hwf.call call, L', href'⟩
  rw [Cache.step, hcall, ItemCache.step]
  simp only [Except.ok_bind_eq, href'.report]

/-- **Whole runs of the cache are runs of the list**, with no fault on the way. -/
theorem Simulates.run {c : Cache} {a : ItemCache} (h : c.Simulates a) (calls : List Call) :
    ∃ c', Transition.run Cache.step c calls
        = .ok ((Transition.runTotal ItemCache.step a calls).1, c')
      ∧ c'.Simulates (Transition.runTotal ItemCache.step a calls).2 := by
  have hrun := Transition.run_simulates Cache.step ItemCache.step (R := Simulates)
    (Q := fun _ _ _ ↦ True) (f := id) (fun c a call _ h _ ↦ by
      obtain ⟨c', hstep, h'⟩ := h.step call
      exact ⟨c', hstep, h', trivial⟩) calls h trivial
  rwa [List.map_id] at hrun

/-- A state that some calls lead to is a well-formed list that the same calls lead to. -/
theorem Simulates.of_reachable {capacity : ℕ} (h : capacity < Checked.wordSize) {c : Cache}
    (hreach : Transition.Reachable Cache.step (new capacity) c) :
    ∃ calls, c.Simulates (Transition.runTotal ItemCache.step (ItemCache.new capacity) calls).2 := by
  obtain ⟨calls, outputs, hrun⟩ := hreach
  obtain ⟨c', hrun', hsim⟩ := (simulates_new h).run calls
  exact ⟨calls, (Except.ok_unique hrun' hrun).2 ▸ hsim⟩

end Cache

end HighCache
