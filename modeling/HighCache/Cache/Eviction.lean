import HighCache.Cache.Invariant

/-!
# What a `set` evicts

The two loops of `Cache::set` evict from the back of the recency list until the new item fits. On
the list both come to the same: the other entries are cut behind the longest prefix that fits
beside the new item. `Cache.KeepsLongest` says so about the recency list, the map and the counter
of the source, for every state a run reaches and every `set` that answers `ok`.

## Why a longest prefix

Evicting from the back until the rest fits, and stopping there, means that one eviction fewer would
have left too much. On the list this is the statement that a prefix fits beside the new item exactly
if it is one of what was kept; it has no loop in it and says both that enough was evicted and that
nothing was evicted in vain.
-/

namespace HighCache

open KeyedList

/-! ## On the list

Both paths of `set` end in the same state, described by `Stored`. Where the key is present its old
entry is taken out first, and where it is absent there is nothing to take out. -/

namespace ItemCache

private theorem others_of_find_none {a : ItemCache} {key : Bytes} (h : a.find key = none) :
    a.others key = a.items :=
  without_of_forall_ne (find_eq_none.mp h)

/-- From `a` to `b` the item `item` went to the front, and of the others the longest prefix `kept`
that fits beside it stayed. -/
structure Stored (item : Item) (a b : ItemCache) (kept evicted : List Item) : Prop where
  fits : item.charge ≤ a.capacity
  split : a.others item.key = kept ++ evicted
  longest : ∀ xs, xs <+: a.others item.key →
    (total Item.charge xs ≤ a.capacity - item.charge ↔ xs <+: kept)
  items : b.items = item :: kept
  evictions : b.evictions = a.evictions + evicted.length

private theorem Prepared.stored {a : ItemCache} {key value : Bytes} {item : Item}
    {r : Except CacheException Item × ItemCache} (hp : Prepared key value a r) (hr : r.1 = .ok item)
    (hfits : Cache.entryCharge key value ≤ a.capacity) {b : ItemCache}
    (hitems : b.items = item :: (r.2.makeRoom item.charge (a.others key)).items)
    (hevictions : b.evictions = (r.2.makeRoom item.charge (a.others key)).evictions) :
    ∃ item kept evicted, item.key = key ∧ item.value = value ∧ Stored item a b kept evicted := by
  have hcapacity : r.2.capacity = a.capacity := hp.capacity
  obtain rfl := hp.item_key item hr
  obtain rfl := hp.item_value item hr
  refine ⟨item, fitting Item.charge (a.capacity - item.charge) (a.others item.key),
    overflow Item.charge (a.capacity - item.charge) (a.others item.key), rfl, rfl, hfits,
    (fitting_append_overflow _ _ _).symm, fun xs hxs ↦ total_le_iff _ hxs, ?_, ?_⟩
  · rw [hitems, ← hcapacity]
    rfl
  · rw [hevictions, ← hcapacity, ← hp.evictions]
    rfl

private theorem WellFormed.stored_overwrite {a : ItemCache} (h : a.WellFormed) {env : Env}
    {key value : Bytes} {ttl : Int64} {old : Item}
    (hfits : Cache.entryCharge key value ≤ a.capacity)
    (hok : (a.overwrite env key value ttl old).1 = .status .ok) :
    ∃ item kept evicted, item.key = key ∧ item.value = value
      ∧ Stored item a (a.overwrite env key value ttl old).2 kept evicted := by
  have hp := prepare_spec env key value ttl h
  unfold ItemCache.overwrite at hok ⊢
  cases hr : a.prepare env key value ttl with
  | mk r b =>
    rw [hr] at hp hok
    cases r with
    | error exception => cases hok
    | ok item =>
      have hothers : b.others key = a.others key := by rw [others, hp.items, others]
      refine hp.stored rfl hfits ?_ ?_
      · rw [← hothers]
        rfl
      · rw [← hothers]
        rfl

private theorem WellFormed.stored_insertNew {a : ItemCache} (h : a.WellFormed) {env : Env}
    {key value : Bytes} {ttl : Int64} (habsent : a.find key = none)
    (hfits : Cache.entryCharge key value ≤ a.capacity)
    (hok : (a.insertNew env key value ttl).1 = .status .ok) :
    ∃ item kept evicted, item.key = key ∧ item.value = value
      ∧ Stored item a (a.insertNew env key value ttl).2 kept evicted := by
  have hp := prepare_spec env key value ttl h
  unfold ItemCache.insertNew at hok ⊢
  split at hok
  · cases hok
  rename_i hcopies
  rw [if_neg hcopies]
  cases hr : a.prepare env key value ttl with
  | mk r b =>
    rw [hr] at hp hok
    cases r with
    | error exception => cases hok
    | ok item =>
      -- without the key among them, the items are the other items
      have hitems : b.items = a.others key := hp.items.trans (others_of_find_none habsent).symm
      dsimp only at hok ⊢
      split at hok
      · cases hok
      rename_i hnodes
      rw [if_neg hnodes]
      refine hp.stored rfl hfits ?_ ?_
      · rw [← hitems]
      · rw [← hitems]

/-- **A `set` that answers `ok` keeps the longest prefix that fits**, on both paths. -/
theorem WellFormed.stored_set {a : ItemCache} (h : a.WellFormed) {env : Env} {key value : Bytes}
    {ttl : Int64} (hok : (a.set env key value ttl).1 = .status .ok) :
    ∃ item kept evicted, item.key = key ∧ item.value = value
      ∧ Stored item a (a.set env key value ttl).2 kept evicted := by
  unfold ItemCache.set at hok ⊢
  split at hok
  · rename_i hvalid
    exact absurd (Answer.status.inj hok) hvalid
  rename_i hvalid
  split at hok
  · cases hok
  rename_i hvalue
  split at hok
  · cases hok
  rename_i httl
  split at hok
  · cases hok
  rename_i hcharge
  split at hok
  · cases hok
  rename_i hlookup
  rw [if_neg hvalid, if_neg hvalue, if_neg httl, if_neg hcharge, if_neg hlookup]
  have hfits := Nat.not_lt.mp hcharge
  cases hfind : a.find key with
  | some old =>
    rw [hfind] at hok
    exact h.stored_overwrite hfits hok
  | none =>
    rw [hfind] at hok
    exact h.stored_insertNew hfind hfits hok

end ItemCache

namespace Cache

/-! ## In the structures of the source

The same, said of the recency list, the map and the eviction counter. The entry that was written is
described by its value; its generation and its iterator are new in a way nobody can observe. -/

/-- The keys in order of use, most recent first, without `key`. -/
def recencyWithout (key : Bytes) (c : Cache) : List Bytes :=
  c.recency.values.filter fun k ↦ k ≠ key

/-- From `c` to `c'` the entry of `key` got the value `value`, the entries of `kept` stayed, and
those of `evicted` went, where `kept` is the longest prefix of the recency list without `key` that
fits beside the new item. -/
structure KeepsLongest (key value : Bytes) (c c' : Cache) (kept evicted : List Bytes) : Prop where
  fits : entryCharge key value ≤ c.capacityBytes
  split : c.recencyWithout key = kept ++ evicted
  longest : ∀ ks, ks <+: c.recencyWithout key →
    (total c.chargeOf ks ≤ c.capacityBytes - entryCharge key value ↔ ks <+: kept)
  recency : c'.recency.values = key :: kept
  stored : ∃ s, c'.entries.lookup key = some s ∧ s.entry.value = value
  survivors : ∀ k ∈ kept, ∃ s s', c.entries.lookup k = some s ∧ c'.entries.lookup k = some s'
    ∧ s'.entry = s.entry ∧ s'.generation = s.generation
  removed : ∀ k ∈ c.entries, k ∉ c'.entries ↔ k ∈ evicted
  arrived : ∀ k ∈ c'.entries, k = key ∨ k ∈ c.entries
  evictions : c'.evictionCount
    = c.evictionCount + ((c.recencyWithout key).length - kept.length)

namespace Refines

variable {c : Cache} {L : List (Bytes × StoredEntry)} {a : ItemCache} (h : c.Refines L a)
include h

theorem values_eq : c.recency.values = a.items.map Item.key := by
  rw [h.lists.values_eq, h.items, List.map_map]
  rfl

private theorem recencyWithout_eq (key : Bytes) :
    c.recencyWithout key = (a.others key).map Item.key := by
  rw [recencyWithout, h.values_eq, List.filter_map]
  rfl

theorem mem_entries {k : Bytes} : k ∈ c.entries ↔ ∃ x ∈ a.items, x.key = k := by
  rw [← Finmap.mem_keys, h.lists.toListedBy.keys_eq, List.mem_toFinset, ← h.lists.values_eq,
    h.values_eq, List.mem_map]

theorem lookup_of_mem {x : Item} (hx : x ∈ a.items) :
    ∃ s, c.entries.lookup x.key = some s ∧ toItem (x.key, s) = x := by
  rw [h.items] at hx
  obtain ⟨⟨k, s⟩, hs, rfl⟩ := List.mem_map.mp hx
  exact ⟨s, (h.lists.lookup k s).mpr hs, rfl⟩

private theorem chargeOf_of_mem {x : Item} (hx : x ∈ a.items) : c.chargeOf x.key = x.charge := by
  obtain ⟨s, hs, hitem⟩ := h.lookup_of_mem hx
  rw [chargeOf, hs, ← hitem]
  rfl

private theorem total_chargeOf {xs : List Item} (hxs : ∀ x ∈ xs, x ∈ a.items) :
    total c.chargeOf (xs.map Item.key) = total Item.charge xs := by
  rw [total, total, List.map_map]
  congr 1
  exact List.map_congr_left fun x hx ↦ h.chargeOf_of_mem (hxs x hx)

/-- What a `set` on the list leaves, read back from the structures of the cache. -/
theorem keepsLongest (hwf : a.WellFormed) {c' : Cache} {L' : List (Bytes × StoredEntry)}
    {b : ItemCache} (h' : c'.Refines L' b) {item : Item} {kept evicted : List Item}
    (hstored : ItemCache.Stored item a b kept evicted) :
    KeepsLongest item.key item.value c c' (kept.map Item.key) (evicted.map Item.key) := by
  have hother : ∀ x ∈ kept ++ evicted, x ∈ a.items ∧ x.key ≠ item.key :=
    fun x hx ↦ mem_without.mp (show x ∈ a.others item.key from hstored.split ▸ hx)
  have hkept : ∀ x ∈ kept, x ∈ a.items := fun x hx ↦ (hother x (List.mem_append_left _ hx)).1
  -- keys are unique, so a key that is kept is not evicted as well
  have hapart : ∀ x ∈ kept, ∀ y ∈ evicted, x.key ≠ y.key := by
    have hnodup : ((kept ++ evicted).map Item.key).Nodup := by
      rw [← hstored.split]
      exact hwf.keys_nodup.sublist ((without_sublist _ _).map _)
    rw [List.map_append, List.nodup_append] at hnodup
    exact fun x hx y hy ↦ hnodup.2.2 _ (List.mem_map_of_mem hx) _ (List.mem_map_of_mem hy)
  have hsplit : c.recencyWithout item.key = kept.map Item.key ++ evicted.map Item.key := by
    rw [h.recencyWithout_eq, hstored.split, List.map_append]
  constructor
  · rw [h.capacity]
    exact hstored.fits
  · exact hsplit
  · -- a prefix of the keys is the keys of a prefix
    intro ks hks
    rw [h.recencyWithout_eq] at hks
    obtain ⟨xs, hxs, rfl⟩ : ∃ xs, xs <+: a.others item.key ∧ xs.map Item.key = ks :=
      ⟨_, List.take_prefix ks.length _, by rw [List.map_take, ← List.prefix_iff_eq_take.mp hks]⟩
    rw [h.total_chargeOf fun x hx ↦ (mem_without.mp (hxs.subset hx)).1, h.capacity]
    refine (hstored.longest xs hxs).trans ⟨fun hpre ↦ hpre.map _, fun hpre ↦ ?_⟩
    refine List.prefix_of_prefix_length_le hxs ⟨evicted, hstored.split.symm⟩ ?_
    simpa only [List.length_map] using hpre.length_le
  · rw [h'.values_eq, hstored.items, List.map_cons]
  · have hmem : item ∈ b.items := hstored.items ▸ List.mem_cons_self
    obtain ⟨s, hs, hitem⟩ := h'.lookup_of_mem hmem
    exact ⟨s, hs, congrArg Item.value hitem⟩
  · intro k hk
    obtain ⟨x, hx, rfl⟩ := List.mem_map.mp hk
    obtain ⟨s, hs, hitem⟩ := h.lookup_of_mem (hkept x hx)
    obtain ⟨s', hs', hitem'⟩ := h'.lookup_of_mem
      (hstored.items ▸ List.mem_cons_of_mem _ hx : x ∈ b.items)
    have hsame : toItem (x.key, s') = toItem (x.key, s) := hitem'.trans hitem.symm
    rw [toItem, toItem, Item.mk.injEq] at hsame
    obtain ⟨-, hvalue, hdata, hgeneration⟩ := hsame
    refine ⟨s, s', hs, hs', ?_, hgeneration⟩
    rw [CacheEntry.mk.injEq]
    exact ⟨hdata, hvalue⟩
  · intro k hk
    obtain ⟨x, hx, rfl⟩ := h.mem_entries.mp hk
    rw [h'.mem_entries, hstored.items, List.mem_map]
    constructor
    · intro hgone
      have hne : x.key ≠ item.key := fun heq ↦ hgone ⟨item, List.mem_cons_self, heq.symm⟩
      have hmem : x ∈ a.others item.key := mem_without.mpr ⟨hx, hne⟩
      rw [hstored.split] at hmem
      rcases List.mem_append.mp hmem with hmem | hmem
      · exact absurd ⟨x, List.mem_cons_of_mem _ hmem, rfl⟩ hgone
      · exact ⟨x, hmem, rfl⟩
    · rintro ⟨y, hy, hyx⟩ ⟨z, hz, hzx⟩
      have hkey : z.key = y.key := hzx.trans hyx.symm
      rcases List.mem_cons.mp hz with rfl | hz
      · exact (hother y (List.mem_append_right _ hy)).2 hkey.symm
      · exact hapart z hz y hy hkey
  · intro k hk
    obtain ⟨x, hx, rfl⟩ := h'.mem_entries.mp hk
    rw [hstored.items] at hx
    rcases List.mem_cons.mp hx with rfl | hx
    · exact Or.inl rfl
    · exact Or.inr (h.mem_entries.mpr ⟨x, hkept x hx, rfl⟩)
  · rw [h'.evictions, hstored.evictions, h.evictions, hsplit]
    simp

end Refines

/-! ## Every `set` that answers `ok` -/

/-- **A `set` that answers `ok` evicts what lies behind the longest prefix that fits**, in every
state a run reaches. -/
theorem set_keeps_longest (capacity : UInt64) {c c' : Cache}
    (hreach : Transition.Reachable step (new capacity.toNat) c) (env : Env) (key value : Bytes)
    (ttl : Int64) (hset : c.set env key value ttl = .ok (.status .ok, c')) :
    ∃ kept evicted, KeepsLongest key value c c' kept evicted := by
  obtain ⟨calls, hwf, L, href⟩ := Simulates.of_reachable capacity.toNat_lt hreach
  obtain ⟨c₁, L₁, hset₁, href₁⟩ := href.set hwf env key value ttl
  obtain ⟨hok, rfl⟩ := Except.ok_unique hset hset₁
  obtain ⟨item, kept, evicted, rfl, rfl, hstored⟩ := hwf.stored_set hok.symm
  exact ⟨_, _, href.keepsLongest hwf href₁ hstored⟩

/-- Three entries of two bytes in seven: overwriting the oldest with four bytes evicts the one of
the other two that was used less recently. -/
theorem set_keeps_longest_overwrite :
    ∃ c c', Transition.Reachable step (new (7 : UInt64).toNat) c
      ∧ c.set ⟨some 9, fun _ ↦ false⟩ [1] [1, 2, 3] 0 = .ok (.status .ok, c')
      ∧ c.recency.values = [[3], [2], [1]] ∧ c'.recency.values = [[1], [3]]
      ∧ ∃ kept evicted, KeepsLongest [1] [1, 2, 3] c c' kept evicted := by
  obtain ⟨c, hrun, hwf, L, href⟩ := (simulates_new (7 : UInt64).toNat_lt).run
    [.set ⟨some 0, fun _ ↦ false⟩ [1] [1] 0, .set ⟨some 1, fun _ ↦ false⟩ [2] [2] 0,
      .set ⟨some 2, fun _ ↦ false⟩ [3] [3] 0]
  obtain ⟨c', L', hset, href'⟩ := href.set hwf ⟨some 9, fun _ ↦ false⟩ [1] [1, 2, 3] 0
  have hreach : Transition.Reachable step (new (7 : UInt64).toNat) c := ⟨_, _, hrun⟩
  have hset' : c.set ⟨some 9, fun _ ↦ false⟩ [1] [1, 2, 3] 0 = .ok (.status .ok, c') := by
    rw [hset]
    congr
  refine ⟨c, c', hreach, hset', ?_, ?_, set_keeps_longest 7 hreach _ _ _ _ hset'⟩
  · rw [href.values_eq]
    decide
  · rw [href'.values_eq]
    decide

end Cache

end HighCache
