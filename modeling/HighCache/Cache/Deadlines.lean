import HighCache.Cache.DeadlineCache
import HighCache.Cache.Refinement

/-!
# Deadlines for generations and timers

The abstraction from the list cache to `DeadlineCache` is a function. A record's deadline is that of
the pending timer with the item's generation; distinct generations make it unique, and a timer
without an item drops out. So two list caches with the same image answer every later call alike,
whatever stale timers they carry.
-/

namespace HighCache

open KeyedList

/-! ## The abstraction

The order of the records is the order of the items, and all counters carry over. What is lost is the
generations themselves, the timers of items that are gone, and the calls to the allocator. -/

namespace ItemCache

/-- The deadline of the pending timer with a generation. -/
def deadlineOf (generation : ℕ) (timers : TimerQueue) : Option ℕ :=
  (KeyedList.find Timer.generation generation timers.pending).map Timer.deadline

/-- An item with its deadline. -/
def toRecord (timers : TimerQueue) (x : Item) : Record :=
  ⟨x.key, x.value, deadlineOf x.generation timers⟩

/-- The cache with its generations and timers resolved. -/
def deadlines (a : ItemCache) : DeadlineCache where
  capacity := a.capacity
  records := a.items.map (toRecord a.timers)
  hits := a.hits
  misses := a.misses
  evictions := a.evictions
  expired := a.expired
  now := a.timers.now

/-- Whether the next generation would be one too many. -/
def exhausted (a : ItemCache) : Bool := a.generationSource = Cache.maxGeneration

@[simp] theorem toRecord_key (timers : TimerQueue) (x : Item) : (toRecord timers x).key = x.key :=
  rfl

@[simp] theorem toRecord_charge (timers : TimerQueue) (x : Item) :
    (toRecord timers x).charge = x.charge := rfl

theorem deadlines_report (a : ItemCache) : a.deadlines.report = a.report := by
  unfold DeadlineCache.report DeadlineCache.usage deadlines
  rw [List.length_map, total_map Item.charge (toRecord_charge a.timers)]
  rfl

theorem WellFormed.records_nodup {a : ItemCache} (h : a.WellFormed) :
    (a.deadlines.records.map Record.key).Nodup := by
  have hkeys : a.deadlines.records.map Record.key = a.items.map Item.key :=
    map_key_map (toRecord_key a.timers) a.items
  rw [hkeys]
  exact h.keys_nodup

theorem deadlines_find (a : ItemCache) (key : Bytes) :
    a.deadlines.find key = (a.find key).map (toRecord a.timers) :=
  find_map (toRecord_key a.timers) key a.items

theorem deadlines_others (a : ItemCache) (key : Bytes) :
    a.deadlines.others key = (a.others key).map (toRecord a.timers) :=
  without_map (toRecord_key a.timers) key a.items

private theorem deadlines_makeRoom (a : ItemCache) (charge : ℕ) (rest : List Item) :
    (a.makeRoom charge rest).deadlines
      = a.deadlines.makeRoom charge (rest.map (toRecord a.timers)) := by
  unfold DeadlineCache.makeRoom
  rw [fitting_map Item.charge (toRecord_charge a.timers),
    overflow_map Item.charge (toRecord_charge a.timers), List.length_map]
  rfl

/-! ### What `prepare` does to deadlines

A new timer has a generation that no item has, so it is the deadline of nothing until the item it
was scheduled for is put into the list. If that never happens the records do not show that there was
a timer. -/

private theorem deadlineOf_schedule_of_ne {timers : TimerQueue} {key : Bytes}
    {generation ticks g : ℕ} (h : g ≠ generation) :
    deadlineOf g (timers.schedule key generation ticks) = deadlineOf g timers := by
  unfold deadlineOf TimerQueue.schedule KeyedList.find
  rw [List.find?_append, List.find?_cons_of_neg (by simpa using h.symm), List.find?_nil,
    Option.or_none]

private theorem deadlineOf_schedule_self {timers : TimerQueue} {key : Bytes} {generation ticks : ℕ}
    (h : ∀ t ∈ timers.pending, t.generation ≠ generation) :
    deadlineOf generation (timers.schedule key generation ticks) = some (timers.now + ticks) := by
  unfold deadlineOf TimerQueue.schedule
  rw [KeyedList.find, List.find?_append, ← KeyedList.find, find_eq_none.mpr h, Option.none_or,
    List.find?_cons_of_pos (by simp), Option.map_some]

/-- `prepare` refuses for the reasons `refusal` gives, and otherwise hands out an item with the
deadline of its TTL; the records stay as they are either way. -/
theorem prepare_deadlines {a : ItemCache} (h : a.WellFormed) (env : Env) (key value : Bytes)
    (ttl : Int64) :
    (a.prepare env key value ttl).2.deadlines = a.deadlines
      ∧ ((∃ exception, refusal a.exhausted env ttl = some exception
          ∧ (a.prepare env key value ttl).1 = .error exception)
        ∨ ∃ item, refusal a.exhausted env ttl = none ∧ (a.prepare env key value ttl).1 = .ok item
          ∧ toRecord (a.prepare env key value ttl).2.timers item
            = ⟨key, value, deadlineAfter a.deadlines.now ttl⟩) := by
  have hfresh : ∀ t ∈ a.timers.pending, t.generation ≠ a.generationSource + 1 :=
    fun t ht ↦ (Nat.lt_succ_of_le (h.timer_generation_le t ht)).ne
  unfold prepare refusal exhausted deadlineAfter
  cases env.allocation with
  | none => exact ⟨rfl, Or.inl ⟨_, if_pos rfl, rfl⟩⟩
  | some pointer =>
    dsimp only
    rw [if_neg (Option.some_ne_none pointer)]
    by_cases hsource : a.generationSource = Cache.maxGeneration
    · rw [if_pos hsource, if_pos (decide_eq_true hsource)]
      exact ⟨rfl, Or.inl ⟨_, rfl, rfl⟩⟩
    · have hexhausted : ¬decide (a.generationSource = Cache.maxGeneration) = true := by
        rwa [decide_eq_true_iff]
      rw [if_neg hsource, if_neg hexhausted]
      by_cases httl : 0 < ttl
      · by_cases hthrow : (env.throws .timerKey || env.throws .timerEvent) = true
        · rw [if_pos httl, if_pos hthrow, if_pos ⟨httl, hthrow⟩]
          exact ⟨rfl, Or.inl ⟨_, rfl, rfl⟩⟩
        · rw [if_pos httl, if_neg hthrow, if_neg (fun hc ↦ hthrow hc.2), if_pos httl]
          refine ⟨?_, Or.inr ⟨_, rfl, rfl, ?_⟩⟩
          · unfold deadlines
            congr 1
            refine List.map_congr_left fun x hx ↦ ?_
            have hne : x.generation ≠ a.generationSource + 1 :=
              (Nat.lt_succ_of_le (h.generation_le x hx)).ne
            rw [toRecord, toRecord, deadlineOf_schedule_of_ne hne]
          · rw [toRecord, deadlineOf_schedule_self hfresh]
            rfl
      · rw [if_neg httl, if_neg (fun hc ↦ httl hc.1), if_neg httl]
        refine ⟨rfl, Or.inr ⟨_, rfl, rfl, ?_⟩⟩
        rw [toRecord, deadlineOf, find_eq_none.mpr hfresh, Option.map_none]

/-! ### What `tick` does to deadlines

The source goes through the timers that are due and looks up the key of each. Taken together they
remove the items with one of their generations: a timer finds its own item or none, because items
and timers agree on which key a generation belongs to. -/

/-- Expiring leaves everything alone but the items, the count of what expired and the calls. -/
structure ExpiresOnly (a b : ItemCache) : Prop where
  capacity : b.capacity = a.capacity
  hits : b.hits = a.hits
  misses : b.misses = a.misses
  evictions : b.evictions = a.evictions
  generationSource : b.generationSource = a.generationSource
  timers : b.timers = a.timers
  items : ∀ x ∈ b.items, x ∈ a.items

theorem expireAll_only (timers : List Timer) (a : ItemCache) :
    ExpiresOnly a (expireAll timers a) := by
  induction timers generalizing a with
  | nil => exact ⟨rfl, rfl, rfl, rfl, rfl, rfl, fun _ hx ↦ hx⟩
  | cons timer timers ih =>
    rw [expireAll]
    cases a.find timer.key with
    | none => exact ih a
    | some item =>
      dsimp only
      split
      · exact ih a
      · have hrest := ih (ItemCache.release [item] { a with
          items := a.others timer.key
          expired := a.expired + 1 })
        exact ⟨hrest.capacity, hrest.hits, hrest.misses, hrest.evictions, hrest.generationSource,
          hrest.timers, fun x hx ↦ (mem_without.mp (hrest.items x hx)).1⟩

private theorem expireAll_stale {t : Timer} (ts : List Timer) {a : ItemCache}
    (h : ∀ x ∈ a.items, x.generation ≠ t.generation) :
    expireAll (t :: ts) a = expireAll ts a := by
  rw [expireAll]
  cases hfind : a.find t.key with
  | none => rfl
  | some item => exact if_pos (h item (mem_of_find hfind))

private theorem expireAll_fired {t : Timer} (ts : List Timer) {a : ItemCache} {item : Item}
    (hfind : a.find t.key = some item) (hgen : item.generation = t.generation) :
    expireAll (t :: ts) a = expireAll ts (ItemCache.release [item] { a with
      items := a.others t.key
      expired := a.expired + 1 }) := by
  rw [expireAll, hfind]
  exact if_neg (not_not.mpr hgen)

private theorem mem_generations_cons {t : Timer} {ts : List Timer} {x : Item} :
    x.generation ∈ (t :: ts).map Timer.generation
      ↔ x.generation = t.generation ∨ x.generation ∈ ts.map Timer.generation := by
  rw [List.map_cons, List.mem_cons]

/-- Where the generation of `t` is the key of `t`, dropping the key and then the generations of `ts`
is dropping those of both. -/
private theorem filter_others {t : Timer} {ts : List Timer} {a : ItemCache}
    (hiff : ∀ x ∈ a.items, x.generation = t.generation ↔ x.key = t.key) :
    (a.others t.key).filter (fun x ↦ x.generation ∉ ts.map Timer.generation)
      = a.items.filter (fun x ↦ x.generation ∉ (t :: ts).map Timer.generation) := by
  rw [others, without, List.filter_filter]
  refine List.filter_congr fun x hx ↦ ?_
  simp only [mem_generations_cons, hiff x hx, ne_eq, not_or, Bool.decide_and]
  exact Bool.and_comm _ _

/-- Counting the items of both is counting the item of `t` and those of `ts` among the others. -/
private theorem countP_others {t : Timer} {ts : List Timer} {a : ItemCache} {item : Item}
    (hkeys : (a.items.map Item.key).Nodup) (hfind : a.find t.key = some item)
    (hiff : ∀ x ∈ a.items, x.generation = t.generation ↔ x.key = t.key) :
    a.items.countP (fun x ↦ x.generation ∈ (t :: ts).map Timer.generation)
      = (a.others t.key).countP (fun x ↦ x.generation ∈ ts.map Timer.generation) + 1 := by
  have hitem : item ∈ a.items := mem_of_find hfind
  have hgen : item.generation = t.generation := (hiff item hitem).mpr (key_of_find hfind)
  have hperm := perm_cons_without hkeys hitem
  rw [key_of_find hfind] at hperm
  rw [hperm.countP_eq, List.countP_cons_of_pos (by simp [hgen]), others]
  congr 1
  refine List.countP_congr fun x hx ↦ ?_
  rw [decide_eq_true_iff, decide_eq_true_iff, mem_generations_cons,
    hiff x (mem_without.mp hx).1]
  exact or_iff_right (mem_without.mp hx).2

/-- The timers of a tick, taken together: the items with one of their generations go. -/
theorem expireAll_eq : ∀ (timers : List Timer) {a : ItemCache}, (a.items.map Item.key).Nodup →
    (∀ t ∈ timers, ∀ x ∈ a.items, t.generation = x.generation → t.key = x.key) →
    (timers.map Timer.generation).Nodup → (a.items.map Item.generation).Nodup →
    (expireAll timers a).items
        = a.items.filter (fun x ↦ x.generation ∉ timers.map Timer.generation)
      ∧ (expireAll timers a).expired
        = a.expired + a.items.countP (fun x ↦ x.generation ∈ timers.map Timer.generation) := by
  intro timers
  induction timers with
  | nil =>
    intro a _ _ _ _
    simp [expireAll]
  | cons t ts ih =>
    intro a hkeys hkey htnd hgnd
    rw [List.map_cons, List.nodup_cons] at htnd
    have hkey' : ∀ t' ∈ ts, ∀ x ∈ a.items, t'.generation = x.generation → t'.key = x.key :=
      fun t' ht' ↦ hkey t' (List.mem_cons_of_mem _ ht')
    by_cases hlive : ∃ item ∈ a.items, item.generation = t.generation
    · obtain ⟨item, hitem, hgen⟩ := hlive
      have hitemkey : item.key = t.key := (hkey t List.mem_cons_self item hitem hgen.symm).symm
      have hfind : a.find t.key = some item := (find_eq_some_iff hkeys).mpr ⟨hitem, hitemkey⟩
      have hiff : ∀ x ∈ a.items, x.generation = t.generation ↔ x.key = t.key := by
        intro x hx
        constructor
        · exact fun h ↦ (hkey t List.mem_cons_self x hx h.symm).symm
        · intro h
          rw [List.inj_on_of_nodup_map hkeys hx hitem (h.trans hitemkey.symm), hgen]
      have hothers : (a.others t.key).Sublist a.items := without_sublist _ _
      obtain ⟨hitems, hexpired⟩ := ih (a := ItemCache.release [item] { a with
          items := a.others t.key
          expired := a.expired + 1 })
        (hkeys.sublist (hothers.map _)) (fun t' ht' x hx ↦ hkey' t' ht' x (hothers.subset hx))
        htnd.2 (hgnd.sublist (hothers.map _))
      rw [expireAll_fired ts hfind hgen, hitems, hexpired, countP_others hkeys hfind hiff,
        ← filter_others hiff]
      refine ⟨rfl, ?_⟩
      show a.expired + 1 + (a.others t.key).countP _ = _
      omega
    · have hno : ∀ x ∈ a.items, x.generation ≠ t.generation := fun x hx h ↦ hlive ⟨x, hx, h⟩
      obtain ⟨hitems, hexpired⟩ := ih hkeys hkey' htnd.2 hgnd
      rw [expireAll_stale ts hno, hitems, hexpired]
      constructor
      · refine List.filter_congr fun x hx ↦ ?_
        rw [decide_eq_decide, mem_generations_cons, or_iff_right (hno x hx)]
      · congr 1
        refine List.countP_congr fun x hx ↦ ?_
        rw [decide_eq_true_iff, decide_eq_true_iff, mem_generations_cons,
          or_iff_right (hno x hx)]

theorem deadlineOf_eq_some {timers : TimerQueue} (hnd : (timers.pending.map Timer.generation).Nodup)
    {generation deadline : ℕ} :
    deadlineOf generation timers = some deadline
      ↔ ∃ t ∈ timers.pending, t.generation = generation ∧ t.deadline = deadline := by
  rw [deadlineOf, Option.map_eq_some_iff]
  refine exists_congr fun t ↦ ?_
  rw [find_eq_some_iff hnd, and_assoc]

private theorem mem_due_iff {a : ItemCache} (h : a.WellFormed) (x : Item) :
    x.generation ∈ a.timers.due.map Timer.generation
      ↔ deadlineOf x.generation a.timers = some (a.timers.now + 1) := by
  rw [deadlineOf_eq_some h.timers_nodup, List.mem_map]
  refine exists_congr fun t ↦ ?_
  rw [TimerQueue.due, List.mem_filter, decide_eq_true_iff]
  tauto

/-- A tick leaves the deadlines alone that are not due. -/
private theorem deadlineOf_tick {timers : TimerQueue}
    (hnd : (timers.pending.map Timer.generation).Nodup)
    {generation : ℕ} (h : deadlineOf generation timers ≠ some (timers.now + 1)) :
    deadlineOf generation timers.tick = deadlineOf generation timers := by
  have hnd' : (timers.tick.pending.map Timer.generation).Nodup :=
    hnd.sublist (List.filter_sublist.map _)
  ext deadline
  rw [deadlineOf_eq_some hnd', deadlineOf_eq_some hnd]
  refine exists_congr fun t ↦ ?_
  rw [TimerQueue.tick, List.mem_filter]
  constructor
  · rintro ⟨⟨ht, -⟩, hrest⟩
    exact ⟨ht, hrest⟩
  · rintro ⟨ht, hgen, hdead⟩
    refine ⟨⟨ht, ?_⟩, hgen, hdead⟩
    rw [decide_eq_true_iff]
    intro hnow
    exact h ((deadlineOf_eq_some hnd).mpr ⟨t, ht, hgen, hnow⟩)

/-! ### The calls

The two sides branch on the same conditions in the same order, so each operation is settled branch
by branch. -/

/-- `prepare` refuses, or it hands out an item with the charge and the deadline of the request. -/
private theorem prepare_cases {a : ItemCache} (h : a.WellFormed) (env : Env) (key value : Bytes)
    (ttl : Int64) :
    ∃ b, b.deadlines = a.deadlines
      ∧ ((∃ exception, a.prepare env key value ttl = (.error exception, b)
          ∧ refusal a.exhausted env ttl = some exception)
        ∨ ∃ item, a.prepare env key value ttl = (.ok item, b) ∧ refusal a.exhausted env ttl = none
          ∧ item.charge = Cache.entryCharge key value
          ∧ toRecord b.timers item = ⟨key, value, deadlineAfter a.deadlines.now ttl⟩) := by
  obtain ⟨hsame, hresult⟩ := prepare_deadlines h env key value ttl
  have hp := prepare_spec env key value ttl h
  cases hr : a.prepare env key value ttl with
  | mk r b =>
    rw [hr] at hsame hresult hp
    refine ⟨b, hsame, ?_⟩
    rcases hresult with ⟨exception, hrefusal, hr'⟩ | ⟨item, hrefusal, hr', hrecord⟩
    · have hr'' : r = .error exception := hr'
      exact Or.inl ⟨exception, by rw [hr''], hrefusal⟩
    · have hr'' : r = .ok item := hr'
      subst hr''
      refine Or.inr ⟨item, rfl, hrefusal, ?_, hrecord⟩
      rw [Item.charge, hp.item_key item rfl, hp.item_value item rfl]

/-- A record for the new item goes in front of what is kept of the others. -/
private theorem deadlines_push {a b : ItemCache} (hsame : b.deadlines = a.deadlines) {item : Item}
    {x : Record} (hrecord : toRecord b.timers item = x) (rest : List Item) :
    ({ b.makeRoom item.charge rest with
        items := item :: (b.makeRoom item.charge rest).items } : ItemCache).deadlines
      = (a.deadlines.makeRoom item.charge (rest.map (toRecord b.timers))).push x := by
  rw [← hsame, ← deadlines_makeRoom, ← hrecord]
  rfl

private theorem overwrite_deadlines {a : ItemCache} (h : a.WellFormed) (env : Env)
    (key value : Bytes) (ttl : Int64) (old : Item) :
    (a.overwrite env key value ttl old).1
        = (a.deadlines.overwrite a.exhausted env key value ttl).1
      ∧ (a.overwrite env key value ttl old).2.deadlines
        = (a.deadlines.overwrite a.exhausted env key value ttl).2 := by
  unfold overwrite DeadlineCache.overwrite
  obtain ⟨b, hsame, ⟨exception, hprepare, hrefusal⟩ |
    ⟨item, hprepare, hrefusal, hcharge, hrecord⟩⟩ := prepare_cases h env key value ttl
  · rw [hprepare, hrefusal]
    exact ⟨rfl, hsame⟩
  · rw [hprepare, hrefusal]
    refine ⟨rfl, (deadlines_push hsame hrecord (b.others key)).trans ?_⟩
    rw [← deadlines_others, hsame, hcharge]

private theorem insertNew_deadlines {a : ItemCache} (h : a.WellFormed) (env : Env)
    (key value : Bytes) (ttl : Int64) :
    (a.insertNew env key value ttl).1 = (a.deadlines.insertNew a.exhausted env key value ttl).1
      ∧ (a.insertNew env key value ttl).2.deadlines
        = (a.deadlines.insertNew a.exhausted env key value ttl).2 := by
  unfold insertNew DeadlineCache.insertNew
  split
  · exact ⟨rfl, rfl⟩
  obtain ⟨b, hsame, ⟨exception, hprepare, hrefusal⟩ |
    ⟨item, hprepare, hrefusal, hcharge, hrecord⟩⟩ := prepare_cases h env key value ttl
  · rw [hprepare, hrefusal]
    exact ⟨rfl, hsame⟩
  have hrecords : b.items.map (toRecord b.timers) = a.deadlines.records :=
    congrArg DeadlineCache.records hsame
  rw [hprepare, hrefusal]
  dsimp only
  split
  · refine ⟨rfl, (deadlines_makeRoom b item.charge b.items).trans ?_⟩
    rw [hcharge, hsame, hrecords]
  · refine ⟨rfl, (deadlines_push hsame hrecord b.items).trans ?_⟩
    rw [hcharge, hrecords]
    rfl

theorem set_deadlines {a : ItemCache} (h : a.WellFormed) (env : Env) (key value : Bytes)
    (ttl : Int64) :
    (a.set env key value ttl).1 = (a.deadlines.set a.exhausted env key value ttl).1
      ∧ (a.set env key value ttl).2.deadlines
        = (a.deadlines.set a.exhausted env key value ttl).2 := by
  unfold ItemCache.set DeadlineCache.set
  rw [deadlines_find, show a.deadlines.capacity = a.capacity from rfl]
  split
  · exact ⟨rfl, rfl⟩
  split
  · exact ⟨rfl, rfl⟩
  split
  · exact ⟨rfl, rfl⟩
  split
  · exact ⟨rfl, rfl⟩
  split
  · exact ⟨rfl, rfl⟩
  cases hfind : a.find key with
  | some old => exact overwrite_deadlines h env key value ttl old
  | none => exact insertNew_deadlines h env key value ttl

theorem get_deadlines (a : ItemCache) (env : Env) (key output : Bytes) :
    (a.get env key output).1 = (a.deadlines.get env key output).1
      ∧ (a.get env key output).2.deadlines = (a.deadlines.get env key output).2 := by
  unfold ItemCache.get DeadlineCache.get
  rw [deadlines_find, deadlines_others]
  split
  · exact ⟨rfl, rfl⟩
  split
  · exact ⟨rfl, rfl⟩
  cases hfind : a.find key with
  | none => exact ⟨rfl, rfl⟩
  | some item =>
    rw [Option.map_some]
    dsimp only
    rw [show (toRecord a.timers item).value = item.value from rfl]
    split
    · exact ⟨rfl, rfl⟩
    · exact ⟨rfl, rfl⟩

theorem erase_deadlines (a : ItemCache) (env : Env) (key : Bytes) :
    (a.erase env key).1 = (a.deadlines.erase env key).1
      ∧ (a.erase env key).2.deadlines = (a.deadlines.erase env key).2 := by
  unfold ItemCache.erase DeadlineCache.erase
  rw [deadlines_find, deadlines_others]
  split
  · exact ⟨rfl, rfl⟩
  split
  · exact ⟨rfl, rfl⟩
  cases hfind : a.find key with
  | none => exact ⟨rfl, rfl⟩
  | some item => exact ⟨rfl, rfl⟩

theorem tick_deadlines {a : ItemCache} (h : a.WellFormed) (env : Env) :
    (a.tick env).1 = (a.deadlines.tick env).1
      ∧ (a.tick env).2.deadlines = (a.deadlines.tick env).2 := by
  unfold ItemCache.tick DeadlineCache.tick
  split
  · exact ⟨rfl, rfl⟩
  have hdue : (a.timers.due.map Timer.generation).Nodup :=
    h.timers_nodup.sublist (List.filter_sublist.map _)
  obtain ⟨hitems, hexpired⟩ :=
    expireAll_eq a.timers.due (a := { a with timers := a.timers.tick }) h.keys_nodup
      (fun t ht ↦ h.timer_key t (List.mem_of_mem_filter ht)) hdue h.generations_nodup
  have honly := expireAll_only a.timers.due { a with timers := a.timers.tick }
  have hisDue : ∀ x : Item, DeadlineCache.isDue a.timers.now (toRecord a.timers x)
      = decide (x.generation ∈ a.timers.due.map Timer.generation) := by
    intro x
    rw [DeadlineCache.isDue, decide_eq_decide, mem_due_iff h]
    rfl
  refine ⟨rfl, ?_⟩
  unfold deadlines
  dsimp only
  rw [hitems, hexpired, honly.capacity, honly.hits, honly.misses, honly.evictions, honly.timers,
    List.filter_map, List.countP_map]
  -- the items that stay keep their deadlines, since no timer of theirs has gone
  have hrecords : (a.items.filter fun x ↦ x.generation ∉ a.timers.due.map Timer.generation).map
        (toRecord a.timers.tick)
      = (a.items.filter ((fun x ↦ !DeadlineCache.isDue a.timers.now x) ∘ toRecord a.timers)).map
        (toRecord a.timers) := by
    have hfilter : (a.items.filter fun x ↦ x.generation ∉ a.timers.due.map Timer.generation)
        = a.items.filter ((fun x ↦ !DeadlineCache.isDue a.timers.now x) ∘ toRecord a.timers) := by
      refine List.filter_congr fun x _ ↦ ?_
      rw [Function.comp_apply, hisDue, decide_not]
    rw [← hfilter]
    refine List.map_congr_left fun x hx ↦ ?_
    have hnot := List.of_mem_filter hx
    rw [decide_eq_true_iff, mem_due_iff h] at hnot
    rw [toRecord, toRecord, deadlineOf_tick h.timers_nodup hnot]
  have hcount : a.items.countP (fun x ↦ x.generation ∈ a.timers.due.map Timer.generation)
      = a.items.countP (DeadlineCache.isDue a.timers.now ∘ toRecord a.timers) := by
    refine List.countP_congr fun x _ ↦ ?_
    rw [Function.comp_apply, hisDue]
  rw [hrecords, hcount]
  rfl

/-- **Generations and timers implement deadlines.** Every call on a well-formed list cache is the
call on its image. -/
theorem call_deadlines {a : ItemCache} (h : a.WellFormed) (call : Call) :
    (a.call call).1 = (a.deadlines.call a.exhausted call).1
      ∧ (a.call call).2.deadlines = (a.deadlines.call a.exhausted call).2 := by
  cases call with
  | set env key value ttl => exact set_deadlines h env key value ttl
  | get env key output => exact get_deadlines a env key output
  | erase env key => exact erase_deadlines a env key
  | tick env => exact tick_deadlines h env

theorem capacity_call {a : ItemCache} (h : a.WellFormed) (call : Call) :
    (a.call call).2.capacity = a.capacity := by
  have hcapacity := (a.deadlines.takes_call a.exhausted call).grows.capacity
  rw [← (call_deadlines h call).2] at hcapacity
  exact hcapacity

end ItemCache

end HighCache
