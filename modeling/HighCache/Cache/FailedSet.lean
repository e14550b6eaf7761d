import HighCache.Cache.CacheShard
import HighCache.Cache.TimerSafety

/-!
# SETs that fail

A `set` can throw at eight statements. What it leaves behind is one of two things: the entries as
they were, or, if the key was absent and room had been made for it, the entries without some of
those used least recently. Either way a generation may have been drawn for nothing and a timer may
have been left in the wheel.

Neither is of any consequence. Answers depend on the deadlines of the entries alone
(`ItemCache.call_deadlines`), and a timer whose generation no entry has is the deadline of nothing.
The one exception is in the nature of a counter: generations are a 64-bit supply, so the SET that
finds them used up comes the sooner, the more of them were spent.
-/

namespace HighCache

open KeyedList

namespace Cache

/-! ## What a failed SET leaves behind

The paths are followed statement by statement, in the source's own state: which of the members has
been changed when the exception leaves. The list cache then says which entries are gone. -/

/-- The entries, their order, the usage and the statistics are as they were. -/
def SameEntries (c c' : Cache) : Prop :=
  c' = { c with
    generationSource := c'.generationSource
    timingWheel := c'.timingWheel
    calls := c'.calls }

/-- The keys in `evicted`, which were the least recently used, are gone and accounted for. -/
structure Evicts (c c' : Cache) (evicted : List Bytes) : Prop where
  recency : c.recency.values = c'.recency.values ++ evicted
  entries : ∀ k, c'.entries.lookup k = if k ∈ evicted then none else c.entries.lookup k
  usage : c.memoryUsageBytes = c'.memoryUsageBytes + (evicted.map c.chargeOf).sum
  evictions : c'.evictionCount = c.evictionCount + evicted.length
  capacity : c'.capacityBytes = c.capacityBytes
  hits : c'.hitCount = c.hitCount
  misses : c'.missCount = c.missCount
  expired : c'.expiredCount = c.expiredCount

/-- `prepareEntry` touches the generation, the timers and the log only. -/
private theorem prepareEntry_frame {env : Env} {key value : Bytes} {ttl : Int64} {c c' : Cache}
    {r : Except CacheException (CacheEntry × ℕ)}
    (h : c.prepareEntry env key value ttl = .ok (r, c')) : c.SameEntries c' := by
  unfold prepareEntry newEntry nextGeneration at h
  cases halloc : env.allocation with
  | none =>
    rw [halloc] at h
    cases h
    rfl
  | some pointer =>
    rw [halloc] at h
    dsimp only at h
    by_cases hsource : c.generationSource = maxGeneration
    · rw [if_pos hsource] at h
      cases h
      rfl
    · rw [if_neg hsource] at h
      dsimp only at h
      obtain ⟨scheduled, hschedule, h⟩ := Except.bind_eq_ok_iff.mp h
      unfold scheduleTimer at hschedule
      split at hschedule
      · split at hschedule
        · cases hschedule
          cases h
          rfl
        · obtain ⟨wheel, -, hwheel⟩ := Except.bind_eq_ok_iff.mp hschedule
          cases hwheel
          cases h
          rfl
      · cases hschedule
        cases h
        rfl

theorem overwrite_cases {env : Env} {key value : Bytes} {ttl : Int64} {existing : StoredEntry}
    {c c' : Cache} {answer : Answer}
    (h : c.overwrite env key value ttl existing = .ok (answer, c')) :
    answer = .status .ok ∨ (∃ exception, answer = .thrown exception) ∧ c.SameEntries c' := by
  unfold overwrite at h
  obtain ⟨⟨r, c₁⟩, hprepare, h⟩ := Except.bind_eq_ok_iff.mp h
  cases r with
  | error exception =>
    cases h
    exact Or.inr ⟨⟨exception, rfl⟩, prepareEntry_frame hprepare⟩
  | ok item =>
    dsimp only at h
    obtain ⟨c₂, -, h⟩ := Except.bind_eq_ok_iff.mp h
    obtain ⟨c₃, -, h⟩ := Except.bind_eq_ok_iff.mp h
    split at h
    · cases h
    · obtain ⟨remaining, -, h⟩ := Except.bind_eq_ok_iff.mp h
      obtain ⟨usage, -, h⟩ := Except.bind_eq_ok_iff.mp h
      cases h
      exact Or.inl rfl

/-- What is left once room was made for an entry that could not be inserted. -/
def MadeRoom (newCharge : ℕ) (c c' : Cache) : Prop :=
  ∃ c₁ c₂, c.SameEntries c₁ ∧ c₁.evictWhile 0 newCharge c₁.recency.nodes.length = .ok c₂
    ∧ c'.recency.nodes = c₂.recency.nodes
    ∧ c' = { c₂ with recency := c'.recency, calls := c'.calls }

theorem insertNew_cases {env : Env} {key value : Bytes} {ttl : Int64} {c c' : Cache}
    {answer : Answer} (h : c.insertNew env key value ttl = .ok (answer, c')) :
    answer = .status .ok ∨ (∃ exception, answer = .thrown exception)
      ∧ (c.SameEntries c' ∨ c.MadeRoom (entryCharge key value) c') := by
  unfold insertNew at h
  split at h
  · cases h
    exact Or.inr ⟨⟨_, rfl⟩, Or.inl rfl⟩
  obtain ⟨⟨r, c₁⟩, hprepare, h⟩ := Except.bind_eq_ok_iff.mp h
  have hframe := prepareEntry_frame hprepare
  cases r with
  | error exception =>
    cases h
    exact Or.inr ⟨⟨exception, rfl⟩, Or.inl hframe⟩
  | ok item =>
    dsimp only at h
    obtain ⟨c₂, hevict, h⟩ := Except.bind_eq_ok_iff.mp h
    split at h
    · cases h
      exact Or.inr ⟨⟨_, rfl⟩, Or.inr ⟨c₁, c₂, hframe, hevict, rfl, rfl⟩⟩
    split at h
    · obtain ⟨recency, hpop, h⟩ := Except.bind_eq_ok_iff.mp h
      obtain ⟨recency', hpop', hnodes⟩ := NodeList.popFront_pushFront key c₂.recency
      rw [hpop'] at hpop
      cases hpop
      cases h
      exact Or.inr ⟨⟨_, rfl⟩, Or.inr ⟨c₁, c₂, hframe, hevict, hnodes, rfl⟩⟩
    split at h
    · cases h
    · obtain ⟨_, -, h⟩ := Except.bind_eq_ok_iff.mp h
      obtain ⟨usage, -, h⟩ := Except.bind_eq_ok_iff.mp h
      cases h
      exact Or.inl rfl

/-! ### Evictions before the exception -/

theorem Lists.evicts {c c' : Cache} {kept gone : List (Bytes × StoredEntry)}
    (h : c.Lists (kept ++ gone)) (h' : c'.Lists kept)
    (husage : c.memoryUsageBytes = total storedCharge (kept ++ gone))
    (husage' : c'.memoryUsageBytes = total storedCharge kept)
    (hevictions : c'.evictionCount = c.evictionCount + gone.length)
    (hcapacity : c'.capacityBytes = c.capacityBytes) (hhits : c'.hitCount = c.hitCount)
    (hmisses : c'.missCount = c.missCount) (hexpired : c'.expiredCount = c.expiredCount) :
    c.Evicts c' (gone.map Prod.fst) := by
  refine ⟨?_, fun k ↦ ?_, ?_, ?_, hcapacity, hhits, hmisses, hexpired⟩
  · rw [h.values_eq, h'.values_eq, List.map_append]
  · have hnd := h.nodup
    rw [List.map_append, List.nodup_append] at hnd
    split
    · rename_i hk
      rw [h'.toListedBy.lookup_eq, Option.map_eq_none_iff, find_eq_none]
      exact fun x hx hxk ↦ hnd.2.2 x.1 (List.mem_map_of_mem hx) k hk hxk
    · rename_i hk
      have hover : find Prod.fst k gone = none :=
        find_eq_none.mpr fun x hx hxk ↦ hk (List.mem_map.mpr ⟨x, hx, hxk⟩)
      rw [h'.toListedBy.lookup_eq, h.toListedBy.lookup_eq, find, find, List.find?_append,
        show gone.find? (fun x ↦ x.1 = k) = none from hover, Option.or_none]
  · have hcharge : ∀ x ∈ gone, storedCharge x = c.chargeOf x.1 := by
      intro x hx
      rw [chargeOf, (h.lookup x.1 x.2).mpr (List.mem_append_right _ hx)]
      rfl
    rw [husage, husage', total_append, List.map_map, total, total, List.map_congr_left hcharge]
    rfl
  · rw [hevictions, List.length_map]

theorem Refines.evicts {c c' : Cache} {L : List (Bytes × StoredEntry)} {a : ItemCache}
    (h : c.Refines L a) {newCharge : ℕ} (hcharge : newCharge ≤ c.capacityBytes)
    (hroom : c.MadeRoom newCharge c') : ∃ evicted, c.Evicts c' evicted := by
  obtain ⟨c₁, c₂, hframe, hevict, hnodes, heq⟩ := hroom
  have hlists : c₁.Lists ([] ++ L) := by
    refine h.lists.of_eq ?_ ?_ <;> rw [hframe]
  have husage : c₁.memoryUsageBytes = 0 + total storedCharge L := by
    rw [hframe, Nat.zero_add]
    exact h.total_eq
  have hcapacity : c₁.capacityBytes = c.capacityBytes := by rw [hframe]
  have hfuel : L.length ≤ c₁.recency.nodes.length := by
    rw [hlists.nodes, List.length_map, List.nil_append]
  obtain ⟨c₃, hevict', hlists', heq'⟩ := Lists.evictWhile _ hlists husage rfl
    (hcapacity ▸ hcharge) hfuel
  rw [hevict, Except.ok.injEq] at hevict'
  subst hevict'
  have hsplit := fitting_append_overflow storedCharge (c₁.capacityBytes - newCharge) L
  have hkept : c'.Lists (fitting storedCharge (c₁.capacityBytes - newCharge) L) := by
    refine ⟨?_, hnodes.trans hlists'.nodes⟩
    rw [heq]
    exact hlists'.toListedBy
  refine ⟨_, Lists.evicts (hsplit.symm ▸ h.lists) hkept (by rw [hsplit]; exact h.total_eq)
    ?_ ?_ ?_ ?_ ?_ ?_⟩
  · rw [heq, heq', Nat.zero_add]
  all_goals rw [heq, heq', hframe]

/-- **What a failed SET leaves behind**: the entries it found, if the key is one of them, and
otherwise those that are left of them once room is made, the key still not among them. -/
theorem Refines.set_thrown {c c' : Cache} {L : List (Bytes × StoredEntry)} {a : ItemCache}
    (h : c.Refines L a) {env : Env} {key value : Bytes} {ttl : Int64} {exception : CacheException}
    (hset : c.set env key value ttl = .ok (.thrown exception, c')) :
    (key ∈ c.entries → c.SameEntries c')
      ∧ (key ∉ c.entries → key ∉ c'.entries ∧ ∃ evicted, c.Evicts c' evicted) := by
  have hsame : c.SameEntries c' → (key ∈ c.entries → c.SameEntries c')
      ∧ (key ∉ c.entries → key ∉ c'.entries ∧ ∃ evicted, c.Evicts c' evicted) := by
    refine fun hsame ↦ ⟨fun _ ↦ hsame, fun habsent ↦ ⟨?_, [], ?_⟩⟩
    · rw [hsame]
      exact habsent
    · rw [hsame]
      exact ⟨(List.append_nil _).symm, fun k ↦ rfl, rfl, rfl, rfl, rfl, rfl, rfl⟩
  unfold Cache.set at hset
  split at hset
  · cases hset
  split at hset
  · cases hset
  split at hset
  · cases hset
  split at hset
  · cases hset
  rename_i hcharge
  split at hset
  · cases hset
    exact hsame rfl
  split at hset
  · rcases overwrite_cases hset with hok | ⟨-, hframe⟩
    · cases hok
    · exact hsame hframe
  rename_i habsent
  rcases insertNew_cases hset with hok | ⟨-, hframe | hroom⟩
  · cases hok
  · exact hsame hframe
  obtain ⟨evicted, hevicts⟩ := h.evicts (Nat.not_lt.mp hcharge) hroom
  have hgone : c'.entries.lookup key = none := by
    rw [hevicts.entries key, habsent]
    exact ite_self none
  refine ⟨fun hmem ↦ ?_, fun _ ↦ ⟨?_, evicted, hevicts⟩⟩
  · exact absurd hmem (Finmap.lookup_eq_none.mp habsent)
  · exact Finmap.lookup_eq_none.mp hgone

private theorem set_refused {c c' : Cache} {env : Env} {key value : Bytes} {ttl : Int64}
    {status : CacheStatus} (hset : c.set env key value ttl = .ok (.status status, c'))
    (hstatus : status ≠ .ok) : c' = c := by
  unfold set at hset
  split at hset
  · cases hset
    rfl
  split at hset
  · cases hset
    rfl
  split at hset
  · cases hset
    rfl
  split at hset
  · cases hset
    rfl
  split at hset
  · cases hset
  split at hset
  · rcases overwrite_cases hset with hok | ⟨⟨exception, hthrown⟩, -⟩
    · cases hok
      exact absurd rfl hstatus
    · cases hthrown
  · rcases insertNew_cases hset with hok | ⟨⟨exception, hthrown⟩, -⟩
    · cases hok
      exact absurd rfl hstatus
    · cases hthrown

private theorem erase_refused {c c' : Cache} {env : Env} {key : Bytes} {status : CacheStatus}
    (herase : c.erase env key = .ok (.status status, c')) (hstatus : status ≠ .ok) : c' = c := by
  unfold erase at herase
  split at herase
  · cases herase
    rfl
  split at herase
  · cases herase
  split at herase
  · cases herase
    rfl
  · obtain ⟨c₁, -, herase⟩ := Except.bind_eq_ok_iff.mp herase
    cases herase
    exact absurd rfl hstatus

end Cache

/-! ## The generations a run draws

How many generations a call draws can be told from the records and whether the supply has run out;
two caches with the same records draw alike. -/

/-- The generations a call draws while there are any left. -/
def DeadlineCache.draws (d : DeadlineCache) : Call → ℕ
  | .set env key value ttl =>
    if Cache.validateKey key ≠ .ok then 0
    else if value.length > Cache.maxValueLength then 0
    else if ttl < 0 then 0
    else if Cache.entryCharge key value > d.capacity then 0
    else if env.throws .lookupKey then 0
    else if (d.find key).isNone ∧ (env.throws .mapKey || env.throws .recencyKey) = true then 0
    else if env.allocation = none then 0
    else 1
  | .get .. => 0
  | .erase .. => 0
  | .tick .. => 0

namespace ItemCache

private theorem source_prepare {a : ItemCache} (h : a.exhausted = false) (env : Env)
    (key value : Bytes) (ttl : Int64) :
    (a.prepare env key value ttl).2.generationSource
      = a.generationSource + if env.allocation = none then 0 else 1 := by
  have hsource : a.generationSource ≠ Cache.maxGeneration := of_decide_eq_false h
  unfold prepare
  cases env.allocation with
  | none => rfl
  | some pointer =>
    dsimp only
    rw [if_neg hsource]
    split
    · split <;> rfl
    · rfl

private theorem source_overwrite (a : ItemCache) (env : Env) (key value : Bytes) (ttl : Int64)
    (old : Item) :
    (a.overwrite env key value ttl old).2.generationSource
      = (a.prepare env key value ttl).2.generationSource := by
  unfold overwrite
  cases a.prepare env key value ttl with
  | mk r b => cases r <;> rfl

private theorem source_insertNew (a : ItemCache) {env : Env}
    (hthrow : ¬(env.throws .mapKey || env.throws .recencyKey) = true) (key value : Bytes)
    (ttl : Int64) :
    (a.insertNew env key value ttl).2.generationSource
      = (a.prepare env key value ttl).2.generationSource := by
  unfold insertNew
  rw [if_neg hthrow]
  cases a.prepare env key value ttl with
  | mk r b =>
    cases r with
    | error exception => rfl
    | ok item =>
      dsimp only
      split <;> rfl

/-- Which generation comes next depends on the deadlines, not on the generations. -/
private theorem source_call {a : ItemCache} (h : a.exhausted = false) (call : Call) :
    (a.call call).2.generationSource = a.generationSource + a.deadlines.draws call := by
  cases call with
  | set env key value ttl =>
    have hprepare := source_prepare h env key value ttl
    show (a.set env key value ttl).2.generationSource = _
    unfold ItemCache.set DeadlineCache.draws
    dsimp only
    rw [deadlines_find, show a.deadlines.capacity = a.capacity from rfl]
    split
    · rfl
    split
    · rfl
    split
    · rfl
    split
    · rfl
    split
    · rfl
    cases hfind : a.find key with
    | some old =>
      dsimp only [Option.map_some]
      rw [if_neg (fun hnone ↦ by cases hnone.1), ← hprepare, source_overwrite]
    | none =>
      dsimp only [Option.map_none]
      by_cases hthrow : (env.throws .mapKey || env.throws .recencyKey) = true
      · rw [insertNew, if_pos hthrow, if_pos ⟨rfl, hthrow⟩]
        rfl
      · rw [if_neg (fun hnone ↦ hthrow hnone.2), ← hprepare, source_insertNew a hthrow]
  | get env key output => exact generationSource_get a env key output
  | erase env key => exact generationSource_erase a env key
  | tick env => exact generationSource_tick a env

end ItemCache

/-! ## Spent generations and stray timers

`Alike` is the relation between the cache after a failed SET and the cache on which it was never
tried: the same records, and generations that are ahead by some number. It is kept by every call
until the one that is ahead finds none left. -/

namespace ItemCache

/-- `b` has the deadlines of `a` and has spent no more generations. -/
structure Alike (a b : ItemCache) : Prop where
  left : a.WellFormed
  right : b.WellFormed
  deadlines : b.deadlines = a.deadlines
  source_le : b.generationSource ≤ a.generationSource

theorem Alike.call {a b : ItemCache} (h : Alike a b) (call : Call)
    (hanswer : (a.call call).1 ≠ .thrown .generationExhausted) :
    (b.call call).1 = (a.call call).1 ∧ Alike (a.call call).2 (b.call call).2 := by
  obtain ⟨hfst, hsnd⟩ := call_deadlines h.left call
  obtain ⟨hfst', hsnd'⟩ := call_deadlines h.right call
  have hmax := h.left.source_le
  have hmax' := (h.right.call call).source_le
  cases hexhausted : a.exhausted with
  | false =>
    have hexhausted' : b.exhausted = false := by
      have hne : a.generationSource ≠ Cache.maxGeneration := of_decide_eq_false hexhausted
      have := h.source_le
      exact decide_eq_false (by omega)
    rw [hexhausted] at hfst hsnd
    rw [hexhausted', h.deadlines] at hfst' hsnd'
    refine ⟨hfst'.trans hfst.symm, h.left.call call, h.right.call call, hsnd'.trans hsnd.symm, ?_⟩
    rw [source_call hexhausted, source_call hexhausted', h.deadlines]
    exact Nat.add_le_add_right h.source_le _
  | true =>
    rw [hexhausted] at hfst hsnd
    rw [hfst] at hanswer
    have hsame : a.deadlines.call b.exhausted call = a.deadlines.call true call := by
      cases b.exhausted with
      | false => exact (a.deadlines.call_exhausted call).resolve_left hanswer
      | true => rfl
    rw [h.deadlines, hsame] at hfst' hsnd'
    refine ⟨hfst'.trans hfst.symm, h.left.call call, h.right.call call, hsnd'.trans hsnd.symm, ?_⟩
    have hsource : a.generationSource = Cache.maxGeneration := of_decide_eq_true hexhausted
    have hmono := (h.left.evolves_call call).source_le
    omega

theorem Alike.run : ∀ (calls : List Call) {a b : ItemCache}, Alike a b →
    (∀ output ∈ (Transition.runTotal step a calls).1,
      output.1 ≠ .thrown .generationExhausted) →
    (Transition.runTotal step b calls).1 = (Transition.runTotal step a calls).1 := by
  intro calls
  induction calls with
  | nil => intro a b _ _; rfl
  | cons call calls ih =>
    intro a b h hanswers
    rw [Transition.runTotal_cons] at hanswers
    obtain ⟨hanswer, hanswers⟩ := List.forall_mem_cons.mp hanswers
    obtain ⟨heq, hnext⟩ := h.call call hanswer
    have hstep : (step b call).1 = (step a call).1 := by
      rw [step, step, heq, ← deadlines_report, ← deadlines_report, hnext.deadlines]
    rw [Transition.runTotal_cons, Transition.runTotal_cons, hstep]
    exact congrArg ((step a call).1 :: ·) (ih hnext hanswers)

/-- `b` has the first items of `a` and its clock. -/
def Shortens (a b : ItemCache) : Prop :=
  b.items <+: a.items ∧ b.capacity = a.capacity ∧ b.timers.now = a.timers.now

/-- A `set` that throws leaves the first of the items it found. -/
theorem set_thrown {a : ItemCache} (h : a.WellFormed) (env : Env) (key value : Bytes)
    (ttl : Int64) : ∀ exception, (a.set env key value ttl).1 = .thrown exception →
      Shortens a (a.set env key value ttl).2 := by
  have hp := prepare_spec env key value ttl h
  have hnow : (a.prepare env key value ttl).2.timers.now = a.timers.now :=
    congrArg DeadlineCache.now (prepare_deadlines h env key value ttl).1
  have hself : Shortens a a := ⟨List.prefix_refl _, rfl, rfl⟩
  unfold ItemCache.set
  split
  · exact fun _ _ ↦ hself
  split
  · exact fun _ _ ↦ hself
  split
  · exact fun _ _ ↦ hself
  split
  · exact fun _ _ ↦ hself
  split
  · exact fun _ _ ↦ hself
  cases hr : a.prepare env key value ttl with
  | mk r b =>
    rw [hr] at hp hnow
    have hprepared : Shortens a b := ⟨hp.items ▸ List.prefix_refl _, hp.capacity, hnow⟩
    cases a.find key with
    | some old =>
      dsimp only [overwrite]
      rw [hr]
      cases r with
      | error exception' => exact fun _ _ ↦ hprepared
      | ok item => exact fun _ hthrown ↦ by cases hthrown
    | none =>
      dsimp only [insertNew]
      split
      · exact fun _ _ ↦ hself
      rw [hr]
      cases r with
      | error exception' => exact fun _ _ ↦ hprepared
      | ok item =>
        dsimp only
        split
        · refine fun _ _ ↦ ⟨?_, hp.capacity, hnow⟩
          have hitems : b.items = a.items := hp.items
          exact hitems ▸ fitting_initial Item.charge b.items _
        · exact fun _ hthrown ↦ by cases hthrown

/-- The state of `b` with the generations and the timers of `a`. -/
def undo (a b : ItemCache) : ItemCache :=
  { b with generationSource := a.generationSource, timers := a.timers }

/-- **A failed SET and one that was never begun are alike**, apart from the evictions. -/
theorem alike_undo {a : ItemCache} (h : a.WellFormed) {env : Env} {key value : Bytes} {ttl : Int64}
    {exception : CacheException} (hset : (a.set env key value ttl).1 = .thrown exception) :
    Alike (a.set env key value ttl).2 (undo a (a.set env key value ttl).2) := by
  obtain ⟨hitems, hcapacity, hnow⟩ := set_thrown h env key value ttl exception hset
  have hwf := h.set env key value ttl
  have hevolves := h.evolves_set env key value ttl
  generalize (a.set env key value ttl).2 = b at *
  refine ⟨hwf, h.of_subperm hcapacity hitems.sublist.subperm rfl (List.Sublist.refl _)
    h.timer_pending, ?_, hevolves.source_le⟩
  have hrecords : b.items.map (toRecord a.timers) = b.items.map (toRecord b.timers) := by
    refine List.map_congr_left fun x hx ↦ ?_
    have hdeadline : deadlineOf x.generation a.timers = deadlineOf x.generation b.timers := by
      ext deadline
      rw [deadlineOf_eq_some h.timers_nodup, deadlineOf_eq_some hwf.timers_nodup]
      refine exists_congr fun t ↦ ?_
      -- a timer with the generation of an item is as old as the item
      constructor
      · rintro ⟨ht, hgen, hd⟩
        refine ⟨(hevolves.timers t (h.timer_generation_le t ht)).mpr ⟨ht, ?_⟩, hgen, hd⟩
        rw [hnow]
        exact h.timer_pending t ht
      · rintro ⟨ht, hgen, hd⟩
        have hle : t.generation ≤ a.generationSource :=
          hgen ▸ h.generation_le x (hitems.sublist.subset hx)
        exact ⟨((hevolves.timers t hle).mp ht).1, hgen, hd⟩
    rw [toRecord, toRecord, hdeadline]
  unfold undo ItemCache.deadlines
  rw [hrecords, hnow]

end ItemCache

/-! ## A failed SET on a shard

The shard adds the heap of its allocator. A SET that fails after its block was taken gives the block
back, so the books of the allocator are as they were but for the blocks that were evicted. -/

/-- The state of `c'` with the generations and the timers of `c`. -/
def Cache.undo (c c' : Cache) : Cache :=
  { c' with generationSource := c.generationSource, timingWheel := c.timingWheel }

/-- What happens after a failed SET is what would happen if it had drawn no generation and
scheduled no timer, as long as the generations last. -/
theorem Cache.Refines.run_undo {c c' : Cache} {L L' : List (Bytes × StoredEntry)} {a : ItemCache}
    (h : c.Refines L a) (hwf : a.WellFormed) {env : Env} {key value : Bytes} {ttl : Int64}
    {exception : CacheException} (hset : (a.set env key value ttl).1 = .thrown exception)
    (h' : c'.Refines L' (a.set env key value ttl).2) {later : List Call}
    {outputs : List (Answer × Report)} {c₁ : Cache}
    (hrun : Transition.run Cache.step c' later = .ok (outputs, c₁))
    (hlast : ∀ output ∈ outputs, output.1 ≠ .thrown .generationExhausted) :
    ∃ c₂, Transition.run Cache.step (c.undo c') later = .ok (outputs, c₂) := by
  have halike := ItemCache.alike_undo hwf hset
  have hsim : (c.undo c').Simulates (ItemCache.undo a (a.set env key value ttl).2) :=
    ⟨halike.right, L', ⟨h'.lists.of_eq rfl rfl, h'.items, h'.capacity, h'.usage, h'.hits,
      h'.misses, h'.evictions, h'.expired, h.source, h.wheel, h'.calls⟩⟩
  obtain ⟨rfl, -⟩ := Cache.Simulates.of_run ⟨halike.left, L', h'⟩ hrun
  obtain ⟨c₂, hrun₂, -⟩ := hsim.run later
  exact ⟨c₂, by rw [hrun₂, halike.run later hlast]⟩

namespace CacheShard

theorem call_ok {s s' : CacheShard} {call : Call} {answer : Answer}
    (h : s.call call = .ok (answer, s')) :
    ∃ allocation, s.allocation call = .ok allocation
      ∧ s.cache.call (call.answered allocation) = .ok (answer, s'.cache)
      ∧ Heap.performAll call.env.allocation call.value
        (s'.cache.calls.drop s.cache.calls.length) s.heap = .ok s'.heap := by
  unfold CacheShard.call at h
  obtain ⟨allocation, hallocation, h⟩ := Except.bind_eq_ok_iff.mp h
  obtain ⟨⟨answer', cache⟩, hcall, h⟩ := Except.bind_eq_ok_iff.mp h
  obtain ⟨heap, hheap, h⟩ := Except.bind_eq_ok_iff.mp h
  cases h
  exact ⟨allocation, hallocation, hcall, hheap⟩

private theorem eq_of_cache_eq {s s' : CacheShard} {call : Call} {answer : Answer}
    (h : s.call call = .ok (answer, s')) (hcache : s'.cache = s.cache) : s' = s := by
  obtain ⟨allocation, -, -, hheap⟩ := call_ok h
  rw [hcache, List.drop_length, Heap.performAll, Except.ok.injEq] at hheap
  obtain ⟨heap, cache⟩ := s
  obtain ⟨heap', cache'⟩ := s'
  rw [CacheShard.mk.injEq]
  exact ⟨hheap.symm, hcache⟩

/-- A SET that failed did no harm: what the shard `s'` it leaves behind owes to `s`. -/
structure Unharmed (key : Bytes) (s s' : CacheShard) : Prop where
  present : key ∈ s.cache.entries → s.cache.SameEntries s'.cache
  absent : key ∉ s.cache.entries →
    key ∉ s'.cache.entries ∧ ∃ evicted, s.cache.Evicts s'.cache evicted
  balanced : s'.Balanced
  invariant : s'.cache.Invariant
  /-- The generation it drew and the timer it left behind do not show until generations run out. -/
  later : ∀ later outputs c, Transition.run Cache.step s'.cache later = .ok (outputs, c) →
    (∀ output ∈ outputs, output.1 ≠ .thrown .generationExhausted) →
    ∃ c₀, Transition.run Cache.step (s.cache.undo s'.cache) later = .ok (outputs, c₀)

/-- **SETs fail safely.** In every state a shard can be in, a `set` that throws leaves it unharmed,
and a `set` or an `erase` that answers with another status than `ok` leaves it as it was. -/
theorem failed_set_unharmed (backend : AllocatorBackend) (memory : Memory) (capacity : UInt64)
    (calls : List Call) (hcalls : (new backend memory capacity.toNat).AdmitsAll calls)
    (answers : List Answer) (s : CacheShard)
    (hrun : Transition.run call (new backend memory capacity.toNat) calls = .ok (answers, s))
    (env : Env) (key value : Bytes) (ttl : Int64) (hset : s.Admits (.set env key value ttl)) :
    (∃ answer s', s.call (.set env key value ttl) = .ok (answer, s')
        ∧ (∀ exception, answer = .thrown exception → s.Unharmed key s')
        ∧ ∀ status, answer = .status status → status ≠ .ok → s' = s)
      ∧ ∃ answer s', s.call (.erase env key) = .ok (answer, s')
        ∧ ∀ status, answer = .status status → status ≠ .ok → s' = s := by
  obtain ⟨answers', s₀, a, hrun', h⟩ :=
    (backed_new backend memory capacity.toNat_lt).run calls hcalls
  obtain ⟨-, rfl⟩ := Except.ok_unique hrun' hrun
  refine ⟨?_, ?_⟩
  · obtain ⟨allocation, s', -, hcall, h'⟩ := h.call hset
    obtain ⟨allocation', -, hcache, -⟩ := call_ok hcall
    obtain ⟨hwf, L, href⟩ := h.simulates
    obtain ⟨hwf', L', href'⟩ := h'.simulates
    refine ⟨_, s', hcall, fun exception hthrown ↦ ?_, fun status hstatus hne ↦ ?_⟩
    · rw [hthrown] at hcache
      obtain ⟨hpresent, habsent⟩ := href.set_thrown hcache
      exact ⟨hpresent, habsent, h'.balanced, href'.invariant hwf',
        fun later outputs c hlater hlast ↦ href.run_undo hwf hthrown href' hlater hlast⟩
    · rw [hstatus] at hcache
      exact eq_of_cache_eq hcall (Cache.set_refused hcache hne)
  · have herase : s₀.Admits (.erase env key) := fun p _ hvalue ↦ absurd rfl hvalue
    obtain ⟨allocation, s', -, hcall, -⟩ := h.call herase
    obtain ⟨allocation', -, hcache, -⟩ := call_ok hcall
    refine ⟨_, s', hcall, fun status hstatus hne ↦ ?_⟩
    rw [hstatus] at hcache
    exact eq_of_cache_eq hcall (Cache.erase_refused hcache hne)

/-- Memory beyond the live allocations of the system backend. -/
private theorem fresh_system {s : CacheShard} {live : List Region} {p size : ℕ}
    (h : (s.heap.allocator matches .system _, s.heap.live) = (true, live)) (hp : 0 < p)
    (hbound : p + size ≤ Checked.wordSize) (hapart : ∀ r ∈ live, Region.Apart ⟨p, size⟩ r) :
    s.heap.Fresh size p := by
  obtain ⟨⟨memory, allocator, live'⟩, cache⟩ := s
  obtain ⟨hsystem, rfl⟩ := Prod.mk.inj h
  cases allocator with
  | system a => exact ⟨hp, hbound, hapart⟩
  | slab a => cases hsystem

/-- Two entries, the first of which expires. -/
private def twoEntries : List Call :=
  [.set ⟨some 4096, fun _ ↦ false⟩ [1] [7, 7] 1000, .set ⟨some 8192, fun _ ↦ false⟩ [2] [8, 8] 0]

private theorem admitsAll_twoEntries :
    (new .system (fun _ ↦ 0) (8 : UInt64).toNat).AdmitsAll twoEntries := by
  refine ⟨?_, fun answer s hcall ↦ ⟨?_, fun _ _ _ ↦ trivial⟩⟩
  · rintro p ⟨⟩ -
    exact fresh_new_system (by decide) (by decide)
  · have hheap : ((new .system (fun _ ↦ 0) (8 : UInt64).toNat).call
        (.set ⟨some 4096, fun _ ↦ false⟩ [1] [7, 7] 1000)).toOption.map
          (fun r ↦ (r.2.heap.allocator matches .system _, r.2.heap.live))
        = some (true, [⟨4096, 2⟩]) := by decide +kernel
    rw [hcall] at hheap
    rintro p ⟨⟩ -
    exact fresh_system (Option.some.inj hheap) (by decide) (by decide) (by decide)

/-- A SET that evicts the first of two entries, and then finds no memory for its recency node. Its
timer stays behind. -/
theorem failed_set_unharmed_evicting :
    let failing : Call := .set ⟨some 12288, fun point ↦ point = .recencyNode⟩ [3] [9, 9, 9] 1000
    ∃ answers s s', Transition.run call (new .system (fun _ ↦ 0) (8 : UInt64).toNat) twoEntries
        = .ok (answers, s)
      ∧ s.call failing = .ok (.thrown .badAlloc, s')
      ∧ s.cache.recency.values = [[2], [1]] ∧ s'.cache.recency.values = [[2]]
      ∧ s'.cache.evictionCount = 1
      ∧ s.Unharmed [3] s' := by
  intro failing
  have hbefore : (Transition.run call (new .system (fun _ ↦ 0) (8 : UInt64).toNat)
      twoEntries).toOption.map (fun r ↦
        ((r.2.heap.allocator matches .system _, r.2.heap.live), r.2.cache.recency.values))
      = some ((true, [⟨8192, 2⟩, ⟨4096, 2⟩]), [[2], [1]]) := by decide +kernel
  have hafter : (Transition.run call (new .system (fun _ ↦ 0) (8 : UInt64).toNat)
      (twoEntries ++ [failing])).toOption.map (fun r ↦
        (r.1.getLast?, r.2.cache.recency.values, r.2.cache.evictionCount))
      = some (some (.thrown .badAlloc), [[2]], 1) := by decide +kernel
  cases hrun : Transition.run call (new .system (fun _ ↦ 0) (8 : UInt64).toNat) twoEntries with
  | error fault =>
    rw [hrun] at hbefore
    cases hbefore
  | ok r =>
    obtain ⟨answers, s⟩ := r
    rw [hrun] at hbefore
    obtain ⟨hheap, hvalues⟩ := Prod.mk.inj (Option.some.inj hbefore)
    have hadmits : s.Admits failing := by
      rintro p ⟨⟩ -
      exact fresh_system hheap (by decide) (by decide) (by decide)
    obtain ⟨⟨answer, s', hcall, hunharmed, -⟩, -⟩ :=
      failed_set_unharmed .system (fun _ ↦ 0) 8 twoEntries admitsAll_twoEntries answers s hrun
        ⟨some 12288, fun point ↦ point = .recencyNode⟩ [3] [9, 9, 9] 1000 hadmits
    rw [Transition.run_append hrun, Transition.run_cons hcall] at hafter
    obtain ⟨hanswer, hvalues', hevictions⟩ : answer = .thrown .badAlloc
        ∧ s'.cache.recency.values = [[2]] ∧ s'.cache.evictionCount = 1 := by
      simpa [Except.toOption] using hafter
    subst hanswer
    exact ⟨answers, s, s', rfl, hcall, hvalues, hvalues', hevictions, hunharmed _ rfl⟩

/-! ### The last generation

A failed SET spends a generation. Where all but one are spent already, it is the SET after it that
finds none, and this is what a caller can observe. The state below is reached by failing SETs alone,
so the run is proved by induction on their number and never evaluated. -/

/-- An empty shard that has spent some generations. -/
def spent (generation : ℕ) (calls : List AllocatorCall) : CacheShard :=
  ⟨.start .system fun _ ↦ 0, { Cache.new 64 with generationSource := generation, calls := calls }⟩

/-- A SET whose event finds no memory in the wheel, after it has drawn a generation. -/
def spending : Call := .set ⟨none, fun point ↦ point = .timerEvent⟩ [1] [] 1000

private theorem cache_spending {generation : ℕ} (h : generation < Cache.maxGeneration)
    (calls : List AllocatorCall) :
    (spent generation calls).cache.call (spending.answered (some 0)) = .ok (.thrown .badAlloc,
      (spent (generation + 1) (calls ++ [.allocate 0 0] ++ [.deallocate 0 0])).cache) := by
  show Cache.set _ _ _ _ _ = _
  have hcharge : ¬Cache.entryCharge [1] [] > (spent generation calls).cache.capacityBytes :=
    show ¬1 > 64 by decide
  have habsent : (spent generation calls).cache.entries.lookup [1] = none := Finmap.lookup_empty _
  have hsource : (spent generation calls).cache.generationSource ≠ Cache.maxGeneration := h.ne
  unfold Cache.set
  rw [if_neg (by decide), if_neg (by decide), if_neg (by decide), if_neg hcharge,
    if_neg (by decide), habsent]
  dsimp only [Cache.insertNew]
  rw [if_neg (by decide)]
  dsimp only [Cache.prepareEntry, Cache.newEntry, Cache.nextGeneration]
  rw [if_neg hsource]
  rfl

private theorem call_spending {generation : ℕ} (h : generation < Cache.maxGeneration)
    (calls : List AllocatorCall) :
    ∃ calls', (spent generation calls).call spending
      = .ok (.thrown .badAlloc, spent (generation + 1) calls') := by
  have hwrite : Memory.write (fun _ ↦ 0) 0 [] = fun _ ↦ 0 :=
    funext fun a ↦ Memory.write_apply_of_outside _ (Or.inr (Nat.zero_le _))
  refine ⟨calls ++ [.allocate 0 0] ++ [.deallocate 0 0], ?_⟩
  unfold CacheShard.call
  rw [show (spent generation calls).allocation spending = .ok (some 0) from rfl,
    Except.ok_bind_eq, cache_spending h, Except.ok_bind_eq]
  dsimp only [spent]
  rw [List.append_assoc, List.drop_left]
  show Except.ok (Answer.thrown CacheException.badAlloc,
    CacheShard.mk ⟨Memory.write (fun _ ↦ 0) 0 [], _, _⟩ _) = _
  rw [hwrite]
  rfl

/-- Generations can be spent one failed SET at a time. -/
theorem run_spending : ∀ (n : ℕ) {generation : ℕ}, generation + n ≤ Cache.maxGeneration →
    ∀ calls, ∃ answers calls', Transition.run call (spent generation calls)
      (List.replicate n spending) = .ok (answers, spent (generation + n) calls') := by
  intro n
  induction n with
  | zero => intro generation _ calls; exact ⟨[], calls, rfl⟩
  | succ n ih =>
    intro generation hle calls
    obtain ⟨calls₁, hcall⟩ := call_spending (show generation < Cache.maxGeneration by omega) calls
    obtain ⟨answers, calls₂, hrun⟩ :=
      ih (show generation + 1 + n ≤ Cache.maxGeneration by omega) calls₁
    refine ⟨.thrown .badAlloc :: answers, calls₂, ?_⟩
    rw [List.replicate_succ, Transition.run_cons hcall, hrun, Nat.add_right_comm, Nat.add_assoc]
    rfl

/-- **A failed SET can spend the last generation**: after 2⁶⁴ - 2 of them, one more leaves none for
the SET after it, which would have been accepted. -/
theorem failed_set_spends_last_generation :
    let failing : Call := .set ⟨none, fun point ↦ point = .timerEvent⟩ [1] [] 1000
    let later : Call := .set ⟨some 0, fun _ ↦ false⟩ [2] [] 0
    ∃ answers s s', (new .system (fun _ ↦ 0) 64).AdmitsAll (List.replicate (2 ^ 64 - 2) failing)
      ∧ Transition.run call (new .system (fun _ ↦ 0) 64) (List.replicate (2 ^ 64 - 2) failing)
        = .ok (answers, s)
      ∧ s.call failing = .ok (.thrown .badAlloc, s')
      ∧ (∃ report c, Transition.run Cache.step s'.cache [later]
        = .ok ([(.thrown .generationExhausted, report)], c))
      ∧ ∃ report c, Transition.run Cache.step (s.cache.undo s'.cache) [later]
        = .ok ([(.status .ok, report)], c) := by
  obtain ⟨answers, calls, hrun⟩ :=
    run_spending (2 ^ 64 - 2) (show 0 + (2 ^ 64 - 2) ≤ Cache.maxGeneration by decide) []
  obtain ⟨calls', hcall⟩ :=
    call_spending (show 0 + (2 ^ 64 - 2) < Cache.maxGeneration by decide) calls
  refine ⟨answers, _, _, admitsAll_of_forall_none _ ?_ _, hrun, hcall, ⟨_, _, rfl⟩, ⟨_, _, rfl⟩⟩
  intro c hc
  rw [List.eq_of_mem_replicate hc]
  rfl

end CacheShard

end HighCache
