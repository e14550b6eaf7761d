import HighCache.Cache.Deadlines

/-!
# What the counters count

An entry comes into a cache by a SET that returns ok on an absent key, and leaves it by an erase
that returns ok, by an eviction or by expiring. The two last are counted by the cache itself. So is
every lookup, as a hit or as a miss, unless it throws.

The calls and their answers alone do not say which SET found its key absent, so the cache is run
together with a `Tally` that looks at the keys before each call.
-/

namespace HighCache

open KeyedList

/-! ## What is counted

`Departs` gives the four ways in which keys leave, each with what is counted for it. It is about the
keys of the map before and after one call, and it names the call and the answer it needs. -/

/-- Whether a call returned. -/
def Answer.returned : Answer → Bool
  | .thrown _ => false
  | _ => true

/-- What the calls of a run say about the counters. -/
structure Tally where
  /-- SETs that returned ok on an absent key. -/
  inserted : ℕ
  /-- Erases that returned ok. -/
  erased : ℕ
  /-- GETs with a key of length 1 to 250 that returned. -/
  lookedUp : ℕ
  deriving DecidableEq, Repr

namespace Tally

/-- Nothing counted. -/
def zero : Tally := ⟨0, 0, 0⟩

/-- One more call, with the keys in the cache before it. -/
def add (keys : Finset Bytes) (call : Call) (answer : Answer) (t : Tally) : Tally :=
  match call with
  | .set _ key _ _ =>
    if answer = .status .ok ∧ key ∉ keys then { t with inserted := t.inserted + 1 } else t
  | .get _ key _ =>
    if answer.returned ∧ 1 ≤ key.length ∧ key.length ≤ 250 then
      { t with lookedUp := t.lookedUp + 1 }
    else t
  | .erase _ _ => if answer = .status .ok then { t with erased := t.erased + 1 } else t
  | .tick _ => t

end Tally

/-- How the keys `gone` left in one call, with the counter that counts them. -/
inductive Departs (gone : Finset Bytes) (before after : Report) : Call → Answer → Prop where
  /-- A SET evicts, and never the key it writes. -/
  | set {env : Env} {key value : Bytes} {ttl : Int64} {answer : Answer} (hkey : key ∉ gone)
      (hevicted : gone.card + before.evictionCount = after.evictionCount)
      (hexpired : after.expiredCount = before.expiredCount) :
      Departs gone before after (.set env key value ttl) answer
  /-- A tick expires. -/
  | tick {env : Env} {answer : Answer}
      (hexpired : gone.card + before.expiredCount = after.expiredCount)
      (hevictions : after.evictionCount = before.evictionCount) :
      Departs gone before after (.tick env) answer
  /-- An erase that returns ok takes its own key. -/
  | erase {env : Env} {key : Bytes} (hgone : gone = {key})
      (hevictions : after.evictionCount = before.evictionCount)
      (hexpired : after.expiredCount = before.expiredCount) :
      Departs gone before after (.erase env key) (.status .ok)
  /-- Any other call takes none. -/
  | none {call : Call} {answer : Answer}
      (herase : ∀ env key, call = .erase env key → answer ≠ .status .ok) (hgone : gone = ∅)
      (hevictions : after.evictionCount = before.evictionCount)
      (hexpired : after.expiredCount = before.expiredCount) :
      Departs gone before after call answer

/-! ## The records

The tally and the counters are compared on records. The number of records is then one more equation,
and each of the seven cases of `Takes` keeps it by the length of a list. -/

namespace DeadlineCache

/-- The keys in the cache. -/
def keys (d : DeadlineCache) : Finset Bytes := (d.records.map Record.key).toFinset

/-- The counters agree with a tally. -/
structure Tallies (d : DeadlineCache) (t : Tally) : Prop where
  size : d.records.length + t.erased + d.evictions + d.expired = t.inserted
  lookups : d.hits + d.misses = t.lookedUp

theorem validateKey_eq_ok_iff {key : Bytes} :
    Cache.validateKey key = .ok ↔ 1 ≤ key.length ∧ key.length ≤ 250 := by
  have hmax : Cache.maxKeyLength = 250 := rfl
  unfold Cache.validateKey
  split
  · rename_i hnil
    exact iff_of_false (by simp) (by simp [hnil])
  rename_i hne
  have hpos := List.length_pos_iff.mpr hne
  split
  · exact iff_of_false (by simp) (by omega)
  · exact iff_of_true rfl (by omega)

theorem mem_keys_iff {d : DeadlineCache} {key : Bytes} :
    key ∈ d.keys ↔ ∃ x, d.find key = some x := by
  rw [keys, List.mem_toFinset, List.mem_map, ← Option.isSome_iff_exists, Option.isSome_iff_ne_none,
    ne_eq, find, find_eq_none]
  push Not
  rfl

private theorem length_makeRoom (d : DeadlineCache) (charge : ℕ) (rest : List Record) :
    (d.makeRoom charge rest).records.length + (d.makeRoom charge rest).evictions
      = rest.length + d.evictions := by
  have hlength := congrArg List.length
    (fitting_append_overflow Record.charge (d.capacity - charge) rest)
  rw [List.length_append] at hlength
  show _ + (d.evictions + _) = _
  unfold makeRoom
  dsimp only
  omega

theorem length_others {d : DeadlineCache} (hnd : (d.records.map Record.key).Nodup) {key : Bytes}
    {x : Record} (hfind : d.find key = some x) : (d.others key).length + 1 = d.records.length := by
  obtain ⟨hx, rfl⟩ := (find_eq_some_iff hnd).mp hfind
  exact (perm_cons_without hnd hx).length_eq.symm

private theorem length_filter_isDue (d : DeadlineCache) :
    (d.records.filter fun x ↦ !isDue d.now x).length + d.records.countP (isDue d.now)
      = d.records.length := by
  rw [List.countP_eq_length_filter, Nat.add_comm, ← List.length_append]
  exact (List.filter_append_perm _ _).length_eq

/-- Neither sum counts a call that leaves the cache as it is. -/
private theorem Tallies.unchanged {d : DeadlineCache} {t : Tally} (h : Tallies d t) {call : Call}
    {answer : Answer} (hok : answer ≠ .status .ok)
    (hget : ∀ env key output, call = .get env key output →
      Cache.validateKey key ≠ .ok ∨ ∃ exception, answer = .thrown exception) :
    Tallies d (t.add d.keys call answer) := by
  cases call with
  | set env key value ttl =>
    rw [Tally.add, if_neg fun hadd ↦ hok hadd.1]
    exact h
  | get env key output =>
    have hnot : ¬(answer.returned ∧ 1 ≤ key.length ∧ key.length ≤ 250) := by
      rintro ⟨hreturned, hlength⟩
      rcases hget env key output rfl with hvalid | ⟨exception, rfl⟩
      · exact hvalid (validateKey_eq_ok_iff.mpr hlength)
      · cases hreturned
    rw [Tally.add, if_neg hnot]
    exact h
  | erase env key =>
    rw [Tally.add, if_neg hok]
    exact h
  | tick env => exact h

/-- A SET that succeeds counts as an insertion if its key was absent. What made room for it has been
counted as evicted. -/
private theorem Tallies.written {d : DeadlineCache} {t : Tally} (h : Tallies d t)
    (hnd : (d.records.map Record.key).Nodup) (env : Env) (key value : Bytes) (ttl : Int64)
    (x : Record) :
    Tallies ((d.makeRoom (Cache.entryCharge key value) (d.others key)).push x)
      (t.add d.keys (.set env key value ttl) (.status .ok)) := by
  obtain ⟨hsize, hlookups⟩ := h
  have hroom := d.length_makeRoom (Cache.entryCharge key value) (d.others key)
  cases hfind : d.find key with
  | none =>
    have hnew : key ∉ d.keys := fun hmem ↦ by
      obtain ⟨x, hx⟩ := mem_keys_iff.mp hmem
      rw [hfind] at hx
      cases hx
    rw [Tally.add, if_pos ⟨rfl, hnew⟩]
    rw [others_of_find_eq_none hfind] at hroom ⊢
    refine ⟨?_, hlookups⟩
    show (d.makeRoom _ _).records.length + 1 + t.erased + (d.makeRoom _ _).evictions + d.expired
      = t.inserted + 1
    omega
  | some old =>
    have hold : key ∈ d.keys := mem_keys_iff.mpr ⟨old, hfind⟩
    have hothers := length_others hnd hfind
    rw [Tally.add, if_neg fun hadd ↦ hadd.2 hold]
    refine ⟨?_, hlookups⟩
    show (d.makeRoom _ _).records.length + 1 + t.erased + (d.makeRoom _ _).evictions + d.expired
      = t.inserted
    omega

theorem Takes.tallies {d d' : DeadlineCache} {call : Call} {answer : Answer}
    (h : Takes d call answer d') (hnd : (d.records.map Record.key).Nodup) {t : Tally}
    (ht : Tallies d t) : Tallies d' (t.add d.keys call answer) := by
  have hsize := ht.1
  have hlookups := ht.2
  cases h with
  | unchanged hok _ hget => exact ht.unchanged hok hget
  | @abandoned env key value ttl hfind =>
    have hroom := d.length_makeRoom (Cache.entryCharge key value) d.records
    rw [Tally.add, if_neg (by simp)]
    refine ⟨?_, hlookups⟩
    show _ + t.erased + _ + d.expired = t.inserted
    omega
  | @written env key value ttl _ => exact ht.written hnd env key value ttl _
  | missed hvalid =>
    rw [Tally.add, if_pos ⟨rfl, validateKey_eq_ok_iff.mp hvalid⟩]
    exact ⟨hsize, show d.hits + (d.misses + 1) = t.lookedUp + 1 by omega⟩
  | found hvalid hfind =>
    have hothers := length_others hnd hfind
    rw [Tally.add, if_pos ⟨rfl, validateKey_eq_ok_iff.mp hvalid⟩]
    refine ⟨?_, show d.hits + 1 + d.misses = t.lookedUp + 1 by omega⟩
    show (_ :: _).length + t.erased + d.evictions + d.expired = t.inserted
    rw [List.length_cons]
    omega
  | erased hfind =>
    have hothers := length_others hnd hfind
    rw [Tally.add, if_pos rfl]
    refine ⟨?_, hlookups⟩
    show (d.others _).length + (t.erased + 1) + d.evictions + d.expired = t.inserted
    omega
  | ticked =>
    refine ⟨?_, hlookups⟩
    have hlength := d.length_filter_isDue
    show (d.records.filter fun x ↦ !isDue d.now x).length + t.erased + d.evictions
      + (d.expired + d.records.countP (isDue d.now)) = t.inserted
    omega

/-! ## The keys that leave

A key that a SET writes is in the map after it, so it has not left, whether it was there before or
not. What has left is what made room. -/

private theorem keys_sdiff {xs ys zs : List Record} (hperm : (ys ++ zs).Perm xs)
    (hnd : (xs.map Record.key).Nodup) :
    (xs.map Record.key).toFinset \ (ys.map Record.key).toFinset = (zs.map Record.key).toFinset
      ∧ (zs.map Record.key).toFinset.card = zs.length := by
  have hmap := hperm.map Record.key
  rw [List.map_append] at hmap
  have hparts := hmap.nodup_iff.mpr hnd
  obtain ⟨-, hnd', hdisjoint⟩ := List.nodup_append.mp hparts
  refine ⟨?_, by rw [List.toFinset_card_of_nodup hnd', List.length_map]⟩
  rw [← List.toFinset_eq_of_perm _ _ hmap, List.toFinset_append,
    Finset.union_sdiff_cancel_left (Finset.disjoint_left.mpr fun k hk hk' ↦ ?_)]
  exact hdisjoint k (List.mem_toFinset.mp hk) k (List.mem_toFinset.mp hk') rfl

private theorem makeRoom_gone (d : DeadlineCache) (charge : ℕ) {rest : List Record}
    (hnd : (rest.map Record.key).Nodup) :
    ((rest.map Record.key).toFinset \ (d.makeRoom charge rest).keys).card + d.evictions
      = (d.makeRoom charge rest).evictions := by
  have hperm := List.Perm.of_eq
    (fitting_append_overflow Record.charge (d.capacity - charge) rest)
  obtain ⟨hgone, hcard⟩ := keys_sdiff hperm hnd
  have hkeys : (d.makeRoom charge rest).keys
      = ((fitting Record.charge (d.capacity - charge) rest).map Record.key).toFinset := rfl
  rw [hkeys, hgone, hcard, Nat.add_comm]
  rfl

private theorem keys_others {d : DeadlineCache} (hnd : (d.records.map Record.key).Nodup)
    (key : Bytes) :
    ((d.others key).map Record.key).Nodup
      ∧ ((d.others key).map Record.key).toFinset = d.keys.erase key := by
  refine ⟨hnd.sublist ((without_sublist key d.records).map _), ?_⟩
  ext k
  rw [List.mem_toFinset, List.mem_map, Finset.mem_erase, keys, List.mem_toFinset, List.mem_map]
  constructor
  · rintro ⟨x, hx, rfl⟩
    obtain ⟨hmem, hne⟩ := mem_without.mp hx
    exact ⟨hne, x, hmem, rfl⟩
  · rintro ⟨hne, x, hx, rfl⟩
    exact ⟨x, mem_without.mpr ⟨hx, hne⟩, rfl⟩

/-- **Keys leave in one way, and are counted for it.** -/
theorem Takes.departs {d d' : DeadlineCache} {call : Call} {answer : Answer}
    (h : Takes d call answer d') (hnd : (d.records.map Record.key).Nodup) :
    Departs (d.keys \ d'.keys) d.report d'.report call answer := by
  cases h with
  | unchanged hok hdone hget => exact .none (fun _ _ _ ↦ hok) (Finset.sdiff_self _) rfl rfl
  | @abandoned env key value ttl hfind =>
    refine .set (fun hmem ↦ ?_) (d.makeRoom_gone _ hnd) rfl
    obtain ⟨x, hx⟩ := mem_keys_iff.mp (Finset.mem_sdiff.mp hmem).1
    rw [hfind] at hx
    cases hx
  | @written env key value ttl httl =>
    obtain ⟨hnd', hothers⟩ := keys_others hnd key
    have hcount := d.makeRoom_gone (Cache.entryCharge key value) hnd'
    have hkeys : ((d.makeRoom (Cache.entryCharge key value) (d.others key)).push
        ⟨key, value, deadlineAfter d.now ttl⟩).keys
          = insert key (d.makeRoom (Cache.entryCharge key value) (d.others key)).keys :=
      List.toFinset_cons
    rw [hothers] at hcount
    rw [hkeys, Finset.sdiff_insert, ← Finset.erase_sdiff_comm]
    exact .set (fun hmem ↦ Finset.notMem_erase _ _ (Finset.mem_sdiff.mp hmem).1) hcount rfl
  | missed hvalid => exact .none (by rintro _ _ ⟨⟩) (Finset.sdiff_self _) rfl rfl
  | @found env key output x hvalid hfind =>
    refine .none (by rintro _ _ ⟨⟩) ?_ rfl rfl
    obtain ⟨hx, rfl⟩ := (find_eq_some_iff hnd).mp hfind
    have hkeys : (DeadlineCache.mk d.capacity (x :: d.others x.key) (d.hits + 1) d.misses
        d.evictions d.expired d.now).keys = d.keys := by
      unfold keys
      exact (List.toFinset_eq_of_perm _ _ ((perm_cons_without hnd hx).map Record.key)).symm
    rw [hkeys, Finset.sdiff_self]
  | @erased env key x hfind =>
    refine .erase ?_ rfl rfl
    have hmem : key ∈ d.keys := mem_keys_iff.mpr ⟨x, hfind⟩
    show d.keys \ ((d.others key).map Record.key).toFinset = {key}
    rw [(keys_others hnd key).2, Finset.sdiff_erase_self hmem]
  | ticked =>
    refine .tick ?_ rfl
    have hperm : ((d.records.filter fun x ↦ !isDue d.now x)
        ++ d.records.filter (isDue d.now)).Perm d.records :=
      List.perm_append_comm.trans (List.filter_append_perm _ _)
    obtain ⟨hgone, hcard⟩ := keys_sdiff hperm hnd
    show (d.keys \ ((d.records.filter fun x ↦ !isDue d.now x).map Record.key).toFinset).card
      + d.expired = d.expired + d.records.countP (isDue d.now)
    rw [keys, hgone, hcard, List.countP_eq_length_filter, Nat.add_comm]

end DeadlineCache

/-! ## The cache

The tally is kept beside the cache and looks at nothing but the map before each call. Leaving it
away leaves the run of the cache. -/

namespace Cache

/-- One call of a cache whose calls are tallied. -/
def talliedStep (s : Tally × Cache) (call : Call) :
    Except Fault ((Answer × Report) × Tally × Cache) := do
  let (output, c) ← s.2.step call
  .ok (output, s.1.add s.2.entries.keys call output.1, c)

/-- The GETs issued with a key of length 1 to 250. -/
def lookupsIssued (calls : List Call) : ℕ :=
  calls.countP fun call ↦
    match call with
    | .get _ key _ => 1 ≤ key.length ∧ key.length ≤ 250
    | _ => false

theorem Simulates.keys_eq {c : Cache} {a : ItemCache} (h : c.Simulates a) :
    c.entries.keys = a.deadlines.keys := by
  obtain ⟨-, L, href⟩ := h
  have hrecords : a.deadlines.records.map Record.key = a.items.map Item.key :=
    map_key_map (ItemCache.toRecord_key a.timers) a.items
  rw [DeadlineCache.keys, hrecords, href.items, List.map_map, href.lists.toListedBy.keys_eq]
  rfl

theorem Simulates.departs {c : Cache} {a : ItemCache} (h : c.Simulates a) (call : Call) :
    ∃ answer c', c.call call = .ok (answer, c')
      ∧ Departs (c.entries.keys \ c'.entries.keys) c.report c'.report call answer := by
  obtain ⟨hwf, L, href⟩ := id h
  obtain ⟨c', L', hcall, href'⟩ := href.call hwf call
  have h' : c'.Simulates (a.call call).2 := ⟨hwf.call call, L', href'⟩
  have htakes := a.deadlines.takes_call a.exhausted call
  obtain ⟨hfst, hsnd⟩ := ItemCache.call_deadlines hwf call
  rw [← hfst, ← hsnd] at htakes
  refine ⟨_, c', hcall, ?_⟩
  have hdeparts := htakes.departs hwf.records_nodup
  rw [ItemCache.deadlines_report, ItemCache.deadlines_report] at hdeparts
  rwa [h.keys_eq, h'.keys_eq, href.report, href'.report]

/-- The cache stands for a list whose counters agree with the tally. -/
def Tallied (s : Tally × Cache) : Prop := ∃ a, s.2.Simulates a ∧ a.deadlines.Tallies s.1

private theorem tallied_step (s : Tally × Cache) (call : Call) (h : Tallied s) :
    ∃ output s', talliedStep s call = .ok (output, s') ∧ Tallied s' := by
  obtain ⟨a, hsim, htallies⟩ := h
  obtain ⟨hwf, -⟩ := id hsim
  obtain ⟨c', hstep, hsim'⟩ := hsim.step call
  have htakes := a.deadlines.takes_call a.exhausted call
  obtain ⟨hfst, hsnd⟩ := ItemCache.call_deadlines hwf call
  rw [← hfst, ← hsnd] at htakes
  refine ⟨(a.step call).1, (s.1.add a.deadlines.keys call (a.call call).1, c'), ?_,
    (a.step call).2, hsim', htakes.tallies hwf.records_nodup htallies⟩
  rw [talliedStep, hstep, hsim.keys_eq]
  rfl

private theorem step_of_talliedStep {s s' : Tally × Cache} {call : Call} {output : Answer × Report}
    (h : talliedStep s call = .ok (output, s')) : s.2.step call = .ok (output, s'.2) := by
  obtain ⟨⟨output', c⟩, hstep, hdone⟩ := Except.bind_eq_ok_iff.mp h
  cases hdone
  exact hstep

/-- **Every entry and every lookup is counted once.** After any calls, the number of entries is the
number of SETs that returned ok on an absent key, less the erases that returned ok, the evictions
and the expiries; and every GET with a key of length 1 to 250 that returned was a hit or a miss. In
one call keys leave in one of these ways only, and the key that a SET writes does not leave. -/
theorem run_counts (capacity : UInt64) (calls : List Call) :
    ∃ outputs t c, Transition.run talliedStep (.zero, new capacity.toNat) calls
        = .ok (outputs, t, c)
      ∧ Transition.run step (new capacity.toNat) calls = .ok (outputs, c)
      ∧ c.size + t.erased + c.evictionCount + c.expiredCount = t.inserted
      ∧ c.hitCount + c.missCount = t.lookedUp
      ∧ ∀ call, ∃ answer c', c.call call = .ok (answer, c')
        ∧ Departs (c.entries.keys \ c'.entries.keys) c.report c'.report call answer := by
  have hnew : Tallied (.zero, new capacity.toNat) :=
    ⟨_, simulates_new capacity.toNat_lt, rfl, rfl⟩
  obtain ⟨outputs, ⟨t, c⟩, hrun, a, hsim, hsize, hlookups⟩ :=
    Transition.run_invariant tallied_step calls hnew
  obtain ⟨-, L, href⟩ := id hsim
  refine ⟨outputs, t, c, hrun, Transition.run_project step_of_talliedStep calls hrun, ?_, ?_,
    hsim.departs⟩
  · have hcount : c.size = a.deadlines.records.length := by
      rw [show c.size = a.report.size from congrArg Report.size href.report,
        ← ItemCache.deadlines_report]
      rfl
    rw [hcount, href.evictions, href.expired]
    exact hsize
  · rw [href.hits, href.misses]
    exact hlookups

/-- Memory is short when the key is copied for a lookup. -/
private def shortOfKeys : Env := ⟨none, fun point ↦ point = .lookupKey⟩

/-- A key that is too long to be kept in the string itself. -/
private def longKey : Bytes := List.replicate 16 107

/-- A GET that throws is neither a hit nor a miss. -/
theorem lookup_not_counted :
    ∃ outputs c, Transition.run step (new 100) [.get shortOfKeys longKey []] = .ok (outputs, c)
      ∧ outputs.map Prod.fst = [.thrown .badAlloc]
      ∧ c.hitCount + c.missCount ≠ lookupsIssued [.get shortOfKeys longKey []] :=
  ⟨_, _, rfl, rfl, by decide⟩

end Cache

end HighCache
